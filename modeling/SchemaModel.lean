import SchemaModel.Main
import SchemaModel.Proofs.Calendar.Epoch
import SchemaModel.Proofs.Emission.Capture
import SchemaModel.Proofs.Emission.ClassNames
import SchemaModel.Proofs.Emission.Documentation
import SchemaModel.Proofs.Emission.EnumClass
import SchemaModel.Proofs.Emission.RoundTrip
import SchemaModel.Proofs.Emission.Widening
import SchemaModel.Proofs.Generation.Fields
import SchemaModel.Proofs.Generation.Namespace
import SchemaModel.Proofs.Generation.Order
import SchemaModel.Proofs.Generation.Preservation
import SchemaModel.Proofs.Generation.Reloading
import SchemaModel.Proofs.Generation.Termination
import SchemaModel.Proofs.Generation.Warnings
import SchemaModel.Proofs.Generation.Widening
import SchemaModel.Proofs.Naming.Idempotence
import SchemaModel.Proofs.Naming.Lawful
import SchemaModel.Proofs.Naming.Members
import SchemaModel.Proofs.Naming.Splitting
import SchemaModel.Proofs.OrderedSet.Lawful
import SchemaModel.Proofs.OrderedSet.Operators
import SchemaModel.Proofs.Resolution.FailedCalls
import SchemaModel.Proofs.Resolution.Stability
import SchemaModel.Proofs.Resolution.Totality
import SchemaModel.Proofs.Schema.Cycles
import SchemaModel.Proofs.Schema.Faithful
import SchemaModel.Proofs.Schema.ObjectLiterals
import SchemaModel.Proofs.Schema.Outcomes
import SchemaModel.Proofs.Schema.Paths
import SchemaModel.Proofs.Schema.Sharing
import SchemaModel.Proofs.Schema.WriteBack
import SchemaModel.Proofs.Synthesis.Escapes
import SchemaModel.Proofs.Synthesis.FirstFault
import SchemaModel.Proofs.Synthesis.Flavours
import SchemaModel.Proofs.Synthesis.Inhabits
import SchemaModel.Proofs.Synthesis.IntegerTexts
import SchemaModel.Proofs.Synthesis.SetDefaults
import SchemaModel.Proofs.Synthesis.Timestamps
import SchemaModel.Schema.Dump
