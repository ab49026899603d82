import SchemaModel.Text.Printable

/-!
Quoted text: the form in which generated modules and messages show a text. The single quote is the
usual mark; the double quote is taken when it saves escaping. Characters that cannot be printed are
written by their code point.
-/
namespace SchemaModel.Text

/-- The digits of `n` in base sixteen, padded with zeros to `width`. -/
def hexPadded (width n : Nat) : List Char :=
  let ds := Nat.toDigits 16 n
  List.replicate (width - ds.length) '0' ++ ds

/-- The escape that names a code point, as short as the code point allows. -/
def codePointEscape (n : Nat) : List Char :=
  if n ≤ 0xff then '\\' :: 'x' :: hexPadded 2 n
  else if n ≤ 0xffff then '\\' :: 'u' :: hexPadded 4 n
  else '\\' :: 'U' :: hexPadded 8 n

/-- One character as it stands between two marks `mark`. -/
def quotedChar (mark c : Char) : List Char :=
  if c = mark ∨ c = '\\' then ['\\', c]
  else if c = '\n' then ['\\', 'n']
  else if c = '\r' then ['\\', 'r']
  else if c = '\t' then ['\\', 't']
  else if isPrintable c then [c]
  else codePointEscape c.toNat

/-- The mark that surrounds a text. -/
def quoteMark (cs : List Char) : Char :=
  if cs.contains '\'' && !cs.contains '"' then '"' else '\''

def quotedChars (cs : List Char) : List Char :=
  let mark := quoteMark cs
  mark :: cs.flatMap (quotedChar mark) ++ [mark]

def quoted (s : String) : String := String.ofList (quotedChars s.toList)

/-- One octet as it stands between two marks `mark`: only printable ASCII is shown as itself. -/
def quotedOctet (mark : Char) (b : UInt8) : List Char :=
  let c := Char.ofNat b.toNat
  if c = mark ∨ c = '\\' then ['\\', c]
  else if c = '\n' then ['\\', 'n']
  else if c = '\r' then ['\\', 'r']
  else if c = '\t' then ['\\', 't']
  else if 0x20 ≤ b.toNat ∧ b.toNat < 0x7f then [c]
  else codePointEscape b.toNat

/-- Octets in quotes, with a leading `b`. -/
def quotedOctets (bs : List UInt8) : String :=
  let mark := quoteMark (bs.map fun b => Char.ofNat b.toNat)
  String.ofList ('b' :: mark :: bs.flatMap (quotedOctet mark) ++ [mark])

end SchemaModel.Text
