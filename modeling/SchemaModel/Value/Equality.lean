import SchemaModel.Value.Basic

/-!
Equality of values. Numbers and truth values are compared by what they count, moments with a known
clock by their instant, sets and mappings without regard to order, and objects by their marks.

Keys are looked up apart from values that may change. An ordered set looks a key up among its keys
and any other value among its other elements, so that a key and a value that may change are never
found for one another there. A set without order holds keys alone and refuses to look up anything
else, but for another such set, of which the frozen form is looked up. So a comparison that asks such
a set for something else is refused.
-/
namespace SchemaModel.Value

mutual

/-- Whether a value can never change, so that it may be a key. -/
def isFixed : Value → Bool
  | .list _ | .set _ | .unordered _ | .mapping _ | .again .. => false
  | .marked _ v => v.isFixed
  | .tuple xs => allFixed xs
  | _ => true

def allFixed : List Value → Bool
  | [] => true
  | x :: xs => x.isFixed && allFixed xs

end

/-- Whether a value can be looked up in a set without order. -/
def isSought : Value → Bool
  | .unordered _ => true
  | .marked _ v => v.isSought
  | v => v.isFixed

mutual

/-- Whether two values are the same element. Values whose comparison is refused are not. -/
def same : Value → Value → Bool
  | .null, .null => true
  | .bool a, .bool b => a == b
  | .bool a, .int j => (a.toNat : Int) == j
  | .bool a, .double y => y.equalsInt a.toNat
  | .int i, .bool b => i == (b.toNat : Int)
  | .int i, .int j => i == j
  | .int i, .double y => y.equalsInt i
  | .double x, .bool b => x.equalsInt b.toNat
  | .double x, .int j => x.equalsInt j
  | .double x, .double y => x.equals y || (x == .nan true && y == .nan true)
  | .text s, .text t => s == t
  | .bytes a, .bytes b => a == b
  | .date a, .date b => a == b
  | .moment a, .moment b => a.same b
  | .member a, .member b => a == b
  | .list xs, .list ys => sameAll xs ys
  | .tuple xs, .tuple ys => sameAll xs ys
  | .set xs, .set ys => xs.length == ys.length && allIndexed xs ys
  | .set xs, .unordered ys | .set xs, .frozen ys =>
    xs.length == ys.length && xs.all isSought && allAmong xs ys
  | .unordered xs, .set ys | .frozen xs, .set ys =>
    xs.length == ys.length && ys.all fun y => y.isSought && anySame xs y
  | .unordered xs, .unordered ys | .unordered xs, .frozen ys
  | .frozen xs, .unordered ys | .frozen xs, .frozen ys =>
    xs.length == ys.length && allAmong xs ys
  | .mapping es, .mapping fs => es.length == fs.length && allEntriesAmong es fs
  | .marked m _, .marked n _ => m == n
  | .again m _, .again n _ => m == n
  | _, _ => false

/-- Whether two lists have the same elements in the same places. -/
def sameAll : List Value → List Value → Bool
  | [], [] => true
  | x :: xs, y :: ys => x.same y && sameAll xs ys
  | _, _ => false

/-- Whether every element of the first list is among those of the second. -/
def allAmong : List Value → List Value → Bool
  | [], _ => true
  | x :: xs, ys => ys.any (fun y => x.same y) && allAmong xs ys

/-- Whether every element of the first list is among those of the second that are looked up with
it: keys among keys, other values among other values. -/
def allIndexed : List Value → List Value → Bool
  | [], _ => true
  | x :: xs, ys => ys.any (fun y => x.isFixed == y.isFixed && x.same y) && allIndexed xs ys

/-- Whether an element of a list is the same as a value. -/
def anySame : List Value → Value → Bool
  | [], _ => false
  | x :: xs, y => x.same y || anySame xs y

/-- Whether the second mapping holds every entry of the first. -/
def allEntriesAmong : List (Value × Value) → List (Value × Value) → Bool
  | [], _ => true
  | (k, v) :: es, fs => fs.any (fun f => k.same f.1 && v.same f.2) && allEntriesAmong es fs

end

/-- Whether a value is among those of a list. -/
def isAmong (x : Value) (ys : List Value) : Bool := ys.any fun y => x.same y

/-! ## Identity -/

mutual

/-- The value with every not-a-number as the one that is like itself. -/
def constantNan : Value → Value
  | .double (.nan _) => .double (.nan true)
  | .list xs => .list (constantNanAll xs)
  | .tuple xs => .tuple (constantNanAll xs)
  | .set xs => .set (constantNanAll xs)
  | .unordered xs => .unordered (constantNanAll xs)
  | .frozen xs => .frozen (constantNanAll xs)
  | .mapping es => .mapping (constantNanEntries es)
  | v => v

def constantNanAll : List Value → List Value
  | [] => []
  | x :: xs => x.constantNan :: constantNanAll xs

def constantNanEntries : List (Value × Value) → List (Value × Value)
  | [] => []
  | (k, v) :: es => (k.constantNan, v.constantNan) :: constantNanEntries es

end

/-- Whether an element of a set is the same as another or is that very one, which is found whatever
it holds. -/
def isLike (x y : Value) : Bool := x.same y || x.constantNan.same y.constantNan

/-! ## Refused comparisons -/

/-- Whether a search through a list comes upon a refused comparison before it finds something. -/
def searchFails (isRefused isFound : Value → Bool) : List Value → Bool
  | [] => false
  | y :: ys => isRefused y || (!isFound y && searchFails isRefused isFound ys)

/-- Whether values that are looked up in a set without order, one after another until one is not
found, come to one that cannot be looked up. -/
def lookupFails (isFound : Value → Bool) : List Value → Bool
  | [] => false
  | x :: xs => !x.isSought || (isFound x && lookupFails isFound xs)

mutual

/-- Whether the comparison of two values is refused. Parts are compared one after another until two
are not the same. -/
def isRefused : Value → Value → Bool
  | .list xs, .list ys => xs.length == ys.length && anyRefused xs ys
  | .tuple xs, .tuple ys => anyRefused xs ys
  | .set xs, .set ys => xs.length == ys.length && anySearchFails xs ys
  | .set xs, .unordered ys | .set xs, .frozen ys =>
    xs.length == ys.length && lookupFails (fun x => x.isAmong ys) xs
  | .unordered xs, .set ys | .frozen xs, .set ys =>
    xs.length == ys.length && lookupFails (fun y => anySame xs y) ys
  | .mapping es, .mapping fs => es.length == fs.length && anyEntryRefused es fs
  | _, _ => false
termination_by structural x => x

def anyRefused : List Value → List Value → Bool
  | x :: xs, y :: ys => x.isRefused y || (x.same y && anyRefused xs ys)
  | _, _ => false

def anySearchFails : List Value → List Value → Bool
  | [], _ => false
  | x :: xs, ys =>
    let others := ys.filter fun y => x.isFixed == y.isFixed
    (!x.isFixed && searchFails (fun y => x.isRefused y) (fun y => x.same y) others) ||
      (x.isAmong others && anySearchFails xs ys)

def anyEntryRefused : List (Value × Value) → List (Value × Value) → Bool
  | [], _ => false
  | (k, v) :: es, fs =>
    match fs.find? fun f => k.same f.1 with
    | none => false
    | some f => v.isRefused f.2 || (v.same f.2 && anyEntryRefused es fs)

end

/-! ## Mappings -/

/-- Sets a key: a key that is there keeps its place, a new one goes to the end. -/
def putEntry (key value : Value) : List (Value × Value) → List (Value × Value)
  | [] => [(key, value)]
  | (k, v) :: es => if k.same key then (k, value) :: es else (k, v) :: putEntry key value es

/-- The value of a text key. -/
def entry? (name : String) : List (Value × Value) → Option Value
  | [] => none
  | (.text k, v) :: es => if k = name then some v else entry? name es
  | _ :: es => entry? name es

end SchemaModel.Value
