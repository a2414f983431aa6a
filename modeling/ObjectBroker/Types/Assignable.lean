import ObjectBroker.Types.Checked

/-!
# `ObjectBroker.Types.Assignable` — which types may stand for which

Structs, unions and enums are assignable by name, containers by their elements, and `typedef`
names are looked through. A bounded sequence goes where the bound is at least its own, and every
object reference goes where a plain object is expected. An empty value goes nowhere.
-/

namespace ObjectBroker

/-- Whether a sequence with its own bound fits where another bound is expected. -/
def boundFits : (own allowed : Option UInt32) → Bool
  | _, none => true
  | some own, some allowed => own ≤ allowed
  | none, some _ => false

/-- Whether a value of the first type may stand where the second is expected. -/
def TypeDesc.assignableTo : (own expected : TypeDesc) → Bool
  | .typedef _ underlying, expected => underlying.assignableTo expected
  | .scalar a, expected =>
    match expected.resolve with
    | .scalar b => a == b
    | _ => false
  | .string, expected => (expected.resolve matches .string)
  | .wstring, expected => (expected.resolve matches .wstring)
  | .any, expected => (expected.resolve matches .any)
  | .enum a _, expected =>
    match expected.resolve with
    | .enum b _ => a == b
    | _ => false
  | .struct a _, expected =>
    match expected.resolve with
    | .struct b _ | .recursive b => a == b
    | _ => false
  | .union a _ _, expected =>
    match expected.resolve with
    | .union b _ _ | .recursive b => a == b
    | _ => false
  | .recursive a, expected =>
    match expected.resolve with
    | .struct b _ | .union b _ _ | .recursive b => a == b
    | _ => false
  | .sequence a own, expected =>
    match expected.resolve with
    | .sequence b allowed => boundFits own allowed && a.assignableTo b
    | _ => false
  | .array a m, expected =>
    match expected.resolve with
    | .array b n => m == n && a.assignableTo b
    | _ => false
  | .objectRef a, expected =>
    match expected.resolve with
    | .objectRef b => a == b || b == objectInterface
    | _ => false
  | .null, _ => false

namespace TypeDesc

/-- Whether each of two types may stand for the other. -/
def interchangeable (a b : TypeDesc) : Bool :=
  a.assignableTo b && b.assignableTo a

theorem interchangeable_comm (a b : TypeDesc) : a.interchangeable b = b.interchangeable a :=
  Bool.and_comm _ _

end TypeDesc

/-- Whether `mine` lists as many labels as `theirs` and only labels that `theirs` lists. -/
def Branch.sameLabels {α : Type} (mine theirs : Branch α) : Bool :=
  mine.labels.length == theirs.labels.length &&
    mine.labels.all fun label => theirs.labels.contains label

namespace UnionType

/-- The first branch, taken in pairs, whose labels or type differ between two tables. -/
def branchDifference? : (mine theirs : List (Branch TypeDesc)) → Option TableDifference
  | b :: bs, b' :: bs' =>
    if !b.sameLabels b' then some (.labels b.name)
    else if !b.type.interchangeable b'.type then some (.branchType b.name)
    else branchDifference? bs bs'
  | _, _ => none

/-- The first point on which two branch tables disagree. -/
def difference? (mine theirs : UnionType) : Option TableDifference :=
  if mine.name ≠ theirs.name then some (.name theirs.name)
  else if !mine.discriminant.interchangeable theirs.discriminant then some .discriminant
  else if mine.defaultBranch?.isSome ≠ theirs.defaultBranch?.isSome then some .defaultPresence
  else if mine.branches.length ≠ theirs.branches.length then
    some (.branchCount mine.branches.length theirs.branches.length)
  else branchDifference? mine.branches theirs.branches

/-- Accepts a peer's branch table that selects the same branches with interchangeable types. The
    check is made when peers agree on their types, not for every value. -/
def verifyCompatible (mine theirs : UnionType) : Except Fault Unit :=
  match mine.difference? theirs with
  | none => .ok ()
  | some difference => .error (.invalidDescriptor (.tablesDiffer mine.name difference))

theorem verifyCompatible_eq_ok_iff {mine theirs : UnionType} :
    mine.verifyCompatible theirs = .ok () ↔ mine.difference? theirs = none := by
  unfold verifyCompatible
  cases mine.difference? theirs <;> simp

end UnionType

end ObjectBroker
