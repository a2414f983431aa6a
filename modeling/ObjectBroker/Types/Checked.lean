import ObjectBroker.Fault
import ObjectBroker.Types.BranchTable

/-!
# `ObjectBroker.Types.Checked` — the checks on a description

A description passes its checks before any value of it travels. The checks concern one node: the
parts of a node were checked when they were described themselves.
-/

namespace ObjectBroker

namespace UnionType

/-- Labels met so far while a branch table is checked. -/
structure LabelTally where
  seen : List Int64 := []
  defaults : Nat := 0

/-- Adds one label: a discriminant has to be in range and new, defaults are counted. -/
def LabelTally.add (union : String) (range : LabelRange) (tally : LabelTally) :
    Label → Except Fault LabelTally
  | .default => .ok { tally with defaults := tally.defaults + 1 }
  | .value d =>
    if !range.contains d then
      .error (.invalidDescriptor (.labelOutOfRange union d))
    else if tally.seen.contains d then
      .error (.invalidDescriptor (.labelTwice union d))
    else
      .ok { tally with seen := d :: tally.seen }

/-- Adds the labels of one branch, which has to have at least one. -/
def LabelTally.addBranch (union : String) (range : LabelRange) (tally : LabelTally)
    (b : Branch TypeDesc) : Except Fault LabelTally :=
  if b.labels.isEmpty then
    .error (.invalidDescriptor (.unlabelled union b.name))
  else
    b.labels.foldlM (LabelTally.add union range) tally

/-- Checks a branch table: a discriminant type, a branch, labels on every branch that are in range
    and distinct, and at most one default label, which some discriminant has to reach. -/
def validate (u : UnionType) : Except Fault Unit := do
  let some range := u.labelRange?
    | .error (.invalidDescriptor (.undiscriminable u.name u.discriminant.typeName))
  if u.branches.isEmpty then
    .error (.invalidDescriptor (.noBranch u.name))
  let tally ← u.branches.foldlM (LabelTally.addBranch u.name range) {}
  if tally.defaults > 1 then
    .error (.invalidDescriptor (.manyDefaults u.name tally.defaults))
  if tally.defaults = 1 && u.implicitDefault?.isNone then
    .error (.invalidDescriptor (.unreachableDefault u.name))

end UnionType

namespace StructType

/-- Checks the members after those named in `earlier`, in order of declaration. -/
def validateMembers (struct : String) (earlier : List String) :
    List (Member TypeDesc) → Except Fault Unit
  | [] => .ok ()
  | m :: rest =>
    if earlier.contains m.name then
      .error (.invalidDescriptor (.memberTwice struct m.name))
    else if m.type = .recursive struct then
      .error (.invalidDescriptor (.containsItself struct m.name))
    else
      validateMembers struct (m.name :: earlier) rest

/-- Checks that member names are distinct and that no member is the struct itself. -/
def validate (s : StructType) : Except Fault Unit :=
  validateMembers s.name [] s.members

end StructType

namespace TypeDesc

/-- Checks one node of a description. -/
def validate : TypeDesc → Except Fault Unit
  | .union name discriminant branches => UnionType.validate ⟨name, discriminant, branches⟩
  | .struct name members => StructType.validate ⟨name, members⟩
  | .sequence _ (some 0) => .error (.invalidDescriptor .zeroBound)
  | .enum name [] => .error (.invalidDescriptor (.noEnumerators name))
  | _ => .ok ()

/-- The description itself, once its outermost node has passed its checks. -/
def describe (t : TypeDesc) : Except Fault TypeDesc := do
  t.validate
  return t

/-- A sequence type in which a bound of zero stands for no bound. -/
def sequenceOf (element : TypeDesc) (bound : Option UInt32) : TypeDesc :=
  .sequence element (bound.filter (· != 0))

theorem describe_eq_ok_iff {t d : TypeDesc} :
    t.describe = .ok d ↔ t.validate = .ok () ∧ t = d := by
  unfold describe
  cases h : t.validate <;> simp [bind, Except.bind, pure, Except.pure]

end TypeDesc

end ObjectBroker
