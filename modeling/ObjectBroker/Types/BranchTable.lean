import ObjectBroker.Types.Basic

/-!
# `ObjectBroker.Types.BranchTable` — which discriminant selects which branch

A union carries a table of labels. A discriminant selects the branch with exactly that label, and
otherwise the default branch; the discriminant type bounds the labels that can occur at all.
-/

namespace ObjectBroker

/-! ## Ranges -/

/-- The discriminants from `least` to `greatest`, both included. -/
structure LabelRange where
  least : Int64
  greatest : Int64
deriving DecidableEq

/-- Whether a discriminant lies in the range. -/
def LabelRange.contains (r : LabelRange) (d : Int64) : Bool :=
  r.least ≤ d && d ≤ r.greatest

theorem LabelRange.contains_eq_true_iff {r : LabelRange} {d : Int64} :
    r.contains d = true ↔ r.least.toInt ≤ d.toInt ∧ d.toInt ≤ r.greatest.toInt := by
  simp only [contains, Bool.and_eq_true, decide_eq_true_eq, Int64.le_iff_toInt_le]

/-- Discriminants a scalar can carry; a floating-point number can carry none. An unsigned 64-bit
    discriminant is held as the signed number with the same bits. -/
def Scalar.labelRange? : Scalar → Option LabelRange
  | .boolean => some ⟨0, 1⟩
  | .octet | .char => some ⟨0, 0xFF⟩
  | .wchar => some ⟨0, 0x10FFFF⟩
  | .short => some ⟨-0x8000, 0x7FFF⟩
  | .ushort => some ⟨0, 0xFFFF⟩
  | .long => some ⟨-0x80000000, 0x7FFFFFFF⟩
  | .ulong => some ⟨0, 0xFFFFFFFF⟩
  | .longlong | .ulonglong => some ⟨Int64.minValue, Int64.maxValue⟩
  | .float | .double => none

/-- Whether the label list names the default branch. -/
def Branch.isDefault {α : Type} (b : Branch α) : Bool :=
  b.labels.contains .default

/-- The discriminant of a label, if it names one. -/
def Label.value? : Label → Option Int64
  | .value d => some d
  | .default => none

namespace UnionType

/-- Discriminants the discriminant type can carry, `none` if it cannot discriminate. -/
def labelRange? (u : UnionType) : Option LabelRange :=
  match u.discriminant.resolve with
  | .scalar kind => kind.labelRange?
  | .enum _ (_ :: more) => some ⟨0, Int64.ofNat more.length⟩
  | _ => none

/-- Whether the discriminant type can carry this discriminant. -/
def inRange (u : UnionType) (d : Int64) : Bool :=
  u.labelRange?.any (·.contains d)

/-! ## Selection -/

/-- Position of the default branch. -/
def defaultBranch? (u : UnionType) : Option Nat :=
  u.branches.findIdx? (·.isDefault)

/-- Position of the branch a discriminant selects: the exact label first, the default otherwise. -/
def select? (u : UnionType) (d : Int64) : Option Nat :=
  (u.branches.findIdx? (·.labels.contains (.value d))).or u.defaultBranch?

/-- The branch a discriminant selects. -/
def selected? (u : UnionType) (d : Int64) : Option (Branch TypeDesc) :=
  (u.select? d).bind (u.branches[·]?)

/-- Every discriminant that is named by a label, in order of declaration. -/
def explicitLabels (u : UnionType) : List Int64 :=
  u.branches.flatMap fun b => b.labels.filterMap (·.value?)

/-- The smallest discriminant from zero up, in range, that no label names. It stands for the
    default branch when no discriminant was chosen. One candidate more than there are labels is
    enough. -/
def implicitDefault? (u : UnionType) : Option Int64 := do
  let range ← u.labelRange?
  let start := (max range.least 0).toInt
  let candidates := (List.range (u.explicitLabels.length + 1)).map fun (k : Nat) => start + k
  let possible := (candidates.filter (· ≤ range.greatest.toInt)).map Int64.ofInt
  possible.find? fun d => !u.explicitLabels.contains d

theorem selected?_isSome_iff {u : UnionType} {d : Int64} :
    (u.selected? d).isSome ↔ (u.select? d).isSome := by
  unfold selected? select? defaultBranch?
  cases h : u.branches.findIdx? (·.labels.contains (.value d)) with
  | some i =>
    obtain ⟨hi, _⟩ := List.findIdx?_eq_some_iff_getElem.1 h
    simp [List.getElem?_eq_getElem hi]
  | none =>
    cases h' : u.branches.findIdx? (·.isDefault) with
    | some i =>
      obtain ⟨hi, _⟩ := List.findIdx?_eq_some_iff_getElem.1 h'
      simp [List.getElem?_eq_getElem hi]
    | none => simp

end UnionType

end ObjectBroker
