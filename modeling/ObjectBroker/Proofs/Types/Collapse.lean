import ObjectBroker.Proofs.Types.BranchTable
import ObjectBroker.Types.Assignable
import ObjectBroker.Types.Substitution
import ObjectBroker.Values.Conformance

/-!
# `ObjectBroker.Proofs.Types.Collapse` — descriptions without `typedef` names

Collapsing a description takes the `typedef` names out of it. Whoever walks along a description
looks through `typedef` names anyway, one node at a time. The lemmas here say that the two go
together: the shape of a collapsed description is the collapsed shape, a marker finds the collapsed
target, and a discriminant selects the collapsed branch.
-/

namespace ObjectBroker

namespace TypeDesc

theorem resolve_collapse (t : TypeDesc) : t.collapse.resolve = t.resolve.collapse := by
  induction t with
  | typedef name underlying ih => exact ih
  | _ => rfl

/-- A marker stands for the same type among collapsed types. Only `typedef` names lose their name,
    so what has to be known of the types is that none of them is one. -/
theorem enclosing?_map_collapse (name : String) {enclosing : List TypeDesc}
    (h : ∀ t ∈ enclosing, t.collapse.name? = t.name?) :
    enclosing? name (enclosing.map collapse) = (enclosing? name enclosing).map collapse := by
  unfold enclosing?
  induction enclosing with
  | nil => rfl
  | cons t enclosing ih =>
    have hothers := ih fun t' ht' => h t' (List.mem_cons_of_mem t ht')
    rw [List.map_cons, List.find?_cons, List.find?_cons, h t List.mem_cons_self, hothers]
    split <;> rfl

/-! ## Assignability -/

/-- A type may stand where its collapsed type may. -/
theorem collapse_assignableTo (own expected : TypeDesc) :
    own.collapse.assignableTo expected = own.assignableTo expected := by
  induction own generalizing expected with
  | sequence element bound ih =>
    rw [collapse, assignableTo, assignableTo]
    split
    · rw [ih]
    · rfl
  | array element length ih =>
    rw [collapse, assignableTo, assignableTo]
    split
    · rw [ih]
    · rfl
  | typedef name underlying ih => exact ih expected
  | _ => rfl

/-- And it is expected where its collapsed type is. -/
theorem assignableTo_collapse (own expected : TypeDesc) :
    own.assignableTo expected.collapse = own.assignableTo expected := by
  induction own generalizing expected with
  | typedef name underlying ih => exact ih expected
  | null => rfl
  | sequence element bound ih | array element length ih =>
    rw [assignableTo, assignableTo, resolve_collapse]
    cases hresolve : expected.resolve with
    | typedef name underlying => exact absurd hresolve (expected.resolve_ne_typedef _ _)
    | sequence element' bound' => simp only [collapse, ih]
    | array element' length' => simp only [collapse, ih]
    | _ => rfl
  | _ =>
    rw [assignableTo, assignableTo, resolve_collapse]
    cases hresolve : expected.resolve with
    | typedef name underlying => exact absurd hresolve (expected.resolve_ne_typedef _ _)
    | _ => rfl

end TypeDesc

/-- The struct with collapsed member types. -/
def StructType.collapse (s : StructType) : StructType :=
  ⟨s.name, TypeDesc.collapseMembers s.members⟩

/-- The union with collapsed discriminant and branch types. -/
def UnionType.collapse (u : UnionType) : UnionType :=
  ⟨u.name, u.discriminant.collapse, TypeDesc.collapseBranches u.branches⟩

namespace UnionType

/-- The labels have the same range, since it is that of the shape of the discriminant type. -/
theorem labelRange?_collapse (u : UnionType) : u.collapse.labelRange? = u.labelRange? := by
  unfold labelRange? collapse
  dsimp only
  rw [TypeDesc.resolve_collapse]
  cases hresolve : u.discriminant.resolve with
  | typedef name underlying => exact absurd hresolve (u.discriminant.resolve_ne_typedef _ _)
  | _ => rfl

/-- And so have the discriminants. -/
theorem inRange_collapse (u : UnionType) (d : Int64) : u.collapse.inRange d = u.inRange d := by
  rw [inRange, inRange, labelRange?_collapse]

/-- Labels are not touched, so the same branch is selected, with its type collapsed. -/
theorem selected?_collapse (u : UnionType) (d : Int64) :
    u.collapse.selected? d = (u.selected? d).map fun b => { b with type := b.type.collapse } :=
  selected?_of_branches_eq_map TypeDesc.collapse (TypeDesc.collapseBranches_eq_map u.branches) d

end UnionType

end ObjectBroker
