import ObjectBroker.Proofs.Codec.Soundness
import ObjectBroker.Proofs.Types.BranchTable
import ObjectBroker.Proofs.Types.WellFormed
import ObjectBroker.Proofs.Values.Simulation
import ObjectBroker.Values.Zero

/-!
# `ObjectBroker.Proofs.Values.Zero` — which types have a zero value

The zero of a type is built from the zeros of its parts, and it has an end only because a sequence
starts empty and an `any` without content. A marker met before one of these has no zero of its own:
the empty payload is put in its place, and no struct or union is described by that. So the zero of a
type has the shape of the type exactly if no marker is met on the way to it, through members, through
the first branch of a union, and through the elements of an array that has some.
-/

namespace ObjectBroker

namespace TypeDesc

/-! ## Types that have a zero -/

mutual
/-- Whether no marker is met where the zero of the type is built. -/
def hasZero : TypeDesc → Bool
  | .recursive _ => false
  | .typedef _ underlying => underlying.hasZero
  | .struct _ members => membersHaveZero members
  | .union _ _ [] => false
  | .union _ _ (b :: _) => b.type.hasZero
  | .array element length => length == 0 || element.hasZero
  | .null | .scalar _ | .string | .wstring | .any | .enum _ _ | .sequence _ _ | .objectRef _ => true
/-- Whether every member type has a zero. -/
def membersHaveZero : List (Member TypeDesc) → Bool
  | [] => true
  | m :: ms => m.type.hasZero && membersHaveZero ms
end

theorem membersHaveZero_eq_all (ms : List (Member TypeDesc)) :
    membersHaveZero ms = ms.all (·.type.hasZero) := by
  induction ms with
  | nil => rfl
  | cons m ms ih => simp [membersHaveZero, ih]

theorem hasZero_struct_iff {name : String} {members : List (Member TypeDesc)} :
    (struct name members).hasZero = true ↔ ∀ m ∈ members, m.type.hasZero = true := by
  rw [hasZero, membersHaveZero_eq_all, List.all_eq_true]

theorem hasZero_array_iff {element : TypeDesc} {length : UInt32} :
    (array element length).hasZero = true ↔ length = 0 ∨ element.hasZero = true := by
  rw [hasZero, Bool.or_eq_true, beq_iff_eq]

/-- A checked union has a first branch, which its zero takes. -/
theorem exists_first_of_validate {name : String} {discriminant : TypeDesc}
    {branches : List (Branch TypeDesc)}
    (h : (union name discriminant branches).validate = .ok ()) :
    ∃ b more, branches = b :: more :=
  List.exists_cons_of_ne_nil (UnionType.branches_ne_nil h)

/-- Whether the description is a marker. -/
def isMarker : TypeDesc → Bool
  | .recursive _ => true
  | _ => false

/-- A checked type without markers has a zero. -/
theorem hasZero_of_markerless {t : TypeDesc} (hchecked : t.wellFormed = true)
    (h : t.everyNode (!·.isMarker) = true) : t.hasZero = true := by
  induction t with
  | recursive name => cases h
  | typedef name underlying ih =>
    simp only [everyNode, Bool.and_eq_true] at h
    exact ih (wellFormed_typedef_iff.1 hchecked) h.2
  | struct name members ih =>
    rw [hasZero_struct_iff]
    intro m hm
    exact ih m hm ((wellFormed_struct_iff.1 hchecked).2 m hm) ((everyNode_struct_iff.1 h).2 m hm)
  | union name discriminant branches _ ih =>
    obtain ⟨hvalid, -, hbranches⟩ := wellFormed_union_iff.1 hchecked
    obtain ⟨b, more, rfl⟩ := exists_first_of_validate hvalid
    have hb : b ∈ b :: more := List.mem_cons_self ..
    rw [hasZero]
    exact ih b hb (hbranches b hb) ((everyNode_union_iff.1 h).2.2 b hb)
  | array element length ih =>
    rw [hasZero_array_iff]
    simp only [everyNode, Bool.and_eq_true] at h
    exact .inr (ih (wellFormed_array_iff.1 hchecked) h.2)
  | _ => rfl

/-- A checked enum has an enumerator, which zero stands for. -/
theorem enumerators_ne_nil {name : String} {enumerators : List String}
    (h : (enum name enumerators).wellFormed = true) : enumerators ≠ [] := by
  rintro rfl
  cases h

end TypeDesc

/-! ## The zero has the shape of its type -/

namespace Payload

variable {enclosing : List TypeDesc}

/-- The empty payload is not a value of any struct or union, and so not of a marker. -/
theorem not_conforms_null_of_marker {name : String}
    (henclosing : ∀ t ∈ enclosing, t.isComposite = true) :
    ¬ Payload.null.conforms enclosing (.recursive name) = true := by
  intro h
  unfold conforms at h
  cases htarget : TypeDesc.enclosing? name enclosing with
  | none => simp [TypeDesc.shape?, TypeDesc.resolve, htarget] at h
  | some target =>
    have hcomposite := henclosing target (List.mem_of_find?_eq_some htarget)
    simp only [TypeDesc.shape?, TypeDesc.resolve, htarget] at h
    cases target with
    | null => cases hcomposite
    | _ => cases h

/-- The zeros of the members conform one by one. -/
theorem conformsMembers_zeroMembers (ms : List (Member TypeDesc)) :
    conformsMembers enclosing ms (TypeDesc.zeroMembers ms) =
      ms.all fun m => m.type.zero.conforms enclosing m.type := by
  induction ms with
  | nil => rfl
  | cons m ms ih => rw [TypeDesc.zeroMembers, conformsMembers, ih, List.all_cons]

/-- The zero of a checked union is its first branch, under a discriminant that selects it. -/
theorem conforms_zero_union {name : String} {discriminant : TypeDesc} {b : Branch TypeDesc}
    {more : List (Branch TypeDesc)}
    (h : (TypeDesc.union name discriminant (b :: more)).validate = .ok ()) :
    (TypeDesc.union name discriminant (b :: more)).zero.conforms enclosing
        (.union name discriminant (b :: more)) =
      b.type.zero.conforms (.union name discriminant (b :: more) :: enclosing) b.type := by
  obtain ⟨d, hd, hselected⟩ := UnionType.exists_selected?_activation (i := 0) h rfl
  simp only [TypeDesc.zero, hd, Option.getD_some, conforms, TypeDesc.shape?, TypeDesc.resolve,
    hselected]

/-- **The zero of a type.** Inside whatever structs and unions, the zero of a checked type has the
    shape of the type exactly if the type has a zero. By induction on the type: each step down puts
    a struct or union on the stack, so that a marker, once met, never stands for the null type. -/
theorem conforms_zero_iff {t : TypeDesc} (henclosing : ∀ e ∈ enclosing, e.isComposite = true)
    (h : t.wellFormed = true) : t.zero.conforms enclosing t = true ↔ t.hasZero = true := by
  induction t generalizing enclosing with
  | recursive name =>
    have hnot : ¬Payload.null.conforms enclosing (.recursive name) = true :=
      not_conforms_null_of_marker henclosing
    simpa only [TypeDesc.zero, TypeDesc.hasZero, Bool.false_eq_true, iff_false] using hnot
  | typedef name underlying ih =>
    have hshape : (TypeDesc.typedef name underlying).shape? enclosing
        = underlying.shape? enclosing := rfl
    rw [TypeDesc.zero, TypeDesc.hasZero, conforms_congr hshape]
    exact ih henclosing (TypeDesc.wellFormed_typedef_iff.1 h)
  | struct name members ih =>
    have hmembers := (TypeDesc.wellFormed_struct_iff.1 h).2
    have hinside : ∀ e ∈ TypeDesc.struct name members :: enclosing, e.isComposite = true :=
      List.forall_mem_cons.2 ⟨rfl, henclosing⟩
    rw [TypeDesc.hasZero_struct_iff]
    simp only [TypeDesc.zero, conforms, TypeDesc.shape?, TypeDesc.resolve,
      conformsMembers_zeroMembers, List.all_eq_true]
    refine forall₂_congr ?_
    intro m hm
    exact ih m hm hinside (hmembers m hm)
  | union name discriminant branches _ ih =>
    obtain ⟨hvalid, -, hbranches⟩ := TypeDesc.wellFormed_union_iff.1 h
    obtain ⟨b, more, rfl⟩ := TypeDesc.exists_first_of_validate hvalid
    have hb : b ∈ b :: more := List.mem_cons_self ..
    have hinside : ∀ e ∈ TypeDesc.union name discriminant (b :: more) :: enclosing,
        e.isComposite = true := List.forall_mem_cons.2 ⟨rfl, henclosing⟩
    rw [conforms_zero_union hvalid, TypeDesc.hasZero]
    exact ih b hb hinside (hbranches b hb)
  | array element length ih =>
    have helement := ih henclosing (TypeDesc.wellFormed_array_iff.1 h)
    simp only [TypeDesc.zero, conforms, TypeDesc.shape?, TypeDesc.resolve, conformsAll_eq_all,
      List.length_replicate, beq_self_eq_true, Bool.true_and, List.all_replicate]
    rw [TypeDesc.hasZero_array_iff, ← helement]
    by_cases hlength : length = 0
    · simp [hlength]
    · have hpositive : length.toNat ≠ 0 := by
        intro hzero
        exact hlength (UInt32.toNat_inj.1 hzero)
      simp only [hpositive, if_false, hlength, false_or]
  | enum name enumerators =>
    have hlength := List.length_pos_iff.2 (TypeDesc.enumerators_ne_nil h)
    simpa [TypeDesc.zero, conforms, TypeDesc.shape?, TypeDesc.resolve, TypeDesc.hasZero] using hlength
  | scalar kind =>
    simp [TypeDesc.zero, conforms, TypeDesc.shape?, TypeDesc.resolve, TypeDesc.hasZero]
  | _ => exact iff_of_true rfl rfl

end Payload

end ObjectBroker
