import ObjectBroker.Proofs.Builder.Conformance
import ObjectBroker.Proofs.Values.Zero

/-!
# `ObjectBroker.Proofs.Builder.Zero` — what a builder starts from

A struct is built from the zero of its type, and a union that changes its branch from the zero of the
new one. So a builder starts in the shape of its type exactly if that type has a zero. The checks on
a description ask for less: of all the types without a zero they refuse only a struct with a marker
of its own as the type of a member. A union whose first branch is a marker of the union passes, and
so does a struct with its marker under a name, in an array, or in a struct between the two.
-/

namespace ObjectBroker

/-! ## Structs -/

namespace StructValue

variable {type : TypeDesc} {shape : StructType}

/-- A struct without any fields set is the zero of its type. -/
theorem exists_new (h : type.struct? = some shape) :
    ∃ s, StructValue.new type = .ok s ∧ s.toDynamic = ⟨type, type.zero⟩ := by
  unfold StructValue.new
  split
  · rename_i shape' hshape
    refine ⟨_, rfl, ?_⟩
    have hzero : type.zero = .struct (TypeDesc.zeroMembers shape'.members) := by
      rw [← TypeDesc.zero_resolve, TypeDesc.struct?_eq_some_iff.1 hshape]
      rfl
    rw [toDynamic, hzero]
  · rename_i hnone
    rw [hnone] at h
    cases h

end StructValue

/-! ## Unions -/

namespace UnionValue

variable {u : UnionValue} {d : Int64} {position : Nat}

/-- The position a discriminant selects is one of the branches, and that branch is selected. -/
theorem exists_branch_of_select? (h : u.shape.select? d = some position) :
    ∃ b, u.shape.branches[position]? = some b ∧ u.shape.selected? d = some b ∧
      u.branchType position = b.type := by
  have hsome : (u.shape.selected? d).isSome = true := by
    rw [UnionType.selected?_isSome_iff, h]
    rfl
  obtain ⟨b, hb⟩ := Option.isSome_iff_exists.1 hsome
  have hposition : u.shape.branches[position]? = some b := by
    rwa [UnionType.selected?, h, Option.bind_some] at hb
  refine ⟨b, hposition, hb, ?_⟩
  rw [branchType, hposition]
  rfl

/-- A discriminant for a branch that is not held puts the zero of that branch in its place. -/
theorem exists_setDiscriminant (hrange : u.shape.inRange d = true)
    (hselect : u.shape.select? d = some position) (hchange : u.heldIn? position = none) :
    ∃ u', u.setDiscriminant d = .ok u' ∧
      u'.toDynamic = .ok ⟨u.type, .union d (u.branchType position).zero⟩ := by
  refine ⟨{ u with active := some ⟨d, position, (u.branchType position).zero⟩ }, ?_, rfl⟩
  simp only [setDiscriminant, hrange, hselect, hchange]
  rfl

end UnionValue

/-! ## When a builder starts in shape -/

/-- **What a builder starts from.** The zero of a checked type is accepted as a value of the type
    exactly if the type has a zero. For a struct type that decides whether a new struct conforms, and
    for a union it is the type of the branch that decides, whenever a discriminant changes the
    branch. -/
theorem started_conforming_iff {t : TypeDesc} (h : t.wellFormed = true) :
    (Dynamic.ofPayload t t.zero = .ok ⟨t, t.zero⟩ ↔ t.hasZero = true) ∧
    (∀ shape, t.struct? = some shape →
      ∃ s, StructValue.new t = .ok s ∧ s.toDynamic = ⟨t, t.zero⟩ ∧
        (s.toDynamic.conforming = true ↔ t.hasZero = true)) ∧
    (∀ (u : UnionValue) (d : Int64) (position : Nat), u.type = t → u.shape.inRange d = true →
      u.shape.select? d = some position → u.heldIn? position = none →
      ∃ u' y, u.setDiscriminant d = .ok u' ∧ u'.toDynamic = .ok y ∧
        (y.conforming = true ↔ (u.branchType position).hasZero = true)) := by
  have hzero : t.zero.conforms [] t = true ↔ t.hasZero = true :=
    Payload.conforms_zero_iff (by simp) h
  refine ⟨?value, ?struct, ?union⟩
  case value =>
    rw [Dynamic.ofPayload_eq_ok_iff, hzero]
    exact and_iff_left rfl
  case struct =>
    intro shape hshape
    obtain ⟨s, hs, hdynamic⟩ := StructValue.exists_new hshape
    refine ⟨s, hs, hdynamic, ?_⟩
    rw [hdynamic]
    exact hzero
  case union =>
    rintro u d position rfl hrange hselect hchange
    obtain ⟨u', hu', hdynamic⟩ := UnionValue.exists_setDiscriminant hrange hselect hchange
    obtain ⟨b, hb, hselected, htype⟩ := UnionValue.exists_branch_of_select? hselect
    refine ⟨u', _, hu', hdynamic, ?_⟩
    -- The branch is a part of a checked union, and stands inside the union alone.
    have hchecked := TypeDesc.everyNode_resolve h
    rw [TypeDesc.union?_eq_some_iff.1 u.isUnion] at hchecked
    have hbranch := (TypeDesc.wellFormed_union_iff.1 hchecked).2.2 b (List.mem_of_getElem? hb)
    have hinside : ∀ e ∈ [u.shape.desc], e.isComposite = true := by
      intro e he
      obtain rfl := List.mem_singleton.1 he
      rfl
    rw [htype, ← Payload.conforms_zero_iff hinside hbranch]
    simp only [Dynamic.conforming, Payload.conforms, u.shape?_type, UnionType.desc, hselected]

/-- An account with an owner and with a reference, by number or by name. -/
def account : TypeDesc :=
  .struct "Account"
    [⟨"owner", .string⟩,
      ⟨"reference", .union "Reference" (.scalar .boolean)
        [⟨[.default], "number", .array (.scalar .long) 2⟩, ⟨[.value 1], "name", .wstring⟩]⟩]

/-- A list in which each element may carry the rest of the list, or end it. -/
def chainLink : TypeDesc :=
  .union "Link" (.scalar .boolean)
    [⟨[.value 0], "last", .scalar .long⟩, ⟨[.value 1], "next", .recursive "Link"⟩]

/-- A new account conforms to its type, and so does a link at its end, which has a first branch
    without markers. -/
theorem started_conforming_iff_account :
    ∃ (s : StructValue) (u u' : UnionValue) (y : Dynamic),
      (account.wellFormed = true ∧ chainLink.wellFormed = true) ∧
      (Dynamic.ofPayload account account.zero = .ok ⟨account, account.zero⟩ ∧
        StructValue.new account = .ok s ∧ s.toDynamic.conforming = true) ∧
      (UnionValue.new chainLink = .ok u ∧ u.setDiscriminant 0 = .ok u' ∧
        u'.toDynamic = .ok y ∧ y.conforming = true) := by
  have haccount : account.wellFormed = true := by decide
  have hlink : chainLink.wellFormed = true := by decide
  obtain ⟨hvalue, hstruct, -⟩ := started_conforming_iff haccount
  obtain ⟨s, hs, -, hconforming⟩ := hstruct _ rfl
  obtain ⟨-, -, hunion⟩ := started_conforming_iff hlink
  obtain ⟨u', y, hu', hy, hlast⟩ := hunion
    ⟨chainLink, ⟨"Link", .scalar .boolean, _⟩, none, rfl⟩ 0 0 rfl (by decide) (by decide) rfl
  exact ⟨s, _, u', y, ⟨haccount, hlink⟩, ⟨hvalue.2 (by decide), hs, hconforming.2 (by decide)⟩,
    rfl, hu', hy, hlast.2 (by decide)⟩

/-! ## Checked types without a zero -/

/-- The list again, with the rest of it as the first branch. -/
def endlessLink : TypeDesc :=
  .union "Link" (.scalar .boolean)
    [⟨[.value 0], "next", .recursive "Link"⟩, ⟨[.value 1], "last", .scalar .long⟩]

/-- A struct that holds itself by way of the type of its only member. -/
def selfHolding (member : TypeDesc) : TypeDesc :=
  .struct "Node" [⟨"inner", member⟩]

/-- The ways from a struct to itself that no check looks for: an array, a name, another struct. -/
def detours : List TypeDesc :=
  [.array (.recursive "Node") 1, TypeDesc.typedef "Alias" (.recursive "Node"),
    .struct "Between" [⟨"node", .recursive "Node"⟩]]

/-- The union and each of the structs pass every check and have no marker without a meaning. Yet the
    zero is refused as a value of the type, and a builder starts from what does not conform. -/
theorem checked_without_zero :
    (endlessLink.wellFormed = true ∧ endlessLink.closed = true ∧
      Dynamic.ofPayload endlessLink endlessLink.zero = .error (.typeMismatch "Link" "union")) ∧
    (∃ u u' y, UnionValue.new endlessLink = .ok u ∧ u.setDiscriminant 0 = .ok u' ∧
      u'.toDynamic = .ok y ∧ y.conforming = false) ∧
    (∀ member ∈ detours, (selfHolding member).wellFormed = true ∧
      (selfHolding member).closed = true ∧
      Dynamic.ofPayload (selfHolding member) (selfHolding member).zero
        = .error (.typeMismatch "Node" "struct") ∧
      ∃ s, StructValue.new (selfHolding member) = .ok s ∧ s.toDynamic.conforming = false) := by
  refine ⟨⟨by decide, by decide, rfl⟩, ⟨_, _, _, rfl, rfl, rfl, by decide⟩, ?_⟩
  intro member hmember
  simp only [detours, List.mem_cons, List.not_mem_nil, or_false] at hmember
  rcases hmember with rfl | rfl | rfl
  all_goals exact ⟨by decide, by decide, rfl, _, rfl, by decide⟩

end ObjectBroker
