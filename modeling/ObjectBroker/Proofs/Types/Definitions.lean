import ObjectBroker.Proofs.Types.WellFormed
import ObjectBroker.Types.Assignable

/-!
# `ObjectBroker.Proofs.Types.Definitions` — types compared by name

Structs, unions and enums are compared by name alone when a value is stored where another type is
declared. What such a comparison leaves of a type is its outline: every definition is reduced to its
name, `typedef` names are gone, and so is whatever is not compared or not looked at later, the
bounds of sequences and the interfaces of references. Values of one type are values of the other
once the definitions behind equal names are the same, up to outlines of their parts.
-/

namespace ObjectBroker.TypeDesc

/-! ## Outlines -/

/-- What a comparison by name leaves of a type. -/
def outline : TypeDesc → TypeDesc
  | .struct name _ | .union name _ _ | .enum name _ | .recursive name => .recursive name
  | .sequence element _ => .sequence element.outline none
  | .array element length => .array element.outline length
  | .typedef _ underlying => underlying.outline
  | .objectRef _ => .objectRef objectInterface
  | .null => .null
  | .scalar kind => .scalar kind
  | .string => .string
  | .wstring => .wstring
  | .any => .any

@[simp] theorem outline_resolve (t : TypeDesc) : t.resolve.outline = t.outline := by
  induction t with
  | typedef name underlying ih => exact ih
  | _ => rfl

@[simp] theorem outline_outline (t : TypeDesc) : t.outline.outline = t.outline := by
  induction t with
  | sequence element bound ih => rw [outline, outline, ih]
  | array element length ih => rw [outline, outline, ih]
  | typedef name underlying ih => exact ih
  | _ => rfl

/-- A sequence goes to sequences whose bound and element type admit its own. -/
theorem sequence_assignableTo_iff {element expected : TypeDesc} {bound : Option UInt32} :
    (sequence element bound).assignableTo expected = true ↔
      ∃ element' bound', expected.resolve = .sequence element' bound' ∧
        boundFits bound bound' = true ∧ element.assignableTo element' = true := by
  rw [assignableTo]
  cases expected.resolve with
  | sequence element' bound' =>
    simp only [Bool.and_eq_true, sequence.injEq]
    constructor
    · rintro ⟨hfits, helement⟩
      exact ⟨element', bound', ⟨rfl, rfl⟩, hfits, helement⟩
    · rintro ⟨_, _, ⟨rfl, rfl⟩, hfits, helement⟩
      exact ⟨hfits, helement⟩
  | _ => simp

/-- An array goes to arrays of its length whose element type admits its own. -/
theorem array_assignableTo_iff {element expected : TypeDesc} {length : UInt32} :
    (array element length).assignableTo expected = true ↔
      ∃ element', expected.resolve = .array element' length ∧
        element.assignableTo element' = true := by
  rw [assignableTo]
  cases expected.resolve with
  | array element' length' =>
    simp only [Bool.and_eq_true, beq_iff_eq, array.injEq]
    constructor
    · rintro ⟨rfl, helement⟩
      exact ⟨element', ⟨rfl, rfl⟩, helement⟩
    · rintro ⟨_, ⟨rfl, rfl⟩, helement⟩
      exact ⟨rfl, helement⟩
  | _ => simp

/-- **Outlines.** Types of which one may stand for the other have the same outline. -/
theorem outline_eq_of_assignableTo {own expected : TypeDesc}
    (h : own.assignableTo expected = true) : own.outline = expected.outline := by
  rw [← outline_resolve expected]
  induction own generalizing expected with
  | typedef name underlying ih => exact ih h
  | sequence element bound ih =>
    obtain ⟨element', bound', hexpected, -, helement⟩ := sequence_assignableTo_iff.1 h
    have houtline := ih helement
    rw [outline_resolve] at houtline
    simp only [hexpected, outline, houtline]
  | array element length ih =>
    obtain ⟨element', hexpected, helement⟩ := array_assignableTo_iff.1 h
    have houtline := ih helement
    rw [outline_resolve] at houtline
    simp only [hexpected, outline, houtline]
  | _ =>
    -- Everything else is compared without looking at its parts.
    unfold assignableTo at h
    cases hexpected : expected.resolve <;> simp_all [outline]

/-! ## One node of a type -/

/-- One node of a type, with outlines for its parts. -/
def abridged : TypeDesc → TypeDesc
  | .struct name members => .struct name (members.map fun m => { m with type := m.type.outline })
  | .union name discriminant branches =>
    .union name discriminant.outline (branches.map fun b => { b with type := b.type.outline })
  | .sequence element _ => .sequence element.outline none
  | .array element length => .array element.outline length
  | .objectRef _ => .objectRef objectInterface
  | t => t

/-- The outline of a node can be told from the node alone. -/
theorem outline_abridged (t : TypeDesc) : t.abridged.outline = t.outline := by
  cases t <;> simp [abridged, outline]

section Abridged

variable {name : String} {s : TypeDesc}

theorem exists_of_abridged_eq_struct {members : List (Member TypeDesc)}
    (h : (struct name members).abridged = s.abridged) :
    ∃ members', s = .struct name members' ∧
      members.map (fun m => { m with type := m.type.outline })
        = members'.map fun m => { m with type := m.type.outline } := by
  cases s with
  | struct name' members' =>
    obtain ⟨rfl, hmembers⟩ := TypeDesc.struct.inj h
    exact ⟨members', rfl, hmembers⟩
  | _ => cases h

theorem exists_of_abridged_eq_union {discriminant : TypeDesc} {branches : List (Branch TypeDesc)}
    (h : (union name discriminant branches).abridged = s.abridged) :
    ∃ discriminant' branches', s = .union name discriminant' branches' ∧
      branches.map (fun b => { b with type := b.type.outline })
        = branches'.map fun b => { b with type := b.type.outline } := by
  cases s with
  | union name' discriminant' branches' =>
    obtain ⟨rfl, -, hbranches⟩ := TypeDesc.union.inj h
    exact ⟨discriminant', branches', rfl, hbranches⟩
  | _ => cases h

theorem exists_of_abridged_eq_sequence {element : TypeDesc} {bound : Option UInt32}
    (h : (sequence element bound).abridged = s.abridged) :
    ∃ element' bound', s = .sequence element' bound' ∧ element.outline = element'.outline := by
  cases s with
  | sequence element' bound' => exact ⟨element', bound', rfl, (TypeDesc.sequence.inj h).1⟩
  | _ => cases h

theorem exists_of_abridged_eq_array {element : TypeDesc} {length : UInt32}
    (h : (array element length).abridged = s.abridged) :
    ∃ element', s = .array element' length ∧ element.outline = element'.outline := by
  cases s with
  | array element' length' =>
    obtain ⟨helement, rfl⟩ := TypeDesc.array.inj h
    exact ⟨element', rfl, helement⟩
  | _ => cases h

end Abridged

/-! ## Definitions -/

mutual
/-- The structs, unions and enums that occur in a type, at any depth. -/
def definitions : TypeDesc → List TypeDesc
  | .struct name members => .struct name members :: definitionsOfMembers members
  | .union name discriminant branches =>
    .union name discriminant branches ::
      (discriminant.definitions ++ definitionsOfBranches branches)
  | .enum name enumerators => [.enum name enumerators]
  | .sequence element _ | .array element _ => element.definitions
  | .typedef _ underlying => underlying.definitions
  | .null | .scalar _ | .string | .wstring | .any | .objectRef _ | .recursive _ => []
/-- The definitions in the types of members. -/
def definitionsOfMembers : List (Member TypeDesc) → List TypeDesc
  | [] => []
  | m :: ms => m.type.definitions ++ definitionsOfMembers ms
/-- The definitions in the types of branches. -/
def definitionsOfBranches : List (Branch TypeDesc) → List TypeDesc
  | [] => []
  | b :: bs => b.type.definitions ++ definitionsOfBranches bs
end

theorem definitionsOfMembers_eq_flatMap (ms : List (Member TypeDesc)) :
    definitionsOfMembers ms = ms.flatMap (·.type.definitions) := by
  induction ms with
  | nil => rfl
  | cons m ms ih => rw [definitionsOfMembers, ih, List.flatMap_cons]

theorem definitionsOfBranches_eq_flatMap (bs : List (Branch TypeDesc)) :
    definitionsOfBranches bs = bs.flatMap (·.type.definitions) := by
  induction bs with
  | nil => rfl
  | cons b bs ih => rw [definitionsOfBranches, ih, List.flatMap_cons]

@[simp] theorem definitions_resolve (t : TypeDesc) : t.resolve.definitions = t.definitions := by
  induction t with
  | typedef name underlying ih => exact ih
  | _ => rfl

theorem definitions_subset_of_mem_members {name : String} {members : List (Member TypeDesc)}
    {m : Member TypeDesc} (hm : m ∈ members) :
    m.type.definitions ⊆ (struct name members).definitions := by
  intro d hd
  rw [definitions, definitionsOfMembers_eq_flatMap]
  exact List.mem_cons_of_mem _ (List.mem_flatMap.2 ⟨m, hm, hd⟩)

theorem definitions_subset_of_mem_branches {name : String} {discriminant : TypeDesc}
    {branches : List (Branch TypeDesc)} {b : Branch TypeDesc} (hb : b ∈ branches) :
    b.type.definitions ⊆ (union name discriminant branches).definitions := by
  intro d hd
  rw [definitions, definitionsOfBranches_eq_flatMap]
  exact List.mem_cons_of_mem _
    (List.mem_append_right _ (List.mem_flatMap.2 ⟨b, hb, hd⟩))

theorem definitions_subset_of_discriminant {name : String} {discriminant : TypeDesc}
    {branches : List (Branch TypeDesc)} :
    discriminant.definitions ⊆ (union name discriminant branches).definitions := by
  intro d hd
  rw [definitions]
  exact List.mem_cons_of_mem _ (List.mem_append_left _ hd)

/-- What is defined inside a definition of a type is defined in the type. -/
theorem definitions_subset_of_mem {t d : TypeDesc} (hd : d ∈ t.definitions) :
    d.definitions ⊆ t.definitions := by
  induction t with
  | struct name members ih =>
    rw [definitions, definitionsOfMembers_eq_flatMap] at hd
    rcases List.mem_cons.1 hd with rfl | hd
    · exact List.Subset.refl _
    · obtain ⟨m, hm, hd⟩ := List.mem_flatMap.1 hd
      exact List.Subset.trans (ih m hm hd) (definitions_subset_of_mem_members hm)
  | union name discriminant branches ihd ihb =>
    rw [definitions, definitionsOfBranches_eq_flatMap] at hd
    rcases List.mem_cons.1 hd with rfl | hd
    · exact List.Subset.refl _
    rcases List.mem_append.1 hd with hd | hd
    · exact List.Subset.trans (ihd hd) definitions_subset_of_discriminant
    · obtain ⟨b, hb, hd⟩ := List.mem_flatMap.1 hd
      exact List.Subset.trans (ihb b hb hd) (definitions_subset_of_mem_branches hb)
  | enum name enumerators =>
    obtain rfl := List.mem_singleton.1 hd
    exact List.Subset.refl _
  | sequence element bound ih => exact ih hd
  | array element length ih => exact ih hd
  | typedef name underlying ih => exact ih hd
  | _ => cases hd

/-- Whether the types agree on what they both define: definitions of the same name are of the same
    kind and have the same parts, in outline. -/
def Agrees (t t' : TypeDesc) : Prop :=
  ∀ d ∈ t.definitions, ∀ d' ∈ t'.definitions, d.name? = d'.name? → d.abridged = d'.abridged

instance (t t' : TypeDesc) : Decidable (t.Agrees t') :=
  inferInstanceAs (Decidable (∀ d ∈ t.definitions, ∀ d' ∈ t'.definitions,
    d.name? = d'.name? → d.abridged = d'.abridged))

end ObjectBroker.TypeDesc
