import ObjectBroker.Proofs.Types.Preorder
import ObjectBroker.Proofs.Types.Rewriting

/-!
# `ObjectBroker.Proofs.Types.Substitution` — a definition in place of its markers

A part of a struct or union speaks of it by markers. When the part is taken out, the markers give way
to the definition they stand for, so that the part stands on its own: no marker in it is left without
something to stand for. To a comparison by name nothing has changed, since a marker and the
definition that takes its place have the same name, and no definition is new.

A struct or union inside the part that has the same name as the definition keeps its markers. They
are for it and not for the definition outside, and so it is left as it is.
-/

namespace ObjectBroker.TypeDesc

variable {t content : TypeDesc} {target name : String}

/-! ## Markers that are left -/

/-- A definition that takes the place of a marker has no `typedef` name to be looked through. -/
theorem resolve_substitute (hcontent : content.resolve = content) (t : TypeDesc) :
    (t.substitute target content).resolve = t.resolve.substitute target content := by
  induction t with
  | typedef name underlying ih => exact ih
  | recursive name =>
    simp only [substitute, resolve]
    split
    · exact hcontent
    · rfl
  | struct name members =>
    simp only [substitute, resolve]
    split <;> rfl
  | union name discriminant branches =>
    simp only [substitute, resolve]
    split <;> rfl
  | _ => rfl

/-- What is not the target keeps its name. -/
theorem name?_substitute (h : t.name? = some name) (hne : name ≠ target) :
    (t.substitute target content).name? = some name := by
  cases t with
  | recursive n =>
    obtain rfl : n = name := Option.some.inj h
    rwa [substitute, if_neg hne]
  | struct n members =>
    obtain rfl : n = name := Option.some.inj h
    rw [substitute, if_neg hne]
    rfl
  | union n discriminant branches =>
    obtain rfl : n = name := Option.some.inj h
    rw [substitute, if_neg hne]
    rfl
  | _ => exact h

/-- The names around a part, when all but the target stay. -/
theorem mem_cons_of_ne {enclosing enclosing' : List String}
    (hnames : ∀ n ∈ enclosing, n ≠ target → n ∈ enclosing') (name : String) :
    ∀ n ∈ name :: enclosing, n ≠ target → n ∈ name :: enclosing' := by
  intro n hn hne
  rcases List.mem_cons.1 hn with rfl | hn
  · exact List.mem_cons_self
  · exact List.mem_cons_of_mem _ (hnames n hn hne)

/-- **Markers.** Where a closed definition takes the place of its markers, the other markers need
    what they needed before. -/
theorem closedIn_substitute {enclosing enclosing' : List String} (hcontent : content.closed = true)
    (hnames : ∀ n ∈ enclosing, n ≠ target → n ∈ enclosing') (h : t.closedIn enclosing = true) :
    (t.substitute target content).closedIn enclosing' = true := by
  -- A namesake is left as it is, and its own markers are for it.
  have hnamesake : ∀ {enclosing enclosing' : List String},
      (∀ n ∈ enclosing, n ≠ target → n ∈ enclosing') →
      target :: enclosing ⊆ target :: enclosing' := by
    intro enclosing enclosing' hnames n hn
    by_cases hne : n = target
    · exact hne ▸ List.mem_cons_self
    · exact mem_cons_of_ne hnames target n hn hne
  induction t generalizing enclosing enclosing' with
  | recursive name =>
    simp only [closedIn, List.contains_iff_mem] at h
    rw [substitute]
    split
    · exact closedIn_mono (List.nil_subset _) hcontent
    · rename_i hne
      exact List.contains_iff_mem.2 (hnames name h hne)
  | struct name members ih =>
    simp only [closedIn, membersClosedIn_eq_all, List.all_eq_true] at h
    rw [substitute]
    split
    · rename_i hname
      subst hname
      simp only [closedIn, membersClosedIn_eq_all, List.all_eq_true]
      exact fun m hm => closedIn_mono (hnamesake hnames) (h m hm)
    · simp only [substituteMembers_eq_map, closedIn, membersClosedIn_eq_all, List.all_eq_true,
        List.forall_mem_map]
      exact fun m hm => ih m hm (mem_cons_of_ne hnames name) (h m hm)
  | union name discriminant branches ihd ihb =>
    simp only [closedIn, branchesClosedIn_eq_all, Bool.and_eq_true, List.all_eq_true] at h
    rw [substitute]
    split
    · rename_i hname
      subst hname
      simp only [closedIn, branchesClosedIn_eq_all, Bool.and_eq_true, List.all_eq_true]
      refine ⟨closedIn_mono (hnamesake hnames) h.1, ?_⟩
      exact fun b hb => closedIn_mono (hnamesake hnames) (h.2 b hb)
    · simp only [substituteBranches_eq_map, closedIn, branchesClosedIn_eq_all, Bool.and_eq_true,
        List.all_eq_true, List.forall_mem_map]
      refine ⟨ihd (mem_cons_of_ne hnames name) h.1, ?_⟩
      exact fun b hb => ihb b hb (mem_cons_of_ne hnames name) (h.2 b hb)
  | sequence element bound ih => exact ih hnames h
  | array element length ih => exact ih hnames h
  | typedef name underlying ih => exact ih hnames h
  | _ => rfl

/-- A part of a closed definition is closed once the definition is in place of its markers. -/
theorem closed_substitute (hcontent : content.closed = true) (h : t.closedIn [target] = true) :
    (t.substitute target content).closed = true := by
  refine closedIn_substitute hcontent ?_ h
  intro n hn hne
  exact absurd (List.mem_singleton.1 hn) hne

/-! ## Namesakes -/

/-- Whether every struct or union of this name in the description is closed by itself. -/
def namesakesClosed (name : String) (t : TypeDesc) : Bool :=
  t.everyNode fun
    | .struct n members => n != name || (struct n members).closed
    | .union n discriminant branches => n != name || (union n discriminant branches).closed
    | _ => true

theorem namesakesClosed_struct_iff {members : List (Member TypeDesc)} :
    (struct name members).namesakesClosed target = true ↔
      (name = target → (struct name members).closed = true) ∧
        ∀ m ∈ members, m.type.namesakesClosed target = true := by
  simp only [namesakesClosed, everyNode_struct_iff, Bool.or_eq_true, bne_iff_ne, ne_eq,
    Decidable.imp_iff_not_or]

theorem namesakesClosed_union_iff {discriminant : TypeDesc} {branches : List (Branch TypeDesc)} :
    (union name discriminant branches).namesakesClosed target = true ↔
      (name = target → (union name discriminant branches).closed = true) ∧
        discriminant.namesakesClosed target = true ∧
        ∀ b ∈ branches, b.type.namesakesClosed target = true := by
  simp only [namesakesClosed, everyNode_union_iff, Bool.or_eq_true, bne_iff_ne, ne_eq,
    Decidable.imp_iff_not_or]

/-! ## Names that are left -/

/-- A marker is not told from what takes its place by a comparison by name. -/
theorem outline_substitute (hcontent : content.outline = .recursive target) (t : TypeDesc) :
    (t.substitute target content).outline = t.outline := by
  induction t with
  | recursive name =>
    rw [substitute]
    split
    · rename_i hname
      rw [hname, hcontent]
      rfl
    · rfl
  | struct name members =>
    rw [substitute]
    split <;> rfl
  | union name discriminant branches =>
    rw [substitute]
    split <;> rfl
  | sequence element bound ih => simp only [substitute, outline, ih]
  | array element length ih => simp only [substitute, outline, ih]
  | typedef name underlying ih => simpa only [substitute, outline] using ih
  | _ => rfl

/-- Nor is a node from the same node with a definition in place of markers in its parts. -/
theorem abridged_struct_substitute (hcontent : content.outline = .recursive target)
    (members : List (Member TypeDesc)) :
    (struct name (substituteMembers members target content)).abridged
      = (struct name members).abridged := by
  simp only [abridged, substituteMembers_eq_map, List.map_map, Function.comp_def,
    outline_substitute hcontent]

theorem abridged_union_substitute (hcontent : content.outline = .recursive target)
    (discriminant : TypeDesc) (branches : List (Branch TypeDesc)) :
    (union name (discriminant.substitute target content)
        (substituteBranches branches target content)).abridged
      = (union name discriminant branches).abridged := by
  simp only [abridged, substituteBranches_eq_map, List.map_map, Function.comp_def,
    outline_substitute hcontent]

/-- **Definitions.** Every definition that is there afterwards was there before, up to outlines of
    its parts: in the type, or in what took the place of markers. -/
theorem exists_definition_of_substitute (hcontent : content.outline = .recursive target)
    {d : TypeDesc} (hd : d ∈ (t.substitute target content).definitions) :
    ∃ d₀, (d₀ ∈ t.definitions ∨ d₀ ∈ content.definitions) ∧ d₀.name? = d.name? ∧
      d₀.abridged = d.abridged := by
  induction t with
  | recursive name =>
    rw [substitute] at hd
    split at hd
    · exact ⟨d, .inr hd, rfl, rfl⟩
    · cases hd
  | struct name members ih =>
    rw [substitute] at hd
    split at hd
    · exact ⟨d, .inl hd, rfl, rfl⟩
    · rw [definitions, definitionsOfMembers_eq_flatMap] at hd
      rcases List.mem_cons.1 hd with rfl | hd
      · exact ⟨.struct name members, .inl List.mem_cons_self, rfl,
          (abridged_struct_substitute hcontent members).symm⟩
      · obtain ⟨m', hm', hd⟩ := List.mem_flatMap.1 hd
        rw [substituteMembers_eq_map] at hm'
        obtain ⟨m, hm, rfl⟩ := List.mem_map.1 hm'
        obtain ⟨d₀, hd₀, hsame⟩ := ih m hm hd
        exact ⟨d₀, hd₀.imp_left fun h => definitions_subset_of_mem_members hm h, hsame⟩
  | union name discriminant branches ihd ihb =>
    rw [substitute] at hd
    split at hd
    · exact ⟨d, .inl hd, rfl, rfl⟩
    · rw [definitions, definitionsOfBranches_eq_flatMap] at hd
      rcases List.mem_cons.1 hd with rfl | hd
      · exact ⟨.union name discriminant branches, .inl List.mem_cons_self, rfl,
          (abridged_union_substitute hcontent discriminant branches).symm⟩
      rcases List.mem_append.1 hd with hd | hd
      · obtain ⟨d₀, hd₀, hsame⟩ := ihd hd
        exact ⟨d₀, hd₀.imp_left fun h => definitions_subset_of_discriminant h, hsame⟩
      · obtain ⟨b', hb', hd⟩ := List.mem_flatMap.1 hd
        rw [substituteBranches_eq_map] at hb'
        obtain ⟨b, hb, rfl⟩ := List.mem_map.1 hb'
        obtain ⟨d₀, hd₀, hsame⟩ := ihb b hb hd
        exact ⟨d₀, hd₀.imp_left fun h => definitions_subset_of_mem_branches hb h, hsame⟩
  | enum name enumerators => exact ⟨d, .inl hd, rfl, rfl⟩
  | sequence element bound ih => exact ih hd
  | array element length ih => exact ih hd
  | typedef name underlying ih => exact ih hd
  | _ => cases hd

/-- **Agreement.** In a type in which equal names mean equal definitions they still do, also between
    the type and its part, when one of its definitions takes the place of markers in the part. -/
theorem Agrees.substitute {root : TypeDesc} (h : root.Agrees root)
    (hcontent : content.outline = .recursive target)
    (hdefinitions : content.definitions ⊆ root.definitions)
    (ht : t.definitions ⊆ root.definitions) :
    root.Agrees (t.substitute target content) ∧
      (t.substitute target content).Agrees (t.substitute target content) := by
  have horigin : ∀ d ∈ (t.substitute target content).definitions,
      ∃ d₀ ∈ root.definitions, d₀.name? = d.name? ∧ d₀.abridged = d.abridged := by
    intro d hd
    obtain ⟨d₀, hd₀, hsame⟩ := exists_definition_of_substitute hcontent hd
    exact ⟨d₀, hd₀.elim (fun h => ht h) (fun h => hdefinitions h), hsame⟩
  constructor
  · intro d hd d' hd' hnames
    obtain ⟨d₀', hd₀', hname, habridged⟩ := horigin d' hd'
    exact (h d hd d₀' hd₀' (hnames.trans hname.symm)).trans habridged
  · intro d hd d' hd' hnames
    obtain ⟨d₀, hd₀, hname, habridged⟩ := horigin d hd
    obtain ⟨d₀', hd₀', hname', habridged'⟩ := horigin d' hd'
    have hsame := h d₀ hd₀ d₀' hd₀' ((hname.trans hnames).trans hname'.symm)
    exact (habridged.symm.trans hsame).trans habridged'

/-! ## What is admitted -/

/-- What may stand for a definition may stand for a marker of its name. -/
theorem recursive_admits {own : TypeDesc} (hcontent : content.defines target = true)
    (h : own.assignableTo content = true) : own.assignableTo (.recursive target) = true := by
  induction own with
  | typedef name underlying ih => exact ih h
  | _ => cases content <;> simp_all [assignableTo, resolve, defines]

/-- The parts of a struct do not count where a value is expected. -/
theorem assignableTo_struct_congr (own : TypeDesc) (members members' : List (Member TypeDesc)) :
    own.assignableTo (.struct name members) = own.assignableTo (.struct name members') := by
  induction own with
  | typedef _ underlying ih => exact ih
  | _ => rfl

/-- Nor do those of a union. -/
theorem assignableTo_union_congr (own discriminant discriminant' : TypeDesc)
    (branches branches' : List (Branch TypeDesc)) :
    own.assignableTo (.union name discriminant branches)
      = own.assignableTo (.union name discriminant' branches') := by
  induction own with
  | typedef _ underlying ih => exact ih
  | _ => rfl

/-- **Admission.** A type that admits a value with a definition in place of its markers admits it
    with the markers. -/
theorem assignableTo_of_substitute {own : TypeDesc} (hcontent : content.defines target = true)
    (h : own.assignableTo (t.substitute target content) = true) : own.assignableTo t = true := by
  induction t generalizing own with
  | recursive name =>
    rw [substitute] at h
    split at h
    · rename_i hname
      exact hname ▸ recursive_admits hcontent h
    · exact h
  | struct name members =>
    rw [substitute] at h
    split at h
    · exact h
    · rwa [assignableTo_struct_congr] at h
  | union name discriminant branches =>
    rw [substitute] at h
    split at h
    · exact h
    · rwa [assignableTo_union_congr] at h
  | sequence element bound ih =>
    rw [← resolve_assignableTo] at h ⊢
    cases hown : own.resolve with
    | sequence element₀ bound₀ =>
      rw [hown] at h
      obtain ⟨_, _, hsame, hfits, helement⟩ := sequence_assignableTo_iff.1 h
      obtain ⟨rfl, rfl⟩ := sequence.inj hsame
      exact sequence_assignableTo_iff.2 ⟨element, bound, rfl, hfits, ih helement⟩
    | typedef name underlying => exact absurd hown (own.resolve_ne_typedef _ _)
    | _ =>
      rw [hown] at h
      cases h
  | array element length ih =>
    rw [← resolve_assignableTo] at h ⊢
    cases hown : own.resolve with
    | array element₀ length₀ =>
      rw [hown] at h
      obtain ⟨_, hsame, helement⟩ := array_assignableTo_iff.1 h
      obtain ⟨rfl, rfl⟩ := array.inj hsame
      exact array_assignableTo_iff.2 ⟨element, rfl, ih helement⟩
    | typedef name underlying => exact absurd hown (own.resolve_ne_typedef _ _)
    | _ =>
      rw [hown] at h
      cases h
  | typedef name underlying ih =>
    rw [← assignableTo_resolve] at h ⊢
    rw [substitute, resolve_typedef, assignableTo_resolve] at h
    rw [resolve_typedef, assignableTo_resolve]
    exact ih h
  | _ => exact h

/-! ## Parts of a definition -/

/-- The type of a member of a struct, or of a branch of a union, together with that definition and
    its name. -/
inductive PartOf : (part definition : TypeDesc) → (name : String) → Prop where
  | member {name : String} {members : List (Member TypeDesc)} {m : Member TypeDesc}
      (mem : m ∈ members) : PartOf m.type (.struct name members) name
  | branch {name : String} {discriminant : TypeDesc} {branches : List (Branch TypeDesc)}
      {b : Branch TypeDesc} (mem : b ∈ branches) :
      PartOf b.type (.union name discriminant branches) name

namespace PartOf

variable {part definition : TypeDesc}

theorem name?_eq (h : PartOf part definition name) : definition.name? = some name := by
  cases h <;> rfl

theorem outline_eq (h : PartOf part definition name) : definition.outline = .recursive name := by
  cases h <;> rfl

theorem mem_definitions (h : PartOf part definition name) : definition ∈ definition.definitions := by
  cases h <;> exact List.mem_cons_self

theorem definitions_subset (h : PartOf part definition name) :
    part.definitions ⊆ definition.definitions := by
  cases h with
  | member hm => exact definitions_subset_of_mem_members hm
  | branch hb => exact definitions_subset_of_mem_branches hb

theorem closedIn (h : PartOf part definition name) (hclosed : definition.closed = true) :
    part.closedIn [name] = true := by
  cases h with
  | member hm => exact closedIn_of_mem_members hclosed hm
  | branch hb => exact closedIn_of_mem_branches hclosed hb

theorem namesakesClosed (h : PartOf part definition name)
    (hnamesakes : definition.namesakesClosed target = true) :
    part.namesakesClosed target = true := by
  cases h with
  | member hm => exact (namesakesClosed_struct_iff.1 hnamesakes).2 _ hm
  | branch hb => exact (namesakesClosed_union_iff.1 hnamesakes).2.2 _ hb

end PartOf

end ObjectBroker.TypeDesc
