import ObjectBroker.Proofs.Types.Collapse
import ObjectBroker.Proofs.Types.WellFormed

/-!
# `ObjectBroker.Proofs.Types.CollapsedChecks` — the checks on a collapsed description

A description is collapsed without being checked again. Most checks cannot tell: labels, their range
and their order are the same, and so are member names, enumerators and bounds. The one check that looks
at the type of a part is that no member of a struct is a marker for the struct itself. It looks at the
type as it is. A member that is such a marker behind a `typedef` name passes, and fails when the name
is taken away.
-/

namespace ObjectBroker

/-! ## Branch tables -/

namespace UnionType

variable (u : UnionType)

/-- Whatever is made from the labels of the branches is the same. -/
theorem flatMap_labels_collapse {β : Type} (f : List Label → List β) :
    (u.collapse.branches.flatMap fun b => f b.labels) = u.branches.flatMap fun b => f b.labels := by
  rw [collapse, TypeDesc.collapseBranches_eq_map, List.flatMap_map]

theorem explicitLabels_collapse : u.collapse.explicitLabels = u.explicitLabels :=
  u.flatMap_labels_collapse _

theorem defaultBranch?_collapse : u.collapse.defaultBranch? = u.defaultBranch? := by
  simp only [defaultBranch?, collapse, TypeDesc.collapseBranches_eq_map, List.findIdx?_map]
  rfl

theorem implicitDefault?_collapse : u.collapse.implicitDefault? = u.implicitDefault? := by
  simp only [implicitDefault?, labelRange?_collapse, explicitLabels_collapse]

theorem wellLabelled_collapse_iff : u.collapse.WellLabelled ↔ u.WellLabelled := by
  have hranges : u.collapse.labelRange?.isSome = true ↔ u.labelRange?.isSome = true := by
    rw [labelRange?_collapse]
  have hbranches : u.collapse.branches ≠ [] ↔ u.branches ≠ [] := by
    rw [collapse, TypeDesc.collapseBranches_eq_map, ne_eq, List.map_eq_nil_iff]
  have hlabels : (∀ b ∈ u.collapse.branches, b.labels ≠ []) ↔ ∀ b ∈ u.branches, b.labels ≠ [] := by
    rw [collapse, TypeDesc.collapseBranches_eq_map, List.forall_mem_map]
  have hinRange : (∀ d ∈ u.collapse.explicitLabels, u.collapse.inRange d = true) ↔
      ∀ d ∈ u.explicitLabels, u.inRange d = true := by
    simp only [explicitLabels_collapse, inRange_collapse]
  have hnodup : (u.collapse.branches.flatMap (·.labels)).Nodup ↔
      (u.branches.flatMap (·.labels)).Nodup := by
    rw [u.flatMap_labels_collapse fun labels => labels]
  constructor
  · rintro ⟨h₁, h₂, h₃, h₄, h₅⟩
    exact ⟨hranges.1 h₁, hbranches.1 h₂, hlabels.1 h₃, hinRange.1 h₄, hnodup.1 h₅⟩
  · rintro ⟨h₁, h₂, h₃, h₄, h₅⟩
    exact ⟨hranges.2 h₁, hbranches.2 h₂, hlabels.2 h₃, hinRange.2 h₄, hnodup.2 h₅⟩

/-- **Branch tables.** A table passes its checks after it is collapsed if and only if it did before. -/
theorem validate_collapse : u.collapse.validate = .ok () ↔ u.validate = .ok () := by
  rw [validate_eq_ok_iff, validate_eq_ok_iff, wellLabelled_collapse_iff, defaultBranch?_collapse,
    implicitDefault?_collapse]

end UnionType

/-! ## Members -/

theorem TypeDesc.collapse_eq_recursive_iff {t : TypeDesc} {name : String} :
    t.collapse = .recursive name ↔ t.resolve = .recursive name := by
  induction t with
  | typedef _ underlying ih => exact ih
  | _ => simp [collapse, resolve]

namespace StructType

/-- Members pass if their names are new and distinct, and none is a marker for the struct. -/
theorem validateMembers_eq_ok_iff {struct : String} {earlier : List String}
    {ms : List (Member TypeDesc)} :
    validateMembers struct earlier ms = .ok () ↔
      (∀ m ∈ ms, m.name ∉ earlier) ∧ (ms.map (·.name)).Nodup ∧
        ∀ m ∈ ms, m.type ≠ .recursive struct := by
  induction ms generalizing earlier with
  | nil => simp [validateMembers]
  | cons m ms ih =>
    rw [validateMembers]
    by_cases hname : m.name ∈ earlier
    · rw [if_pos (List.contains_iff_mem.2 hname)]
      simp [hname]
    · rw [if_neg (fun h => hname (List.contains_iff_mem.1 h))]
      by_cases hself : m.type = .recursive struct
      · rw [if_pos hself]
        simp [hself]
      · rw [if_neg hself, ih]
        rw [List.forall_mem_cons, List.forall_mem_cons, List.map_cons, List.nodup_cons]
        simp only [List.mem_cons, List.mem_map, not_or]
        constructor
        · rintro ⟨hnew, hdistinct, hothers⟩
          have hfirst : ¬∃ m' ∈ ms, m'.name = m.name := fun ⟨m', hm', heq⟩ => (hnew m' hm').1 heq
          exact ⟨⟨hname, fun m' hm' => (hnew m' hm').2⟩, ⟨hfirst, hdistinct⟩, hself, hothers⟩
        · rintro ⟨⟨-, hnew⟩, ⟨hfirst, hdistinct⟩, -, hothers⟩
          refine ⟨fun m' hm' => ⟨fun heq => ?_, hnew m' hm'⟩, hdistinct, hothers⟩
          exact hfirst ⟨m', hm', heq⟩

/-- **Which structs pass.** Those with distinct member names, none of them a marker for the struct. -/
theorem validate_eq_ok_iff {s : StructType} :
    s.validate = .ok () ↔
      (s.members.map (·.name)).Nodup ∧ ∀ m ∈ s.members, m.type ≠ .recursive s.name := by
  rw [validate, validateMembers_eq_ok_iff]
  simp only [List.not_mem_nil, not_false_eq_true, implies_true, true_and]

/-- **Members.** A struct that passed its checks passes them after it is collapsed if and only if no
    member is a marker for the struct behind `typedef` names. -/
theorem validate_collapse {s : StructType} (h : s.validate = .ok ()) :
    s.collapse.validate = .ok () ↔ ∀ m ∈ s.members, m.type.resolve ≠ .recursive s.name := by
  have hnames : s.collapse.members.map (·.name) = s.members.map (·.name) := by
    rw [collapse, TypeDesc.collapseMembers_eq_map, List.map_map]
    rfl
  rw [validate_eq_ok_iff, hnames, collapse, TypeDesc.collapseMembers_eq_map, List.forall_mem_map]
  simp only [ne_eq, TypeDesc.collapse_eq_recursive_iff, (validate_eq_ok_iff.1 h).1, true_and]

end StructType

/-! ## The whole tree -/

namespace TypeDesc

/-- Whether no member of a struct in the description is a marker for that struct behind `typedef`
    names. -/
def noSelfMember (t : TypeDesc) : Bool :=
  t.everyNode fun
    | .struct name members => members.all fun m => m.type.resolve != .recursive name
    | _ => true

theorem noSelfMember_struct_iff {name : String} {members : List (Member TypeDesc)} :
    (struct name members).noSelfMember = true ↔
      (∀ m ∈ members, m.type.resolve ≠ .recursive name) ∧
        ∀ m ∈ members, m.type.noSelfMember = true := by
  simp only [noSelfMember, everyNode_struct_iff, List.all_eq_true, bne_iff_ne]

theorem noSelfMember_union_iff {name : String} {discriminant : TypeDesc}
    {branches : List (Branch TypeDesc)} :
    (union name discriminant branches).noSelfMember = true ↔
      discriminant.noSelfMember = true ∧ ∀ b ∈ branches, b.type.noSelfMember = true := by
  simp only [noSelfMember, everyNode_union_iff, true_and]

theorem noSelfMember_sequence {element : TypeDesc} {bound : Option UInt32} :
    (sequence element bound).noSelfMember = element.noSelfMember := by
  simp only [noSelfMember, everyNode, Bool.true_and]

theorem noSelfMember_array {element : TypeDesc} {length : UInt32} :
    (array element length).noSelfMember = element.noSelfMember := by
  simp only [noSelfMember, everyNode, Bool.true_and]

theorem noSelfMember_typedef {name : String} {underlying : TypeDesc} :
    (typedef name underlying).noSelfMember = underlying.noSelfMember := by
  simp only [noSelfMember, everyNode, Bool.true_and]

/-- A sequence passes unless its bound is zero. -/
theorem validate_sequence_eq_ok_iff {element : TypeDesc} {bound : Option UInt32} :
    (sequence element bound).validate = .ok () ↔ bound ≠ some 0 := by
  unfold validate
  split <;> simp_all

/-- **Checks.** When every node of a description has passed its checks, every node of the collapsed
    description passes them if and only if no struct has itself as a member behind `typedef`
    names. -/
theorem wellFormed_collapse_iff {t : TypeDesc} (h : t.wellFormed = true) :
    t.collapse.wellFormed = true ↔ t.noSelfMember = true := by
  induction t with
  | struct name members ih =>
    obtain ⟨hnode, hmembers⟩ := wellFormed_struct_iff.1 h
    have hself := StructType.validate_collapse (s := ⟨name, members⟩) hnode
    rw [collapse, wellFormed_struct_iff, noSelfMember_struct_iff]
    refine and_congr hself ?_
    rw [collapseMembers_eq_map, List.forall_mem_map]
    exact forall₂_congr fun m hm => ih m hm (hmembers m hm)
  | union name discriminant branches ihd ihb =>
    obtain ⟨hnode, hdiscriminant, hbranches⟩ := wellFormed_union_iff.1 h
    have hself := (UnionType.validate_collapse ⟨name, discriminant, branches⟩).2 hnode
    rw [collapse, wellFormed_union_iff, noSelfMember_union_iff]
    refine (and_iff_right hself).trans (and_congr (ihd hdiscriminant) ?_)
    rw [collapseBranches_eq_map, List.forall_mem_map]
    exact forall₂_congr fun b hb => ihb b hb (hbranches b hb)
  | sequence element bound ih =>
    obtain ⟨hnode, helement⟩ := wellFormed_sequence_iff.1 h
    have hself : (sequence element.collapse bound).validate = .ok () :=
      validate_sequence_eq_ok_iff.2 (validate_sequence_eq_ok_iff.1 hnode)
    rw [collapse, wellFormed_sequence_iff, noSelfMember_sequence, ih helement]
    exact and_iff_right hself
  | array element length ih =>
    rw [collapse, wellFormed_array_iff, noSelfMember_array]
    exact ih (wellFormed_array_iff.1 h)
  | typedef name underlying ih =>
    rw [collapse, noSelfMember_typedef]
    exact ih (wellFormed_typedef_iff.1 h)
  | _ => exact iff_of_true h rfl

/-- **Markers.** What a marker stands for is still around it in the collapsed description. -/
theorem closedIn_collapse (t : TypeDesc) (enclosing : List String) :
    t.collapse.closedIn enclosing = t.closedIn enclosing := by
  induction t generalizing enclosing with
  | struct name members ih =>
    rw [collapse, closedIn, closedIn, collapseMembers_eq_map, membersClosedIn_eq_all,
      membersClosedIn_eq_all, List.all_map]
    rw [Bool.eq_iff_iff, List.all_eq_true, List.all_eq_true]
    exact forall₂_congr fun m hm => Iff.of_eq (congrArg (· = true) (ih m hm (name :: enclosing)))
  | union name discriminant branches ihd ihb =>
    rw [collapse, closedIn, closedIn, collapseBranches_eq_map, branchesClosedIn_eq_all,
      branchesClosedIn_eq_all, List.all_map, ihd]
    refine congrArg _ (Bool.eq_iff_iff.2 ?_)
    rw [List.all_eq_true, List.all_eq_true]
    exact forall₂_congr fun b hb => Iff.of_eq (congrArg (· = true) (ihb b hb (name :: enclosing)))
  | sequence element bound ih => exact ih enclosing
  | array element length ih => exact ih enclosing
  | typedef name underlying ih => exact ih enclosing
  | _ => rfl

end TypeDesc

end ObjectBroker
