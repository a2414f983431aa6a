import Mathlib.Data.List.Forall2
import Mathlib.Data.List.Nodup
import Mathlib.Data.List.Perm.Subperm
import ObjectBroker.Proofs.Types.BranchTable
import ObjectBroker.Types.Assignable

/-!
# `ObjectBroker.Proofs.Types.Compatible` — branch tables that agree

Two peers compare their branch tables once and then exchange discriminants. The comparison takes the
branches in pairs, and of two label lists it looks at the lengths and at whether one has the labels of
the other. That is the whole of it only because no label occurs twice in a checked table: then a list
within another of the same length is a rearrangement of it. So every discriminant selects the same
branch on both sides, and it makes no difference which side compares.
-/

namespace ObjectBroker

/-! ## Label lists -/

namespace Branch

variable {α : Type} {mine theirs : Branch α}

/-- As many labels without repetition, all of which the other list has, are a rearrangement of it. -/
theorem perm_of_sameLabels (hmine : mine.labels.Nodup) (h : mine.sameLabels theirs = true) :
    mine.labels.Perm theirs.labels := by
  simp only [sameLabels, Bool.and_eq_true, beq_iff_eq, List.all_eq_true, List.contains_iff_mem] at h
  obtain ⟨hlength, hsub⟩ := h
  exact (List.subperm_of_subset hmine hsub).perm_of_length_le (Nat.le_of_eq hlength.symm)

theorem sameLabels_of_perm (h : mine.labels.Perm theirs.labels) : mine.sameLabels theirs = true := by
  simp only [sameLabels, Bool.and_eq_true, beq_iff_eq, List.all_eq_true, List.contains_iff_mem]
  exact ⟨h.length_eq, h.subset⟩

/-- Without repetition it makes no difference which list is looked through. -/
theorem sameLabels_comm (hmine : mine.labels.Nodup) (htheirs : theirs.labels.Nodup) :
    mine.sameLabels theirs = theirs.sameLabels mine := by
  rw [Bool.eq_iff_iff]
  constructor
  · exact fun h => sameLabels_of_perm (perm_of_sameLabels hmine h).symm
  · exact fun h => sameLabels_of_perm (perm_of_sameLabels htheirs h).symm

end Branch

namespace UnionType

variable {a b : UnionType}

/-- Each branch of a checked table has distinct labels. -/
theorem nodup_labels {branch : Branch TypeDesc} (h : a.validate = .ok ()) (hmem : branch ∈ a.branches) :
    branch.labels.Nodup :=
  (List.nodup_flatMap.1 (labels_nodup h)).1 branch hmem

/-! ## What the comparison establishes -/

/-- Two branches with the same labels and interchangeable types. -/
def Twins (mine theirs : Branch TypeDesc) : Prop :=
  mine.sameLabels theirs = true ∧ mine.type.interchangeable theirs.type = true

/-- Two tables of one name, with interchangeable discriminants and with the branches of the one, pair
    by pair, like those of the other. -/
structure Paired (mine theirs : UnionType) : Prop where
  name : mine.name = theirs.name
  discriminant : mine.discriminant.interchangeable theirs.discriminant = true
  defaults : mine.defaultBranch?.isSome = theirs.defaultBranch?.isSome
  branches : List.Forall₂ Twins mine.branches theirs.branches

theorem branchDifference?_eq_none_iff {mine theirs : List (Branch TypeDesc)}
    (hlength : mine.length = theirs.length) :
    branchDifference? mine theirs = none ↔ List.Forall₂ Twins mine theirs := by
  induction mine generalizing theirs with
  | nil =>
    obtain rfl := List.length_eq_zero_iff.1 hlength.symm
    exact ⟨fun _ => .nil, fun _ => rfl⟩
  | cons first mine ih =>
    cases theirs with
    | nil => cases hlength
    | cons other theirs =>
      rw [List.forall₂_cons, ← ih (Nat.succ.inj hlength), branchDifference?, Twins]
      cases first.sameLabels other <;> cases first.type.interchangeable other.type <;> simp

/-- The comparison finds nothing exactly if the tables are paired. -/
theorem verifyCompatible_eq_ok_iff_paired : a.verifyCompatible b = .ok () ↔ a.Paired b := by
  rw [verifyCompatible_eq_ok_iff]
  constructor
  · intro h
    unfold difference? at h
    split at h
    · cases h
    rename_i hname
    split at h
    · cases h
    rename_i hdiscriminant
    split at h
    · cases h
    rename_i hdefaults
    split at h
    · cases h
    rename_i hlength
    exact ⟨by simpa using hname, by simpa using hdiscriminant, by simpa using hdefaults,
      (branchDifference?_eq_none_iff (by simpa using hlength)).1 h⟩
  · intro h
    have hlength := h.branches.length_eq
    simp only [difference?, h.name, h.discriminant, h.defaults, hlength]
    simpa using (branchDifference?_eq_none_iff hlength).2 h.branches

/-! ## Selection -/

/-- Where two lists agree pair by pair on a property, the first item with it has one place in both. -/
theorem findIdx?_eq_of_forall₂ {α β : Type} {p : α → Bool} {q : β → Bool} {xs : List α} {ys : List β}
    (h : List.Forall₂ (fun x y => p x = q y) xs ys) : xs.findIdx? p = ys.findIdx? q := by
  induction h with
  | nil => rfl
  | cons hfirst _ ih => rw [List.findIdx?_cons, List.findIdx?_cons, hfirst, ih]

/-- Paired tables have every label in the same places. -/
theorem Paired.findIdx?_eq (ha : a.validate = .ok ()) (h : a.Paired b) (label : Label) :
    a.branches.findIdx? (·.labels.contains label) = b.branches.findIdx? (·.labels.contains label) := by
  refine findIdx?_eq_of_forall₂ (List.forall₂_iff_zip.2 ⟨h.branches.length_eq, fun {x y} hxy => ?_⟩)
  have htwins := (List.forall₂_iff_zip.1 h.branches).2 hxy
  have hperm := Branch.perm_of_sameLabels (nodup_labels ha (List.of_mem_zip hxy).1) htwins.1
  rw [Bool.eq_iff_iff, List.contains_iff_mem, List.contains_iff_mem]
  exact hperm.mem_iff

/-- So every discriminant selects the same branch, by its own label or by default. -/
theorem Paired.select?_eq (ha : a.validate = .ok ()) (h : a.Paired b) (d : Int64) :
    a.select? d = b.select? d := by
  have hdefault : a.defaultBranch? = b.defaultBranch? := h.findIdx?_eq ha .default
  rw [select?, select?, h.findIdx?_eq ha (.value d), hdefault]

theorem Paired.symm (ha : a.validate = .ok ()) (hb : b.validate = .ok ()) (h : a.Paired b) :
    b.Paired a := by
  refine ⟨h.name.symm, ?discriminant, h.defaults.symm, ?branches⟩
  case discriminant =>
    rw [TypeDesc.interchangeable_comm]
    exact h.discriminant
  case branches =>
    refine List.Forall₂.flip (List.forall₂_iff_zip.2 ⟨h.branches.length_eq, fun {x y} hxy => ?_⟩)
    obtain ⟨hlabels, htypes⟩ := (List.forall₂_iff_zip.1 h.branches).2 hxy
    obtain ⟨hx, hy⟩ := List.of_mem_zip hxy
    constructor
    · rw [Branch.sameLabels_comm (nodup_labels hb hy) (nodup_labels ha hx)]
      exact hlabels
    · rw [TypeDesc.interchangeable_comm]
      exact htypes

/-- **Tables that agree.** Where one of two checked tables finds the other compatible, every
    discriminant selects the same branch in both, or none in either; and then the other finds the one
    compatible, too. -/
theorem compatible_tables (ha : a.validate = .ok ()) (hb : b.validate = .ok ()) :
    (a.verifyCompatible b = .ok () → ∀ d, a.select? d = b.select? d) ∧
    (a.verifyCompatible b = .ok () ↔ b.verifyCompatible a = .ok ()) := by
  simp only [verifyCompatible_eq_ok_iff_paired]
  exact ⟨fun h d => h.select?_eq ha d, fun h => h.symm ha hb, fun h => h.symm hb ha⟩

/-- A reading in whole units or as a text, with the labels of the first branch in any order. -/
def reading (labels : List Label) (whole : TypeDesc) : UnionType :=
  ⟨"Reading", .scalar .short, [⟨labels, "whole", whole⟩, ⟨[.default], "text", .string⟩]⟩

/-- One peer lists the labels the other way around and has another name for the type. -/
theorem compatible_tables_reading :
    let a := reading [.value 1, .value (-2)] (.scalar .long)
    let units := TypeDesc.typedef "Units" (.scalar .long)
    let b := reading [.value (-2), .value 1] units
    (a.validate = .ok () ∧ b.validate = .ok () ∧ a.verifyCompatible b = .ok ()) ∧
      (∀ d, a.select? d = b.select? d) ∧ b.verifyCompatible a = .ok () := by
  intro a units b
  have ha : a.validate = .ok () := by decide
  have hb : b.validate = .ok () := by decide
  have hab : a.verifyCompatible b = .ok () := by decide
  obtain ⟨hselect, hsymm⟩ := compatible_tables ha hb
  exact ⟨⟨ha, hb, hab⟩, hselect hab, hsymm.1 hab⟩

end UnionType

end ObjectBroker
