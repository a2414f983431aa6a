import Mathlib.Data.List.Nodup
import Mathlib.Data.List.Perm.Subperm
import ObjectBroker.Proofs.Types.BranchTable

/-!
# `ObjectBroker.Proofs.Types.ImplicitDefault` — what is left over for the default branch

A default branch that no discriminant was chosen for is activated with a number that no label names.
The numbers from zero up are tried, one more than there are labels, and that is enough: so many
distinct numbers cannot all be labels. What is found is therefore the least number from zero up that is
left over, and if nothing is found, nothing from zero up is left over.

Numbers below zero are never tried. Where the discriminant type has any, a table can label every number
from zero up and still leave some over, and its default branch is refused although they reach it.
-/

namespace ObjectBroker.UnionType

variable {u : UnionType} {range : LabelRange} {d : Int64}

theorem inRange_iff (h : u.labelRange? = some range) :
    u.inRange d = true ↔ range.least.toInt ≤ d.toInt ∧ d.toInt ≤ range.greatest.toInt := by
  rw [inRange, h, Option.any_some, LabelRange.contains_eq_true_iff]

/-- No discriminant type has only positive discriminants. -/
theorem least_le_zero (h : u.labelRange? = some range) : range.least.toInt ≤ 0 := by
  unfold labelRange? at h
  split at h
  · rename_i kind _
    cases kind <;> cases h <;> decide
  · cases h
    exact Int.le_refl 0
  · cases h

/-! ## Candidates -/

/-- The numbers from zero up to the number of labels, as far as the range goes. -/
def candidates (u : UnionType) (range : LabelRange) : List Int64 :=
  (((List.range (u.explicitLabels.length + 1)).map Int.ofNat).filter
    (· ≤ range.greatest.toInt)).map Int64.ofInt

theorem implicitDefault?_eq_find? (h : u.labelRange? = some range) :
    u.implicitDefault? = (u.candidates range).find? fun d => !u.explicitLabels.contains d := by
  have hstart : max range.least 0 = 0 :=
    if_pos (Int64.le_iff_toInt_le.2 (least_le_zero h))
  simp only [implicitDefault?, h, Option.bind_eq_bind, Option.bind_some, hstart, Int64.toInt_zero,
    Int.zero_add, candidates]
  rfl

theorem toInt_ofInt_of_le_greatest {k : Nat} (h : (k : Int) ≤ range.greatest.toInt) :
    (Int64.ofInt k).toInt = k := by
  have hleast : Int64.minValue.toInt ≤ 0 := by decide
  have hgreatest := range.greatest.toInt_lt
  exact Int64.toInt_ofInt_of_le (by omega) (by omega)

theorem mem_candidates : d ∈ u.candidates range ↔
    0 ≤ d.toInt ∧ d.toInt ≤ range.greatest.toInt ∧ d.toInt ≤ u.explicitLabels.length := by
  simp only [candidates, List.mem_map, List.mem_filter, List.mem_range, decide_eq_true_eq]
  constructor
  · rintro ⟨_, ⟨⟨k, hk, rfl⟩, hle⟩, rfl⟩
    have hback := toInt_ofInt_of_le_greatest hle
    simp only [Int.ofNat_eq_natCast] at hle ⊢
    omega
  · rintro ⟨hzero, hgreatest, hlength⟩
    have hcast : Int.ofNat d.toInt.toNat = d.toInt := Int.toNat_of_nonneg hzero
    exact ⟨d.toInt, ⟨⟨d.toInt.toNat, by omega, hcast⟩, hgreatest⟩, Int64.ofInt_toInt d⟩

/-- The candidates are tried in increasing order. -/
theorem pairwise_lt_candidates (u : UnionType) (range : LabelRange) :
    (u.candidates range).Pairwise (· < ·) := by
  have hnumbers : ((List.range (u.explicitLabels.length + 1)).map Int.ofNat).Pairwise (· < ·) :=
    List.pairwise_map.2 (List.pairwise_lt_range.imp Int.ofNat_lt.2)
  rw [candidates, List.pairwise_map]
  refine (hnumbers.filter _).imp_of_mem fun {a b} ha hb hlt => ?_
  simp only [List.mem_filter, List.mem_map, decide_eq_true_eq] at ha hb
  obtain ⟨⟨j, -, rfl⟩, hj⟩ := ha
  obtain ⟨⟨k, -, rfl⟩, hk⟩ := hb
  simp only [Int.ofNat_eq_natCast] at hj hk hlt ⊢
  rwa [Int64.lt_iff_toInt_lt, toInt_ofInt_of_le_greatest hj, toInt_ofInt_of_le_greatest hk]

/-- Where the range does not end before them, there is one candidate more than there are labels. -/
theorem length_candidates (u : UnionType) (range : LabelRange)
    (h : (u.explicitLabels.length : Int) ≤ range.greatest.toInt) :
    (u.candidates range).length = u.explicitLabels.length + 1 := by
  have hall : ((List.range (u.explicitLabels.length + 1)).map Int.ofNat).filter
      (· ≤ range.greatest.toInt) = (List.range (u.explicitLabels.length + 1)).map Int.ofNat := by
    rw [List.filter_eq_self]
    intro a ha
    obtain ⟨k, hk, rfl⟩ := List.mem_map.1 ha
    have hk := List.mem_range.1 hk
    rw [decide_eq_true_eq, Int.ofNat_eq_natCast]
    omega
  rw [candidates, hall, List.length_map, List.length_map, List.length_range]

/-- If every candidate is labelled, then the range has ended: there are more candidates than labels
    otherwise. So every number from zero up in the range is labelled. -/
theorem mem_explicitLabels_of_candidates (h : u.candidates range ⊆ u.explicitLabels)
    (hzero : 0 ≤ d.toInt) (hd : d.toInt ≤ range.greatest.toInt) : d ∈ u.explicitLabels := by
  have hnodup : (u.candidates range).Nodup :=
    (pairwise_lt_candidates u range).imp fun hlt heq => by
      subst heq
      exact Int64.lt_irrefl hlt
  have hfew : (u.candidates range).length ≤ u.explicitLabels.length :=
    (List.subperm_of_subset hnodup h).length_le
  by_cases hlabels : d.toInt ≤ u.explicitLabels.length
  · exact h (mem_candidates.2 ⟨hzero, hd, hlabels⟩)
  · have hmany := length_candidates u range (by omega)
    omega

/-! ## The discriminant left over -/

/-- In an increasing list, what is found is the least item with the property. -/
theorem eq_false_of_lt_of_find? {items : List Int64} {p : Int64 → Bool} {e : Int64}
    (hsorted : items.Pairwise (· < ·)) (h : items.find? p = some d) (he : e ∈ items)
    (hlt : e < d) : p e = false := by
  obtain ⟨-, front, back, rfl, hfront⟩ := List.find?_eq_some_iff_append.1 h
  obtain ⟨-, hsorted, -⟩ := List.pairwise_append.1 hsorted
  rcases List.mem_append.1 he with he | he
  · simpa using hfront e he
  · rcases List.mem_cons.1 he with rfl | he
    · exact absurd hlt Int64.lt_irrefl
    · exact absurd (Int64.lt_trans hlt ((List.pairwise_cons.1 hsorted).1 e he)) Int64.lt_irrefl

/-- **The least number left over.** What is found for the default branch is the least number from
    zero up that the discriminant type can carry and no label names. -/
theorem implicitDefault?_eq_some (h : u.implicitDefault? = some d) :
    0 ≤ d ∧ u.inRange d = true ∧ d ∉ u.explicitLabels ∧
      ∀ e, 0 ≤ e → e < d → e ∈ u.explicitLabels := by
  have hfree := not_mem_explicitLabels_of_implicitDefault? h
  obtain ⟨range, hrange, -⟩ := Option.bind_eq_some_iff.1 h
  rw [implicitDefault?_eq_find? hrange] at h
  obtain ⟨hzero, hgreatest, hlength⟩ := mem_candidates.1 (List.mem_of_find?_eq_some h)
  have hleast := least_le_zero hrange
  refine ⟨Int64.le_iff_toInt_le.2 hzero, ?_, hfree, ?_⟩
  · rw [inRange_iff hrange]
    omega
  · intro e he hlt
    have hzero' : 0 ≤ e.toInt := Int64.le_iff_toInt_le.1 he
    have hlt' : e.toInt < d.toInt := Int64.lt_iff_toInt_lt.1 hlt
    have hcandidate : e ∈ u.candidates range := mem_candidates.2 (by omega)
    simpa using eq_false_of_lt_of_find? (pairwise_lt_candidates u range) h hcandidate hlt

/-- Nothing is left over exactly if every number from zero up that the discriminant type can carry is
    labelled. -/
theorem implicitDefault?_eq_none_iff : u.implicitDefault? = none ↔
    ∀ d, 0 ≤ d → u.inRange d = true → d ∈ u.explicitLabels := by
  cases hrange : u.labelRange? with
  | none =>
    have hout : ∀ d, u.inRange d = false := fun d => by rw [inRange, hrange]; rfl
    simp [implicitDefault?, hrange, hout]
  | some range =>
    have hleast := least_le_zero hrange
    rw [implicitDefault?_eq_find? hrange, List.find?_eq_none]
    constructor
    · intro hall d hzero hd
      have hsub : u.candidates range ⊆ u.explicitLabels := fun e he => by simpa using hall e he
      exact mem_explicitLabels_of_candidates hsub (Int64.le_iff_toInt_le.1 hzero)
        ((inRange_iff hrange).1 hd).2
    · intro hall d hd
      obtain ⟨hzero, hgreatest, -⟩ := mem_candidates.1 hd
      have hmem := hall d (Int64.le_iff_toInt_le.2 hzero) ((inRange_iff hrange).2 (by omega))
      simpa using hmem

/-- The discriminant that a branch of a checked table is activated with is in range. -/
theorem inRange_of_activation? {b : Branch TypeDesc} (h : u.validate = .ok ()) (hb : b ∈ u.branches)
    (hd : u.activation? b = some d) : u.inRange d = true := by
  unfold activation? at hd
  split at hd
  · rename_i e labels hlabels
    obtain rfl : e = d := Option.some.inj hd
    exact inRange_of_mem_explicitLabels h (mem_explicitLabels.2 ⟨b, hb, by simp [hlabels]⟩)
  · exact (implicitDefault?_eq_some hd).2.1

/-! ## The default branch -/

/-- **What is left over for the default branch.** The number found is in range, has no label, is the
    least such number from zero up, and selects the default branch. Nothing is found exactly if every
    number from zero up in the range is labelled; where the range has no others, that is every number
    in the range. On that ground alone, and only in a table that is in order otherwise, is a default
    branch refused as unreachable. -/
theorem leftOver_for_default (u : UnionType) :
    (∀ d, u.implicitDefault? = some d →
      u.inRange d = true ∧ d ∉ u.explicitLabels ∧
        (∀ e, 0 ≤ e → e < d → e ∈ u.explicitLabels) ∧ u.select? d = u.defaultBranch?) ∧
    (u.implicitDefault? = none ↔ ∀ d, 0 ≤ d → u.inRange d = true → d ∈ u.explicitLabels) ∧
    ((∀ d, u.inRange d = true → 0 ≤ d) →
      (u.implicitDefault? = none ↔ ∀ d, u.inRange d = true → d ∈ u.explicitLabels)) ∧
    (u.validate = .error (.invalidDescriptor (.unreachableDefault u.name)) ↔
      u.WellLabelled ∧ u.defaultBranch?.isSome = true ∧
        ∀ d, 0 ≤ d → u.inRange d = true → d ∈ u.explicitLabels) := by
  refine ⟨?found, implicitDefault?_eq_none_iff, ?unsigned, ?refused⟩
  case found =>
    intro d hd
    obtain ⟨-, hrange, hfree, hleast⟩ := implicitDefault?_eq_some hd
    exact ⟨hrange, hfree, hleast, select?_of_not_mem_explicitLabels hfree⟩
  case unsigned =>
    intro hunsigned
    rw [implicitDefault?_eq_none_iff]
    exact ⟨fun hall d hd => hall d (hunsigned d hd) hd, fun hall d _ hd => hall d hd⟩
  case refused =>
    rw [validate_eq_unreachable_iff, implicitDefault?_eq_none_iff]

/-! ## Numbers below zero -/

/-- A union with a label for every number below `n`, and with a default branch. -/
def numbered (kind : Scalar) (n : Nat) : UnionType :=
  ⟨"Step", .scalar kind,
    [⟨(List.range n).map fun k => .value (Int64.ofNat k), "up", .scalar .octet⟩,
      ⟨[.default], "down", .scalar .boolean⟩]⟩

theorem mem_explicitLabels_numbered {kind : Scalar} {n : Nat} (hn : n ≤ 0x8000000000000000) :
    d ∈ (numbered kind n).explicitLabels ↔ 0 ≤ d ∧ d.toInt < n := by
  have hlabels : d ∈ (numbered kind n).explicitLabels ↔ ∃ k < n, Int64.ofNat k = d := by
    simp [mem_explicitLabels, numbered]
  rw [hlabels, Int64.le_iff_toInt_le, Int64.toInt_zero]
  constructor
  · rintro ⟨k, hk, rfl⟩
    rw [Int64.toInt_ofNat_of_lt (by omega)]
    omega
  · rintro ⟨hzero, hlt⟩
    refine ⟨d.toInt.toNat, by omega, Int64.toInt_inj.1 ?_⟩
    rw [Int64.toInt_ofNat_of_lt (by omega)]
    omega

theorem nodup_numbered {kind : Scalar} {n : Nat} (hn : n ≤ 0x8000000000000000) :
    ((numbered kind n).branches.flatMap (·.labels)).Nodup := by
  have hdistinct : ((List.range n).map fun k => Label.value (Int64.ofNat k)).Nodup := by
    refine List.nodup_range.map_on fun j hj k hk heq => ?_
    have hj := List.mem_range.1 hj
    have hk := List.mem_range.1 hk
    have hints := congrArg Int64.toInt (Label.value.inj heq)
    rw [Int64.toInt_ofNat_of_lt (by omega), Int64.toInt_ofNat_of_lt (by omega)] at hints
    exact Int.ofNat.inj hints
  simpa [numbered, List.nodup_append] using hdistinct

theorem wellLabelled_numbered {kind : Scalar} {n : Nat} (hn : n ≤ 0x8000000000000000)
    (hpos : 0 < n) (hrange : (numbered kind n).labelRange?.isSome = true)
    (hin : ∀ e : Int64, 0 ≤ e → e.toInt < n → (numbered kind n).inRange e = true) :
    (numbered kind n).WellLabelled := by
  refine ⟨hrange, List.cons_ne_nil _ _, ?labels, ?inRange, nodup_numbered hn⟩
  case labels =>
    intro b hb
    simp only [numbered, List.mem_cons, List.not_mem_nil, or_false] at hb
    rcases hb with rfl | rfl
    · intro hnil
      have hlength := congrArg List.length hnil
      rw [List.length_map, List.length_range, List.length_nil] at hlength
      omega
    · exact List.cons_ne_nil _ _
  case inRange =>
    intro e he
    obtain ⟨hzero, hlt⟩ := (mem_explicitLabels_numbered hn).1 he
    exact hin e hzero hlt

theorem defaultBranch?_numbered {kind : Scalar} {n : Nat} (hn : n ≤ 0x8000000000000000) :
    (numbered kind n).defaultBranch? = some 1 :=
  findIdx?_of_mem_labels (nodup_numbered hn) (b := ⟨[.default], "down", .scalar .boolean⟩) rfl
    (List.mem_singleton_self _)

/-- Every number from zero up is labelled and none below zero. The default branch is refused as
    unreachable, and each number below zero selects it. -/
theorem refused_and_reachable :
    ∃ (u : UnionType) (d : Int64), u.labelRange? = some ⟨-0x8000, 0x7FFF⟩ ∧
      (∀ e ∈ u.explicitLabels, u.inRange e = true) ∧
      u.implicitDefault? = none ∧
      u.validate = .error (.invalidDescriptor (.unreachableDefault u.name)) ∧
      u.inRange d = true ∧ d ∉ u.explicitLabels ∧ u.select? d = some 1 ∧
      u.defaultBranch? = some 1 := by
  have hn : 0x8000 ≤ 0x8000000000000000 := by decide
  have hmem : ∀ e, e ∈ (numbered .short 0x8000).explicitLabels ↔ 0 ≤ e ∧ e.toInt < 0x8000 :=
    fun e => mem_explicitLabels_numbered hn
  have hrange : (numbered .short 0x8000).labelRange? = some ⟨-0x8000, 0x7FFF⟩ := rfl
  have hin : ∀ e, (numbered .short 0x8000).inRange e = true ↔ -0x8000 ≤ e.toInt ∧ e.toInt ≤ 0x7FFF :=
    fun e => inRange_iff hrange
  have hlabelled : (numbered .short 0x8000).WellLabelled := by
    refine wellLabelled_numbered hn (by decide) (by rw [hrange]; rfl) fun e hzero hlt => ?_
    rw [Int64.le_iff_toInt_le, Int64.toInt_zero] at hzero
    exact (hin e).2 (by omega)
  have hnone : (numbered .short 0x8000).implicitDefault? = none := by
    rw [implicitDefault?_eq_none_iff]
    intro e hzero he
    have he := (hin e).1 he
    exact (hmem e).2 ⟨hzero, by omega⟩
  have hdefault : (numbered .short 0x8000).defaultBranch? = some 1 := defaultBranch?_numbered hn
  have hfree : (-1 : Int64) ∉ (numbered .short 0x8000).explicitLabels := by
    rw [hmem]
    decide
  refine ⟨numbered .short 0x8000, -1, hrange, hlabelled.inRange, hnone, ?_, (hin _).2 (by decide),
    hfree, ?_, hdefault⟩
  · exact validate_eq_unreachable_iff.2 ⟨hlabelled, by rw [hdefault]; rfl, hnone⟩
  · rw [select?_of_not_mem_explicitLabels hfree, hdefault]

end ObjectBroker.UnionType
