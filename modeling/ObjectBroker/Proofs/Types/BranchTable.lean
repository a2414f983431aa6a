import ObjectBroker.Types.Checked
import ObjectBroker.Values.Zero

/-!
# `ObjectBroker.Proofs.Types.BranchTable` — checked branch tables

A branch table is checked label by label, with the labels met so far at hand. What a reader of the
table relies on is simpler: whatever a label names can occur as a discriminant at all, no label
occurs twice, and so the discriminant a branch is activated with selects that branch and no other.

## Contents
- `UnionType.mem_explicitLabels`: a discriminant that a label names; `UnionType.mem_of_selected?`
  and `UnionType.selected?_of_branches_eq_map` on the branch a discriminant selects.
- `LabelTally.Counts`: what a tally records of the labels added to it, and
  `LabelTally.exists_foldlM_addBranch`: when labels can be added.
- `UnionType.WellLabelled`: a table in order; `UnionType.validate_eq_ok_iff` and
  `UnionType.validate_eq_unreachable_iff`: which tables pass, and which are refused for their default
  branch.
- `UnionType.inRange_of_mem_explicitLabels`, `UnionType.labels_nodup`: labels of a checked table are in
  range and distinct.
- `UnionType.select?_of_activation?`: a branch is selected by its own discriminant;
  `UnionType.exists_activation`: it has one.
-/

namespace ObjectBroker.UnionType

theorem mem_explicitLabels {u : UnionType} {d : Int64} :
    d ∈ u.explicitLabels ↔ ∃ b ∈ u.branches, Label.value d ∈ b.labels := by
  have hvalue : ∀ l : Label, l.value? = some d ↔ l = .value d := by
    intro l
    cases l <;> simp [Label.value?]
  simp only [explicitLabels, List.mem_flatMap, List.mem_filterMap, hvalue, exists_eq_right]

/-- The branch a discriminant selects is a branch of the union. -/
theorem mem_of_selected? {u : UnionType} {d : Int64} {b : Branch TypeDesc}
    (h : u.selected? d = some b) : b ∈ u.branches := by
  obtain ⟨i, -, hi⟩ := Option.bind_eq_some_iff.1 h
  exact List.mem_of_getElem? hi

/-- Selection looks at labels only, so it finds the same branch under other types. -/
theorem selected?_of_branches_eq_map {u v : UnionType} (f : TypeDesc → TypeDesc)
    (h : v.branches = u.branches.map fun b => { b with type := f b.type }) (d : Int64) :
    v.selected? d = (u.selected? d).map fun b => { b with type := f b.type } := by
  have hselect : v.select? d = u.select? d := by
    simp only [select?, defaultBranch?, h, List.findIdx?_map]
    rfl
  rw [selected?, hselect, selected?, Option.map_bind]
  simp only [h, List.getElem?_map]
  rfl

/-! ## Labels in range -/

/-- Where a fold over a list succeeds, each item of the list was a step of it. -/
theorem exists_step_of_foldlM {σ α ε : Type} {f : σ → α → Except ε σ} {start stop : σ}
    {items : List α} (h : items.foldlM f start = .ok stop) {x : α} (hx : x ∈ items) :
    ∃ before after, f before x = .ok after := by
  induction items generalizing start with
  | nil => cases hx
  | cons first items ih =>
    rw [List.foldlM_cons, Except.bind_eq_ok_iff] at h
    obtain ⟨next, hfirst, h⟩ := h
    rcases List.mem_cons.1 hx with rfl | hx
    · exact ⟨start, next, hfirst⟩
    · exact ih h hx

/-- Where it fails, one of the items did. -/
theorem exists_step_of_foldlM_error {σ α ε : Type} {f : σ → α → Except ε σ} {start : σ} {e : ε}
    {items : List α} (h : items.foldlM f start = .error e) :
    ∃ before, ∃ x ∈ items, f before x = .error e := by
  induction items generalizing start with
  | nil => cases h
  | cons first items ih =>
    rw [List.foldlM_cons] at h
    cases hfirst : f start first with
    | error e' =>
      rw [hfirst] at h
      cases h
      exact ⟨start, first, List.mem_cons_self .., hfirst⟩
    | ok next =>
      rw [hfirst] at h
      obtain ⟨before, x, hx, hstep⟩ := ih h
      exact ⟨before, x, List.mem_cons_of_mem _ hx, hstep⟩

namespace LabelTally

variable {union : String} {range : LabelRange} {d : Int64} {tally tally' : LabelTally}

/-- A label is only added if it is in range. -/
theorem contains_of_add (h : tally.add union range (.value d) = .ok tally') :
    range.contains d = true := by
  unfold add at h
  by_cases hrange : range.contains d = true
  · exact hrange
  · simp only [hrange] at h
    cases h

/-- A branch is added only with labels, and adding it is adding them. -/
theorem foldlM_add_of_addBranch {b : Branch TypeDesc}
    (h : tally.addBranch union range b = .ok tally') :
    b.labels ≠ [] ∧ b.labels.foldlM (LabelTally.add union range) tally = .ok tally' := by
  unfold addBranch at h
  by_cases hempty : b.labels.isEmpty = true
  · simp only [hempty, if_true] at h
    cases h
  · simp only [hempty] at h
    exact ⟨fun hnil => hempty (by rw [hnil]; rfl), h⟩

/-- So a branch is only added if all of its labels are. -/
theorem contains_of_addBranch {b : Branch TypeDesc} (h : tally.addBranch union range b = .ok tally')
    (hd : Label.value d ∈ b.labels) : range.contains d = true := by
  obtain ⟨before, after, hadd⟩ := exists_step_of_foldlM (foldlM_add_of_addBranch h).2 hd
  exact contains_of_add hadd

/-- No label is refused on account of the default branch. -/
theorem add_ne_unreachable {label : Label} {name : String} :
    tally.add union range label ≠ .error (.invalidDescriptor (.unreachableDefault name)) := by
  intro h
  unfold add at h
  split at h
  · cases h
  · split at h
    · cases h
    · split at h <;> cases h

theorem foldlM_addBranch_ne_unreachable {branches : List (Branch TypeDesc)} {name : String} :
    branches.foldlM (LabelTally.addBranch union range) tally
      ≠ .error (.invalidDescriptor (.unreachableDefault name)) := by
  intro h
  obtain ⟨before, b, -, hb⟩ := exists_step_of_foldlM_error h
  unfold addBranch at hb
  split at hb
  · cases hb
  · obtain ⟨between, label, -, hlabel⟩ := exists_step_of_foldlM_error hb
    exact add_ne_unreachable hlabel

end LabelTally

/-! ## Labels occur once -/

namespace LabelTally

variable {union : String} {range : LabelRange} {tally tally' : LabelTally} {labels : List Label}

/-- What a tally records of the labels added to it: the discriminants named, how often the default
    occurred, and that no discriminant was named twice. -/
structure Counts (tally : LabelTally) (labels : List Label) : Prop where
  seen : ∀ d, d ∈ tally.seen ↔ Label.value d ∈ labels
  defaults : tally.defaults = labels.count .default
  once : ∀ d, labels.count (.value d) ≤ 1

theorem Counts.empty : Counts {} [] where
  seen := by simp
  defaults := rfl
  once := by simp

/-- Adding one label keeps the record. -/
theorem Counts.add {label : Label} (hcounts : tally.Counts labels)
    (h : tally.add union range label = .ok tally') : tally'.Counts (labels ++ [label]) := by
  cases label with
  | default =>
    obtain rfl : { tally with defaults := tally.defaults + 1 } = tally' := Except.ok.inj h
    refine ⟨?_, ?_, ?_⟩
    · intro d
      simpa using hcounts.seen d
    · simpa using hcounts.defaults
    · intro d
      simpa [List.count_singleton] using hcounts.once d
  | value d =>
    have hnew : d ∉ tally.seen := by
      intro hseen
      simp only [LabelTally.add, List.contains_iff_mem.2 hseen] at h
      split at h <;> cases h
    obtain rfl : { tally with seen := d :: tally.seen } = tally' := by
      simp only [LabelTally.add, List.contains_iff_mem, hnew, if_false] at h
      split at h
      · cases h
      · exact Except.ok.inj h
    refine ⟨?_, ?_, ?_⟩
    · intro e
      simp only [List.mem_cons, hcounts.seen e, List.mem_append, List.not_mem_nil, or_false,
        Label.value.injEq]
      exact or_comm
    · simpa [List.count_singleton] using hcounts.defaults
    · intro e
      by_cases he : e = d
      · subst he
        have hzero : labels.count (.value e) = 0 :=
          List.count_eq_zero.2 (fun hmem => hnew ((hcounts.seen e).2 hmem))
        simp [hzero]
      · have hne : ¬ Label.value d = Label.value e := by
          intro heq
          exact he (Label.value.inj heq).symm
        simpa [List.count_singleton, hne] using hcounts.once e

/-- And so does adding several, by induction on the labels. -/
theorem Counts.foldlM_add {more : List Label} (hcounts : tally.Counts labels)
    (h : more.foldlM (LabelTally.add union range) tally = .ok tally') :
    tally'.Counts (labels ++ more) := by
  induction more generalizing tally labels with
  | nil =>
    obtain rfl : tally = tally' := Except.ok.inj h
    simpa using hcounts
  | cons label more ih =>
    rw [List.foldlM_cons, Except.bind_eq_ok_iff] at h
    obtain ⟨next, hadd, h⟩ := h
    have hnext := ih (hcounts.add hadd) h
    rwa [List.append_assoc] at hnext

/-- What a tally records once the branches are added, by induction on the branches. -/
theorem Counts.foldlM_addBranch {branches : List (Branch TypeDesc)} (hcounts : tally.Counts labels)
    (h : branches.foldlM (LabelTally.addBranch union range) tally = .ok tally') :
    tally'.Counts (labels ++ branches.flatMap (·.labels)) := by
  induction branches generalizing tally labels with
  | nil =>
    obtain rfl : tally = tally' := Except.ok.inj h
    simpa using hcounts
  | cons b branches ih =>
    rw [List.foldlM_cons, Except.bind_eq_ok_iff] at h
    obtain ⟨next, hadd, h⟩ := h
    have hb := hcounts.foldlM_add (foldlM_add_of_addBranch hadd).2
    have hrest := ih hb h
    rwa [List.append_assoc] at hrest

/-- A label is added if it is the default, or in range and new. -/
theorem exists_add (union : String) {label : Label} (hcounts : tally.Counts labels)
    (hlabel : ∀ d, label = .value d → range.contains d = true ∧ label ∉ labels) :
    ∃ tally', tally.add union range label = .ok tally' := by
  cases label with
  | default => exact ⟨_, rfl⟩
  | value d =>
    obtain ⟨hrange, hnew⟩ := hlabel d rfl
    have hunseen : tally.seen.contains d = false := by
      simpa using fun hseen => hnew ((hcounts.seen d).1 hseen)
    refine ⟨{ tally with seen := d :: tally.seen }, ?_⟩
    simp only [LabelTally.add, hrange, hunseen]
    rfl

/-- And so are several, if they are distinct, by induction on the labels. -/
theorem exists_foldlM_add (union : String) {more : List Label} (hcounts : tally.Counts labels)
    (hrange : ∀ d, Label.value d ∈ more → range.contains d = true)
    (hnodup : (labels ++ more).Nodup) :
    ∃ tally', more.foldlM (LabelTally.add union range) tally = .ok tally' := by
  induction more generalizing tally labels with
  | nil => exact ⟨tally, rfl⟩
  | cons label more ih =>
    have hnew : label ∉ labels := fun hmem =>
      (List.nodup_append.1 hnodup).2.2 label hmem label (List.mem_cons_self ..) rfl
    obtain ⟨next, hadd⟩ := exists_add union hcounts fun d hd =>
      ⟨hrange d (hd ▸ List.mem_cons_self ..), hnew⟩
    rw [List.foldlM_cons, hadd]
    refine ih (hcounts.add hadd) (fun d hd => hrange d (List.mem_cons_of_mem _ hd)) ?_
    rwa [List.append_assoc]

/-- And so are the labels of branches that all have one, by induction on the branches. -/
theorem exists_foldlM_addBranch (union : String) {branches : List (Branch TypeDesc)}
    (hcounts : tally.Counts labels) (hlabels : ∀ b ∈ branches, b.labels ≠ [])
    (hrange : ∀ b ∈ branches, ∀ d, Label.value d ∈ b.labels → range.contains d = true)
    (hnodup : (labels ++ branches.flatMap (·.labels)).Nodup) :
    ∃ tally', branches.foldlM (LabelTally.addBranch union range) tally = .ok tally' := by
  induction branches generalizing tally labels with
  | nil => exact ⟨tally, rfl⟩
  | cons b branches ih =>
    rw [List.flatMap_cons, ← List.append_assoc] at hnodup
    have hb := List.mem_cons_self (a := b) (l := branches)
    obtain ⟨next, hadd⟩ := exists_foldlM_add union hcounts (hrange b hb)
      (List.nodup_append.1 hnodup).1
    have hfirst : tally.addBranch union range b = .ok next := by
      rw [LabelTally.addBranch, if_neg (by simpa using hlabels b hb), hadd]
    rw [List.foldlM_cons, hfirst]
    exact ih (hcounts.foldlM_add hadd) (fun b hb => hlabels b (List.mem_cons_of_mem _ hb))
      (fun b hb => hrange b (List.mem_cons_of_mem _ hb)) hnodup

end LabelTally

/-! ## Tables in order -/

/-- A branch table in order, but for what its default branch is reached with: it has a range and a
    branch, every branch has a label, and no label is out of range or occurs twice. -/
structure WellLabelled (u : UnionType) : Prop where
  range : u.labelRange?.isSome = true
  branches : u.branches ≠ []
  labels : ∀ b ∈ u.branches, b.labels ≠ []
  inRange : ∀ d ∈ u.explicitLabels, u.inRange d = true
  nodup : (u.branches.flatMap (·.labels)).Nodup

variable {u : UnionType}

/-- A tally counts the default branch where there is one. -/
theorem defaults_pos_iff {tally : LabelTally}
    (hcounts : tally.Counts (u.branches.flatMap (·.labels))) :
    0 < tally.defaults ↔ u.defaultBranch?.isSome = true := by
  rw [hcounts.defaults, List.count_pos_iff, List.mem_flatMap, defaultBranch?, List.findIdx?_isSome,
    List.any_eq_true]
  simp only [Branch.isDefault, List.contains_iff_mem]

/-- The labels of a table in order can be added to a tally, which then holds them. -/
theorem WellLabelled.exists_tally (h : u.WellLabelled) :
    ∃ range tally, u.labelRange? = some range ∧
      u.branches.foldlM (LabelTally.addBranch u.name range) {} = .ok tally ∧
      tally.defaults ≤ 1 ∧ (tally.defaults = 1 ↔ u.defaultBranch?.isSome = true) := by
  obtain ⟨range, hrange⟩ := Option.isSome_iff_exists.1 h.range
  have hcontains : ∀ b ∈ u.branches, ∀ d, Label.value d ∈ b.labels → range.contains d = true := by
    intro b hb d hd
    have hd := h.inRange d (mem_explicitLabels.2 ⟨b, hb, hd⟩)
    rwa [UnionType.inRange, hrange, Option.any_some] at hd
  obtain ⟨tally, htally⟩ := LabelTally.exists_foldlM_addBranch u.name
    LabelTally.Counts.empty h.labels hcontains (by simpa using h.nodup)
  have hcounts := LabelTally.Counts.empty.foldlM_addBranch htally
  rw [List.nil_append] at hcounts
  have hdefaults : tally.defaults ≤ 1 := by
    rw [hcounts.defaults]
    exact List.nodup_iff_count.1 h.nodup _
  have hpositive := defaults_pos_iff hcounts
  refine ⟨range, tally, hrange, htally, hdefaults, ?_⟩
  rw [← hpositive]
  omega

/-- And a table is in order if its labels can be added, the default at most once. -/
theorem wellLabelled_of_tally {range : LabelRange} {tally : LabelTally}
    (hrange : u.labelRange? = some range) (hbranches : u.branches ≠ [])
    (htally : u.branches.foldlM (LabelTally.addBranch u.name range) {} = .ok tally)
    (hdefaults : tally.defaults ≤ 1) : u.WellLabelled := by
  have hcounts := LabelTally.Counts.empty.foldlM_addBranch htally
  rw [List.nil_append] at hcounts
  refine ⟨by rw [hrange]; rfl, hbranches, ?labels, ?inRange, ?nodup⟩
  case labels =>
    intro b hb
    obtain ⟨before, after, hadd⟩ := exists_step_of_foldlM htally hb
    exact (LabelTally.foldlM_add_of_addBranch hadd).1
  case inRange =>
    intro d hd
    obtain ⟨b, hb, hlabel⟩ := mem_explicitLabels.1 hd
    obtain ⟨before, after, hadd⟩ := exists_step_of_foldlM htally hb
    rw [UnionType.inRange, hrange, Option.any_some]
    exact LabelTally.contains_of_addBranch hadd hlabel
  case nodup =>
    rw [List.nodup_iff_count]
    intro label
    cases label with
    | value d => exact hcounts.once d
    | default =>
      rw [← hcounts.defaults]
      exact hdefaults

/-- On a table in order all depends on what is left over for the default branch. -/
theorem WellLabelled.validate_eq (h : u.WellLabelled) :
    u.validate = if u.defaultBranch?.isSome = true ∧ u.implicitDefault? = none then
      .error (.invalidDescriptor (.unreachableDefault u.name)) else .ok () := by
  obtain ⟨range, tally, hrange, htally, hmany, hone⟩ := h.exists_tally
  have hempty : u.branches.isEmpty = false := by simpa using h.branches
  have hmany : ¬ tally.defaults > 1 := by omega
  simp only [validate, hrange, hempty, htally, bind, Except.bind, hmany, if_false]
  cases u.implicitDefault? <;> cases hdefault : u.defaultBranch?.isSome <;>
    simp [hone, hdefault, pure, Except.pure]

/-- Only a table in order passes, or fails on account of its default branch. -/
theorem wellLabelled_of_validate (name : String)
    (h : u.validate = .ok () ∨ u.validate = .error (.invalidDescriptor (.unreachableDefault name))) :
    u.WellLabelled := by
  unfold validate at h
  cases hrange : u.labelRange? with
  | none => simp [hrange] at h
  | some range =>
    by_cases hempty : u.branches.isEmpty = true
    · simp [hrange, hempty, bind, Except.bind] at h
    · cases htally : u.branches.foldlM (LabelTally.addBranch u.name range) {} with
      | error f =>
        simp only [hrange, hempty, htally, bind, Except.bind] at h
        rcases h with h | h
        · cases h
        · obtain rfl := Except.error.inj h
          exact absurd htally LabelTally.foldlM_addBranch_ne_unreachable
      | ok tally =>
        by_cases hmany : tally.defaults > 1
        · simp [hrange, hempty, htally, bind, Except.bind, hmany] at h
        · exact wellLabelled_of_tally hrange (by simpa using hempty) htally (by omega)

/-- **Which tables pass.** Those in order, if something is left over for a default branch. -/
theorem validate_eq_ok_iff : u.validate = .ok () ↔
    u.WellLabelled ∧ (u.defaultBranch?.isSome = true → u.implicitDefault?.isSome = true) := by
  constructor
  · intro h
    have hlabelled := wellLabelled_of_validate u.name (.inl h)
    refine ⟨hlabelled, fun hdefault => ?_⟩
    rw [hlabelled.validate_eq] at h
    cases himplicit : u.implicitDefault? with
    | some d => rfl
    | none => rw [if_pos ⟨hdefault, himplicit⟩] at h; cases h
  · rintro ⟨hlabelled, hleft⟩
    rw [hlabelled.validate_eq, if_neg]
    rintro ⟨hdefault, hnone⟩
    simpa [hnone] using hleft hdefault

/-- **Which tables are refused for their default branch.** Those in order that have one, if nothing is
    left over for it. -/
theorem validate_eq_unreachable_iff :
    u.validate = .error (.invalidDescriptor (.unreachableDefault u.name)) ↔
      u.WellLabelled ∧ u.defaultBranch?.isSome = true ∧ u.implicitDefault? = none := by
  constructor
  · intro h
    have hlabelled := wellLabelled_of_validate u.name (.inr h)
    refine ⟨hlabelled, ?_⟩
    rw [hlabelled.validate_eq] at h
    split at h
    · assumption
    · cases h
  · rintro ⟨hlabelled, hunreachable⟩
    rw [hlabelled.validate_eq, if_pos hunreachable]

/-! ## Labels of a checked table -/

/-- A checked table has a range. -/
theorem exists_labelRange (h : u.validate = .ok ()) : ∃ range, u.labelRange? = some range :=
  Option.isSome_iff_exists.1 (validate_eq_ok_iff.1 h).1.range

/-- A checked table has a branch. -/
theorem branches_ne_nil (h : u.validate = .ok ()) : u.branches ≠ [] :=
  (validate_eq_ok_iff.1 h).1.branches

/-- **Labels in range.** Whatever a label of a checked table names, the discriminant type can
    carry. -/
theorem inRange_of_mem_explicitLabels {d : Int64} (h : u.validate = .ok ())
    (hd : d ∈ u.explicitLabels) : u.inRange d = true :=
  (validate_eq_ok_iff.1 h).1.inRange d hd

/-- **Labels occur once.** No label of a checked table occurs twice, the default included. -/
theorem labels_nodup (h : u.validate = .ok ()) : (u.branches.flatMap (·.labels)).Nodup :=
  (validate_eq_ok_iff.1 h).1.nodup

/-- Every branch of a checked table has a label. -/
theorem labels_ne_nil {b : Branch TypeDesc} (h : u.validate = .ok ()) (hb : b ∈ u.branches) :
    b.labels ≠ [] :=
  (validate_eq_ok_iff.1 h).1.labels b hb

/-! ## Activation -/

/-- Where no label occurs twice, the first branch with a label is the only one. -/
theorem findIdx?_of_mem_labels {branches : List (Branch TypeDesc)} {b : Branch TypeDesc}
    {label : Label} {i : Nat} (hnodup : (branches.flatMap (·.labels)).Nodup)
    (hb : branches[i]? = some b) (hlabel : label ∈ b.labels) :
    branches.findIdx? (·.labels.contains label) = some i := by
  induction branches generalizing i with
  | nil => cases hb
  | cons first branches ih =>
    rw [List.flatMap_cons] at hnodup
    obtain ⟨-, hnodup, hdisjoint⟩ := List.nodup_append.1 hnodup
    cases i with
    | zero =>
      obtain rfl : first = b := Option.some.inj hb
      simp [List.findIdx?_cons, hlabel]
    | succ i =>
      have hfirst : label ∉ first.labels := by
        intro hmem
        have hrest : label ∈ branches.flatMap (·.labels) :=
          List.mem_flatMap.2 ⟨b, List.mem_of_getElem? hb, hlabel⟩
        exact hdisjoint label hmem label hrest rfl
      rw [List.findIdx?_cons, ih hnodup hb]
      simp [hfirst]

variable {b : Branch TypeDesc} {d : Int64} {i : Nat}

theorem select?_of_value_mem (h : u.validate = .ok ()) (hb : u.branches[i]? = some b)
    (hlabel : Label.value d ∈ b.labels) : u.select? d = some i := by
  rw [select?, findIdx?_of_mem_labels (labels_nodup h) hb hlabel, Option.some_or]

/-- A discriminant without a label of its own selects the default branch. -/
theorem select?_of_not_mem_explicitLabels (hd : d ∉ u.explicitLabels) :
    u.select? d = u.defaultBranch? := by
  have hnone : u.branches.findIdx? (·.labels.contains (.value d)) = none := by
    rw [List.findIdx?_eq_none_iff]
    intro b hb
    have hlabel : Label.value d ∉ b.labels := fun h => hd (mem_explicitLabels.2 ⟨b, hb, h⟩)
    simpa using hlabel
  rw [select?, hnone, Option.none_or]

theorem not_mem_explicitLabels_of_implicitDefault? (h : u.implicitDefault? = some d) :
    d ∉ u.explicitLabels := by
  unfold implicitDefault? at h
  obtain ⟨range, -, hfind⟩ := Option.bind_eq_some_iff.1 h
  simpa using List.find?_some hfind

/-- **Activation.** The discriminant a branch of a checked table is activated with selects that
    branch. -/
theorem select?_of_activation? (h : u.validate = .ok ()) (hb : u.branches[i]? = some b)
    (hd : u.activation? b = some d) : u.select? d = some i := by
  unfold activation? at hd
  cases hlabels : b.labels with
  | nil => exact absurd hlabels (labels_ne_nil h (List.mem_of_getElem? hb))
  | cons label labels =>
    rw [hlabels] at hd
    cases label with
    | value e =>
      obtain rfl : e = d := Option.some.inj hd
      exact select?_of_value_mem h hb (by simp [hlabels])
    | default =>
      rw [select?_of_not_mem_explicitLabels (not_mem_explicitLabels_of_implicitDefault? hd)]
      exact findIdx?_of_mem_labels (labels_nodup h) hb (by simp [hlabels])

/-- Every branch of a checked table can be activated: it has a label, and where that is the default
    there is a discriminant left over. -/
theorem exists_activation (h : u.validate = .ok ()) (hb : b ∈ u.branches) :
    ∃ d, u.activation? b = some d := by
  unfold activation?
  cases hlabels : b.labels with
  | nil => exact absurd hlabels (labels_ne_nil h hb)
  | cons label labels =>
    cases label with
    | value d => exact ⟨d, rfl⟩
    | default =>
      have hdefault : u.defaultBranch?.isSome = true := by
        rw [defaultBranch?, List.findIdx?_isSome, List.any_eq_true]
        exact ⟨b, hb, by simp [Branch.isDefault, hlabels]⟩
      exact Option.isSome_iff_exists.1 ((validate_eq_ok_iff.1 h).2 hdefault)

/-- So the discriminant that a branch of a checked table is activated with selects the branch. -/
theorem exists_selected?_activation (h : u.validate = .ok ()) (hb : u.branches[i]? = some b) :
    ∃ d, u.activation? b = some d ∧ u.selected? d = some b := by
  obtain ⟨d, hd⟩ := exists_activation h (List.mem_of_getElem? hb)
  refine ⟨d, hd, ?_⟩
  rw [selected?, select?_of_activation? h hb hd, Option.bind_some]
  exact hb

end ObjectBroker.UnionType
