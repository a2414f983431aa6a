import ObjectBroker.Proofs.Types.WellFormed
import ObjectBroker.Proofs.Wire.Outcome
import ObjectBroker.TypeCode.Read

/-!
# `ObjectBroker.Proofs.TypeCode.Soundness` — only valid descriptions are read

A description that comes from a peer is used like one of our own: values are read under it, and it
is looked up in by name. So whatever the octets are, a description that is read has to be one that
could have been built here: each node passes its checks, each marker stands for a type around it,
and the nesting keeps to the limit.

All three are about the whole tree, and a reader of type codes makes each node from parts it has
just read. So they are said together, for the names around a node and the levels left for it, and
kept from the parts to the node.
-/

namespace ObjectBroker

/-! ## Descriptions within some levels -/

namespace TypeDesc

theorem membersNesting_le {ms : List (Member TypeDesc)} {n : Nat}
    (h : ∀ m ∈ ms, m.type.nesting < n) : membersNesting ms ≤ n := by
  induction ms with
  | nil => exact Nat.zero_le n
  | cons m ms ih =>
    have hfirst := h m List.mem_cons_self
    have hothers := ih fun m' hm' => h m' (List.mem_cons_of_mem m hm')
    exact Nat.max_le.2 ⟨hfirst, hothers⟩

theorem branchesNesting_le {bs : List (Branch TypeDesc)} {n : Nat}
    (h : ∀ b ∈ bs, b.type.nesting < n) : branchesNesting bs ≤ n := by
  induction bs with
  | nil => exact Nat.zero_le n
  | cons b bs ih =>
    have hfirst := h b List.mem_cons_self
    have hothers := ih fun b' hb' => h b' (List.mem_cons_of_mem b hb')
    exact Nat.max_le.2 ⟨hfirst, hothers⟩

/-- A bound of zero stands for no bound, so the sequence passes its check. -/
theorem validate_sequenceOf (element : TypeDesc) (bound : Option UInt32) :
    (sequenceOf element bound).validate = .ok () := by
  unfold sequenceOf
  cases hbound : bound.filter (· != 0) with
  | none => rfl
  | some b =>
    have hb : b ≠ 0 := by simpa using (Option.filter_eq_some_iff.1 hbound).2
    unfold validate
    split <;> simp_all

/-- Every node passes its checks, every marker stands for a type around it or one of those named,
    and so many levels are enough for all of it, itself included. -/
structure Readable (enclosing : List String) (levels : Nat) (t : TypeDesc) : Prop where
  wellFormed : t.wellFormed = true
  closed : t.closedIn enclosing = true
  nesting : t.nesting < levels

namespace Readable

variable {enclosing : List String} {levels : Nat} {name : String}

theorem struct {members : List (Member TypeDesc)}
    (hnode : (TypeDesc.struct name members).validate = .ok ())
    (h : ∀ m ∈ members, m.type.Readable (name :: enclosing) levels) :
    (TypeDesc.struct name members).Readable enclosing (levels + 1) where
  wellFormed := wellFormed_struct_iff.2 ⟨hnode, fun m hm => (h m hm).wellFormed⟩
  closed := by
    simp only [closedIn, membersClosedIn_eq_all, List.all_eq_true]
    exact fun m hm => (h m hm).closed
  nesting := by
    have hmembers := membersNesting_le fun m hm => (h m hm).nesting
    rw [TypeDesc.nesting]
    omega

theorem union {discriminant : TypeDesc} {branches : List (Branch TypeDesc)}
    (hnode : (TypeDesc.union name discriminant branches).validate = .ok ())
    (hdiscriminant : discriminant.Readable (name :: enclosing) levels)
    (h : ∀ b ∈ branches, b.type.Readable (name :: enclosing) levels) :
    (TypeDesc.union name discriminant branches).Readable enclosing (levels + 1) where
  wellFormed :=
    wellFormed_union_iff.2 ⟨hnode, hdiscriminant.wellFormed, fun b hb => (h b hb).wellFormed⟩
  closed := by
    simp only [closedIn, branchesClosedIn_eq_all, Bool.and_eq_true, List.all_eq_true]
    exact ⟨hdiscriminant.closed, fun b hb => (h b hb).closed⟩
  nesting := by
    have hbranches := branchesNesting_le fun b hb => (h b hb).nesting
    have hfirst := hdiscriminant.nesting
    rw [TypeDesc.nesting]
    omega

theorem sequenceOf {element : TypeDesc} (h : element.Readable enclosing levels)
    (bound : Option UInt32) :
    (TypeDesc.sequenceOf element bound).Readable enclosing (levels + 1) where
  wellFormed := wellFormed_sequence_iff.2 ⟨validate_sequenceOf element bound, h.wellFormed⟩
  closed := h.closed
  nesting := Nat.succ_lt_succ h.nesting

theorem array {element : TypeDesc} (h : element.Readable enclosing levels) (length : UInt32) :
    (TypeDesc.array element length).Readable enclosing (levels + 1) where
  wellFormed := wellFormed_array_iff.2 h.wellFormed
  closed := h.closed
  nesting := Nat.succ_lt_succ h.nesting

theorem typedef {underlying : TypeDesc} (h : underlying.Readable enclosing levels) :
    (TypeDesc.typedef name underlying).Readable enclosing (levels + 1) where
  wellFormed := Bool.and_eq_true_iff.2 ⟨rfl, h.wellFormed⟩
  closed := h.closed
  nesting := Nat.succ_lt_succ h.nesting

end Readable

end TypeDesc

namespace TypeCode

open TypeDesc

variable {s : Settings} {enclosing : List String} {levels : Nat} {start stop : Cursor}
  {t : TypeDesc}

/-! ## One node -/

/-- A node that was checked has passed its checks. -/
theorem checked_eq_ok_iff {node : TypeDesc} :
    checked node.describe start = .ok t stop ↔
      node.validate = .ok () ∧ node = t ∧ start = stop := by
  cases hdescribe : node.describe with
  | ok d =>
    obtain ⟨hvalid, rfl⟩ := describe_eq_ok_iff.1 hdescribe
    show (pure node : Read TypeDesc) start = .ok t stop ↔ _
    rw [Read.pure_eq_ok_iff]
    simp only [hvalid, true_and]
  | error f =>
    constructor
    · intro h
      cases h
    · rintro ⟨hvalid, -, -⟩
      rw [describe_eq_ok_iff.2 ⟨hvalid, rfl⟩] at hdescribe
      cases hdescribe

/-- The parts are read as descriptions that are right for the names around them. -/
def PartsReadable (levels : Nat) (part : List String → Read TypeDesc) : Prop :=
  ∀ (enclosing : List String) (start stop : Cursor) (t : TypeDesc),
    part enclosing start = .ok t stop → t.Readable enclosing levels

/-- Items behind their number are read one after the other, and then the rest. -/
theorem times_of_items {α β : Type} {item : Read α} {k : List α → Read β} {b : β}
    (h : (Read.boundedCount s >>= fun count => Read.times count item >>= k) start = .ok b stop) :
    ∃ items c, (∀ a ∈ items, ∃ c₁ c₂, item c₁ = .ok a c₂) ∧ k items c = .ok b stop := by
  obtain ⟨count, c₁, -, h⟩ := Read.bind_eq_ok_iff.1 h
  obtain ⟨items, c₂, hitems, h⟩ := Read.bind_eq_ok_iff.1 h
  exact ⟨items, c₂, Read.mem_of_times hitems, h⟩

section Parts

variable {part : List String → Read TypeDesc} (hpart : PartsReadable levels part)
include hpart

theorem readable_readMember {m : Member TypeDesc}
    (h : readMember s (part enclosing) start = .ok m stop) : m.type.Readable enclosing levels := by
  obtain ⟨name, c, -, h⟩ := Read.bind_eq_ok_iff.1 h
  obtain ⟨type, htype, rfl⟩ := Read.map_eq_ok_iff.1 h
  exact hpart enclosing c stop type htype

theorem readable_readBranch {b : Branch TypeDesc}
    (h : readBranch s (part enclosing) start = .ok b stop) : b.type.Readable enclosing levels := by
  obtain ⟨labels, c₁, -, h⟩ := times_of_items h
  obtain ⟨name, c₂, -, h⟩ := Read.bind_eq_ok_iff.1 h
  obtain ⟨type, htype, rfl⟩ := Read.map_eq_ok_iff.1 h
  exact hpart enclosing c₂ stop type htype

/-- **One node.** A node that is read is right if its parts are, with one level less. -/
theorem readable_readNode (h : readNode s part enclosing start = .ok t stop) :
    t.Readable enclosing (levels + 1) := by
  obtain ⟨id, c, -, h⟩ := Read.bind_eq_ok_iff.1 h
  have hleaf : ∀ {leaf : TypeDesc}, leaf.wellFormed = true → leaf.closedIn enclosing = true →
      leaf.nesting = 0 → leaf.Readable enclosing (levels + 1) :=
    fun hwf hclosed hnesting => ⟨hwf, hclosed, hnesting ▸ Nat.succ_pos levels⟩
  cases hkind : Kind.ofId? id with
  | none =>
    simp only [hkind] at h
    cases h
  | some kind =>
    simp only [hkind] at h
    cases kind with
    | null =>
      obtain ⟨rfl, -⟩ := Read.pure_eq_ok_iff.1 h
      exact hleaf rfl rfl rfl
    | scalar kind =>
      obtain ⟨rfl, -⟩ := Read.pure_eq_ok_iff.1 h
      exact hleaf rfl rfl rfl
    | any =>
      obtain ⟨rfl, -⟩ := Read.pure_eq_ok_iff.1 h
      exact hleaf rfl rfl rfl
    | string =>
      obtain ⟨_, -, rfl⟩ := Read.map_eq_ok_iff.1 h
      exact hleaf rfl rfl rfl
    | wstring =>
      obtain ⟨_, -, rfl⟩ := Read.map_eq_ok_iff.1 h
      exact hleaf rfl rfl rfl
    | objectRef =>
      obtain ⟨_, -, rfl⟩ := Read.map_eq_ok_iff.1 h
      exact hleaf rfl rfl rfl
    | struct =>
      obtain ⟨name, c₁, -, h⟩ := Read.bind_eq_ok_iff.1 h
      obtain ⟨members, c₂, hmembers, h⟩ := times_of_items h
      obtain ⟨hnode, rfl, -⟩ := checked_eq_ok_iff.1 h
      refine Readable.struct hnode fun m hm => ?_
      obtain ⟨c₃, c₄, hm⟩ := hmembers m hm
      exact readable_readMember hpart hm
    | union =>
      obtain ⟨name, c₁, -, h⟩ := Read.bind_eq_ok_iff.1 h
      obtain ⟨discriminant, c₂, hdiscriminant, h⟩ := Read.bind_eq_ok_iff.1 h
      obtain ⟨branches, c₃, hbranches, h⟩ := times_of_items h
      obtain ⟨hnode, rfl, -⟩ := checked_eq_ok_iff.1 h
      refine Readable.union hnode (hpart _ _ _ _ hdiscriminant) fun b hb => ?_
      obtain ⟨c₄, c₅, hb⟩ := hbranches b hb
      exact readable_readBranch hpart hb
    | enum =>
      obtain ⟨name, c₁, -, h⟩ := Read.bind_eq_ok_iff.1 h
      obtain ⟨enumerators, c₂, -, h⟩ := times_of_items h
      obtain ⟨hnode, rfl, -⟩ := checked_eq_ok_iff.1 h
      refine hleaf ?_ rfl rfl
      rw [wellFormed, everyNode, hnode]
      rfl
    | sequence =>
      obtain ⟨element, c₁, helement, h⟩ := Read.bind_eq_ok_iff.1 h
      obtain ⟨bound, -, rfl⟩ := Read.map_eq_ok_iff.1 h
      exact Readable.sequenceOf (hpart _ _ _ _ helement) (some bound)
    | array =>
      obtain ⟨element, c₁, helement, h⟩ := Read.bind_eq_ok_iff.1 h
      obtain ⟨length, -, rfl⟩ := Read.map_eq_ok_iff.1 h
      exact Readable.array (hpart _ _ _ _ helement) length
    | typedef =>
      obtain ⟨name, c₁, -, h⟩ := Read.bind_eq_ok_iff.1 h
      obtain ⟨underlying, hunderlying, rfl⟩ := Read.map_eq_ok_iff.1 h
      exact Readable.typedef (hpart _ _ _ _ hunderlying)
    | recursive =>
      obtain ⟨name, c₁, -, h⟩ := Read.bind_eq_ok_iff.1 h
      cases hname : enclosing.contains name with
      | true =>
        simp only [hname, if_true] at h
        obtain ⟨rfl, -⟩ := Read.pure_eq_ok_iff.1 h
        exact hleaf rfl hname rfl
      | false =>
        simp only [hname] at h
        cases h

end Parts

/-! ## Whole type codes -/

/-- **Type codes.** Whatever the octets are, a description read within some levels is well formed,
    has no marker that stands for nothing, and takes no more than those levels. -/
theorem readable_readLevels (s : Settings) (limit levels : Nat) :
    PartsReadable levels (readLevels s limit levels) := by
  induction levels with
  | zero =>
    intro enclosing start stop t h
    cases h
  | succ levels ih =>
    intro enclosing start stop t h
    exact readable_readNode ih h

end TypeCode

end ObjectBroker
