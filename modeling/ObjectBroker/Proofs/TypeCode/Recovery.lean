import ObjectBroker.Proofs.Types.WellFormed
import ObjectBroker.Proofs.Wire.Recovery
import ObjectBroker.TypeCode.Emit
import ObjectBroker.TypeCode.Read

/-!
# `ObjectBroker.Proofs.TypeCode.Recovery` — descriptions read back from their type codes

The reader of a type code checks more than the writer does: nodes have to pass their checks, markers
have to lie inside the type they stand for, and the levels are limited. A description that meets
these conditions as a whole is recovered from its type code.
-/

namespace ObjectBroker

variable (s : Settings)

/-! ## Parts as lists of pieces -/

theorem TypeDesc.codeMembers_eq_concat (ms : List (Member TypeDesc)) :
    codeMembers s ms = .concat (ms.map fun m => .string s m.name ++ code s m.type) := by
  induction ms with
  | nil => rfl
  | cons m ms ih => simp only [codeMembers, ih, List.map_cons, Emit.concat]

theorem TypeDesc.codeBranches_eq_concat (bs : List (Branch TypeDesc)) :
    codeBranches s bs = .concat (bs.map fun b =>
      TypeCode.labels s b.labels ++ .string s b.name ++ code s b.type) := by
  induction bs with
  | nil => rfl
  | cons b bs ih => simp only [codeBranches, ih, List.map_cons, Emit.concat]

/-- The bound of a checked sequence type is read back, no bound from the zero in its place. -/
theorem TypeDesc.sequenceOf_getD {element : TypeDesc} {bound : Option UInt32}
    (h : (TypeDesc.sequence element bound).validate.isOk = true) :
    sequenceOf element (some (bound.getD 0)) = .sequence element bound := by
  cases bound with
  | none => rfl
  | some b =>
    have hb : b ≠ 0 := by
      rintro rfl
      cases h
    simp [sequenceOf, Option.filter, hb]

namespace TypeCode

/-! ## Steps of a type code -/

/-- A node that passes its checks is accepted as it is. -/
theorem checked_describe {t : TypeDesc} (h : t.validate.isOk = true) :
    checked t.describe = pure t := by
  have hvalid : t.validate = .ok () := by
    cases hv : t.validate with
    | ok _ => rfl
    | error f =>
      rw [hv] at h
      cases h
  rw [TypeDesc.describe_eq_ok_iff.2 ⟨hvalid, rfl⟩]
  rfl

theorem recovers_readLabel (l : Label) : Recovers (label s l) (readLabel s) l := by
  cases l with
  | value d => exact (recovers_boolean false).bind ((recovers_longlong s d).finish rfl)
  | default => exact (recovers_boolean true).bind ((recovers_longlong s 0).finish rfl)

theorem occupies_label (l : Label) : (label s l).Occupies 1 := by
  cases l with
  | value d => exact (Emit.Occupies.octets [_]).append_left _
  | default => exact (Emit.Occupies.octets [_]).append_left _

theorem occupies_name (name : String) : (Emit.string s name).Occupies 1 :=
  (Emit.Occupies.string s name).mono (by decide)

theorem occupies_branch (b : Branch TypeDesc) :
    (labels s b.labels ++ .string s b.name ++ b.type.code s).Occupies 1 := by
  have h := (occupies_name s b.name).append_right (labels s b.labels)
  exact h.append_left (b.type.code s)

theorem recovers_readMember {part : Read TypeDesc} {m : Member TypeDesc}
    (h : Recovers (m.type.code s) part m.type) :
    Recovers (.string s m.name ++ m.type.code s) (readMember s part) m :=
  (recovers_string s m.name).bind (h.map fun t => (⟨m.name, t⟩ : Member TypeDesc))

theorem recovers_readBranch {part : Read TypeDesc} {b : Branch TypeDesc}
    (h : Recovers (b.type.code s) part b.type) :
    Recovers (labels s b.labels ++ .string s b.name ++ b.type.code s) (readBranch s part) b := by
  have htype := h.map fun t => (⟨b.labels, b.name, t⟩ : Branch TypeDesc)
  unfold labels
  rw [Emit.append_assoc, Emit.append_assoc]
  exact recovers_items s b.labels (fun l _ => occupies_label s l)
    (fun l _ => recovers_readLabel s l) ((recovers_string s b.name).bind htype)

/-! ## Whole type codes -/

/-- **Type codes.** A description whose nodes pass their checks, whose markers lie inside the types
    named and which has no more than the levels allowed is recovered from its type code. -/
theorem recovers_code (limit : Nat) {t : TypeDesc} {levels : Nat} {enclosing : List String}
    (hwf : t.wellFormed = true) (hclosed : t.closedIn enclosing = true)
    (hlevels : t.nesting ≤ levels) :
    Recovers (t.code s) (readLevels s limit (levels + 1) enclosing) t := by
  show Recovers (t.code s) (readNode s (readLevels s limit levels) enclosing) t
  unfold TypeDesc.wellFormed at hwf
  induction t generalizing levels enclosing with
  | null => exact (recovers_ulong s _).finish rfl
  | scalar kind =>
    refine (recovers_ulong s _).finish ?_
    simp only [Kind.ofId?_id]
  | any => exact (recovers_ulong s _).finish rfl
  | string =>
    refine (recovers_ulong s _).bind ?_
    exact (recovers_ulong s 0).finish rfl
  | wstring =>
    refine (recovers_ulong s _).bind ?_
    exact (recovers_ulong s 0).finish rfl
  | objectRef interface =>
    refine (recovers_ulong s _).bind ?_
    exact (recovers_string s interface).finish rfl
  | recursive name =>
    refine (recovers_ulong s _).bind ((recovers_string s name).finish ?_)
    have hname : enclosing.contains name = true := hclosed
    rw [if_pos hname]
  | enum name enumerators =>
    have hnode := TypeDesc.self_of_everyNode hwf
    simp only [TypeDesc.code, Emit.append_assoc]
    refine (recovers_ulong s _).bind ((recovers_string s name).bind ?_)
    exact recovers_lastItems s enumerators (fun e _ => occupies_name s e)
      (fun e _ => recovers_string s e) (checked_describe hnode)
  | struct name members ih =>
    have hnode := TypeDesc.self_of_everyNode hwf
    simp only [TypeDesc.everyNode, TypeDesc.everyMember_eq_all, Bool.and_eq_true,
      List.all_eq_true] at hwf
    simp only [TypeDesc.closedIn, TypeDesc.membersClosedIn_eq_all, List.all_eq_true] at hclosed
    have hmember : ∀ m ∈ members, Recovers (.string s m.name ++ m.type.code s)
        (readMember s (readLevels s limit levels (name :: enclosing))) m := by
      intro m hm
      -- A struct with a member has a level left for it; one without members needs none.
      have hm' := TypeDesc.nesting_lt_of_mem_members hm
      rw [TypeDesc.nesting] at hlevels
      obtain ⟨below, rfl⟩ := Nat.exists_eq_add_one_of_ne_zero (show levels ≠ 0 by omega)
      exact recovers_readMember s (ih m hm (hwf.2 m hm) (hclosed m hm) (by omega))
    have hroom := fun (m : Member TypeDesc) (_ : m ∈ members) =>
      (occupies_name s m.name).append_left (m.type.code s)
    simp only [TypeDesc.code, TypeDesc.codeMembers_eq_concat, Emit.append_assoc]
    refine (recovers_ulong s _).bind ((recovers_string s name).bind ?_)
    exact recovers_lastItems s members hroom hmember (checked_describe hnode)
  | union name discriminant branches ihd ihb =>
    have hnode := TypeDesc.self_of_everyNode hwf
    simp only [TypeDesc.everyNode, TypeDesc.everyBranch_eq_all, Bool.and_eq_true,
      List.all_eq_true] at hwf
    obtain ⟨⟨-, hwfd⟩, hwfb⟩ := hwf
    simp only [TypeDesc.closedIn, TypeDesc.branchesClosedIn_eq_all, Bool.and_eq_true,
      List.all_eq_true] at hclosed
    -- The discriminant needs a level of its own, so there is one for the branches, too.
    rw [TypeDesc.nesting] at hlevels
    obtain ⟨below, rfl⟩ := Nat.exists_eq_add_one_of_ne_zero (show levels ≠ 0 by omega)
    have hdiscriminant := ihd hwfd hclosed.1 (show discriminant.nesting ≤ below by omega)
    have hbranch : ∀ b ∈ branches,
        Recovers (labels s b.labels ++ .string s b.name ++ b.type.code s)
          (readBranch s (readLevels s limit (below + 1) (name :: enclosing))) b := by
      intro b hb
      have hb' := TypeDesc.nesting_lt_of_mem_branches hb
      exact recovers_readBranch s (ihb b hb (hwfb b hb) (hclosed.2 b hb) (by omega))
    have hroom := fun (b : Branch TypeDesc) (_ : b ∈ branches) => occupies_branch s b
    simp only [TypeDesc.code, TypeDesc.codeBranches_eq_concat, Emit.append_assoc] at *
    refine (recovers_ulong s _).bind ((recovers_string s name).bind (hdiscriminant.bind ?_))
    exact recovers_lastItems s branches hroom hbranch (checked_describe hnode)
  | sequence element bound ih =>
    have hnode := TypeDesc.self_of_everyNode hwf
    simp only [TypeDesc.everyNode, Bool.and_eq_true] at hwf
    rw [TypeDesc.nesting] at hlevels
    obtain ⟨below, rfl⟩ := Nat.exists_eq_add_one_of_ne_zero (show levels ≠ 0 by omega)
    have helement := ih hwf.2 hclosed (Nat.le_of_succ_le_succ hlevels)
    simp only [TypeDesc.code, Emit.append_assoc]
    refine (recovers_ulong s _).bind (helement.bind ((recovers_ulong s _).finish ?_))
    rw [TypeDesc.sequenceOf_getD hnode]
  | array element length ih =>
    simp only [TypeDesc.everyNode, Bool.and_eq_true] at hwf
    rw [TypeDesc.nesting] at hlevels
    obtain ⟨below, rfl⟩ := Nat.exists_eq_add_one_of_ne_zero (show levels ≠ 0 by omega)
    have helement := ih hwf.2 hclosed (Nat.le_of_succ_le_succ hlevels)
    simp only [TypeDesc.code, Emit.append_assoc]
    exact (recovers_ulong s _).bind (helement.bind ((recovers_ulong s length).finish rfl))
  | typedef name underlying ih =>
    simp only [TypeDesc.everyNode, Bool.and_eq_true] at hwf
    rw [TypeDesc.nesting] at hlevels
    obtain ⟨below, rfl⟩ := Nat.exists_eq_add_one_of_ne_zero (show levels ≠ 0 by omega)
    have hunderlying := ih hwf.2 hclosed (Nat.le_of_succ_le_succ hlevels)
    simp only [TypeDesc.code, Emit.append_assoc]
    refine (recovers_ulong s _).bind ((recovers_string s name).bind ?_)
    exact hunderlying.finish rfl

end TypeCode

/-! ## Counts

The counts in a type code are 32-bit numbers, so a description that has a type code at all has no
enum with ordinals beyond them. -/

variable {s}

theorem TypeDesc.enumerators_lt_of_writable {t : TypeDesc} {name : String}
    {enumerators : List String} (hwritable : (t.code s).Writable)
    (ht : t.resolve = .enum name enumerators) : enumerators.length < UInt32.size := by
  induction t with
  | enum name' enumerators' =>
    cases ht
    exact hwritable.parts.1.parts.2.lt_of_count
  | typedef name' underlying ih => exact ih hwritable.parts.2 ht
  | _ => cases ht

theorem TypeDesc.ordinalsFit_of_writable {t : TypeDesc} (hwritable : (t.code s).Writable) :
    t.ordinalsFit = true := by
  induction t with
  | struct name members ih =>
    simp only [code, codeMembers_eq_concat] at hwritable
    have hmembers := hwritable.parts.2.of_concat
    exact ordinalsFit_struct_iff.2 fun m hm => ih m hm (hmembers m hm).parts.2
  | union name discriminant branches ihd ihb =>
    simp only [code, codeBranches_eq_concat] at hwritable
    have hdiscriminant := hwritable.parts.1.parts.1.parts.2
    have hbranches := hwritable.parts.2.of_concat
    have hnode : UnionType.ordinalsFit ⟨name, discriminant, branches⟩ = true := by
      unfold UnionType.ordinalsFit
      dsimp only
      split
      · rename_i hresolve
        exact decide_eq_true (Nat.le_of_lt (enumerators_lt_of_writable hdiscriminant hresolve))
      · rfl
    refine ordinalsFit_union_iff.2 ⟨hnode, ihd hdiscriminant, ?_⟩
    intro b hb
    exact ihb b hb (hbranches b hb).parts.2
  | sequence element bound ih => exact ih hwritable.parts.1.parts.2
  | array element length ih => exact ih hwritable.parts.1.parts.2
  | typedef name underlying ih => exact ih hwritable.parts.2
  | _ => rfl

end ObjectBroker
