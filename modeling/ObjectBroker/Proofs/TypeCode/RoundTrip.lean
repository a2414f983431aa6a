import ObjectBroker.Proofs.TypeCode.Recovery
import ObjectBroker.Proofs.Wire.Refusal
import ObjectBroker.Wire.Stream

/-!
# `ObjectBroker.Proofs.TypeCode.RoundTrip` — type codes within the levels allowed and beyond

A description that is well formed and closed is recovered from its type code if it has no more
levels than the reader allows. The boundary is exact: with one level more, the reader refuses the
code, and for no other reason than the depth. The first part that is too deep stops it, since every
part before that one is recovered.
-/

namespace ObjectBroker

/-! ## The deepest part -/

namespace TypeDesc

/-- A struct of so many levels has a member that accounts for them. -/
theorem exists_member_of_lt_nesting {ms : List (Member TypeDesc)} {n : Nat}
    (h : n < membersNesting ms) : ∃ m ∈ ms, n ≤ m.type.nesting := by
  induction ms with
  | nil => cases h
  | cons first ms ih =>
    rw [membersNesting] at h
    by_cases hfirst : n ≤ first.type.nesting
    · exact ⟨first, List.mem_cons_self, hfirst⟩
    · obtain ⟨m, hm, hdeep⟩ := ih (by omega)
      exact ⟨m, List.mem_cons_of_mem first hm, hdeep⟩

/-- A union whose branches take so many levels has a branch that accounts for them. -/
theorem exists_branch_of_lt_nesting {bs : List (Branch TypeDesc)} {n : Nat}
    (h : n < branchesNesting bs) : ∃ b ∈ bs, n ≤ b.type.nesting := by
  induction bs with
  | nil => cases h
  | cons first bs ih =>
    rw [branchesNesting] at h
    by_cases hfirst : n ≤ first.type.nesting
    · exact ⟨first, List.mem_cons_self, hfirst⟩
    · obtain ⟨b, hb, hdeep⟩ := ih (by omega)
      exact ⟨b, List.mem_cons_of_mem first hb, hdeep⟩

end TypeDesc

namespace TypeCode

variable (s : Settings)

/-! ## Parts that are too deep -/

section Parts

variable {f : Fault} {part : Read TypeDesc}

theorem refuses_readMember {m : Member TypeDesc} (h : Refuses (m.type.code s) part f) :
    Refuses (.string s m.name ++ m.type.code s) (readMember s part) f :=
  Refuses.later (recovers_string s m.name) (h.bind _)

theorem refuses_readBranch {b : Branch TypeDesc} (h : Refuses (b.type.code s) part f) :
    Refuses (labels s b.labels ++ .string s b.name ++ b.type.code s) (readBranch s part) f := by
  unfold labels
  rw [Emit.append_assoc, Emit.append_assoc]
  exact refuses_afterItems s b.labels (fun l _ => occupies_label s l)
    (fun l _ => recovers_readLabel s l) (Refuses.later (recovers_string s b.name) (h.bind _))

/-- Members are refused if the type of some member is, and the types of the others are recovered
    unless they are refused as well. -/
theorem refuses_members {members : List (Member TypeDesc)}
    {k : List (Member TypeDesc) → Read TypeDesc}
    (hsome : ∃ m ∈ members, Refuses (m.type.code s) part f)
    (h : ∀ m ∈ members, Recovers (m.type.code s) part m.type ∨ Refuses (m.type.code s) part f) :
    Refuses (.count s members.length ++ TypeDesc.codeMembers s members)
      (Read.boundedCount s >>= fun n => Read.times n (readMember s part) >>= k) f := by
  obtain ⟨m, hm, hrefused⟩ := hsome
  rw [TypeDesc.codeMembers_eq_concat]
  refine refuses_items s (fun m _ => (occupies_name s m.name).append_left _)
    ⟨m, hm, refuses_readMember s hrefused⟩ ?_
  intro m hm
  exact (h m hm).imp (recovers_readMember s) (refuses_readMember s)

/-- Branches are refused if the type of some branch is, and the types of the others are recovered
    unless they are refused as well. -/
theorem refuses_branches {branches : List (Branch TypeDesc)}
    {k : List (Branch TypeDesc) → Read TypeDesc}
    (hsome : ∃ b ∈ branches, Refuses (b.type.code s) part f)
    (h : ∀ b ∈ branches, Recovers (b.type.code s) part b.type ∨ Refuses (b.type.code s) part f) :
    Refuses (.count s branches.length ++ TypeDesc.codeBranches s branches)
      (Read.boundedCount s >>= fun n => Read.times n (readBranch s part) >>= k) f := by
  obtain ⟨b, hb, hrefused⟩ := hsome
  rw [TypeDesc.codeBranches_eq_concat]
  refine refuses_items s (fun b _ => occupies_branch s b)
    ⟨b, hb, refuses_readBranch s hrefused⟩ ?_
  intro b hb
  exact (h b hb).imp (recovers_readBranch s) (refuses_readBranch s)

end Parts

/-- A part is recovered if the levels left are enough for it; they count the part itself. -/
theorem recovers_part (limit : Nat) {t : TypeDesc} {levels : Nat} {enclosing : List String}
    (hwf : t.wellFormed = true) (hclosed : t.closedIn enclosing = true)
    (hlevels : t.nesting < levels) :
    Recovers (t.code s) (readLevels s limit levels enclosing) t := by
  obtain ⟨below, rfl⟩ := Nat.exists_eq_add_one_of_ne_zero (Nat.ne_zero_of_lt hlevels)
  exact recovers_code s limit hwf hclosed (Nat.le_of_lt_succ hlevels)

/-- So a part is decided once it is known to be refused if the levels left are not enough. -/
theorem recovers_or_refuses_code (limit : Nat) {t : TypeDesc} {levels : Nat}
    {enclosing : List String} {f : Fault} (hwf : t.wellFormed = true)
    (hclosed : t.closedIn enclosing = true)
    (hdeep : levels ≤ t.nesting → Refuses (t.code s) (readLevels s limit levels enclosing) f) :
    Recovers (t.code s) (readLevels s limit levels enclosing) t ∨
      Refuses (t.code s) (readLevels s limit levels enclosing) f := by
  rcases Nat.lt_or_ge t.nesting levels with hlevels | hlevels
  · exact .inl (recovers_part s limit hwf hclosed hlevels)
  · exact .inr (hdeep hlevels)

/-! ## Whole type codes -/

/-- **Type codes that are too deep.** A description whose nodes pass their checks and whose markers
    lie inside the types named, but which has more than the levels allowed, is refused for its
    depth. -/
theorem refuses_code (limit : Nat) {t : TypeDesc} {levels : Nat} {enclosing : List String}
    (hwf : t.wellFormed = true) (hclosed : t.closedIn enclosing = true)
    (hdeep : levels ≤ t.nesting) :
    Refuses (t.code s) (readLevels s limit levels enclosing) (.depthExceeded limit) := by
  unfold TypeDesc.wellFormed at hwf
  induction t generalizing levels enclosing with
  | struct name members ih =>
    cases levels with
    | zero => exact Refuses.throw _ _
    | succ levels =>
      simp only [TypeDesc.everyNode, TypeDesc.everyMember_eq_all, Bool.and_eq_true,
        List.all_eq_true] at hwf
      simp only [TypeDesc.closedIn, TypeDesc.membersClosedIn_eq_all, List.all_eq_true] at hclosed
      have hrefused := fun m hm => @ih m hm levels _ (hwf.2 m hm) (hclosed m hm)
      have hdecided := fun m hm =>
        recovers_or_refuses_code s limit (hwf.2 m hm) (hclosed m hm) (hrefused m hm)
      obtain ⟨m, hm, hdeepest⟩ := TypeDesc.exists_member_of_lt_nesting hdeep
      simp only [TypeDesc.code, Emit.append_assoc]
      refine Refuses.later (recovers_ulong s _) (Refuses.later (recovers_string s name) ?_)
      exact refuses_members s ⟨m, hm, hrefused m hm hdeepest⟩ hdecided
  | union name discriminant branches ihd ihb =>
    cases levels with
    | zero => exact Refuses.throw _ _
    | succ levels =>
      simp only [TypeDesc.everyNode, TypeDesc.everyBranch_eq_all, Bool.and_eq_true,
        List.all_eq_true] at hwf
      obtain ⟨⟨-, hwfd⟩, hwfb⟩ := hwf
      simp only [TypeDesc.closedIn, TypeDesc.branchesClosedIn_eq_all, Bool.and_eq_true,
        List.all_eq_true] at hclosed
      simp only [TypeDesc.code, Emit.append_assoc]
      refine Refuses.later (recovers_ulong s _) (Refuses.later (recovers_string s name) ?_)
      -- The discriminant comes first, so the branches matter only if it is not too deep.
      by_cases hdeepd : levels ≤ discriminant.nesting
      · exact (ihd hwfd hclosed.1 hdeepd).first _ _
      · have hdiscriminant := recovers_part s limit hwfd hclosed.1 (Nat.lt_of_not_le hdeepd)
        have hrefused := fun b hb => @ihb b hb levels _ (hwfb b hb) (hclosed.2 b hb)
        have hdecided := fun b hb =>
          recovers_or_refuses_code s limit (hwfb b hb) (hclosed.2 b hb) (hrefused b hb)
        have hdeepb : levels < TypeDesc.branchesNesting branches := by
          rw [TypeDesc.nesting] at hdeep
          omega
        obtain ⟨b, hb, hdeepest⟩ := TypeDesc.exists_branch_of_lt_nesting hdeepb
        exact Refuses.later hdiscriminant
          (refuses_branches s ⟨b, hb, hrefused b hb hdeepest⟩ hdecided)
  | sequence element bound ih =>
    cases levels with
    | zero => exact Refuses.throw _ _
    | succ levels =>
      simp only [TypeDesc.everyNode, Bool.and_eq_true] at hwf
      have helement := ih hwf.2 hclosed (Nat.le_of_succ_le_succ hdeep)
      simp only [TypeDesc.code, Emit.append_assoc]
      exact Refuses.later (recovers_ulong s _) (helement.first _ _)
  | array element length ih =>
    cases levels with
    | zero => exact Refuses.throw _ _
    | succ levels =>
      simp only [TypeDesc.everyNode, Bool.and_eq_true] at hwf
      have helement := ih hwf.2 hclosed (Nat.le_of_succ_le_succ hdeep)
      simp only [TypeDesc.code, Emit.append_assoc]
      exact Refuses.later (recovers_ulong s _) (helement.first _ _)
  | typedef name underlying ih =>
    cases levels with
    | zero => exact Refuses.throw _ _
    | succ levels =>
      simp only [TypeDesc.everyNode, Bool.and_eq_true] at hwf
      have hunderlying := ih hwf.2 hclosed (Nat.le_of_succ_le_succ hdeep)
      simp only [TypeDesc.code, Emit.append_assoc]
      exact Refuses.later (recovers_ulong s _)
        (Refuses.later (recovers_string s name) (hunderlying.bind _))
  | _ =>
    -- A description without parts is refused only where there is no level left for itself.
    obtain rfl := Nat.le_zero.1 hdeep
    exact Refuses.throw _ _

/-! ## Through a writer and a reader -/

/-- **Type-code round trip.** Where the type code of a description that is well formed and closed is
    written behind some content, a reader placed there gives the description back, whatever follows,
    and stops at the end of the code, if the description has at most the levels allowed. If it has
    more, the reader fails, with exactly that limit exceeded. -/
theorem read_of_put_code {t : TypeDesc} {before written after : List UInt8} {maxDepth : Nat}
    (hwf : t.wellFormed = true) (hclosed : t.closed = true)
    (hput : (Writer.mk before).put (t.code s) = (.ok (), ⟨before ++ written⟩)) :
    ∃ start : Reader,
      (Reader.ofOctets (before ++ written ++ after)).seek before.length = (.ok (), start) ∧
      (t.nesting ≤ maxDepth → start.run (read s maxDepth) =
        (.ok t, ⟨before ++ written ++ after, ⟨before.length + written.length, after⟩⟩)) ∧
      (maxDepth < t.nesting →
        (start.run (read s maxDepth)).1 = .error (.depthExceeded maxDepth)) := by
  have hwritten : t.code s before.length = .ok written := Writer.put_eq_ok_iff.1 hput
  rw [List.append_assoc]
  refine ⟨_, Reader.seek_append before (written ++ after), ?_, ?_⟩
  · intro hlevels
    have hread := recovers_code s maxDepth hwf hclosed hlevels before.length written after hwritten
    simp only [Reader.run, read, hread]
  · intro hdeep
    obtain ⟨stop, hread⟩ := refuses_code s maxDepth hwf hclosed hdeep before.length written after
      hwritten
    simp only [Reader.run, read, hread]

/-- A struct that holds others of its kind, and a union with a label and a default. -/
def sampleRecord : TypeDesc :=
  .struct "N" [⟨"m", .union "M" (.scalar .boolean) [⟨[.value 1, .default], "t", .wstring⟩]⟩,
    ⟨"b", .sequence (.recursive "N") (some 3)⟩]

/-- The type code of the struct behind three octets, the greatest octet of each number first. -/
def sampleRecordCode : List UInt8 :=
  [0, 0, 0, 0, 15, 0, 0, 0, 2, 78, 0, 0, 0, 0, 0, 0, 2, 0, 0, 0, 2, 109, 0, 0, 0, 0, 0, 0, 16,
    0, 0, 0, 2, 77, 0, 0, 0, 0, 0, 0, 8, 0, 0, 0, 1, 0, 0, 0, 2, 0, 0, 0, 0, 0, 0, 0, 0, 0, 0, 0,
    1, 1, 0, 0, 0, 0, 0, 0, 0, 0, 0, 0, 0, 0, 0, 0, 0, 0, 0, 0, 2, 116, 0, 0, 0, 0, 0, 0, 27,
    0, 0, 0, 0, 0, 0, 0, 2, 98, 0, 0, 0, 0, 0, 0, 19, 255, 255, 255, 255, 0, 0, 0, 2, 78, 0,
    0, 0, 0, 0, 0, 3]

/-- The struct has two levels: two are enough to read it, and one is not. -/
theorem read_of_put_sampleRecord :
    let s : Settings := { order := .bigEndian }
    let message := [1, 2, 3] ++ sampleRecordCode ++ [4]
    (sampleRecord.wellFormed = true ∧ sampleRecord.closed = true ∧
      (Writer.mk [1, 2, 3]).put (sampleRecord.code s) = (.ok (), ⟨[1, 2, 3] ++ sampleRecordCode⟩)) ∧
    (∃ start : Reader, (Reader.ofOctets message).seek 3 = (.ok (), start) ∧
      start.run (read s 2) =
        (.ok sampleRecord, ⟨message, ⟨3 + sampleRecordCode.length, [4]⟩⟩)) ∧
    ∃ start : Reader, (Reader.ofOctets message).seek 3 = (.ok (), start) ∧
      (start.run (read s 1)).1 = .error (.depthExceeded 1) := by
  intro s message
  have hwf : sampleRecord.wellFormed = true := by decide
  have hclosed : sampleRecord.closed = true := by decide
  have hput : (Writer.mk [1, 2, 3]).put (sampleRecord.code s) =
      (.ok (), ⟨[1, 2, 3] ++ sampleRecordCode⟩) := by
    decide +kernel
  refine ⟨⟨hwf, hclosed, hput⟩, ?_, ?_⟩
  · obtain ⟨start, hseek, hread, -⟩ := read_of_put_code s hwf hclosed hput
    exact ⟨start, hseek, hread (by decide)⟩
  · obtain ⟨start, hseek, -, hrefused⟩ := read_of_put_code s hwf hclosed hput
    exact ⟨start, hseek, hrefused (by decide)⟩

end TypeCode

end ObjectBroker
