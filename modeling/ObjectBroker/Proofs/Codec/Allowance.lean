import ObjectBroker.Codec.Decode
import ObjectBroker.Proofs.Codec.Atomic
import ObjectBroker.Proofs.Codec.Depth
import ObjectBroker.Proofs.Wire.Outcome

/-!
# `ObjectBroker.Proofs.Codec.Allowance` — a lower limit

A nesting limit does nothing but refuse. Whatever the octets are, a reader with fewer levels does
step by step what one with more levels does, until it runs out of them; then it reports its limit. So
it gives the same value and stops at the same offset, or fails with the same fault, or reports the
limit. The same is true of a writer, whatever the value is and whatever it is appended to.
-/

namespace ObjectBroker

variable {α β : Type}

/-- **Within a limit.** Everywhere, the first read does what the second does, or it fails with the
    fault. -/
def Read.Within (f : Fault) (r r' : Read α) : Prop :=
  ∀ c : Cursor, r c = r' c ∨ ∃ stop, r c = .error f stop

namespace Read.Within

variable {f : Fault} {r r' : Read α}

theorem refl (r : Read α) : Within f r r := fun _ => .inl rfl

/-- Giving up with the fault is within every read. -/
theorem throw (f : Fault) (r' : Read α) : Within f (MonadExcept.throw f) r' :=
  fun c => .inr ⟨c, rfl⟩

/-- **Composition.** The second read is compared only where both first reads gave the same. -/
theorem bind {k k' : α → Read β} (h : Within f r r') (hk : ∀ a, Within f (k a) (k' a)) :
    Within f (r >>= k) (r' >>= k') := by
  intro c
  rcases h c with hsame | ⟨stop, hfault⟩
  · cases hr : r' c with
    | ok a c' =>
      rw [hr] at hsame
      rw [bind_of_ok hsame, bind_of_ok hr]
      exact hk a c'
    | error g stop =>
      rw [hr] at hsame
      rw [bind_of_error hsame, bind_of_error hr]
      exact .inl rfl
  · exact .inr ⟨stop, bind_of_error hfault⟩

/-- A first step that is the same on both sides. -/
theorem after (r : Read α) {k k' : α → Read β} (hk : ∀ a, Within f (k a) (k' a)) :
    Within f (r >>= k) (r >>= k') :=
  (refl r).bind hk

theorem map (h : Within f r r') (g : α → β) :
    Within f (r >>= fun a => pure (g a)) (r' >>= fun a => pure (g a)) :=
  h.bind fun _ => refl _

theorem times (h : Within f r r') (n : Nat) : Within f (Read.times n r) (Read.times n r') := by
  induction n with
  | zero => exact refl _
  | succ n ih => exact h.bind fun first => ih.map (first :: ·)

theorem each {read read' : α → Read β} (h : ∀ a, Within f (read a) (read' a)) (as : List α) :
    Within f (Read.each read as) (Read.each read' as) := by
  induction as with
  | nil => exact refl _
  | cons a as ih => exact (h a).bind fun first => ih.map (first :: ·)

/-- At an offset of a message, the result is that of the other read or the fault. -/
theorem readAt (h : Within f r r') (message : List UInt8) (position : Nat) :
    Reader.readAt message position r = Reader.readAt message position r' ∨
      Reader.readAt message position r = .error f := by
  by_cases hinside : position ≤ message.length
  · rw [Reader.readAt_of_le r hinside, Reader.readAt_of_le r' hinside]
    rcases h ⟨position, message.drop position⟩ with hsame | ⟨stop, hfault⟩
    · exact .inl (by rw [hsame])
    · exact .inr (by rw [hfault])
  · have houtside : (Reader.ofOctets message).message.length < position := Nat.not_le.1 hinside
    refine .inl ?_
    simp only [Reader.readAt, Reader.seek, if_pos houtside]

end Read.Within

open Read.Within

variable {f : Fault}

/-! ## Type codes -/

namespace TypeCode

variable (s : Settings) {part part' : List String → Read TypeDesc}

/-- **One node of a type code.** It is read within the limit if its parts are. -/
theorem within_readNode (hpart : ∀ names, Read.Within f (part names) (part' names))
    (enclosing : List String) :
    Read.Within f (readNode s part enclosing) (readNode s part' enclosing) := by
  refine after _ fun id => ?_
  cases Kind.ofId? id with
  | none => exact refl _
  | some kind =>
    cases kind with
    | struct =>
      refine after _ fun name => after _ fun count => ?_
      have hmember : Read.Within f (readMember s (part (name :: enclosing)))
          (readMember s (part' (name :: enclosing))) := after _ fun _ => (hpart _).map _
      exact (hmember.times count).bind fun _ => refl _
    | union =>
      refine after _ fun name => (hpart _).bind fun discriminant => after _ fun count => ?_
      have hbranch : Read.Within f (readBranch s (part (name :: enclosing)))
          (readBranch s (part' (name :: enclosing))) :=
        after _ fun _ => after _ fun _ => after _ fun _ => (hpart _).map _
      exact (hbranch.times count).bind fun _ => refl _
    | sequence => exact (hpart _).bind fun _ => refl _
    | array => exact (hpart _).bind fun _ => refl _
    | typedef => exact after _ fun _ => (hpart _).map _
    | _ => exact refl _

/-- **Type codes.** With fewer levels a type code is read within the limit. -/
theorem within_readLevels (limit limit' : Nat) {levels levels' : Nat} (hle : levels ≤ levels')
    (enclosing : List String) :
    Read.Within (.depthExceeded limit) (readLevels s limit levels enclosing)
      (readLevels s limit' levels' enclosing) := by
  induction levels generalizing levels' enclosing with
  | zero => exact throw _ _
  | succ levels ih =>
    obtain ⟨below, rfl⟩ := Nat.exists_eq_add_one_of_ne_zero (show levels' ≠ 0 by omega)
    exact within_readNode s (fun names => ih (by omega) names) enclosing

end TypeCode

/-! ## Values -/

section Parts

variable {part part' : PartReader}
  (hpart : ∀ enclosing type, Read.Within f (part enclosing type) (part' enclosing type))
  (enclosing : List TypeDesc)

include hpart

theorem within_alternative (s : Settings) (union : UnionType) :
    Read.Within f (Decode.alternative s part enclosing union)
      (Decode.alternative s part' enclosing union) := by
  refine after _ fun d => ?_
  cases union.selected? d with
  | none => exact refl _
  | some b => exact (hpart _ b.type).map _

theorem within_elements (s : Settings) (element : TypeDesc) (bound : Option UInt32) :
    Read.Within f (Decode.elements s part enclosing element bound)
      (Decode.elements s part' enclosing element bound) := by
  refine after _ fun count => ?_
  cases bound.filter (· < count) with
  | some bound => exact refl _
  | none =>
    dsimp only
    split
    · exact refl _
    · exact (hpart enclosing element).times _

/-- The type code of a content shares the levels left, so it is read within the limit as well. -/
theorem within_content {c c' : Codec} {levels levels' : Nat} (hle : levels ≤ levels')
    (hsettings : c.settings = c'.settings) (hf : f = .depthExceeded c.maxDepth) :
    Read.Within f (Decode.content c levels part) (Decode.content c' levels' part') := by
  subst hf
  unfold Decode.content
  rw [hsettings]
  have htype := TypeCode.within_readLevels c'.settings c.maxDepth c'.maxDepth
    (Nat.succ_le_succ hle) []
  exact htype.bind fun type => (hpart [] type).map _

end Parts

variable {c : Codec}

/-- **One node.** A node is read within the limit if its parts are. -/
theorem within_node (limit limit' : Nat) {levels levels' : Nat} (hle : levels ≤ levels')
    {part part' : PartReader}
    (hpart : ∀ enclosing type,
      Read.Within (.depthExceeded limit) (part enclosing type) (part' enclosing type))
    (enclosing : List TypeDesc) (type : TypeDesc) :
    Read.Within (.depthExceeded limit)
      (Decode.node (c.limitedTo limit) levels part enclosing type)
      (Decode.node (c.limitedTo limit') levels' part' enclosing type) := by
  unfold Decode.node
  cases type.resolve with
  | any => exact within_content hpart hle rfl rfl
  | sequence element bound => exact (within_elements hpart enclosing _ element bound).map _
  | array element length => exact ((hpart enclosing element).times _).map _
  | struct name members => exact (each (fun m => hpart _ m.type) members).map _
  | union name discriminant branches => exact within_alternative hpart enclosing _ _
  | recursive name =>
    dsimp only
    cases TypeDesc.enclosing? name enclosing with
    | some target => exact hpart enclosing target
    | none => exact refl _
  | _ => exact refl _

/-- **Values.** With fewer levels a value is read within the limit. -/
theorem within_decode (limit limit' : Nat) {levels levels' : Nat} (hle : levels ≤ levels')
    (enclosing : List TypeDesc) (type : TypeDesc) :
    Read.Within (.depthExceeded limit) ((c.limitedTo limit).decode levels enclosing type)
      ((c.limitedTo limit').decode levels' enclosing type) := by
  induction levels generalizing levels' enclosing type with
  | zero => exact throw _ _
  | succ levels ih =>
    obtain ⟨below, rfl⟩ := Nat.exists_eq_add_one_of_ne_zero (show levels' ≠ 0 by omega)
    exact within_node limit limit' (by omega) (fun enclosing type => ih (by omega) enclosing type)
      enclosing type

/-! ## Under two limits -/

/-- What an attempt does to a message is decided by the piece it stands for. So attempts to write a
    piece and one it is within do the same, or the first reports the fault and leaves the message as
    it was. -/
theorem WholeOrNothing.eq_or_of_within {write write' : Writer → Except Fault Unit × Writer}
    {e e' : Emit} (hwrite : WholeOrNothing write e) (hwrite' : WholeOrNothing write' e')
    (h : e.Within f e') (w : Writer) : write w = write' w ∨ write w = (.error f, w) := by
  obtain ⟨before⟩ := w
  rcases h before.length with hsame | hfault
  · refine .inl ?_
    cases hpiece : e' before.length with
    | ok written =>
      rw [hwrite.eq_ok_iff.2 (hsame.trans hpiece), hwrite'.eq_ok_iff.2 hpiece]
    | error g =>
      rw [hwrite.of_error (hsame.trans hpiece), hwrite'.of_error hpiece]
  · exact .inr (hwrite.of_error hfault)

/-- **A limit only cuts off.** Of two codecs that differ in their limits, the one with the lower
    limit does to every message, with every value, what the other does, or it reports its limit and
    leaves the message as it was. And it reads at every offset of any octets what the other reads
    there, up to the same offset or with the same fault, or it reports its limit. -/
theorem writeValue_readValue_of_lower_limit (c : Codec) {limit limit' : Nat}
    (hle : limit ≤ limit') :
    (∀ (x : Dynamic) (w : Writer),
      (c.limitedTo limit).writeValue x w = (c.limitedTo limit').writeValue x w ∨
        (c.limitedTo limit).writeValue x w = (.error (.depthExceeded limit), w)) ∧
    ∀ (type : TypeDesc) (message : List UInt8) (position : Nat),
      Reader.readAt message position ((c.limitedTo limit).readValue type)
          = Reader.readAt message position ((c.limitedTo limit').readValue type) ∨
        Reader.readAt message position ((c.limitedTo limit).readValue type)
          = .error (.depthExceeded limit) := by
  constructor
  · intro x w
    have hwithin := within_encode (c := c) limit limit' hle [] x.type x.payload
    exact (wholeOrNothing_writeValue _ x).eq_or_of_within (wholeOrNothing_writeValue _ x) hwithin w
  · intro type message position
    have hwithin := within_decode (c := c) limit limit' hle [] type
    exact (hwithin.map (Dynamic.mk type)).readAt message position

/-- Two levels are enough to write a number under two `typedef` names, as three are. When it is read
    they end inside its type code, where three do not. -/
theorem writeValue_readValue_of_lower_limit_twiceAliased :
    2 ≤ 3 ∧
    (({} : Codec).limitedTo 2).writeValue ⟨.any, twiceAliased⟩ ⟨[]⟩
      = (({} : Codec).limitedTo 3).writeValue ⟨.any, twiceAliased⟩ ⟨[]⟩ ∧
    Reader.readAt twiceAliasedOctets 0 ((({} : Codec).limitedTo 2).readValue .any)
      = .error (.depthExceeded 2) ∧
    Reader.readAt twiceAliasedOctets 0 ((({} : Codec).limitedTo 3).readValue .any)
      = .ok (⟨.any, twiceAliased⟩, twiceAliasedOctets.length) := by
  have hwritten : (({} : Codec).limitedTo 2).writeValue ⟨.any, twiceAliased⟩ ⟨[]⟩
      = (.ok (), ⟨twiceAliasedOctets⟩) := rfl
  have hlower : Reader.readAt twiceAliasedOctets 0 ((({} : Codec).limitedTo 2).readValue .any)
      = .error (.depthExceeded 2) := by rfl
  have hhigher : Reader.readAt twiceAliasedOctets 0 ((({} : Codec).limitedTo 3).readValue .any)
      = .ok (⟨.any, twiceAliased⟩, twiceAliasedOctets.length) := by rfl
  obtain ⟨hwrite, hread⟩ := writeValue_readValue_of_lower_limit {} (show 2 ≤ 3 by decide)
  refine ⟨by decide, ?_, ?_, hhigher⟩
  · rcases hwrite ⟨.any, twiceAliased⟩ ⟨[]⟩ with hsame | hfault
    · exact hsame
    · rw [hwritten] at hfault
      cases hfault
  · rcases hread .any twiceAliasedOctets 0 with hsame | hfault
    · rw [hhigher, hlower] at hsame
      cases hsame
    · exact hfault

end ObjectBroker
