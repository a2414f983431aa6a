import ObjectBroker.Proofs.Codec.Locality
import ObjectBroker.Proofs.Codec.Soundness

/-!
# `ObjectBroker.Proofs.Codec.Volume` — how much can be read from so many octets

Types and counts come from the input, so a peer decides how large a value is that a reader builds.
What holds it back is that values have to be sent: nearly everything in a value takes an octet of the
message at least. So the volume of a value, the least number of octets that it takes, is at most the
length of the message, and a sequence cannot announce more elements than were sent.

The exception are values without any content. A null takes no octets, and neither does a struct or
an array that holds nothing else, or nothing at all. Of those a sequence holds as many as its count
says, whatever the length of the message. The allocation ahead of the elements is limited by the
octets left, the loop over the elements is not.

A read is compared with the volume of its result by the offsets where it starts and stops; what the
single reads take is known from their locality.
-/

namespace ObjectBroker

/-! ## The volume of a payload -/

namespace Payload

mutual
/-- The least number of octets that the payload can be read from. -/
def volume : Payload → Nat
  | .null => 0
  | .scalar _ => 1
  | .string _ | .wstring _ | .enum _ | .objectRef _ => 4
  | .sequence elements => 4 + volumeOfAll elements
  | .array elements => volumeOfAll elements
  | .struct fields => volumeOfAll fields
  | .union _ value => 1 + volume value
  | .any _ value => 4 + volume value
/-- The least number of octets that the payloads can be read from, one after the other. -/
def volumeOfAll : List Payload → Nat
  | [] => 0
  | p :: ps => volume p + volumeOfAll ps
end

mutual
/-- Whether nothing is in the payload that could be sent. -/
def isHollow : Payload → Bool
  | .null => true
  | .array elements => allHollow elements
  | .struct fields => allHollow fields
  | _ => false
/-- Whether nothing is in any of the payloads. -/
def allHollow : List Payload → Bool
  | [] => true
  | p :: ps => isHollow p && allHollow ps
end

mutual
/-- The elements of every sequence and array in the payload, at any depth, also inside an `any`. -/
def runs : Payload → List (List Payload)
  | .sequence elements | .array elements => elements :: runsOfAll elements
  | .struct fields => runsOfAll fields
  | .union _ value | .any _ value => runs value
  | .null | .scalar _ | .string _ | .wstring _ | .enum _ | .objectRef _ => []
/-- The elements of every sequence and array in the payloads. -/
def runsOfAll : List Payload → List (List Payload)
  | [] => []
  | p :: ps => runs p ++ runsOfAll ps
end

theorem mem_runsOfAll {ps : List Payload} {run : List Payload} :
    run ∈ runsOfAll ps ↔ ∃ p ∈ ps, run ∈ p.runs := by
  induction ps with
  | nil => simp [runsOfAll]
  | cons p ps ih => simp [runsOfAll, ih]

theorem allHollow_iff {ps : List Payload} : allHollow ps = true ↔ ∀ p ∈ ps, p.isHollow = true := by
  induction ps with
  | nil => simp [allHollow]
  | cons p ps ih => simp [allHollow, ih]

theorem volume_le_volumeOfAll {p : Payload} {ps : List Payload} (h : p ∈ ps) :
    p.volume ≤ volumeOfAll ps := by
  induction ps with
  | nil => cases h
  | cons first ps ih =>
    rw [volumeOfAll]
    rcases List.mem_cons.1 h with rfl | h
    · omega
    · have := ih h
      omega

/-- Payloads take no octets together if each of them takes none. -/
theorem volumeOfAll_eq_zero_iff {ps : List Payload} :
    volumeOfAll ps = 0 ↔ ∀ p ∈ ps, p.volume = 0 := by
  induction ps with
  | nil => simp [volumeOfAll]
  | cons p ps ih => simp [volumeOfAll, ih]

/-- **Hollow payloads.** They are the only ones that take no octets. -/
theorem volume_eq_zero_iff {p : Payload} : p.volume = 0 ↔ p.isHollow = true := by
  induction p with
  | array elements ih =>
    rw [volume, isHollow, volumeOfAll_eq_zero_iff, allHollow_iff]
    exact forall₂_congr ih
  | struct fields ih =>
    rw [volume, isHollow, volumeOfAll_eq_zero_iff, allHollow_iff]
    exact forall₂_congr ih
  | _ => simp [volume, isHollow]

theorem countP_le_volumeOfAll (ps : List Payload) :
    ps.countP (fun p => !p.isHollow) ≤ volumeOfAll ps := by
  induction ps with
  | nil => exact Nat.le_refl 0
  | cons p ps ih =>
    rw [List.countP_cons, volumeOfAll]
    cases hp : p.isHollow with
    | true =>
      simp only [Bool.not_true, Bool.false_eq_true, if_false]
      omega
    | false =>
      have hvolume : p.volume ≠ 0 := by
        intro hzero
        rw [volume_eq_zero_iff, hp] at hzero
        cases hzero
      simp only [Bool.not_false, if_true]
      omega

/-- **Runs.** At any depth, the elements with content are no more than the whole takes octets. -/
theorem countP_le_volume {p : Payload} {run : List Payload} (h : run ∈ p.runs) :
    run.countP (fun e => !e.isHollow) ≤ p.volume := by
  -- A run inside one of several payloads is paid for there, and that payload by all of them.
  have hinside : ∀ {ps : List Payload},
      (∀ q ∈ ps, run ∈ q.runs → run.countP (fun e => !e.isHollow) ≤ q.volume) →
      run ∈ runsOfAll ps → run.countP (fun e => !e.isHollow) ≤ volumeOfAll ps := by
    intro ps ih hrun
    obtain ⟨q, hq, hrun⟩ := mem_runsOfAll.1 hrun
    exact Nat.le_trans (ih q hq hrun) (volume_le_volumeOfAll hq)
  induction p with
  | sequence elements ih =>
    rw [volume]
    rcases List.mem_cons.1 h with rfl | h
    · have := countP_le_volumeOfAll run
      omega
    · have := hinside ih h
      omega
  | array elements ih =>
    rw [volume]
    rcases List.mem_cons.1 h with rfl | h
    · exact countP_le_volumeOfAll run
    · exact hinside ih h
  | struct fields ih => exact hinside ih h
  | union d value ih =>
    have := ih h
    rw [volume]
    omega
  | any type value ih =>
    have := ih h
    rw [volume]
    omega
  | _ => cases h

end Payload

/-! ## Reads that pay for their result -/

namespace Read

variable {α β : Type} {r : Read α} {k : α → Read β} {least : α → Nat} {least' : β → Nat}

/-- The read takes at least so many octets as its result is worth. -/
def Takes (r : Read α) (least : α → Nat) : Prop :=
  ∀ (c c' : Cursor) (a : α), r c = .ok a c' → c.position + least a ≤ c'.position

namespace Takes

/-- What is known of the octets a local read takes. -/
theorem of_local {n : Nat} (h : r.Local n) (hle : ∀ a, least a ≤ n) : r.Takes least := by
  intro c c' a hr
  have htakes := h.takes hr
  have hworth := hle a
  omega

theorem throw (f : Fault) : (MonadExcept.throw f : Read α).Takes least := by
  intro c c' a hr
  cases hr

theorem pure {a : α} (h : least a = 0) : (Pure.pure a : Read α).Takes least := by
  intro c c' b hr
  obtain ⟨rfl, rfl⟩ := pure_eq_ok_iff.1 hr
  omega

/-- **Composition.** Reads in a row pay for the last result together. -/
theorem bind (h : r.Takes least) (hk : ∀ a, (k a).Takes fun b => least' b - least a) :
    (r >>= k).Takes least' := by
  intro c c'' b hrun
  obtain ⟨a, c', hr, hka⟩ := bind_eq_ok_iff.1 hrun
  have hfirst := h c c' a hr
  have hsecond := hk a c' c'' b hka
  dsimp only at hsecond
  omega

/-- To reshape a result takes nothing more. -/
theorem map (h : r.Takes least) {f : α → β} (hf : ∀ a, least' (f a) = least a) :
    (r >>= fun a => Pure.pure (f a)).Takes least' := by
  refine h.bind fun a => pure ?_
  rw [hf a, Nat.sub_self]

/-- Values read one after the other pay for themselves. -/
theorem times {read : Read Payload} (h : read.Takes Payload.volume) (n : Nat) :
    (Read.times n read).Takes Payload.volumeOfAll := by
  induction n with
  | zero => exact pure rfl
  | succ n ih =>
    refine h.bind fun first => ih.map fun others => ?_
    rw [Payload.volumeOfAll, Nat.add_sub_cancel_left]

theorem each {read : α → Read Payload} {as : List α} (h : ∀ a ∈ as, (read a).Takes Payload.volume) :
    (Read.each read as).Takes Payload.volumeOfAll := by
  induction as with
  | nil => exact pure rfl
  | cons a as ih =>
    have hothers := ih fun a' ha' => h a' (List.mem_cons_of_mem a ha')
    refine (h a List.mem_cons_self).bind fun first => hothers.map fun others => ?_
    rw [Payload.volumeOfAll, Nat.add_sub_cancel_left]

end Takes

/-- A piece taken is worth the octets in it. -/
theorem takes_take (n : Nat) : (take n).Takes List.length := by
  intro c c' octets h
  obtain ⟨hlength, -, hposition⟩ := take_eq_ok_iff.1 h
  omega

end Read

/-! ## One node -/

open Read

/-- A reader of parts pays for the values it gives. -/
def PartReader.Pays (read : PartReader) : Prop :=
  ∀ (enclosing : List TypeDesc) (type : TypeDesc), (read enclosing type).Takes Payload.volume

section Parts

variable {read : PartReader} (hread : read.Pays) {enclosing : List TypeDesc}
include hread

/-- The elements of a sequence pay for themselves, and their number takes four octets. -/
theorem takes_elements (s : Settings) (element : TypeDesc) (bound : Option UInt32) :
    (Decode.elements s read enclosing element bound).Takes
      fun values => 4 + Payload.volumeOfAll values := by
  refine (Takes.of_local (local_ulong s) fun _ => Nat.le_refl 4).bind fun count => ?_
  have hworth : ∀ values, 4 + Payload.volumeOfAll values - 4 = Payload.volumeOfAll values := by
    intro values
    omega
  simp only [hworth]
  split
  · exact Takes.throw _
  · split
    · -- A run of octets has one for each element.
      refine (takes_take count.toNat).map fun octets => ?_
      induction octets with
      | nil => rfl
      | cons octet octets ih =>
        rw [List.map_cons, Payload.volumeOfAll, ih, Payload.volume, List.length_cons, Nat.add_comm]
    · exact (hread enclosing element).times count.toNat

theorem takes_alternative (s : Settings) (union : UnionType) :
    (Decode.alternative s read enclosing union).Takes Payload.volume := by
  refine (Takes.of_local (local_discriminant s _) fun _ => Nat.le_refl 1).bind fun d => ?_
  split
  · exact Takes.throw _
  · rename_i b _
    refine (hread (union.desc :: enclosing) b.type).map fun value => ?_
    rw [Payload.volume, Nat.add_sub_cancel_left]

theorem takes_content (c : Codec) (levels : Nat) :
    (Decode.content c levels read).Takes Payload.volume := by
  have hcode := TypeCode.local_readLevels (s := c.settings) c.maxDepth (levels + 1) []
  refine (Takes.of_local hcode fun _ => Nat.le_refl 4).bind fun type => ?_
  refine (hread [] type).map fun value => ?_
  rw [Payload.volume, Nat.add_sub_cancel_left]

/-- **One node.** It takes as many octets as it is worth if its parts do. -/
theorem takes_node (c : Codec) (levels : Nat) (enclosing : List TypeDesc) (type : TypeDesc) :
    (Decode.node c levels read enclosing type).Takes Payload.volume := by
  unfold Decode.node
  cases type.resolve with
  | null => exact Takes.pure rfl
  | typedef name underlying => exact Takes.pure rfl
  | scalar kind => exact (Takes.of_local (local_scalar _ kind) fun _ => Nat.le_refl 1).map fun _ => rfl
  | string => exact (Takes.of_local (local_string _) fun _ => Nat.le_refl 4).map fun _ => rfl
  | wstring => exact (Takes.of_local (local_wstring _) fun _ => Nat.le_refl 4).map fun _ => rfl
  | enum name enumerators =>
    exact (Takes.of_local (local_enumerator _ _ _) fun _ => Nat.le_refl 4).map fun _ => rfl
  | objectRef interface =>
    exact (Takes.of_local (local_reference c) fun _ => Nat.le_refl 4).map fun _ => rfl
  | any => exact takes_content hread c levels
  | sequence element bound => exact (takes_elements hread _ element bound).map fun _ => rfl
  | array element length =>
    exact ((hread enclosing element).times length.toNat).map fun _ => rfl
  | struct name members =>
    exact (Takes.each fun m _ => hread _ m.type).map fun _ => rfl
  | union name discriminant branches => exact takes_alternative hread _ _
  | recursive name =>
    dsimp only
    split
    · exact hread _ _
    · exact Takes.throw _

end Parts

/-! ## Whole values -/

/-- **Values.** Within any number of levels, a value takes as many octets as it is worth. -/
theorem takes_decode (c : Codec) (levels : Nat) : (c.decode levels).Pays := by
  induction levels with
  | zero =>
    intro enclosing type
    exact Takes.throw _
  | succ levels ih =>
    intro enclosing type
    exact takes_node ih c levels enclosing type

/-- A value read from a message is worth no more than the message is long. -/
theorem volume_le_of_onMessage {c : Codec} {levels : Nat} {type : TypeDesc} {message : List UInt8}
    {p : Payload} (h : Read.onMessage (c.decode levels [] type) message = .ok p) :
    p.volume ≤ message.length := by
  unfold Read.onMessage Reader.run Reader.ofOctets at h
  cases hread : c.decode levels [] type (.ofOctets message) with
  | error f c' =>
    simp only [hread] at h
    cases h
  | ok value c' =>
    simp only [hread] at h
    cases h
    have htakes := takes_decode c levels [] type _ _ _ hread
    obtain ⟨taken, hrest, hposition⟩ := (local_decode c levels [] type).split hread
    have hlength : message.length = taken.length + c'.rest.length := by
      rw [← List.length_append, ← hrest]
      rfl
    have hstart : (Cursor.ofOctets message).position = 0 := rfl
    omega

/-- **Elements and octets.** Whatever the codec and the message are, the value in the message and its
    type code take no more octets than there are. So in every sequence and every array in it, at any
    depth and inside the `any`s it carries, no more elements have any content than the message has
    octets; and where none is hollow, there are no more elements than octets. -/
theorem elements_le_of_decodeAny {c : Codec} {message : List UInt8} {x : Dynamic}
    (h : c.decodeAny message = .ok x) :
    4 + x.payload.volume ≤ message.length ∧
      ∀ elements ∈ x.payload.runs,
        elements.countP (fun e => !e.isHollow) ≤ message.length ∧
          ((∀ e ∈ elements, e.isHollow = false) → elements.length ≤ message.length) := by
  have hvolume : 4 + x.payload.volume ≤ message.length := by
    unfold Codec.decodeAny at h
    split at h
    · rename_i type value hread
      cases h
      exact volume_le_of_onMessage hread
    · cases h
    · cases h
  refine ⟨hvolume, ?_⟩
  intro elements helements
  have hcount := Payload.countP_le_volume helements
  refine ⟨by omega, ?_⟩
  intro hcontent
  have hall : elements.countP (fun e => !e.isHollow) = elements.length := by
    rw [List.countP_eq_length]
    intro e he
    rw [hcontent e he]
    rfl
  omega

/-- A pair of numbers in a sequence, with the type code. -/
theorem elements_le_of_decodeAny_pair :
    ∃ x : Dynamic,
      ({} : Codec).decodeAny
          [19, 0, 0, 0, 10, 0, 0, 0, 0, 0, 0, 0, 2, 0, 0, 0, 7, 9] = .ok x ∧
        x.payload.runs = [[.scalar (.octet 7), .scalar (.octet 9)]] ∧
        4 + x.payload.volume ≤ 18 ∧
        ∀ elements ∈ x.payload.runs,
          elements.countP (fun e => !e.isHollow) ≤ 18 ∧
            ((∀ e ∈ elements, e.isHollow = false) → elements.length ≤ 18) := by
  have hread : ({} : Codec).decodeAny [19, 0, 0, 0, 10, 0, 0, 0, 0, 0, 0, 0, 2, 0, 0, 0, 7, 9]
      = .ok ⟨.sequence (.scalar .octet) none,
          .sequence [.scalar (.octet 7), .scalar (.octet 9)]⟩ := by rfl
  exact ⟨_, hread, rfl, elements_le_of_decodeAny hread⟩

/-- Sixteen octets from which twenty elements are read, all of them null. -/
theorem hollow_elements_exceed_octets :
    ({} : Codec).decodeAny [19, 0, 0, 0, 0, 0, 0, 0, 0, 0, 0, 0, 20, 0, 0, 0]
        = .ok ⟨.sequence .null none, .sequence (List.replicate 20 .null)⟩ ∧
      List.replicate 20 Payload.null ∈ (Payload.sequence (List.replicate 20 .null)).runs ∧
      ([19, 0, 0, 0, 0, 0, 0, 0, 0, 0, 0, 0, 20, 0, 0, 0] : List UInt8).length
        < (List.replicate 20 Payload.null).length :=
  ⟨by rfl, List.mem_cons_self, by decide⟩

end ObjectBroker
