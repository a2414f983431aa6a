import ObjectBroker.Proofs.Wire.Outcome
import ObjectBroker.Wire.Emit

/-!
# `ObjectBroker.Proofs.Wire.Recovery` — reads that undo writes

A piece of output and a read belong together when the read, started where the piece was written,
takes exactly the octets of the piece and gives back the value the piece was made from. This has to
hold at every offset, since padding depends on the offset, and whatever follows, since a read never
knows where its piece ends. Said this way it composes along `++`, and the layers above never count
octets again.
-/

namespace ObjectBroker

/-- **Recovery.** Wherever the piece can be written, and whatever follows it, the read takes exactly
    the octets of the piece and gives the value. -/
def Recovers {α : Type} (e : Emit) (r : Read α) (a : α) : Prop :=
  ∀ (position : Nat) (written rest : List UInt8), e position = .ok written →
    r ⟨position, written ++ rest⟩ = .ok a ⟨position + written.length, rest⟩

/-- The piece has at least so many octets, wherever it is written. -/
def Emit.Occupies (e : Emit) (n : Nat) : Prop :=
  ∀ (position : Nat) (written : List UInt8), e position = .ok written → n ≤ written.length

variable {α β : Type} {e e' : Emit} {r : Read α} {a : α}

/-! ## Laws of composition -/

namespace Recovers

/-- Nothing was written, so nothing is read. -/
theorem pure (a : α) : Recovers .nothing (Pure.pure a) a := by
  intro position written rest h
  cases h
  rfl

/-- A piece that is never written is recovered by every read. -/
theorem fail (f : Fault) (r : Read α) (a : α) : Recovers (.fail f) r a := by
  intro position written rest h
  cases h

/-- **Composition.** Two pieces in a row are recovered by their two reads in a row. -/
theorem bind {k : α → Read β} {b : β} (he : Recovers e r a) (he' : Recovers e' (k a) b) :
    Recovers (e ++ e') (r >>= k) b := by
  intro position written rest h
  obtain ⟨front, back, hfront, hback, rfl⟩ := Emit.append_eq_ok_iff.1 h
  -- The first read stops where the second piece starts, with that piece and the rest ahead.
  rw [List.append_assoc, Read.bind_of_ok (he position front (back ++ rest) hfront),
    he' _ back rest hback, List.length_append, Nat.add_assoc]

/-- What a read does without taking octets only turns the value recovered into another. -/
theorem finish {k : α → Read β} {b : β} (he : Recovers e r a) (hk : k a = Pure.pure b) :
    Recovers e (r >>= k) b := by
  have hlast : Recovers .nothing (k a) b := by
    rw [hk]
    exact pure b
  have h := he.bind hlast
  rwa [Emit.append_nothing] at h

/-- A read that only reshapes its result recovers the reshaped value. -/
theorem map (f : α → β) (he : Recovers e r a) :
    Recovers e (r >>= fun x => Pure.pure (f x)) (f a) :=
  he.finish rfl

/-- A piece made from a result is recovered if it is for the value of that result. -/
theorem ofExcept {γ : Type} {x : Except Fault γ} {piece : γ → Emit}
    (h : ∀ c, x = .ok c → Recovers (piece c) r a) : Recovers (.ofExcept x piece) r a := by
  cases x with
  | ok c => exact h c rfl
  | error f => exact fail f r a

/-- The pieces of a list are recovered by one read repeated. -/
theorem times {γ : Type} (xs : List γ) {piece : γ → Emit} {value : γ → α}
    (h : ∀ x ∈ xs, Recovers (piece x) r (value x)) :
    Recovers (.concat (xs.map piece)) (Read.times xs.length r) (xs.map value) := by
  induction xs with
  | nil => exact pure []
  | cons x xs ih =>
    have hfirst := h x List.mem_cons_self
    have hothers := ih fun y hy => h y (List.mem_cons_of_mem x hy)
    exact hfirst.bind (hothers.map (value x :: ·))

/-- The pieces of a list whose items are themselves what is read. -/
theorem times_self (xs : List α) {piece : α → Emit} (h : ∀ x ∈ xs, Recovers (piece x) r x) :
    Recovers (.concat (xs.map piece)) (Read.times xs.length r) xs := by
  have hitems := times xs h
  rwa [List.map_id'] at hitems

/-- Pieces made from two lists of one length are recovered by the reads made for the first. -/
theorem each {γ δ : Type} {xs : List γ} {ys : List δ} (piece : γ → δ → Emit) (read : γ → Read α)
    (value : δ → α) (hlength : xs.length = ys.length)
    (h : ∀ p ∈ xs.zip ys, Recovers (piece p.1 p.2) (read p.1) (value p.2)) :
    Recovers (.concat ((xs.zip ys).map fun p => piece p.1 p.2)) (Read.each read xs)
      (ys.map value) := by
  induction xs generalizing ys with
  | nil =>
    obtain rfl := List.length_eq_zero_iff.1 hlength.symm
    exact pure []
  | cons x xs ih =>
    cases ys with
    | nil => cases hlength
    | cons y ys =>
      have hfirst := h (x, y) List.mem_cons_self
      have hothers := ih (Nat.succ.inj hlength) fun p hp => h p (List.mem_cons_of_mem _ hp)
      exact hfirst.bind (hothers.map (value y :: ·))

end Recovers

namespace Emit.Occupies

theorem mono {m n : Nat} (h : e.Occupies n) (hmn : m ≤ n) : e.Occupies m := by
  intro position written hw
  exact Nat.le_trans hmn (h position written hw)

theorem append {m n : Nat} (h : e.Occupies m) (h' : e'.Occupies n) : (e ++ e').Occupies (m + n) := by
  intro position written hw
  obtain ⟨front, back, hfront, hback, rfl⟩ := append_eq_ok_iff.1 hw
  rw [List.length_append]
  exact Nat.add_le_add (h position front hfront) (h' _ back hback)

theorem append_left {n : Nat} (h : e.Occupies n) (e' : Emit) : (e ++ e').Occupies n := by
  have h' : e'.Occupies 0 := fun _ _ _ => Nat.zero_le _
  exact h.append h'

theorem append_right {n : Nat} (e : Emit) (h : e'.Occupies n) : (e ++ e').Occupies n := by
  have he : e.Occupies 0 := fun _ _ _ => Nat.zero_le _
  exact (he.append h).mono (by omega)

/-- A list of pieces has as many times the octets that each piece has. -/
theorem concat {γ : Type} (xs : List γ) {piece : γ → Emit} {n : Nat}
    (h : ∀ x ∈ xs, (piece x).Occupies n) :
    (Emit.concat (xs.map piece)).Occupies (xs.length * n) := by
  induction xs with
  | nil =>
    intro position written hw
    simp
  | cons x xs ih =>
    have hothers := ih fun y hy => h y (List.mem_cons_of_mem x hy)
    have htotal : (x :: xs).length * n = n + xs.length * n := by
      rw [List.length_cons, Nat.succ_mul, Nat.add_comm]
    rw [htotal]
    exact (h x List.mem_cons_self).append hothers

theorem word (s : Settings) (width value : Nat) : (Emit.word s width value).Occupies width := by
  intro position written hw
  obtain ⟨front, back, -, hback, rfl⟩ := append_eq_ok_iff.1 hw
  cases hback
  simp

theorem octets (content : List UInt8) : (Emit.octets content).Occupies content.length := by
  intro position written hw
  cases hw
  exact Nat.le_refl _

/-- A string has at least the octets of its length. -/
theorem string (s : Settings) (text : String) : (Emit.string s text).Occupies 4 := by
  unfold Emit.string
  cases Latin1.encodeAll text with
  | error f =>
    intro position written hw
    cases hw
  | ok content =>
    simp only [Emit.ofExcept]
    split
    · exact (word s 4 _).append_left _
    · intro position written hw
      cases hw

end Emit.Occupies

/-! ## Numbers -/

variable (s : Settings)

theorem recovers_octets (content : List UInt8) :
    Recovers (.octets content) (Read.take content.length) content := by
  intro position written rest h
  cases h
  exact Read.take_append position content rest

theorem recovers_pad (alignment : Nat) : Recovers (.pad alignment) (Read.align alignment) () := by
  intro position written rest h
  cases h
  have htake := Read.take_append position (List.replicate (padding position alignment) 0) rest
  rw [List.length_replicate] at htake
  simp only [Read.align, htake, List.length_replicate]

/-- A number that fits its width is recovered, in either byte order. -/
theorem recovers_word {width value : Nat} (h : value < Nat.pow 256 width) :
    Recovers (.word s width value) (Read.word s width) value := by
  have hcontent := recovers_octets (s.order.arrange (littleEndian width value))
  have hvalue := hcontent.map fun content => ofLittleEndian (s.order.arrange content)
  rw [ByteOrder.arrange_arrange, ofLittleEndian_littleEndian h, ByteOrder.arrange_length,
    littleEndian_length] at hvalue
  exact (recovers_pad width).bind hvalue

theorem recovers_octet (v : UInt8) : Recovers (.octet v) Read.octet v := by
  have h := (recovers_octets [v]).map fun content => UInt8.ofNat (ofLittleEndian content)
  have hvalue : UInt8.ofNat (ofLittleEndian [v]) = v := by simp [ofLittleEndian]
  rwa [hvalue] at h

theorem recovers_boolean (v : Bool) : Recovers (.boolean v) Read.boolean v := by
  cases v with
  | false => exact (recovers_octet 0).finish rfl
  | true => exact (recovers_octet 1).finish rfl

/-- An unsigned 16-bit number, of which only the bits count. -/
theorem recovers_word_two (f : UInt16 → β) (v : UInt16) :
    Recovers (.word s 2 v.toNat) (Read.word s 2 >>= fun n => Pure.pure (f (UInt16.ofNat n)))
      (f v) := by
  have hfit : v.toNat < Nat.pow 256 2 := v.toNat_lt
  have h := (recovers_word s hfit).map fun n => f (UInt16.ofNat n)
  rwa [UInt16.ofNat_toNat] at h

theorem recovers_word_four (f : UInt32 → β) (v : UInt32) :
    Recovers (.word s 4 v.toNat) (Read.word s 4 >>= fun n => Pure.pure (f (UInt32.ofNat n)))
      (f v) := by
  have hfit : v.toNat < Nat.pow 256 4 := v.toNat_lt
  have h := (recovers_word s hfit).map fun n => f (UInt32.ofNat n)
  rwa [UInt32.ofNat_toNat] at h

theorem recovers_word_eight (f : UInt64 → β) (v : UInt64) :
    Recovers (.word s 8 v.toNat) (Read.word s 8 >>= fun n => Pure.pure (f (UInt64.ofNat n)))
      (f v) := by
  have hfit : v.toNat < Nat.pow 256 8 := v.toNat_lt
  have h := (recovers_word s hfit).map fun n => f (UInt64.ofNat n)
  rwa [UInt64.ofNat_toNat] at h

theorem recovers_ulong (v : UInt32) : Recovers (.ulong s v) (Read.ulong s) v :=
  recovers_word_four s id v

theorem recovers_longlong (v : Int64) : Recovers (.longlong s v) (Read.longlong s) v :=
  recovers_word_eight s UInt64.toInt64 v.toUInt64

/-! ## Characters -/

theorem recovers_char (c : Char) : Recovers (.char c) Read.char c := by
  refine Recovers.ofExcept fun octet hoctet => ?_
  have h := (recovers_octet octet).map Latin1.decode
  rwa [Latin1.decode_encode hoctet] at h

/-- A character of the first plane is its own code unit. -/
theorem Utf16.toNat_of_units_eq_singleton {c : Char} {unit : UInt16}
    (h : Utf16.units c = [unit]) : unit.toNat = c.toNat := by
  unfold Utf16.units at h
  split at h
  · rename_i hplane
    injection h with h
    rw [← h]
    exact Nat.mod_eq_of_lt hplane
  · cases h

theorem recovers_wchar (c : Char) : Recovers (.wchar s c) (Read.wchar s) c := by
  -- Either width carries the code point itself, as a number that fits the width.
  have hread : ∀ width : WideWidth, s.wide = width → c.toNat < Nat.pow 256 width.octets →
      Recovers (.word s width.octets c.toNat) (Read.wchar s) c := by
    intro width hwide hfit
    have hunit : charOfUnit? (UInt32.ofNat c.toNat) = some c := by
      have hval : UInt32.ofNat c.toNat = c.val := UInt32.ofNat_toNat
      rw [hval, charOfUnit?_val]
    unfold Read.wchar
    rw [hwide]
    refine (recovers_word s hfit).finish ?_
    simp only [hunit]
  unfold Emit.wchar
  cases hwide : s.wide with
  | two =>
    cases hunits : Utf16.units c with
    | nil => exact Recovers.fail _ _ _
    | cons unit more =>
      cases more with
      | cons unit' more => exact Recovers.fail _ _ _
      | nil =>
        have hunit := Utf16.toNat_of_units_eq_singleton hunits
        have hfit : c.toNat < Nat.pow 256 2 := hunit ▸ unit.toNat_lt
        have h := hread .two hwide hfit
        rwa [← hunit] at h
  | four =>
    have hfit : c.toNat < Nat.pow 256 4 := c.val.toNat_lt
    exact hread .four hwide hfit

/-- **Scalars.** Every scalar value is recovered under its own kind. -/
theorem recovers_scalar (v : ScalarValue) :
    Recovers (.scalar s v) (Read.scalar s v.kind) v := by
  cases v with
  | octet v => exact (recovers_octet v).map ScalarValue.octet
  | boolean v => exact (recovers_boolean v).map ScalarValue.boolean
  | short v => exact recovers_word_two s (fun n => ScalarValue.short n.toInt16) v.toUInt16
  | ushort v => exact recovers_word_two s ScalarValue.ushort v
  | long v => exact recovers_word_four s (fun n => ScalarValue.long n.toInt32) v.toUInt32
  | ulong v => exact (recovers_ulong s v).map ScalarValue.ulong
  | longlong v => exact (recovers_longlong s v).map ScalarValue.longlong
  | ulonglong v => exact recovers_word_eight s ScalarValue.ulonglong v
  | float v => exact recovers_word_four s (fun n => ScalarValue.float ⟨n⟩) v.bits
  | double v => exact recovers_word_eight s (fun n => ScalarValue.double ⟨n⟩) v.bits
  | char c => exact (recovers_char c).map ScalarValue.char
  | wchar c => exact (recovers_wchar s c).map ScalarValue.wchar

/-! ## Counts

A count is written as one number. What reads it differs: the count of a sequence is taken as it is,
the counts of a wide string and of a type code are first held against the octets left. -/

theorem recovers_count (n : Nat) : Recovers (.count s n) (Read.word s 4) n := by
  unfold Emit.count
  split
  · rename_i hfit
    have hfit : n < Nat.pow 256 4 := hfit
    exact recovers_word s hfit
  · exact Recovers.fail _ _ _

/-- A count that was written fits 32 bits, so the number read is the count itself. -/
theorem recovers_count_ulong {n : Nat} {k : UInt32 → Read α}
    (h : n < UInt32.size → Recovers e (k (UInt32.ofNat n)) a) :
    Recovers (.count s n ++ e) (Read.ulong s >>= k) a := by
  by_cases hfit : n < UInt32.size
  · exact ((recovers_count s n).map UInt32.ofNat).bind (h hfit)
  · intro position written rest hw
    obtain ⟨front, back, hfront, -, -⟩ := Emit.append_eq_ok_iff.1 hw
    rw [Emit.count, if_neg hfit] at hfront
    cases hfront

/-- A demand for octets is met where a piece of at least so many octets follows. -/
theorem recovers_require {n : Nat} {k : Unit → Read α} (hroom : e.Occupies n)
    (h : Recovers e (k ()) a) : Recovers e (Read.require n >>= k) a := by
  intro position written rest hw
  have hleft : n ≤ (written ++ rest).length := by
    have := hroom position written hw
    rw [List.length_append]
    omega
  rw [Read.bind_of_ok (Read.require_of_le hleft)]
  exact h position written rest hw

/-- A bounded count is a number and a demand for as many octets. -/
theorem Read.boundedCount_bind (k : Nat → Read α) :
    (boundedCount s >>= k) = word s 4 >>= fun n => require n >>= fun _ => k n := by
  simp only [boundedCount, bind_assoc, pure_bind]

/-- The count of items of at least one octet each is accepted where the items follow. -/
theorem recovers_boundedCount {n : Nat} {k : Nat → Read α} (hroom : e.Occupies n)
    (h : Recovers e (k n) a) : Recovers (.count s n ++ e) (Read.boundedCount s >>= k) a := by
  rw [Read.boundedCount_bind]
  exact (recovers_count s n).bind (recovers_require hroom h)

/-- Items of at least one octet each, behind their number, and what follows them. -/
theorem recovers_items {γ : Type} (xs : List γ) {piece : γ → Emit} {item : Read γ}
    {k : List γ → Read α} (hroom : ∀ x ∈ xs, (piece x).Occupies 1)
    (hitem : ∀ x ∈ xs, Recovers (piece x) item x) (hrest : Recovers e (k xs) a) :
    Recovers (.count s xs.length ++ (.concat (xs.map piece) ++ e))
      (Read.boundedCount s >>= fun n => Read.times n item >>= k) a := by
  have htotal := Emit.Occupies.concat xs hroom
  rw [Nat.mul_one] at htotal
  have hitems := Recovers.times_self xs hitem
  exact recovers_boundedCount s (htotal.append_left e) (hitems.bind hrest)

/-- Items behind their number, with nothing following them. -/
theorem recovers_lastItems {γ : Type} (xs : List γ) {piece : γ → Emit} {item : Read γ}
    {k : List γ → Read α} (hroom : ∀ x ∈ xs, (piece x).Occupies 1)
    (hitem : ∀ x ∈ xs, Recovers (piece x) item x) (hrest : k xs = Pure.pure a) :
    Recovers (.count s xs.length ++ .concat (xs.map piece))
      (Read.boundedCount s >>= fun n => Read.times n item >>= k) a := by
  have hlast : Recovers .nothing (k xs) a := by
    rw [hrest]
    exact Recovers.pure a
  have h := recovers_items s xs hroom hitem hlast
  rwa [Emit.append_nothing] at h

/-! ## Texts and runs of octets -/

/-- **Narrow strings.** The length counts the terminator, so it is never read as the zero that some
    peers send for the empty string. -/
theorem recovers_string (text : String) : Recovers (.string s text) (Read.string s) text := by
  refine Recovers.ofExcept fun content hcontent => ?_
  split
  · rename_i hfit
    have hfit : content.length + 1 < Nat.pow 256 4 := hfit
    have hback : Latin1.decodeAll content = text := Latin1.decodeAll_of_encodeAll hcontent
    refine (recovers_word s hfit).bind ?_
    rw [if_neg (Nat.succ_ne_zero _)]
    -- The terminator is taken with the text, looked at, and dropped.
    have htake := recovers_octets (content ++ [0])
    rw [List.length_append, List.length_singleton] at htake
    refine htake.finish ?_
    simp only [List.getLast?_concat, List.dropLast_concat, hback]
  · exact Recovers.fail _ _ _

theorem recovers_utf32 (c : Char) : Recovers (.word s 4 c.toNat) (Read.utf32 s) c := by
  refine (recovers_ulong s c.val).finish ?_
  simp only [charOfUnit?_val]

/-- **Wide strings.** The code units are all there when the first is read, in either width. -/
theorem recovers_wstring (text : String) : Recovers (.wstring s text) (Read.wstring s) text := by
  unfold Emit.wstring Read.wstring
  -- Each unit has at least the octets of its width, so the demand for all of them is met.
  cases s.wide with
  | two =>
    have hroom := Emit.Occupies.concat (Utf16.encodeAll text) fun unit _ =>
      Emit.Occupies.word s 2 unit.toNat
    have hunits := Recovers.times_self (Utf16.encodeAll text) fun unit _ =>
      recovers_word_two s (fun n => n) unit
    refine (recovers_count s _).bind (recovers_require hroom (hunits.finish ?_))
    simp only [Utf16.decodeAll?_encodeAll, String.ofList_toList]
  | four =>
    have hroom := Emit.Occupies.concat text.toList fun c _ =>
      Emit.Occupies.word s 4 c.toNat
    have hunits := Recovers.times_self text.toList fun c _ => recovers_utf32 s c
    refine (recovers_count s _).bind (recovers_require hroom (hunits.finish ?_))
    rw [String.ofList_toList]

theorem recovers_octetSequence (content : List UInt8) :
    Recovers (.octetSequence s content) (Read.octetSequence s) content :=
  (recovers_count s content.length).bind (recovers_octets content)

end ObjectBroker
