import ObjectBroker.Proofs.Wire.Recovery
import ObjectBroker.Wire.Primitive

/-!
# `ObjectBroker.Proofs.Wire.Layout` — primitive values as rows of numbers

Whatever is written in one call, a number, a character or a text, ends up as a row of numbers of
fixed widths: a narrow string is its length, an octet for each character and a zero; a wide string
is the number of its code units and the units. Every number of the row starts at a multiple of its
width, wherever the row starts.

A value can be written exactly if each number of its row fits its width. This is decided by the value
and the settings, never by the offset, so a write that fails would have failed anywhere.
-/

namespace ObjectBroker

/-- Every primitive value is recovered under its own kind. -/
theorem recovers_primitive (s : Settings) (p : Primitive) :
    Recovers (p.emit s) (p.kind.read s) p := by
  cases p with
  | scalar v => exact (recovers_scalar s v).map Primitive.scalar
  | string text => exact (recovers_string s text).map Primitive.string
  | wstring text => exact (recovers_wstring s text).map Primitive.wstring

/-! ## Rows of numbers -/

/-- A number on the wire, with the number of its octets. -/
structure WireNumber where
  width : Nat
  value : Nat
  width_pos : 0 < width := by decide

/-- The octets of the number in the byte order. -/
def WireNumber.octets (s : Settings) (n : WireNumber) : List UInt8 :=
  s.order.arrange (littleEndian n.width n.value)

/-- The number behind its padding. -/
def WireNumber.emit (s : Settings) (n : WireNumber) : Emit := .word s n.width n.value

/-- A number of one octet. -/
def WireNumber.octet (value : Nat) : WireNumber := { width := 1, value := value }

theorem WideWidth.octets_pos (wide : WideWidth) : 0 < wide.octets := by
  cases wide <;> decide

/-- A code unit of wide characters. -/
def WideWidth.unit (wide : WideWidth) (unit : Nat) : WireNumber :=
  { width := wide.octets, value := unit, width_pos := wide.octets_pos }

/-- The code units of a wide character. -/
def WideWidth.unitsOf : WideWidth → Char → List Nat
  | .two, c => (Utf16.units c).map (·.toNat)
  | .four, c => [c.toNat]

/-- The code units of a wide text. -/
def WideWidth.unitsOfText (wide : WideWidth) (text : String) : List Nat :=
  text.toList.flatMap wide.unitsOf

/-- The number a scalar value is: of a floating-point number its bits, of a negative number its two's
    complement, of a character its code point. -/
def ScalarValue.number (s : Settings) : ScalarValue → WireNumber
  | .octet v => .octet v.toNat
  | .boolean v => .octet v.toNat
  | .short v => { width := 2, value := v.toUInt16.toNat }
  | .ushort v => { width := 2, value := v.toNat }
  | .long v => { width := 4, value := v.toUInt32.toNat }
  | .ulong v => { width := 4, value := v.toNat }
  | .longlong v => { width := 8, value := v.toUInt64.toNat }
  | .ulonglong v => { width := 8, value := v.toNat }
  | .float v => { width := 4, value := v.bits.toNat }
  | .double v => { width := 8, value := v.bits.toNat }
  | .char c => .octet c.toNat
  | .wchar c => s.wide.unit c.toNat

/-- The numbers a value is written as. The length of a narrow string counts its terminator, and that
    of a wide string its code units. -/
def Primitive.numbers (s : Settings) : Primitive → List WireNumber
  | .scalar v => [v.number s]
  | .string text =>
    { width := 4, value := text.toList.length + 1 } ::
      (text.toList.map Char.toNat ++ [0]).map WireNumber.octet
  | .wstring text =>
    { width := 4, value := (s.wide.unitsOfText text).length } ::
      (s.wide.unitsOfText text).map s.wide.unit

/-- The octets of the number are enough for it. -/
def WireNumber.Fits (n : WireNumber) : Prop := n.value < Nat.pow 256 n.width

/-- A value can be written if each of its numbers fits its width. -/
def Primitive.Expressible (s : Settings) (p : Primitive) : Prop := ∀ n ∈ p.numbers s, n.Fits

instance (n : WireNumber) : Decidable n.Fits := inferInstanceAs (Decidable (_ < _))

instance (s : Settings) (p : Primitive) : Decidable (p.Expressible s) :=
  inferInstanceAs (Decidable (∀ n ∈ p.numbers s, n.Fits))

/-! ## Pieces that are rows -/

namespace Emit

/-- What follows a piece that is never written does not matter. -/
theorem fail_append (f : Fault) (e : Emit) : fail f ++ e = fail f := rfl

/-- Octets in a row are written one by one. -/
theorem octets_eq_concat (content : List UInt8) :
    octets content = concat (content.map fun v => octets [v]) := by
  induction content with
  | nil => rfl
  | cons v content ih =>
    rw [List.map_cons, concat, ← ih]
    rfl

/-- A number of one octet needs no padding and has no byte order. -/
theorem word_one (s : Settings) (value : Nat) : word s 1 value = octets [UInt8.ofNat value] := by
  have hpad : pad 1 = nothing := by
    funext position
    rw [pad, padding_one, List.replicate_zero, nothing]
  have hlowest : littleEndian 1 value = [UInt8.ofNat value] := by
    rw [littleEndian, littleEndian, UInt8.ofNat_mod_size]
  have hoctet : s.order.arrange (littleEndian 1 value) = [UInt8.ofNat value] := by
    rw [hlowest]
    cases s.order <;> rfl
  rw [word, hpad, nothing_append, hoctet]

end Emit

/-! ## Each kind of value as a row -/

/-- The numbers of a row, one after the other. -/
def Emit.row (s : Settings) (ns : List WireNumber) : Emit := .concat (ns.map (·.emit s))

theorem Emit.row_singleton (s : Settings) (n : WireNumber) : row s [n] = n.emit s :=
  append_nothing _

section Rows

variable {s : Settings}

/-- Octets are a row of numbers of one octet. -/
theorem Emit.row_octets (values : List Nat) :
    row s (values.map .octet) = octets (values.map UInt8.ofNat) := by
  rw [row, octets_eq_concat, List.map_map, List.map_map]
  congr 2
  funext value
  exact word_one s value

theorem scalar_eq_row {v : ScalarValue} (h : (v.number s).Fits) :
    Emit.scalar s v = (v.number s).emit s := by
  cases v with
  | octet v =>
    show Emit.octets [v] = Emit.word s 1 v.toNat
    rw [Emit.word_one, UInt8.ofNat_toNat]
  | boolean v =>
    show Emit.octets [if v then 1 else 0] = Emit.word s 1 v.toNat
    rw [Emit.word_one]
    cases v <;> rfl
  | char c =>
    show Emit.char c = Emit.word s 1 c.toNat
    rw [Emit.char, Latin1.encode_of_lt h, Emit.word_one]
    rfl
  | wchar c =>
    have hfit : c.toNat < Nat.pow 256 s.wide.octets := h
    show Emit.wchar s c = Emit.word s s.wide.octets c.toNat
    unfold Emit.wchar
    cases hwide : s.wide with
    | two =>
      rw [hwide] at hfit
      have hplane : c.toNat < 0x10000 := hfit
      have hunit : c.toNat.toUInt16.toNat = c.toNat := Nat.mod_eq_of_lt hplane
      simp only [Utf16.units, if_pos hplane, hunit, WideWidth.octets]
    | four => rfl
  | _ => rfl

theorem string_eq_row {text : String} (hlatin : ∀ c ∈ text.toList, c.toNat < 256)
    (hfit : text.toList.length + 1 < UInt32.size) :
    Emit.string s text = .row s ((Primitive.string text).numbers s) := by
  have hlength : (text.toList.map fun c => UInt8.ofNat c.toNat).length = text.toList.length :=
    List.length_map _
  -- The terminator is a number of one octet like the characters before it.
  have hcontent : (text.toList.map Char.toNat ++ [0]).map UInt8.ofNat
      = text.toList.map (fun c => UInt8.ofNat c.toNat) ++ [0] := by
    rw [List.map_append, List.map_map]
    rfl
  simp only [Emit.string, Latin1.encodeAll_of_lt hlatin, Emit.ofExcept, hlength, if_pos hfit]
  rw [← hcontent, ← Emit.row_octets]
  rfl

/-- In either width, the code units are written as they are. -/
theorem wstring_eq (text : String) :
    Emit.wstring s text = .count s (s.wide.unitsOfText text).length ++
      .row s ((s.wide.unitsOfText text).map s.wide.unit) := by
  unfold Emit.wstring WideWidth.unitsOfText
  cases hwide : s.wide with
  | two =>
    have hunits : text.toList.flatMap WideWidth.two.unitsOf
        = (Utf16.encodeAll text).map (·.toNat) := List.map_flatMap.symm
    rw [hunits, Emit.row, List.map_map, List.map_map, List.length_map]
    rfl
  | four =>
    have hunits : text.toList.flatMap WideWidth.four.unitsOf = text.toList.map (·.toNat) :=
      List.flatMap_pure_eq_map _ _
    rw [hunits, Emit.row, List.map_map, List.map_map, List.length_map]
    rfl

/-! ## Which numbers fit -/

theorem expressible_scalar_iff {v : ScalarValue} :
    (Primitive.scalar v).Expressible s ↔ (v.number s).Fits :=
  List.forall_mem_singleton

/-- Only a character can be too large for its width. -/
theorem fits_number_or_character (s : Settings) (v : ScalarValue) :
    (v.number s).Fits ∨ ∃ c, v = .char c ∨ v = .wchar c := by
  cases v with
  | octet v => exact .inl v.toNat_lt
  | boolean v => exact .inl (Nat.lt_of_le_of_lt v.toNat_le (show 1 < Nat.pow 256 1 by decide))
  | short v => exact .inl v.toUInt16.toNat_lt
  | ushort v => exact .inl v.toNat_lt
  | long v => exact .inl v.toUInt32.toNat_lt
  | ulong v => exact .inl v.toNat_lt
  | longlong v => exact .inl v.toUInt64.toNat_lt
  | ulonglong v => exact .inl v.toNat_lt
  | float v => exact .inl v.bits.toNat_lt
  | double v => exact .inl v.bits.toNat_lt
  | char c => exact .inr ⟨c, .inl rfl⟩
  | wchar c => exact .inr ⟨c, .inr rfl⟩

/-- A narrow string is limited in its characters and in its length. -/
theorem expressible_string_iff {text : String} :
    (Primitive.string text).Expressible s ↔
      (∀ c ∈ text.toList, c.toNat < 256) ∧ text.toList.length + 1 < UInt32.size := by
  constructor
  · intro h
    obtain ⟨hfit, hrest⟩ := List.forall_mem_cons.1 h
    have hoctets := (List.forall_mem_append.1 (List.forall_mem_map.1 hrest)).1
    exact ⟨List.forall_mem_map.1 hoctets, hfit⟩
  · rintro ⟨hlatin, hfit⟩
    refine List.forall_mem_cons.2 ⟨hfit, List.forall_mem_map.2 (List.forall_mem_append.2 ⟨?_, ?_⟩)⟩
    · exact List.forall_mem_map.2 hlatin
    · exact List.forall_mem_singleton.2 (by decide)

/-- A wide string is limited in its length alone: a code unit always fits. -/
theorem expressible_wstring_iff {text : String} :
    (Primitive.wstring text).Expressible s ↔ (s.wide.unitsOfText text).length < UInt32.size := by
  have hunits : ∀ unit ∈ s.wide.unitsOfText text, (s.wide.unit unit).Fits := by
    intro unit hunit
    obtain ⟨c, -, hc⟩ := List.mem_flatMap.1 hunit
    cases hwide : s.wide with
    | two =>
      rw [hwide] at hc
      obtain ⟨unit, -, rfl⟩ := List.mem_map.1 hc
      exact unit.toNat_lt
    | four =>
      rw [hwide] at hc
      obtain rfl := List.mem_singleton.1 hc
      exact c.val.toNat_lt
  constructor
  · intro h
    exact h _ List.mem_cons_self
  · intro hfit
    exact List.forall_mem_cons.2 ⟨hfit, List.forall_mem_map.2 hunits⟩

/-! ## The row is what is written -/

/-- **Rows.** A value that can be written is written as the row of its numbers. -/
theorem emit_of_expressible {p : Primitive} (h : p.Expressible s) :
    p.emit s = .row s (p.numbers s) := by
  cases p with
  | scalar v =>
    exact (scalar_eq_row (expressible_scalar_iff.1 h)).trans (Emit.row_singleton s _).symm
  | string text =>
    obtain ⟨hlatin, hfit⟩ := expressible_string_iff.1 h
    exact string_eq_row hlatin hfit
  | wstring text =>
    rw [Primitive.emit, wstring_eq, Emit.count, if_pos (expressible_wstring_iff.1 h)]
    rfl

/-- A character too large for its width is refused. -/
theorem exists_fault_of_not_fits {v : ScalarValue} (h : ¬(v.number s).Fits) :
    ∃ f, Emit.scalar s v = .fail f := by
  rcases fits_number_or_character s v with hfits | ⟨c, rfl | rfl⟩
  · exact absurd hfits h
  · have hfault : Latin1.encode c = .error (.invalidData (.notLatin1 c)) := if_neg h
    exact ⟨_, congrArg (Emit.ofExcept · Emit.octet) hfault⟩
  · have hlarge : ¬c.toNat < Nat.pow 256 s.wide.octets := h
    cases hwide : s.wide with
    | two =>
      rw [hwide] at hlarge
      have hplane : ¬c.toNat < 0x10000 := hlarge
      refine ⟨.invalidData (.notSingleUnit c), ?_⟩
      simp only [Emit.scalar, Emit.wchar, hwide, Utf16.units, if_neg hplane]
    | four =>
      -- Four octets are enough for every code point.
      rw [hwide] at hlarge
      exact absurd c.val.toNat_lt hlarge

/-- A narrow string is refused for a character, or else for its length. -/
theorem exists_fault_of_not_latin1 {text : String}
    (h : ¬((∀ c ∈ text.toList, c.toNat < 256) ∧ text.toList.length + 1 < UInt32.size)) :
    ∃ f, Emit.string s text = .fail f := by
  unfold Emit.string
  cases hall : Latin1.encodeAll text with
  | error f => exact ⟨f, rfl⟩
  | ok content =>
    have hlatin := Latin1.lt_of_encodeAll hall
    have hlength : content.length = text.toList.length := by
      rw [Latin1.encodeAll_of_lt hlatin] at hall
      rw [← Except.ok.inj hall, List.length_map]
    have hlong : ¬content.length + 1 < UInt32.size := fun hfit => h ⟨hlatin, hlength ▸ hfit⟩
    exact ⟨_, if_neg hlong⟩

/-- The other values end with the same fault at every offset. -/
theorem exists_fault_of_not_expressible {p : Primitive} (h : ¬p.Expressible s) :
    ∃ f, p.emit s = .fail f := by
  cases p with
  | scalar v => exact exists_fault_of_not_fits (mt expressible_scalar_iff.2 h)
  | string text => exact exists_fault_of_not_latin1 (mt expressible_string_iff.2 h)
  | wstring text =>
    have hlong := mt expressible_wstring_iff.2 h
    refine ⟨.invalidData (.lengthTooLong (s.wide.unitsOfText text).length), ?_⟩
    rw [Primitive.emit, wstring_eq, Emit.count, if_neg hlong, Emit.fail_append]

/-- A character outside of the first plane is two code units of two octets: it is refused by itself,
    and written in a text. -/
example : ¬(Primitive.scalar (.wchar '😀')).Expressible ⟨.bigEndian, .two⟩ ∧
    (Primitive.wstring "😀").Expressible ⟨.bigEndian, .two⟩ := by decide

end Rows

/-! ## Numbers in their places -/

/-- **Layout.** The octets that follow an offset are the numbers in order, each of them at a multiple
    of its width and behind fewer zeros than that. -/
inductive LaidOut (s : Settings) : Nat → List WireNumber → List UInt8 → Prop where
  | nil (position : Nat) : LaidOut s position [] []
  | cons {position zeros : Nat} {n : WireNumber} {ns : List WireNumber} {rest : List UInt8}
      (few : zeros < n.width) (aligned : n.width ∣ position + zeros)
      (others : LaidOut s (position + zeros + n.width) ns rest) :
      LaidOut s position (n :: ns) (List.replicate zeros 0 ++ n.octets s ++ rest)

theorem WireNumber.octets_length (s : Settings) (n : WireNumber) :
    (n.octets s).length = n.width := by
  rw [octets, ByteOrder.arrange_length, littleEndian_length]

/-- A row is written at every offset, with its numbers in their places. -/
theorem exists_laidOut_of_row (s : Settings) (ns : List WireNumber) (position : Nat) :
    ∃ octets, Emit.row s ns position = .ok octets ∧ LaidOut s position ns octets := by
  induction ns generalizing position with
  | nil => exact ⟨[], rfl, .nil position⟩
  | cons n ns ih =>
    let zeros := padding position n.width
    obtain ⟨rest, hrest, hplaces⟩ := ih (position + zeros + n.width)
    have hfirst : n.emit s position = .ok (List.replicate zeros 0 ++ n.octets s) := rfl
    have hlength : (List.replicate zeros 0 ++ n.octets s).length = zeros + n.width := by
      rw [List.length_append, List.length_replicate, n.octets_length]
    refine ⟨List.replicate zeros 0 ++ n.octets s ++ rest, ?_, ?_⟩
    · refine Emit.append_eq_ok_iff.2 ⟨_, rest, hfirst, ?_, rfl⟩
      rw [hlength, ← Nat.add_assoc]
      exact hrest
    · have haligned := add_padding_mod position n.width_pos
      exact .cons (padding_lt position n.width_pos) (Nat.dvd_of_mod_eq_zero haligned) hplaces

/-- **Placement.** A value that can be written is written at every offset, as its numbers in their
    places. -/
theorem exists_laidOut {s : Settings} {p : Primitive} (h : p.Expressible s) (position : Nat) :
    ∃ octets, p.emit s position = .ok octets ∧ LaidOut s position (p.numbers s) octets := by
  rw [emit_of_expressible h]
  exact exists_laidOut_of_row s (p.numbers s) position

end ObjectBroker
