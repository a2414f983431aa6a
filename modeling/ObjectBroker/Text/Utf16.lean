/-!
# `ObjectBroker.Text.Utf16` — wide characters as code units

A wide character is one UTF-32 unit or one or two UTF-16 units. Characters of the first plane are
their own UTF-16 unit; the others are a high surrogate followed by a low one. A surrogate without
its partner is no text.
-/

namespace ObjectBroker

/-- The character with this code point, if there is one. -/
def charOfUnit? (unit : UInt32) : Option Char :=
  if h : unit.isValidChar then some ⟨unit, h⟩ else none

@[simp] theorem charOfUnit?_val (c : Char) : charOfUnit? c.val = some c := by
  simp [charOfUnit?, c.valid]

theorem charOfUnit?_eq_some_iff {unit : UInt32} {c : Char} :
    charOfUnit? unit = some c ↔ c.val = unit := by
  unfold charOfUnit?
  constructor
  · intro h
    split at h
    · injection h with h
      rw [← h]
    · cases h
  · intro h
    subst h
    simp [c.valid]

/-- The character with a legal code point has that code point. -/
theorem toNat_ofNat_of_isValidChar {n : Nat} (h : n.isValidChar) : (Char.ofNat n).toNat = n := by
  rw [Char.ofNat, dif_pos h]
  rfl

namespace Utf16

/-- The code units of a character: one, or a high surrogate and a low one. -/
def units (c : Char) : List UInt16 :=
  if c.toNat < 0x10000 then
    [c.toNat.toUInt16]
  else
    [(0xD800 + (c.toNat - 0x10000) / 0x400).toUInt16,
      (0xDC00 + (c.toNat - 0x10000) % 0x400).toUInt16]

/-- The code units of a text. -/
def encodeAll (text : String) : List UInt16 :=
  text.toList.flatMap units

/-- Whether a unit is the first half of a pair. -/
def isHigh (unit : UInt16) : Bool := 0xD800 ≤ unit && unit < 0xDC00

/-- Whether a unit is the second half of a pair. -/
def isLow (unit : UInt16) : Bool := 0xDC00 ≤ unit && unit < 0xE000

/-- The character two halves make. -/
def pair (high low : UInt16) : Char :=
  Char.ofNat (0x10000 + (high.toNat - 0xD800) * 0x400 + (low.toNat - 0xDC00))

/-- The characters of a list of code units, if every half has its partner. -/
def decodeAll? : List UInt16 → Option (List Char)
  | [] => some []
  | [unit] =>
    if isHigh unit || isLow unit then none else some [Char.ofNat unit.toNat]
  | unit :: next :: rest =>
    if isHigh unit then
      if isLow next then (decodeAll? rest).map (pair unit next :: ·) else none
    else if isLow unit then
      none
    else
      (decodeAll? (next :: rest)).map (Char.ofNat unit.toNat :: ·)

theorem isHigh_eq_decide (unit : UInt16) :
    isHigh unit = decide (0xD800 ≤ unit.toNat ∧ unit.toNat < 0xDC00) := by
  simp [isHigh, UInt16.le_iff_toNat_le, UInt16.lt_iff_toNat_lt]

theorem isLow_eq_decide (unit : UInt16) :
    isLow unit = decide (0xDC00 ≤ unit.toNat ∧ unit.toNat < 0xE000) := by
  simp [isLow, UInt16.le_iff_toNat_le, UInt16.lt_iff_toNat_lt]

/-- The units of a character are read back as that character, whatever follows them. -/
theorem decodeAll?_units_append (c : Char) (rest : List UInt16) :
    decodeAll? (units c ++ rest) = (decodeAll? rest).map (c :: ·) := by
  have valid : c.toNat < 0xD800 ∨ 0xDFFF < c.toNat ∧ c.toNat < 0x110000 := c.valid
  by_cases plane : c.toNat < 0x10000
  · have unit : c.toNat.toUInt16.toNat = c.toNat := by
      rw [UInt16.toNat_ofNat']
      omega
    have high : isHigh c.toNat.toUInt16 = false := by
      rw [isHigh_eq_decide, unit]
      simp only [decide_eq_false_iff_not]
      omega
    have low : isLow c.toNat.toUInt16 = false := by
      rw [isLow_eq_decide, unit]
      simp only [decide_eq_false_iff_not]
      omega
    have back : Char.ofNat c.toNat.toUInt16.toNat = c := by
      rw [unit, Char.ofNat_toNat]
    cases rest <;>
      simp only [units, plane, ↓reduceIte, List.cons_append, List.nil_append, decodeAll?, high,
        low, back, Bool.or_false, Bool.false_eq_true, Option.map_some]
  · have first : (0xD800 + (c.toNat - 0x10000) / 0x400).toUInt16.toNat
        = 0xD800 + (c.toNat - 0x10000) / 0x400 := by
      rw [UInt16.toNat_ofNat']
      omega
    have second : (0xDC00 + (c.toNat - 0x10000) % 0x400).toUInt16.toNat
        = 0xDC00 + (c.toNat - 0x10000) % 0x400 := by
      rw [UInt16.toNat_ofNat']
      omega
    have high : isHigh (0xD800 + (c.toNat - 0x10000) / 0x400).toUInt16 = true := by
      rw [isHigh_eq_decide, first, decide_eq_true_eq]
      omega
    have low : isLow (0xDC00 + (c.toNat - 0x10000) % 0x400).toUInt16 = true := by
      rw [isLow_eq_decide, second, decide_eq_true_eq]
      omega
    have back : pair (0xD800 + (c.toNat - 0x10000) / 0x400).toUInt16
        (0xDC00 + (c.toNat - 0x10000) % 0x400).toUInt16 = c := by
      have sum : 0x10000 + (0xD800 + (c.toNat - 0x10000) / 0x400 - 0xD800) * 0x400
          + (0xDC00 + (c.toNat - 0x10000) % 0x400 - 0xDC00) = c.toNat := by
        omega
      rw [pair, first, second, sum, Char.ofNat_toNat]
    simp only [units, plane, ↓reduceIte, List.cons_append, List.nil_append, decodeAll?, high,
      low, back]

/-- Every text is read back from its code units. -/
@[simp] theorem decodeAll?_encodeAll (text : String) :
    decodeAll? (encodeAll text) = some text.toList := by
  unfold encodeAll
  induction text.toList with
  | nil => rfl
  | cons c cs ih => simp [decodeAll?_units_append, ih]

/-- A unit outside of both halves is the unit of its character. -/
theorem units_ofNat {unit : UInt16} (h : (isHigh unit || isLow unit) = false) :
    units (Char.ofNat unit.toNat) = [unit] := by
  rw [isHigh_eq_decide, isLow_eq_decide, Bool.or_eq_false_iff, decide_eq_false_iff_not,
    decide_eq_false_iff_not] at h
  have hunit : unit.toNat < 0x10000 := unit.toNat_lt
  have hvalid : unit.toNat.isValidChar := by
    show unit.toNat < 0xD800 ∨ 0xDFFF < unit.toNat ∧ unit.toNat < 0x110000
    omega
  have hchar := toNat_ofNat_of_isValidChar hvalid
  rw [units, hchar, if_pos hunit]
  exact congrArg (fun u => [u]) (UInt16.ofNat_toNat)

/-- Two halves are the units of the character they make. -/
theorem units_pair {high low : UInt16} (hhigh : isHigh high = true) (hlow : isLow low = true) :
    units (pair high low) = [high, low] := by
  rw [isHigh_eq_decide, decide_eq_true_eq] at hhigh
  rw [isLow_eq_decide, decide_eq_true_eq] at hlow
  have hvalid :
      (0x10000 + (high.toNat - 0xD800) * 0x400 + (low.toNat - 0xDC00)).isValidChar := by
    refine .inr ?_
    omega
  have hchar := toNat_ofNat_of_isValidChar hvalid
  have hplane : ¬(pair high low).toNat < 0x10000 := by
    rw [pair, hchar]
    omega
  have hfirst : 0xD800 + ((pair high low).toNat - 0x10000) / 0x400 = high.toNat := by
    rw [pair, hchar]
    omega
  have hsecond : 0xDC00 + ((pair high low).toNat - 0x10000) % 0x400 = low.toNat := by
    rw [pair, hchar]
    omega
  rw [units, if_neg hplane, hfirst, hsecond]
  have hunits : ∀ unit : UInt16, unit.toNat.toUInt16 = unit := fun _ => UInt16.ofNat_toNat
  rw [hunits, hunits]

theorem flatMap_units_of_decodeAll? {us : List UInt16} {text : List Char}
    (h : decodeAll? us = some text) : text.flatMap units = us := by
  fun_induction decodeAll? us generalizing text with
  | case1 =>
    cases h
    rfl
  | case2 unit hhalf => cases h
  | case3 unit hhalf =>
    cases h
    rw [List.flatMap_cons, units_ofNat (Bool.eq_false_iff.2 hhalf)]
    rfl
  | case4 unit next rest hhigh hlow ih =>
    obtain ⟨others, hothers, rfl⟩ := Option.map_eq_some_iff.1 h
    rw [List.flatMap_cons, units_pair hhigh hlow, ih hothers]
    rfl
  | case5 => cases h
  | case6 => cases h
  | case7 unit next rest hhigh hlow ih =>
    obtain ⟨others, hothers, rfl⟩ := Option.map_eq_some_iff.1 h
    have hhalf : (isHigh unit || isLow unit) = false := by simp [hhigh, hlow]
    rw [List.flatMap_cons, units_ofNat hhalf, ih hothers]
    rfl

/-- Code units that were read are written again. -/
theorem encodeAll_of_decodeAll? {us : List UInt16} {text : List Char}
    (h : decodeAll? us = some text) : encodeAll (String.ofList text) = us := by
  rw [encodeAll, String.toList_ofList]
  exact flatMap_units_of_decodeAll? h

end Utf16

end ObjectBroker
