import ObjectBroker.Codec.Decode
import ObjectBroker.Codec.Encode
import ObjectBroker.Proofs.Types.WellFormed
import ObjectBroker.Proofs.Wire.Recovery

/-!
# `ObjectBroker.Proofs.Codec.Discriminant` — discriminants on the wire

A discriminant is held in 64 bits and sent in the form of its type. In the range of the type the
narrowing loses nothing, so it is recovered.
-/

namespace ObjectBroker

/-! ## Narrow forms -/

variable {d : Int64}

theorem toNat_toUInt64_of_nonneg (h : 0 ≤ d.toInt) : (d.toUInt64.toNat : Int) = d.toInt := by
  have hle : 0 ≤ d := Int64.le_iff_toInt_le.2 h
  rw [Int64.toNat_toUInt64_of_le hle, ← Int64.toNat_toInt]
  exact Int.toNat_of_nonneg h

theorem toNat_toUInt64_le {bound : Nat} (h : 0 ≤ d.toInt ∧ d.toInt ≤ bound) :
    d.toUInt64.toNat ≤ bound := by
  have hsame := toNat_toUInt64_of_nonneg h.1
  omega

theorem toInt64_of_eight (h : 0 ≤ d.toInt ∧ d.toInt ≤ 0xFF) :
    d.toUInt64.toUInt8.toUInt64.toInt64 = d := by
  have hle : d.toUInt64.toNat ≤ 0xFF := toNat_toUInt64_le h
  have hback : d.toUInt64.toUInt8.toUInt64 = d.toUInt64 := by
    apply UInt64.toNat_inj.1
    rw [UInt8.toNat_toUInt64, UInt64.toNat_toUInt8]
    omega
  rw [hback, Int64.toInt64_toUInt64]

theorem toInt64_of_sixteen (h : 0 ≤ d.toInt ∧ d.toInt ≤ 0xFFFF) :
    d.toUInt64.toUInt16.toUInt64.toInt64 = d := by
  have hle : d.toUInt64.toNat ≤ 0xFFFF := toNat_toUInt64_le h
  have hback : d.toUInt64.toUInt16.toUInt64 = d.toUInt64 := by
    apply UInt64.toNat_inj.1
    rw [UInt16.toNat_toUInt64, UInt64.toNat_toUInt16]
    omega
  rw [hback, Int64.toInt64_toUInt64]

theorem toInt64_of_thirtyTwo (h : 0 ≤ d.toInt ∧ d.toInt ≤ 0xFFFFFFFF) :
    d.toUInt64.toUInt32.toUInt64.toInt64 = d := by
  have hle : d.toUInt64.toNat ≤ 0xFFFFFFFF := toNat_toUInt64_le h
  have hback : d.toUInt64.toUInt32.toUInt64 = d.toUInt64 := by
    apply UInt64.toNat_inj.1
    rw [UInt32.toNat_toUInt64, UInt64.toNat_toUInt32]
    omega
  rw [hback, Int64.toInt64_toUInt64]

/-- Narrowing keeps the low bits, whether the number is taken as signed or not. -/
theorem toInt16_of_narrowed (d : Int64) : d.toUInt64.toUInt16.toInt16 = d.toInt16 := by
  apply Int16.toBitVec_inj.1
  exact (BitVec.signExtend_eq_setWidth_of_le d.toBitVec (by decide)).symm

theorem toInt32_of_narrowed (d : Int64) : d.toUInt64.toUInt32.toInt32 = d.toInt32 := by
  apply Int32.toBitVec_inj.1
  exact (BitVec.signExtend_eq_setWidth_of_le d.toBitVec (by decide)).symm

theorem toInt64_of_signed_sixteen (h : -0x8000 ≤ d.toInt ∧ d.toInt ≤ 0x7FFF) :
    d.toUInt64.toUInt16.toInt16.toInt64 = d := by
  apply Int64.toInt_inj.1
  rw [toInt16_of_narrowed, Int16.toInt_toInt64, Int64.toInt_toInt16]
  apply Int.bmod_eq_of_le <;> omega

theorem toInt64_of_signed_thirtyTwo (h : -0x80000000 ≤ d.toInt ∧ d.toInt ≤ 0x7FFFFFFF) :
    d.toUInt64.toUInt32.toInt32.toInt64 = d := by
  apply Int64.toInt_inj.1
  rw [toInt32_of_narrowed, Int32.toInt_toInt64, Int64.toInt_toInt32]
  apply Int.bmod_eq_of_le <;> omega

/-- Widening with the sign is undone by narrowing. -/
theorem toUInt16_of_signed_sixteen (v : UInt16) : v.toInt16.toInt64.toUInt64.toUInt16 = v := by
  have hback := congrArg Int16.toUInt16 (toInt16_of_narrowed v.toInt16.toInt64)
  rwa [Int16.toInt16_toInt64, UInt16.toUInt16_toInt16, UInt16.toUInt16_toInt16] at hback

theorem toUInt32_of_signed_thirtyTwo (v : UInt32) : v.toInt32.toInt64.toUInt64.toUInt32 = v := by
  have hback := congrArg Int32.toUInt32 (toInt32_of_narrowed v.toInt32.toInt64)
  rwa [Int32.toInt32_toInt64, UInt32.toUInt32_toInt32, UInt32.toUInt32_toInt32] at hback

theorem toInt64_of_boolean (h : 0 ≤ d.toInt ∧ d.toInt ≤ 1) :
    (if (d != 0) = true then (1 : Int64) else 0) = d := by
  by_cases hd : d = 0
  · simp [hd]
  · have hne : d.toInt ≠ 0 := fun h' => hd (Int64.toInt_inj.1 h')
    have hone : d.toInt = 1 := by omega
    have : d = 1 := Int64.toInt_inj.1 hone
    simp [this]

/-! ## Discriminants -/

/-- The ordinals of an enum start at zero. -/
theorem toInt_nonneg_of_enum_range {name : String} {enumerators : List String} {range : LabelRange}
    {u : UnionType} (hu : u.discriminant.resolve = .enum name enumerators)
    (hrange : u.labelRange? = some range) (hd : range.contains d = true) : 0 ≤ d.toInt := by
  rw [UnionType.labelRange?, hu] at hrange
  cases enumerators with
  | nil => cases hrange
  | cons first more =>
    injection hrange with hrange
    subst hrange
    have hbounds := LabelRange.contains_eq_true_iff.1 hd
    exact hbounds.1

/-- An ordinal of an enum that can discriminate is below the number of enumerators. -/
theorem toInt_le_of_enum_range {name : String} {enumerators : List String} {range : LabelRange}
    {u : UnionType} (hu : u.discriminant.resolve = .enum name enumerators)
    (hrange : u.labelRange? = some range) (hfit : enumerators.length ≤ UInt32.size)
    (hd : range.contains d = true) : d.toInt ≤ 0xFFFFFFFF := by
  rw [UnionType.labelRange?, hu] at hrange
  cases enumerators with
  | nil => cases hrange
  | cons first more =>
    injection hrange with hrange
    subst hrange
    have hbounds := LabelRange.contains_eq_true_iff.1 hd
    have hfit : more.length + 1 ≤ 4294967296 := hfit
    have hlast : (Int64.ofNat more.length).toInt = more.length :=
      Int64.toInt_ofNat_of_lt (by omega)
    simp only [hlast] at hbounds
    omega

theorem UnionType.exists_contains_of_inRange {u : UnionType} (hd : u.inRange d = true) :
    ∃ range, u.labelRange? = some range ∧ range.contains d = true := by
  simpa [UnionType.inRange, Option.any_eq_true] using hd

/-- A discriminant in the range of its type is recovered from its narrow form, of which only the
    ordinal of an enum may be too great. -/
theorem recovers_discriminant_of_ordinal (s : Settings) {u : UnionType}
    (hordinal : ∀ name enumerators, u.discriminant.resolve = .enum name enumerators →
      d.toInt ≤ 0xFFFFFFFF)
    (hd : u.inRange d = true) :
    Recovers (Encode.discriminant s u.discriminant d) (Decode.discriminant s u.discriminant) d := by
  obtain ⟨range, hrange, hcontains⟩ := UnionType.exists_contains_of_inRange hd
  have hbounds := LabelRange.contains_eq_true_iff.1 hcontains
  unfold Encode.discriminant Decode.discriminant
  cases hu : u.discriminant.resolve with
  | enum name enumerators =>
    have hzero := toInt_nonneg_of_enum_range hu hrange hcontains
    refine (recovers_ulong s d.toUInt64.toUInt32).finish ?_
    rw [toInt64_of_thirtyTwo ⟨hzero, hordinal name enumerators hu⟩]
  | scalar kind =>
    have hkind : kind.labelRange? = some range := by
      rw [UnionType.labelRange?, hu] at hrange
      exact hrange
    cases kind with
    | octet =>
      cases hkind
      refine (recovers_octet _).finish ?_
      rw [toInt64_of_eight hbounds]
    | boolean =>
      cases hkind
      refine (recovers_boolean _).finish ?_
      rw [toInt64_of_boolean hbounds]
    | short =>
      cases hkind
      have h := recovers_word_two s (fun n => n.toInt16.toInt64) d.toUInt64.toUInt16
      rwa [toInt64_of_signed_sixteen hbounds] at h
    | ushort =>
      cases hkind
      have h := recovers_word_two s (fun n => n.toUInt64.toInt64) d.toUInt64.toUInt16
      rwa [toInt64_of_sixteen hbounds] at h
    | long =>
      cases hkind
      have h := recovers_word_four s (fun n => n.toInt32.toInt64) d.toUInt64.toUInt32
      rwa [toInt64_of_signed_thirtyTwo hbounds] at h
    | ulong =>
      cases hkind
      refine (recovers_ulong s d.toUInt64.toUInt32).finish ?_
      rw [toInt64_of_thirtyTwo hbounds]
    | longlong => exact recovers_longlong s d
    | ulonglong => exact recovers_longlong s d
    | float => cases hkind
    | double => cases hkind
    | char =>
      cases hkind
      refine (recovers_char _).finish ?_
      have hval : (Latin1.decode d.toUInt64.toUInt8).val.toUInt64 = d.toUInt64.toUInt8.toUInt64 := by
        apply UInt64.toNat_inj.1
        rw [UInt32.toNat_toUInt64, UInt8.toNat_toUInt64]
        exact Latin1.toNat_decode _
      rw [hval, toInt64_of_eight hbounds]
    | wchar =>
      cases hkind
      dsimp only
      cases hc : charOfUnit? d.toUInt64.toUInt32 with
      | none => exact Recovers.fail _ _ _
      | some c =>
        have hval : c.val = d.toUInt64.toUInt32 := charOfUnit?_eq_some_iff.1 hc
        have hplane : 0 ≤ d.toInt ∧ d.toInt ≤ 0x10FFFF := hbounds
        refine (recovers_wchar s c).finish ?_
        rw [hval, toInt64_of_thirtyTwo (by omega)]
  | _ => exact Recovers.fail _ _ _

/-- **Discriminants.** A discriminant in the range of its type is recovered from its narrow form. -/
theorem recovers_discriminant (s : Settings) {u : UnionType} (hfit : u.ordinalsFit = true)
    (hd : u.inRange d = true) :
    Recovers (Encode.discriminant s u.discriminant d) (Decode.discriminant s u.discriminant) d := by
  refine recovers_discriminant_of_ordinal s (fun name enumerators hu => ?_) hd
  obtain ⟨range, hrange, hcontains⟩ := UnionType.exists_contains_of_inRange hd
  have hcount : enumerators.length ≤ UInt32.size := by
    simpa [UnionType.ordinalsFit, hu] using hfit
  exact toInt_le_of_enum_range hu hrange hcount hcontains

end ObjectBroker
