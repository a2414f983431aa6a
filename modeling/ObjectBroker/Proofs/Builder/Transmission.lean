import ObjectBroker.Proofs.Builder.UnionRuns
import ObjectBroker.Proofs.Codec.Discriminant
import ObjectBroker.Proofs.Codec.Unions
import ObjectBroker.Proofs.Wire.Faults
import ObjectBroker.Proofs.Wire.Locality

/-!
# `ObjectBroker.Proofs.Builder.Transmission` — discriminants that are accepted and those that are sent

A union accepts every discriminant in the range of its discriminant type. The range is an interval,
and what is sent is a number of so many bits or a character. Most ranges are exactly what their wire
form can carry. Two are wider: the range of wide characters goes over the surrogates, which are no
characters, and the ordinals of an enum may go beyond 32 bits.
-/

namespace ObjectBroker

namespace UnionType

/-- Whether the wire form of the discriminant type can carry the discriminant: a wide character is
    sent as a character, which a surrogate is not, and an ordinal in 32 bits. -/
def carries (u : UnionType) (d : Int64) : Bool :=
  match u.discriminant.resolve with
  | .scalar .wchar => d.toInt < 0xD800 || 0xDFFF < d.toInt
  | .enum _ _ => d.toInt ≤ 0xFFFFFFFF
  | _ => true

end UnionType

/-! ## What is sent -/

variable {s : Settings} {u : UnionType} {d : Int64}

/-- Of the numbers up to the last character, just the surrogates are no characters. -/
theorem charOfUnit?_eq_none_iff (h : 0 ≤ d.toInt ∧ d.toInt ≤ 0x10FFFF) :
    charOfUnit? d.toUInt64.toUInt32 = none ↔ 0xD800 ≤ d.toInt ∧ d.toInt ≤ 0xDFFF := by
  have hwide := toNat_toUInt64_of_nonneg h.1
  have hnarrow : d.toUInt64.toUInt32.toNat = d.toUInt64.toNat := by
    rw [UInt64.toNat_toUInt32]
    omega
  have hvalid : d.toUInt64.toUInt32.isValidChar ↔
      d.toUInt64.toUInt32.toNat < 0xD800 ∨
        0xDFFF < d.toUInt64.toUInt32.toNat ∧ d.toUInt64.toUInt32.toNat < 0x110000 := Iff.rfl
  unfold charOfUnit?
  split
  · rename_i hc
    simp only [reduceCtorEq, false_iff]
    rw [hvalid] at hc
    omega
  · rename_i hc
    simp only [true_iff]
    rw [hvalid] at hc
    omega

/-- In the range of its type only a surrogate cannot be sent. -/
theorem failsWith_discriminant_inRange (hwide : s.wide = .four) (hd : u.inRange d = true) :
    (Encode.discriminant s u.discriminant d).FailsWith fun f =>
      u.discriminant.resolve = .scalar .wchar ∧ u.carries d = false ∧
        f = .invalidData (.discriminantCharacter d) := by
  obtain ⟨range, hrange, hcontains⟩ := UnionType.exists_contains_of_inRange hd
  have hbounds := LabelRange.contains_eq_true_iff.1 hcontains
  unfold Encode.discriminant
  cases hu : u.discriminant.resolve with
  | enum name enumerators => exact Emit.FailsWith.word s 4 _
  | scalar kind =>
    rw [UnionType.labelRange?, hu] at hrange
    cases kind with
    | wchar =>
      cases hrange
      dsimp only
      cases hc : charOfUnit? d.toUInt64.toUInt32 with
      | none =>
        have hsurrogate := (charOfUnit?_eq_none_iff hbounds).1 hc
        refine Emit.FailsWith.fail ⟨rfl, ?_, rfl⟩
        simp only [UnionType.carries, hu, Bool.or_eq_false_iff, decide_eq_false_iff_not]
        omega
      | some c =>
        dsimp only
        rw [Emit.wchar, hwide]
        exact Emit.FailsWith.word s 4 _
    | char =>
      refine Emit.FailsWith.ofExcept (fun f hf => ?_) fun octet => Emit.FailsWith.octets _
      rw [Latin1.encode_decode] at hf
      cases hf
    | octet => exact Emit.FailsWith.octets _
    | boolean => exact Emit.FailsWith.octets _
    | float => cases hrange
    | double => cases hrange
    | _ => exact Emit.FailsWith.word s _ _
  | _ =>
    rw [UnionType.labelRange?, hu] at hrange
    cases hrange

/-- And a surrogate is not sent at all. -/
theorem refused_of_surrogate (hd : u.inRange d = true)
    (hu : u.discriminant.resolve = .scalar .wchar) (hcarried : u.carries d = false) :
    Encode.discriminant s u.discriminant d = .fail (.invalidData (.discriminantCharacter d)) := by
  obtain ⟨range, hrange, hcontains⟩ := UnionType.exists_contains_of_inRange hd
  have hbounds := LabelRange.contains_eq_true_iff.1 hcontains
  rw [UnionType.labelRange?, hu] at hrange
  cases hrange
  simp only [UnionType.carries, hu, Bool.or_eq_false_iff, decide_eq_false_iff_not] at hcarried
  have hnone := (charOfUnit?_eq_none_iff hbounds).2 (by omega)
  simp only [Encode.discriminant, hu, hnone]

/-- An ordinal is read back from 32 bits, whatever it was. -/
theorem recovers_ordinal (s : Settings) {name : String} {enumerators : List String}
    (hu : u.discriminant.resolve = .enum name enumerators) (d : Int64) :
    Recovers (Encode.discriminant s u.discriminant d) (Decode.discriminant s u.discriminant)
      d.toUInt64.toUInt32.toUInt64.toInt64 := by
  simp only [Encode.discriminant, Decode.discriminant, hu]
  exact (recovers_ulong s d.toUInt64.toUInt32).finish rfl

/-- What is written and read back again can be carried: a surrogate is not written, and an ordinal
    beyond 32 bits is read as another one. -/
theorem carries_of_readAt {before written : List UInt8} (hd : u.inRange d = true)
    (hwritten : Encode.discriminant s u.discriminant d before.length = .ok written)
    (hread : Reader.readAt (before ++ written ++ []) before.length
      (Decode.discriminant s u.discriminant) = .ok (d, before.length + written.length)) :
    u.carries d = true := by
  cases hcarried : u.carries d with
  | true => rfl
  | false =>
    exfalso
    unfold UnionType.carries at hcarried
    cases hu : u.discriminant.resolve with
    | enum name enumerators =>
      have hback := (recovers_ordinal s hu d).readAt hwritten []
      have hsame : d = d.toUInt64.toUInt32.toUInt64.toInt64 :=
        congrArg Prod.fst (Except.ok.inj (hread.symm.trans hback))
      have hnarrow : d.toUInt64.toUInt32.toUInt64.toNat ≤ 0xFFFFFFFF := by
        have hlt := d.toUInt64.toUInt32.toNat_lt
        rw [UInt32.toNat_toUInt64]
        omega
      have hbounds := toInt_bounds_of_toNat_le hnarrow (by decide)
      rw [← hsame] at hbounds
      simp only [hu, decide_eq_false_iff_not] at hcarried
      omega
    | scalar kind =>
      cases kind with
      | wchar =>
        rw [refused_of_surrogate hd hu (by rwa [UnionType.carries])] at hwritten
        cases hwritten
      | _ => simp [hu] at hcarried
    | _ => simp [hu] at hcarried

/-! ## What is accepted and what is sent -/

/-- **Transmission.** With wide characters of four octets, a discriminant that a union has accepted
    can be sent, and is read back from where it was written whatever is around it, exactly if its wire
    form can carry it. What cannot be sent at all is a surrogate. -/
theorem transmitted_iff {v v' : UnionValue} (hwide : s.wide = .four)
    (hset : v.call (.setDiscriminant d) = (.ok (), v')) (before : List UInt8) :
    v'.discriminant? = some d ∧
    ((∃ written, Encode.discriminant s v'.shape.discriminant d before.length = .ok written ∧
        ∀ after, Reader.readAt (before ++ written ++ after) before.length
          (Decode.discriminant s v'.shape.discriminant) = .ok (d, before.length + written.length)) ↔
      v'.shape.carries d = true) ∧
    ∀ f, Encode.discriminant s v'.shape.discriminant d before.length = .error f ↔
      v'.shape.discriminant.resolve = .scalar .wchar ∧ v'.shape.carries d = false ∧
        f = .invalidData (.discriminantCharacter d) := by
  obtain ⟨hrange, position, -, rfl⟩ :=
    UnionValue.setDiscriminant_eq_ok_iff.1 (UnionValue.call_eq_ok_iff.1 hset)
  have hfails := failsWith_discriminant_inRange hwide hrange before.length
  refine ⟨rfl, ⟨?needed, ?enough⟩, fun f => ⟨hfails f, ?refused⟩⟩
  case needed =>
    rintro ⟨written, hwritten, hread⟩
    exact carries_of_readAt hrange hwritten (hread [])
  case enough =>
    intro hcarried
    have hordinal : ∀ name enumerators, v.shape.discriminant.resolve = .enum name enumerators →
        d.toInt ≤ 0xFFFFFFFF := by
      intro name enumerators hu
      simpa [UnionType.carries, hu] using hcarried
    cases hwritten : Encode.discriminant s v.shape.discriminant d before.length with
    | error f =>
      obtain ⟨-, hnot, -⟩ := hfails f hwritten
      rw [hcarried] at hnot
      cases hnot
    | ok written =>
      exact ⟨written, rfl, (recovers_discriminant_of_ordinal s hordinal hrange).readAt hwritten⟩
  case refused =>
    rintro ⟨hu, hcarried, rfl⟩
    rw [refused_of_surrogate hrange hu hcarried]
    rfl

/-- A letter, or any other character. -/
def letterType : TypeDesc :=
  .union "Letter" (.scalar .wchar)
    [⟨[.value 97], "a", .scalar .octet⟩, ⟨[.default], "other", .scalar .octet⟩]

/-- A letter before any call. -/
def newLetter : UnionValue := ⟨letterType, ⟨"Letter", .scalar .wchar, _⟩, none, rfl⟩

/-- A letter by its label, behind three octets. -/
theorem transmitted_iff_letter :
    let s : Settings := { wide := .four }
    let letter := (newLetter.call (.setDiscriminant 97)).2
    (s.wide = .four ∧ newLetter.call (.setDiscriminant 97) = (.ok (), letter)) ∧
      letter.discriminant? = some 97 ∧
      ∃ written, Encode.discriminant s letter.shape.discriminant 97 3 = .ok written ∧
        ∀ after, Reader.readAt ([1, 2, 3] ++ written ++ after) 3
          (Decode.discriminant s letter.shape.discriminant) = .ok (97, 3 + written.length) := by
  intro s letter
  have hset : newLetter.call (.setDiscriminant 97) = (.ok (), letter) := rfl
  obtain ⟨hdiscriminant, hsent, -⟩ := transmitted_iff (s := s) rfl hset [1, 2, 3]
  exact ⟨⟨rfl, hset⟩, hdiscriminant, hsent.2 (by decide)⟩

/-- A surrogate is in the range of wide characters, so a checked union accepts it, and by no codec is
    it sent. -/
theorem accepted_and_not_sent :
    ∃ d, newLetter.shape.validate = .ok () ∧
      newLetter.call (.setDiscriminant d) = (.ok (), (newLetter.call (.setDiscriminant d)).2) ∧
      (newLetter.call (.setDiscriminant d)).2.discriminant? = some d ∧
      ∀ s position, Encode.discriminant s newLetter.shape.discriminant d position
        = .error (.invalidData (.discriminantCharacter d)) :=
  ⟨0xD800, by decide, rfl, rfl, fun _ _ => rfl⟩

end ObjectBroker
