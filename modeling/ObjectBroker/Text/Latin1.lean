import ObjectBroker.Fault

/-!
# `ObjectBroker.Text.Latin1` — narrow characters

A narrow character is one Latin-1 octet: the code point itself, for the first 256 of them. Every
octet is a character, and a character beyond the first 256 has no octet.
-/

namespace ObjectBroker.Latin1

/-- The octet of a character, if it has one. -/
def encode (c : Char) : Except Fault UInt8 :=
  if c.toNat < 256 then .ok c.toNat.toUInt8 else .error (.invalidData (.notLatin1 c))

/-- The octets of a text; the first character without one decides the fault. -/
def encodeAll (text : String) : Except Fault (List UInt8) :=
  text.toList.mapM encode

/-- The character of an octet. -/
def decode (octet : UInt8) : Char := Char.ofUInt8 octet

/-- The text of a list of octets. -/
def decodeAll (octets : List UInt8) : String :=
  String.ofList (octets.map decode)

theorem toNat_decode (octet : UInt8) : (decode octet).toNat = octet.toNat := by
  show octet.toUInt32.toNat = octet.toNat
  exact UInt8.toNat_toUInt32 octet

@[simp] theorem encode_decode (octet : UInt8) : encode (decode octet) = .ok octet := by
  have h : octet.toNat < 256 := octet.toNat_lt
  simp [encode, toNat_decode, h]

theorem decode_encode {c : Char} {octet : UInt8} (h : encode c = .ok octet) :
    decode octet = c := by
  unfold encode at h
  split at h
  · rename_i hc
    injection h with h
    subst h
    apply Char.ext
    apply UInt32.toNat_inj.1
    change (decode _).toNat = c.toNat
    rw [toNat_decode]
    simpa using Nat.mod_eq_of_lt hc
  · cases h

/-- Every list of octets is the encoding of its text. -/
@[simp] theorem encodeAll_decodeAll (octets : List UInt8) :
    encodeAll (decodeAll octets) = .ok octets := by
  simp only [encodeAll, decodeAll, String.toList_ofList]
  induction octets with
  | nil => rfl
  | cons octet rest ih =>
    rw [List.map_cons, List.mapM_cons, encode_decode, ih]
    rfl

theorem map_decode_of_mapM_encode {cs : List Char} {octets : List UInt8}
    (h : cs.mapM encode = .ok octets) : octets.map decode = cs := by
  induction cs generalizing octets with
  | nil =>
    rw [List.mapM_nil] at h
    injection h with h
    simp [← h]
  | cons c cs ih =>
    rw [List.mapM_cons] at h
    cases hc : encode c with
    | error f => simp [hc, bind, Except.bind] at h
    | ok octet =>
      cases hcs : cs.mapM encode with
      | error f => simp [hc, hcs, bind, Except.bind] at h
      | ok rest =>
        rw [hc, hcs] at h
        injection h with h
        simp [← h, decode_encode hc, ih hcs]

/-- A text that can be encoded is the text of its encoding. -/
theorem decodeAll_of_encodeAll {text : String} {octets : List UInt8}
    (h : encodeAll text = .ok octets) : decodeAll octets = text := by
  simp [decodeAll, map_decode_of_mapM_encode h]

/-! ## Which texts have octets -/

theorem encode_of_lt {c : Char} (h : c.toNat < 256) : encode c = .ok (UInt8.ofNat c.toNat) :=
  if_pos h

/-- A text of Latin-1 characters is encoded as their code points. -/
theorem encodeAll_of_lt {text : String} (h : ∀ c ∈ text.toList, c.toNat < 256) :
    encodeAll text = .ok (text.toList.map fun c => UInt8.ofNat c.toNat) := by
  have hback : ∀ c ∈ text.toList, (decode ∘ fun c => UInt8.ofNat c.toNat) c = id c :=
    fun c hc => decode_encode (encode_of_lt (h c hc))
  have htext : decodeAll (text.toList.map fun c => UInt8.ofNat c.toNat) = text := by
    rw [decodeAll, List.map_map, List.map_congr_left hback, List.map_id, String.ofList_toList]
  have hall := encodeAll_decodeAll (text.toList.map fun c => UInt8.ofNat c.toNat)
  rwa [htext] at hall

/-- Only texts of Latin-1 characters can be encoded. -/
theorem lt_of_encodeAll {text : String} {octets : List UInt8} (h : encodeAll text = .ok octets) :
    ∀ c ∈ text.toList, c.toNat < 256 := by
  intro c hc
  rw [← decodeAll_of_encodeAll h, decodeAll, String.toList_ofList] at hc
  obtain ⟨octet, -, rfl⟩ := List.mem_map.1 hc
  rw [toNat_decode]
  exact octet.toNat_lt

end ObjectBroker.Latin1
