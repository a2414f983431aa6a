import ObjectBroker.Wire.Octets

/-!
# `ObjectBroker.Digest.Md5` — the MD5 digest of a message

The message is filled up to a multiple of 64 octets with a one bit, zeros and its length in bits.
Each block of sixteen little-endian words is mixed into a state of four words in 64 steps, whose
additive constants are the leading 32 bits of the fractional part of `|sin 1|`, `|sin 2|`, ….
-/

namespace ObjectBroker.Md5

/-- The four words of a digest under way. -/
structure State where
  a : UInt32
  b : UInt32
  c : UInt32
  d : UInt32
deriving DecidableEq

/-- The state before the first block. -/
def State.initial : State := ⟨0x67452301, 0xEFCDAB89, 0x98BADCFE, 0x10325476⟩

/-- Word-wise sum of two states. -/
def State.add (x y : State) : State := ⟨x.a + y.a, x.b + y.b, x.c + y.c, x.d + y.d⟩

/-- The sixteen octets of a finished digest. -/
def State.octets (x : State) : List UInt8 :=
  [x.a, x.b, x.c, x.d].flatMap fun w => littleEndian 4 w.toNat

/-- Additive constants of the 64 steps. -/
def sines : List UInt32 :=
  [
    0xD76AA478, 0xE8C7B756, 0x242070DB, 0xC1BDCEEE,
    0xF57C0FAF, 0x4787C62A, 0xA8304613, 0xFD469501,
    0x698098D8, 0x8B44F7AF, 0xFFFF5BB1, 0x895CD7BE,
    0x6B901122, 0xFD987193, 0xA679438E, 0x49B40821,
    0xF61E2562, 0xC040B340, 0x265E5A51, 0xE9B6C7AA,
    0xD62F105D, 0x02441453, 0xD8A1E681, 0xE7D3FBC8,
    0x21E1CDE6, 0xC33707D6, 0xF4D50D87, 0x455A14ED,
    0xA9E3E905, 0xFCEFA3F8, 0x676F02D9, 0x8D2A4C8A,
    0xFFFA3942, 0x8771F681, 0x6D9D6122, 0xFDE5380C,
    0xA4BEEA44, 0x4BDECFA9, 0xF6BB4B60, 0xBEBFBC70,
    0x289B7EC6, 0xEAA127FA, 0xD4EF3085, 0x04881D05,
    0xD9D4D039, 0xE6DB99E5, 0x1FA27CF8, 0xC4AC5665,
    0xF4292244, 0x432AFF97, 0xAB9423A7, 0xFC93A039,
    0x655B59C3, 0x8F0CCC92, 0xFFEFF47D, 0x85845DD1,
    0x6FA87E4F, 0xFE2CE6E0, 0xA3014314, 0x4E0811A1,
    0xF7537E82, 0xBD3AF235, 0x2AD7D2BB, 0xEB86D391
  ]

/-- Rotations of the 64 steps: four of each round, over and over. -/
def rotations : List UInt32 :=
  [[7, 12, 17, 22], [5, 9, 14, 20], [4, 11, 16, 23], [6, 10, 15, 21]].flatMap fun round =>
    round ++ round ++ round ++ round

/-- Rotation of a word to the left, by less than its width and more than nothing. -/
def rotateLeft (x n : UInt32) : UInt32 := (x <<< n) ||| (x >>> (32 - n))

/-- Mixing function of a step, by the round the step belongs to. -/
def mix (i : Nat) (x : State) : UInt32 :=
  if i < 16 then (x.b &&& x.c) ||| (~~~x.b &&& x.d)
  else if i < 32 then (x.d &&& x.b) ||| (~~~x.d &&& x.c)
  else if i < 48 then x.b ^^^ x.c ^^^ x.d
  else x.c ^^^ (x.b ||| ~~~x.d)

/-- Position of the message word a step adds. -/
def wordIndex (i : Nat) : Nat :=
  if i < 16 then i
  else if i < 32 then (5 * i + 1) % 16
  else if i < 48 then (3 * i + 5) % 16
  else 7 * i % 16

/-- One step: three words move on and the fourth is mixed with a word of the message. -/
def step (words : List UInt32) (x : State) (i : Nat) (sine rotation : UInt32) : State :=
  let sum := mix i x + x.a + sine + words.getD (wordIndex i) 0
  ⟨x.d, x.b + rotateLeft sum rotation, x.b, x.c⟩

/-- The sixteen words of a block. -/
def wordsOf : List UInt8 → List UInt32
  | p :: q :: r :: s :: rest => UInt32.ofNat (ofLittleEndian [p, q, r, s]) :: wordsOf rest
  | _ => []

/-- Mixes one block of 64 octets into the state. -/
def block (x : State) (content : List UInt8) : State :=
  let words := wordsOf content
  let steps := (List.range 64).zip (sines.zip rotations)
  x.add (steps.foldl (fun y (i, sine, rotation) => step words y i sine rotation) x)

/-- A message filled up to a multiple of 64 octets. -/
def padded (message : List UInt8) : List UInt8 :=
  message ++ [0x80] ++ List.replicate (padding (message.length + 9) 64) 0 ++
    littleEndian 8 (8 * message.length)

/-- Mixes the blocks of a padded message into the state, `n` of them. -/
def blocks : Nat → State → List UInt8 → State
  | 0, x, _ => x
  | n + 1, x, content => blocks n (block x (content.take 64)) (content.drop 64)

/-- The digest of a message. -/
def digest (message : List UInt8) : List UInt8 :=
  let content := padded message
  (blocks (content.length / 64) .initial content).octets

/-- A padded message consists of whole blocks. -/
theorem padded_length_mod (message : List UInt8) : (padded message).length % 64 = 0 := by
  have h := add_padding_mod (message.length + 9) (show 0 < 64 by decide)
  simp only [padded, List.length_append, List.length_replicate, littleEndian_length,
    List.length_singleton]
  omega

/-- A digest has sixteen octets. -/
@[simp] theorem digest_length (message : List UInt8) : (digest message).length = 16 := by
  simp [digest, State.octets]

end ObjectBroker.Md5
