import ObjectBroker.Wire.Format

/-!
# `ObjectBroker.Wire.Octets` — numbers of a fixed width, and alignment

Every number on the wire is a fixed number of octets in the session's byte order, and starts at a
multiple of its own width. Numbers are laid out from the least significant octet and turned round
for the other order.
-/

namespace ObjectBroker

/-! ## Numbers -/

/-- The lowest `width` octets of a number, least significant first. -/
def littleEndian : (width value : Nat) → List UInt8
  | 0, _ => []
  | width + 1, value => UInt8.ofNat (value % 256) :: littleEndian width (value / 256)

/-- The number of a list of octets, least significant first. -/
def ofLittleEndian : List UInt8 → Nat
  | [] => 0
  | octet :: rest => octet.toNat + 256 * ofLittleEndian rest

@[simp] theorem littleEndian_length (width value : Nat) :
    (littleEndian width value).length = width := by
  induction width generalizing value with
  | zero => rfl
  | succ width ih => simp [littleEndian, ih]

/-- A number that fits its width is read back. -/
theorem ofLittleEndian_littleEndian {width value : Nat} (h : value < Nat.pow 256 width) :
    ofLittleEndian (littleEndian width value) = value := by
  induction width generalizing value with
  | zero => simp_all [littleEndian, ofLittleEndian]
  | succ width ih =>
    have hdiv : value / 256 < Nat.pow 256 width := by
      have h : value < Nat.pow 256 width * 256 := h
      omega
    simp only [littleEndian, ofLittleEndian, ih hdiv, UInt8.toNat_ofNat', Nat.reducePow]
    omega

/-- Octets that were read are written again. -/
theorem littleEndian_ofLittleEndian (octets : List UInt8) :
    littleEndian octets.length (ofLittleEndian octets) = octets := by
  induction octets with
  | nil => rfl
  | cons octet rest ih =>
    have hlt : octet.toNat < 256 := octet.toNat_lt
    have hmod : (octet.toNat + 256 * ofLittleEndian rest) % 256 = octet.toNat := by omega
    have hdiv : (octet.toNat + 256 * ofLittleEndian rest) / 256 = ofLittleEndian rest := by omega
    simp [littleEndian, ofLittleEndian, hmod, hdiv, ih]

/-- A number fits the width of the octets it was read from. -/
theorem ofLittleEndian_lt (octets : List UInt8) :
    ofLittleEndian octets < Nat.pow 256 octets.length := by
  induction octets with
  | nil => decide
  | cons octet rest ih =>
    have hlt : octet.toNat < 256 := octet.toNat_lt
    have hpow : Nat.pow 256 (octet :: rest).length = Nat.pow 256 rest.length * 256 := rfl
    rw [hpow, ofLittleEndian]
    omega

/-- Octets given least significant first, put into the byte order, or taken back out of it. -/
def ByteOrder.arrange : ByteOrder → List UInt8 → List UInt8
  | .littleEndian, octets => octets
  | .bigEndian, octets => octets.reverse

@[simp] theorem ByteOrder.arrange_arrange (order : ByteOrder) (octets : List UInt8) :
    order.arrange (order.arrange octets) = octets := by
  cases order <;> simp [ByteOrder.arrange]

@[simp] theorem ByteOrder.arrange_length (order : ByteOrder) (octets : List UInt8) :
    (order.arrange octets).length = octets.length := by
  cases order <;> simp [ByteOrder.arrange]

/-! ## Alignment -/

/-- Number of octets from `position` to the next multiple of `alignment`. -/
def padding (position alignment : Nat) : Nat :=
  (alignment - position % alignment) % alignment

theorem padding_lt (position : Nat) {alignment : Nat} (h : 0 < alignment) :
    padding position alignment < alignment :=
  Nat.mod_lt _ h

theorem add_padding_mod (position : Nat) {alignment : Nat} (h : 0 < alignment) :
    (position + padding position alignment) % alignment = 0 := by
  have hlt : position % alignment < alignment := Nat.mod_lt _ h
  unfold padding
  rw [Nat.add_mod_mod, ← Nat.mod_add_mod]
  have : position % alignment + (alignment - position % alignment) = alignment := by omega
  rw [this, Nat.mod_self]

@[simp] theorem padding_one (position : Nat) : padding position 1 = 0 := by
  simp [padding, Nat.mod_one]

/-! ## Pieces -/

/-- The first `n` elements and the rest, if there are that many. -/
def takeExactly {α : Type} : Nat → List α → Option (List α × List α)
  | 0, l => some ([], l)
  | _ + 1, [] => none
  | n + 1, a :: l => (takeExactly n l).map fun (front, back) => (a :: front, back)

theorem takeExactly_eq {α : Type} (n : Nat) (l : List α) :
    takeExactly n l = if n ≤ l.length then some (l.take n, l.drop n) else none := by
  induction n generalizing l with
  | zero => simp [takeExactly]
  | succ n ih =>
    cases l with
    | nil => simp [takeExactly]
    | cons a l =>
      by_cases h : n ≤ l.length <;> simp [takeExactly, ih, h]

theorem takeExactly_append {α : Type} (front back : List α) :
    takeExactly front.length (front ++ back) = some (front, back) := by
  simp [takeExactly_eq]

end ObjectBroker
