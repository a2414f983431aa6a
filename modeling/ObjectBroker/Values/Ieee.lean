/-!
# `ObjectBroker.Values.Ieee` — floating-point numbers as bit patterns

A floating-point value travels as its IEEE 754 bits, and a value that is only passed on keeps them,
the payload of a NaN included. Numbers are compared as numbers: a NaN differs from everything and
the two zeros are equal.
-/

namespace ObjectBroker

/-- A single-precision number, held as its bits. -/
structure Binary32 where
  bits : UInt32
deriving DecidableEq

/-- A double-precision number, held as its bits. -/
structure Binary64 where
  bits : UInt64
deriving DecidableEq

/-- Whether the bits are those of no number. -/
def Binary32.isNaN (x : Binary32) : Bool :=
  0x7F800000 < x.bits &&& 0x7FFFFFFF

/-- Whether the number is a zero of either sign. -/
def Binary32.isZero (x : Binary32) : Bool :=
  x.bits &&& 0x7FFFFFFF == 0

/-- Equality of single-precision numbers. -/
def Binary32.same (x y : Binary32) : Bool :=
  !x.isNaN && !y.isNaN && (x == y || (x.isZero && y.isZero))

/-- Whether the bits are those of no number. -/
def Binary64.isNaN (x : Binary64) : Bool :=
  0x7FF0000000000000 < x.bits &&& 0x7FFFFFFFFFFFFFFF

/-- Whether the number is a zero of either sign. -/
def Binary64.isZero (x : Binary64) : Bool :=
  x.bits &&& 0x7FFFFFFFFFFFFFFF == 0

/-- Equality of double-precision numbers. -/
def Binary64.same (x y : Binary64) : Bool :=
  !x.isNaN && !y.isNaN && (x == y || (x.isZero && y.isZero))

theorem Binary32.same_self (x : Binary32) : x.same x = !x.isNaN := by
  simp [same]

theorem Binary64.same_self (x : Binary64) : x.same x = !x.isNaN := by
  simp [same]

end ObjectBroker
