import ObjectBroker.Codec.Decode
import ObjectBroker.Codec.Write
import ObjectBroker.Types.Assignable
import ObjectBroker.Values.Equality

/-!
# `ObjectBroker.Builder.SequenceValue` — sequences built element by element

A `SequenceValue` may grow past its bound. The bound is enforced when the sequence is written, so
that a producer's error is reported and nothing is cut off.
-/

namespace ObjectBroker

/-- A sequence with elements of one type and perhaps a bound, which is never zero. -/
structure SequenceValue where
  element : TypeDesc
  elements : List Payload := []
  bound : Option UInt32 := none
  bound_ne_zero : bound ≠ some 0 := by decide

namespace SequenceValue

theorem filter_ne_zero (bound : Option UInt32) : bound.filter (· != 0) ≠ some 0 := by
  simp [Option.filter_eq_some_iff]

/-- A sequence with these elements; a bound of zero stands for none. -/
def ofElements (element : TypeDesc) (elements : List Payload) (bound : Option UInt32) :
    SequenceValue :=
  ⟨element, elements, bound.filter (· != 0), filter_ne_zero bound⟩

/-- The sequence without elements; a bound of zero stands for none. -/
def new (element : TypeDesc) (bound : Option UInt32) : SequenceValue :=
  ofElements element [] bound

/-- The sequence type of the sequence. -/
def type (s : SequenceValue) : TypeDesc := .sequenceOf s.element s.bound

/-- The sequence without elements of a sequence type. -/
def ofType (type : TypeDesc) : Except Fault SequenceValue :=
  match type.resolve with
  | .sequence element bound => .ok (new element bound)
  | _ => .error (.typeMismatch "sequence" type.typeName)

/-- Adds an element, whose type has to be assignable to the element type. -/
def push (s : SequenceValue) (x : Dynamic) : Except Fault SequenceValue :=
  if x.type.assignableTo s.element then
    .ok { s with elements := s.elements ++ [x.payload] }
  else
    .error (.typeMismatch s.element.typeName x.type.typeName)

/-- A copy of an element. -/
def get? (s : SequenceValue) (index : Nat) : Option Dynamic :=
  s.elements[index]?.map fun e => ⟨s.element, e⟩

/-- The sequence as a dynamic value. -/
def toDynamic (s : SequenceValue) : Dynamic := ⟨s.type, .sequence s.elements⟩

/-- A dynamic value as a sequence. -/
def ofDynamic (x : Dynamic) : Except Fault SequenceValue := do
  let empty ← ofType x.type
  match x.payload with
  | .sequence elements => return { empty with elements := elements }
  | other => .error (.typeMismatch "sequence" other.kindName)

/-- Equality of sequences: the same element type, bound and elements. -/
def same (a b : SequenceValue) : Bool :=
  a.element == b.element && a.bound == b.bound && Payload.sameAll a.elements b.elements

end SequenceValue

namespace Codec

/-- A sequence, without its type. The sequence itself is no nesting level. -/
def sequenceValue (c : Codec) (s : SequenceValue) : Emit :=
  Encode.elements c.settings (c.encode c.maxDepth) [] s.element s.bound s.elements

/-- Writes a sequence into a message. -/
def writeSequence (c : Codec) (s : SequenceValue) (w : Writer) : Except Fault Unit × Writer :=
  w.attempt (Write.elements c.settings (c.write c.maxDepth) [] s.element s.bound s.elements)

/-- A sequence with elements of a known type. The announced length is held against `bound` as it
    stands, so that a bound of zero admits the empty sequence only. -/
def readSequence (c : Codec) (element : TypeDesc) (bound : Option UInt32) :
    Read SequenceValue := do
  return .ofElements element (← c.readElements element bound) bound

end Codec

end ObjectBroker
