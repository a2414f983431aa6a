import ObjectBroker.Typed.Basic

/-!
# `ObjectBroker.Typed.Containers` — sequences, bounded sequences and arrays

Lists are sequences without a bound, vectors are arrays, and a `BoundedSeq` is a sequence with a
bound. A `BoundedSeq` can be longer than its bound, so that a producer's error reaches the codec,
which reports it; one that is read is never longer.
-/

namespace ObjectBroker

/-- Maps every payload of a list, or reports the first that does not map. -/
def Typed.ofPayloads {α : Type} [Typed α] (ps : List Payload) : Except Fault (List α) :=
  ps.mapM Typed.ofPayload

/-- The elements of a sequence payload. -/
def Typed.ofSequence {α : Type} [Typed α] : Payload → Except Fault (List α)
  | .sequence elements => Typed.ofPayloads elements
  | other => other.mismatch "sequence"

instance {α : Type} [Typed α] : Typed (List α) where
  desc := .sequence (Typed.desc α) none
  toPayload as := .sequence (as.map Typed.toPayload)
  ofPayload := Typed.ofSequence

instance {α : Type} [Typed α] {n : Nat} : Typed (Vector α n) where
  desc := .array (Typed.desc α) (UInt32.ofNat n)
  toPayload as := .array (as.toList.map Typed.toPayload)
  ofPayload
    | .array elements => do
      let values ← Typed.ofPayloads elements
      if h : values.length = n then
        return ⟨values.toArray, by simpa using h⟩
      else
        .error (.invalidData (.fixedLength elements.length n))
    | other => other.mismatch "array"

/-- A sequence with a bound, which it may exceed until it is written. -/
structure BoundedSeq (α : Type) (bound : UInt32) where
  elements : List α

instance {α : Type} [Typed α] {bound : UInt32} : Typed (BoundedSeq α bound) where
  desc := .sequenceOf (Typed.desc α) (some bound)
  toPayload s := .sequence (s.elements.map Typed.toPayload)
  ofPayload p := do
    let elements ← Typed.ofSequence p
    if bound.toNat < elements.length then
      .error (.boundViolation bound elements.length)
    else
      return ⟨elements⟩

end ObjectBroker
