import ObjectBroker.Fault

/-!
# `ObjectBroker.Session.RequestIds` — identifiers for requests

The two ends of a connection number their requests apart: the end that opened it takes the odd
numbers and the other the even ones. Numbers increase and are never used again; once they run out,
every further request is refused.
-/

namespace ObjectBroker

/-- Which end of a connection this side is. -/
inductive Role where
  /-- The side that opened the connection. -/
  | initiator
  /-- The side that accepted it. -/
  | acceptor
deriving DecidableEq

/-- The identifiers one side has left, from the next on. -/
structure RequestIds where
  next? : Option UInt32
deriving DecidableEq

namespace RequestIds

/-- All the identifiers of a side. -/
def ofRole : Role → RequestIds
  | .initiator => ⟨some 1⟩
  | .acceptor => ⟨some 2⟩

/-- The identifier two above another, if there is one. -/
def successor? (id : UInt32) : Option UInt32 :=
  if id.toNat + 2 < UInt32.size then some (id + 2) else none

/-- Hands out the next identifier. -/
def take (ids : RequestIds) : Except Fault (UInt32 × RequestIds) :=
  match ids.next? with
  | some id => .ok (id, ⟨successor? id⟩)
  | none => .error (.preconditionNotMet .idsExhausted)

/-- Hands out so many identifiers, or as many as there are. -/
def takeMany : Nat → RequestIds → List (Except Fault UInt32)
  | 0, _ => []
  | n + 1, ids =>
    match ids.take with
    | .ok (id, rest) => .ok id :: takeMany n rest
    | .error f => .error f :: takeMany n ids

theorem toNat_of_successor? {id next : UInt32} (h : successor? id = some next) :
    next.toNat = id.toNat + 2 := by
  unfold successor? at h
  split at h
  · rename_i hfit
    injection h with h
    subst h
    rw [UInt32.toNat_add]
    exact Nat.mod_eq_of_lt hfit
  · cases h

end RequestIds

end ObjectBroker
