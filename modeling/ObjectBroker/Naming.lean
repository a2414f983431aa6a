import ObjectBroker.Fault
import ObjectBroker.Reference

/-!
# `ObjectBroker.Naming` — names for references

A naming context maps names to references. Binding a name again replaces its reference.
-/

namespace ObjectBroker

/-- The bound names, each with its reference. -/
structure NamingContext where
  bindings : List (String × ObjectRef) := []
deriving DecidableEq

namespace NamingContext

/-- Binds a name, in place of any earlier binding. -/
def rebind (n : NamingContext) (name : String) (reference : ObjectRef) : NamingContext :=
  ⟨(name, reference) :: n.bindings.filter (·.1 != name)⟩

/-- The reference a name is bound to. -/
def resolve (n : NamingContext) (name : String) : Except Fault ObjectRef :=
  match n.bindings.lookup name with
  | some reference => .ok reference
  | none => .error (.preconditionNotMet (.unboundName name))

@[simp] theorem resolve_rebind_self (n : NamingContext) (name : String) (r : ObjectRef) :
    (n.rebind name r).resolve name = .ok r := by
  simp [resolve, rebind]

theorem resolve_rebind_of_ne (n : NamingContext) {name other : String} (r : ObjectRef)
    (h : other ≠ name) : (n.rebind name r).resolve other = n.resolve other := by
  have kept : (n.bindings.filter (·.1 != name)).lookup other = n.bindings.lookup other := by
    induction n.bindings with
    | nil => rfl
    | cons b bs ih => grind
  have skipped : (other == name) = false := by simpa using h
  simp only [resolve, rebind, List.lookup_cons, skipped, kept]

end NamingContext

end ObjectBroker
