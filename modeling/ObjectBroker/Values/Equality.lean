import ObjectBroker.Values.Basic

/-!
# `ObjectBroker.Values.Equality` — when two values are the same

Payloads are compared part by part, numbers as numbers and descriptions as written. So a value that
holds a NaN is not the same as itself, and one that holds a negative zero is the same as one with
the positive zero in its place.
-/

namespace ObjectBroker

/-- Equality of scalar values: floating-point numbers as numbers, the rest as they are. -/
def ScalarValue.same : ScalarValue → ScalarValue → Bool
  | .float x, .float y => x.same y
  | .double x, .double y => x.same y
  | a, b => a == b

namespace Payload

mutual
/-- Equality of payloads, with floating-point numbers compared as numbers. -/
def same : Payload → Payload → Bool
  | .null, .null => true
  | .scalar a, .scalar b => a.same b
  | .string a, .string b => a == b
  | .wstring a, .wstring b => a == b
  | .enum a, .enum b => a == b
  | .sequence ps, .sequence qs => sameAll ps qs
  | .array ps, .array qs => sameAll ps qs
  | .struct ps, .struct qs => sameAll ps qs
  | .union d v, .union d' v' => d == d' && same v v'
  | .objectRef a, .objectRef b => a == b
  | .any t v, .any t' v' => t == t' && same v v'
  | _, _ => false
/-- Equality of payload lists. -/
def sameAll : List Payload → List Payload → Bool
  | [], [] => true
  | p :: ps, q :: qs => same p q && sameAll ps qs
  | _, _ => false
end

end Payload

/-- Equality of dynamic values: the same description and the same content. -/
def Dynamic.same (x y : Dynamic) : Bool :=
  x.type == y.type && x.payload.same y.payload

end ObjectBroker
