import ObjectBroker.Values.Equality

/-!
# `ObjectBroker.Proofs.Values.Equality` — values that are the same as themselves

Numbers are compared as numbers, and a NaN is no number: it differs from itself. So does every value
it occurs in, at any depth and behind any `any`. Nothing else does.
-/

namespace ObjectBroker

/-- Whether the scalar value is a NaN. -/
def ScalarValue.isNaN : ScalarValue → Bool
  | .float x => x.isNaN
  | .double x => x.isNaN
  | _ => false

theorem ScalarValue.same_self (v : ScalarValue) : v.same v = !v.isNaN := by
  cases v with
  | float x => exact x.same_self
  | double x => exact x.same_self
  | _ => exact beq_self_eq_true _

namespace Payload

mutual
/-- Whether a NaN occurs anywhere in the payload. -/
def holdsNaN : Payload → Bool
  | .scalar v => v.isNaN
  | .sequence ps | .array ps | .struct ps => anyHoldsNaN ps
  | .union _ value => value.holdsNaN
  | .any _ value => value.holdsNaN
  | .null | .string _ | .wstring _ | .enum _ | .objectRef _ => false
/-- Whether a NaN occurs in one of the payloads. -/
def anyHoldsNaN : List Payload → Bool
  | [] => false
  | p :: ps => p.holdsNaN || anyHoldsNaN ps
end

theorem sameAll_self {ps : List Payload} (h : ∀ p ∈ ps, p.same p = !p.holdsNaN) :
    sameAll ps ps = !anyHoldsNaN ps := by
  induction ps with
  | nil => rfl
  | cons p ps ih =>
    have hothers := ih fun q hq => h q (List.mem_cons_of_mem p hq)
    rw [sameAll, anyHoldsNaN, h p List.mem_cons_self, hothers, Bool.not_or]

/-- **Reflexivity.** A payload is the same as itself exactly if there is no NaN in it. -/
theorem same_self (p : Payload) : p.same p = !p.holdsNaN := by
  induction p with
  | scalar v => exact v.same_self
  | sequence elements ih => exact sameAll_self ih
  | array elements ih => exact sameAll_self ih
  | struct fields ih => exact sameAll_self ih
  | union discriminant value ih => rw [same, holdsNaN, beq_self_eq_true, Bool.true_and, ih]
  | any type value ih => rw [same, holdsNaN, beq_self_eq_true, Bool.true_and, ih]
  | null => rfl
  | string text => exact beq_self_eq_true text
  | wstring text => exact beq_self_eq_true text
  | enum ordinal => exact beq_self_eq_true ordinal
  | objectRef reference => exact beq_self_eq_true reference

end Payload

end ObjectBroker
