import ObjectBroker.Proofs.Wire.Recovery

/-!
# `ObjectBroker.Proofs.Wire.Refusal` — reads that end in a fault on what was written

A reader is stricter than a writer, so some of what can be written is not read back. A read refuses
a piece of output if, started where the piece was written, it always ends in the same fault. Where
it stops is left open: the fault ends the message.

A sequence is refused where its first refused part is, provided that every part before it is
recovered. So refusal composes along `++` in the way of `Recovers`.
-/

namespace ObjectBroker

/-- **Refusal.** Wherever the piece can be written, and whatever follows it, the read ends with the
    fault. -/
def Refuses {α : Type} (e : Emit) (r : Read α) (f : Fault) : Prop :=
  ∀ (position : Nat) (written rest : List UInt8), e position = .ok written →
    ∃ stop, r ⟨position, written ++ rest⟩ = .error f stop

variable {α β γ : Type} {e e' : Emit} {r : Read α} {a : α} {f : Fault}

namespace Refuses

/-! ## Laws of composition -/

/-- A read that always fails refuses every piece. -/
theorem throw (e : Emit) (f : Fault) : Refuses e (MonadExcept.throw f : Read α) f :=
  fun position written rest _ => ⟨⟨position, written ++ rest⟩, rfl⟩

/-- What follows a refused read is never reached. -/
theorem bind (h : Refuses e r f) (k : α → Read β) : Refuses e (r >>= k) f := by
  intro position written rest hw
  obtain ⟨stop, hstop⟩ := h position written rest hw
  exact ⟨stop, Read.bind_of_error hstop⟩

/-- Of two pieces in a row, the first is refused. -/
theorem first (h : Refuses e r f) (e' : Emit) (k : α → Read β) : Refuses (e ++ e') (r >>= k) f := by
  intro position written rest hw
  obtain ⟨front, back, hfront, -, rfl⟩ := Emit.append_eq_ok_iff.1 hw
  rw [List.append_assoc]
  exact h.bind k position front (back ++ rest) hfront

/-- Of two pieces in a row, the first is recovered and the second is refused. -/
theorem later {k : α → Read β} (he : Recovers e r a) (hk : Refuses e' (k a) f) :
    Refuses (e ++ e') (r >>= k) f := by
  intro position written rest hw
  obtain ⟨front, back, hfront, hback, rfl⟩ := Emit.append_eq_ok_iff.1 hw
  rw [List.append_assoc, Read.bind_of_ok (he position front (back ++ rest) hfront)]
  exact hk _ back rest hback

/-- The pieces of a list are refused by one read repeated, if some piece is refused and every other
    is refused or recovered. -/
theorem times {xs : List α} {piece : α → Emit} {item : Read α}
    (hsome : ∃ x ∈ xs, Refuses (piece x) item f)
    (h : ∀ x ∈ xs, Recovers (piece x) item x ∨ Refuses (piece x) item f) :
    Refuses (.concat (xs.map piece)) (Read.times xs.length item) f := by
  induction xs with
  | nil =>
    obtain ⟨x, hx, -⟩ := hsome
    cases hx
  | cons x xs ih =>
    rcases h x List.mem_cons_self with hfirst | hfirst
    · -- The first piece is recovered. If it is refused as well, it is never written.
      obtain ⟨y, hy, hrefused⟩ := hsome
      rcases List.mem_cons.1 hy with rfl | hy
      · exact hrefused.first _ _
      · have hothers := ih ⟨y, hy, hrefused⟩ fun z hz => h z (List.mem_cons_of_mem x hz)
        exact later hfirst (hothers.bind _)
    · exact hfirst.first _ _

end Refuses

/-! ## Items behind their number -/

variable (s : Settings)

/-- The count of items of at least one octet each is accepted where the items follow, so what is
    refused is what comes after it. -/
theorem refuses_boundedCount {n : Nat} {k : Nat → Read α} (hroom : e.Occupies n)
    (h : Refuses e (k n) f) : Refuses (.count s n ++ e) (Read.boundedCount s >>= k) f := by
  rw [Read.boundedCount_bind]
  refine Refuses.later (recovers_count s n) ?_
  intro position written rest hw
  have hleft : n ≤ (written ++ rest).length := by
    have := hroom position written hw
    rw [List.length_append]
    omega
  rw [Read.bind_of_ok (Read.require_of_le hleft)]
  exact h position written rest hw

/-- Items of at least one octet each are refused behind their number if some of them is. -/
theorem refuses_items {xs : List α} {piece : α → Emit} {item : Read α} {k : List α → Read β}
    (hroom : ∀ x ∈ xs, (piece x).Occupies 1) (hsome : ∃ x ∈ xs, Refuses (piece x) item f)
    (h : ∀ x ∈ xs, Recovers (piece x) item x ∨ Refuses (piece x) item f) :
    Refuses (.count s xs.length ++ .concat (xs.map piece))
      (Read.boundedCount s >>= fun n => Read.times n item >>= k) f := by
  have htotal := Emit.Occupies.concat xs hroom
  rw [Nat.mul_one] at htotal
  exact refuses_boundedCount s htotal ((Refuses.times hsome h).bind k)

/-- Items of at least one octet each are recovered behind their number, and what follows them is
    refused. -/
theorem refuses_afterItems (xs : List γ) {piece : γ → Emit} {item : Read γ} {k : List γ → Read α}
    (hroom : ∀ x ∈ xs, (piece x).Occupies 1) (hitem : ∀ x ∈ xs, Recovers (piece x) item x)
    (hrest : Refuses e (k xs) f) :
    Refuses (.count s xs.length ++ (.concat (xs.map piece) ++ e))
      (Read.boundedCount s >>= fun n => Read.times n item >>= k) f := by
  have htotal := Emit.Occupies.concat xs hroom
  rw [Nat.mul_one] at htotal
  have hitems := Recovers.times_self xs hitem
  exact refuses_boundedCount s (htotal.append_left e) (Refuses.later hitems hrest)

end ObjectBroker
