import ObjectBroker.Proofs.Wire.Refusal

/-!
# `ObjectBroker.Proofs.Wire.Limits` — one piece of output under two limits

A nesting limit is checked twice, by the peer that writes and by the peer that reads. To compare the
two, a piece of output is looked at under the limit it was written with and under another: what the
reader makes of it under the other limit, and whether the writer would have written it under that.

The piece is decided if there are only two possibilities. Either the other limit is enough for it,
and then the writer writes the same and the reader recovers it; or the reader refuses it, for the
limit and for nothing else. Decided pieces compose like recovered ones.
-/

namespace ObjectBroker

variable {α β γ δ : Type}

/-- **Congruence.** Every piece is related to itself, and pieces in a row are related if they are one
    by one. -/
structure Emit.Congruence (R : Emit → Emit → Prop) : Prop where
  refl : ∀ e, R e e
  append : ∀ {a a' b b' : Emit}, R a a' → R b b' → R (a ++ b) (a' ++ b')

theorem Emit.Congruence.concat {R : Emit → Emit → Prop} (hR : Congruence R) {xs : List γ}
    {piece piece' : γ → Emit} (h : ∀ x ∈ xs, R (piece x) (piece' x)) :
    R (.concat (xs.map piece)) (.concat (xs.map piece')) := by
  induction xs with
  | nil => exact hR.refl nothing
  | cons x xs ih =>
    have hothers := ih fun y hy => h y (List.mem_cons_of_mem x hy)
    exact hR.append (h x List.mem_cons_self) hothers

/-- The piece is written wherever another one is, with the same octets. -/
def Emit.Extends (e' e : Emit) : Prop :=
  ∀ (position : Nat) (written : List UInt8), e position = .ok written → e' position = .ok written

namespace Emit.Extends

variable {e e' : Emit}

theorem refl (e : Emit) : e.Extends e := fun _ _ h => h

/-- What is never written is extended by every piece. -/
theorem fail (e : Emit) (f : Fault) : e.Extends (.fail f) := by
  intro position written h
  cases h

theorem append {a a' b b' : Emit} (ha : a'.Extends a) (hb : b'.Extends b) :
    (a' ++ b').Extends (a ++ b) := by
  intro position written h
  obtain ⟨front, back, hfront, hback, rfl⟩ := append_eq_ok_iff.1 h
  exact append_eq_ok_iff.2 ⟨front, back, ha _ _ hfront, hb _ _ hback, rfl⟩

theorem congruence : Congruence Emit.Extends := ⟨refl, append⟩

end Emit.Extends

/-- At every offset, the first piece is what the second is, or it fails with the fault. -/
def Emit.Within (f : Fault) (e e' : Emit) : Prop :=
  ∀ position : Nat, e position = e' position ∨ e position = .error f

namespace Emit.Within

variable {f : Fault}

theorem refl (e : Emit) : e.Within f e := fun _ => .inl rfl

/-- Failing with the fault is within every piece. -/
theorem fail (f : Fault) (e : Emit) : (Emit.fail f).Within f e := fun _ => .inr rfl

/-- The second pieces are compared only where the first ones are the same, and then they start at
    the same offset. -/
theorem append {a a' b b' : Emit} (ha : a.Within f a') (hb : b.Within f b') :
    (a ++ b).Within f (a' ++ b') := by
  intro position
  rw [append_apply, append_apply]
  rcases ha position with hsame | hfault
  · rw [hsame]
    cases a' position with
    | error g => exact .inl rfl
    | ok front =>
      rcases hb (position + front.length) with hsame' | hfault'
      · exact .inl (by simp only [hsame'])
      · exact .inr (by simp only [hfault'])
  · exact .inr (by rw [hfault])

theorem congruence (f : Fault) : Congruence (Emit.Within f) := ⟨refl, append⟩

/-- A piece within a limit is not written otherwise than without. -/
theorem extended {e e' : Emit} (h : e.Within f e') : e'.Extends e := by
  intro position written hwritten
  rcases h position with hsame | hfault
  · exact hsame.symm.trans hwritten
  · rw [hfault] at hwritten
    cases hwritten

end Emit.Within

/-- **Decision.** Either the limit is enough for the piece; then the piece under the limit extends
    it, and the read under the limit recovers it. Or the read refuses it with the fault. -/
def Decided (e e' : Emit) (r : Read α) (enough : Bool) (f : Fault) : Prop :=
  (enough = true ∧ e'.Extends e ∧ ∃ a, Recovers e r a) ∨ Refuses e r f

namespace Decided

variable {e e' : Emit} {r : Read α} {enough : Bool} {f : Fault}

/-! ## Laws of composition -/

/-- A piece that is never written is refused in any case. -/
theorem of_not_writable (h : ¬e.Writable) : Decided e e' r enough f :=
  .inr fun position written _ hw => absurd ⟨position, written, hw⟩ h

theorem fail (g : Fault) : Decided (.fail g) e' r enough f :=
  of_not_writable (Emit.not_writable_fail g)

/-- A piece that no limit concerns. -/
theorem same {a : α} (h : Recovers e r a) (f : Fault) : Decided e e r true f :=
  .inl ⟨rfl, Emit.Extends.refl e, a, h⟩

/-- **Composition.** Of two pieces in a row, the second is decided where the first is recovered. -/
theorem bind {a a' b b' : Emit} {k : α → Read β} {enough' : Bool} (h : Decided a a' r enough f)
    (hk : ∀ x, Recovers a r x → Decided b b' (k x) enough' f) :
    Decided (a ++ b) (a' ++ b') (r >>= k) (enough && enough') f := by
  rcases h with ⟨henough, hextends, x, hrecovers⟩ | hrefuses
  · rcases hk x hrecovers with ⟨henough', hextends', y, hrecovers'⟩ | hrefuses
    · refine .inl ⟨?_, hextends.append hextends', y, hrecovers.bind hrecovers'⟩
      rw [henough, henough']
      rfl
    · exact .inr (Refuses.later hrecovers hrefuses)
  · exact .inr (hrefuses.first b k)

/-- A piece that no limit concerns comes before one that is decided. -/
theorem later {a b b' : Emit} {x : α} {k : α → Read β} (ha : Recovers a r x)
    (h : Decided b b' (k x) enough f) : Decided (a ++ b) (a ++ b') (r >>= k) enough f := by
  rcases h with ⟨henough, hextends, y, hrecovers⟩ | hrefuses
  · exact .inl ⟨henough, (Emit.Extends.refl a).append hextends, y, ha.bind hrecovers⟩
  · exact .inr (Refuses.later ha hrefuses)

/-- A read that only reshapes its result decides the same piece. -/
theorem map (h : Decided e e' r enough f) (g : α → β) :
    Decided e e' (r >>= fun a => pure (g a)) enough f := by
  rcases h with ⟨henough, hextends, a, hrecovers⟩ | hrefuses
  · exact .inl ⟨henough, hextends, g a, hrecovers.map g⟩
  · exact .inr (hrefuses.bind _)

/-- The pieces of a list are decided by one read repeated if each of them is. -/
theorem times {xs : List γ} {piece piece' : γ → Emit} {enough : γ → Bool}
    (h : ∀ x ∈ xs, Decided (piece x) (piece' x) r (enough x) f) :
    Decided (.concat (xs.map piece)) (.concat (xs.map piece')) (Read.times xs.length r)
      (xs.all enough) f := by
  induction xs with
  | nil => exact same (Recovers.pure []) f
  | cons x xs ih =>
    have hothers := ih fun y hy => h y (List.mem_cons_of_mem x hy)
    exact (h x List.mem_cons_self).bind fun first _ => hothers.map (first :: ·)

/-- Pieces made from two lists of one length are decided by the reads made for the first. -/
theorem each {xs : List γ} {ys : List δ} {piece piece' : γ × δ → Emit} (read : γ → Read α)
    {enough : γ × δ → Bool} (hlength : xs.length = ys.length)
    (h : ∀ p ∈ xs.zip ys, Decided (piece p) (piece' p) (read p.1) (enough p) f) :
    Decided (.concat ((xs.zip ys).map piece)) (.concat ((xs.zip ys).map piece'))
      (Read.each read xs) ((xs.zip ys).all enough) f := by
  induction xs generalizing ys with
  | nil => exact same (Recovers.pure []) f
  | cons x xs ih =>
    cases ys with
    | nil => cases hlength
    | cons y ys =>
      have hothers := ih (Nat.succ.inj hlength) fun p hp => h p (List.mem_cons_of_mem _ hp)
      exact (h (x, y) List.mem_cons_self).bind fun first _ => hothers.map (first :: ·)

end Decided

/-- A count that was written fits 32 bits, so what follows is decided for the count itself. -/
theorem decided_count_ulong (s : Settings) {e e' : Emit} {n : Nat} {k : UInt32 → Read α}
    {enough : Bool} {f : Fault}
    (h : n < UInt32.size → Decided e e' (k (UInt32.ofNat n)) enough f) :
    Decided (.count s n ++ e) (.count s n ++ e') (Read.ulong s >>= k) enough f := by
  by_cases hfit : n < UInt32.size
  · exact Decided.later ((recovers_count s n).map UInt32.ofNat) (h hfit)
  · exact Decided.of_not_writable fun hw => hfit hw.parts.1.lt_of_count

end ObjectBroker
