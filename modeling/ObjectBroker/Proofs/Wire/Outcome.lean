import Mathlib.Data.List.Forall2
import ObjectBroker.Wire.Emit
import ObjectBroker.Wire.Read

/-!
# `ObjectBroker.Proofs.Wire.Outcome` — what a success went through

A read is a sequence of smaller reads. Where the whole succeeded, so did each of its steps, and each
step started where the one before it stopped. The lemmas here take a success apart into those steps,
and put two outcomes together into the outcome of a sequence. A piece of output is taken apart in
the same way.
-/

namespace ObjectBroker

namespace Read

variable {α β : Type}

/-! ## One step -/

theorem bind_of_ok {r : Read α} {k : α → Read β} {c c' : Cursor} {a : α}
    (h : r c = .ok a c') :
    (r >>= k) c = k a c' := by
  show EStateM.bind r k c = k a c'
  simp only [EStateM.bind, h]

theorem bind_of_error {r : Read α} {k : α → Read β} {c c' : Cursor} {f : Fault}
    (h : r c = .error f c') :
    (r >>= k) c = .error f c' := by
  show EStateM.bind r k c = .error f c'
  simp only [EStateM.bind, h]

theorem map_of_ok (g : α → β) {r : Read α} {c c' : Cursor} {a : α} (h : r c = .ok a c') :
    (g <$> r) c = .ok (g a) c' := by
  show EStateM.map g r c = .ok (g a) c'
  simp only [EStateM.map, h]

theorem map_of_error (g : α → β) {r : Read α} {c c' : Cursor} {f : Fault}
    (h : r c = .error f c') : (g <$> r) c = .error f c' := by
  show EStateM.map g r c = .error f c'
  simp only [EStateM.map, h]

/-- A sequence succeeds exactly when its first step does and the rest does from there. -/
theorem bind_eq_ok_iff {r : Read α} {k : α → Read β} {c c'' : Cursor} {b : β} :
    (r >>= k) c = .ok b c'' ↔ ∃ a c', r c = .ok a c' ∧ k a c' = .ok b c'' := by
  constructor
  · intro h
    cases hr : r c with
    | ok a c' =>
      rw [bind_of_ok hr] at h
      exact ⟨a, c', rfl, h⟩
    | error f c' =>
      rw [bind_of_error hr] at h
      cases h
  · rintro ⟨a, c', hr, hk⟩
    rw [bind_of_ok hr]
    exact hk

theorem pure_eq_ok_iff {c c' : Cursor} {a b : α} :
    (pure a : Read α) c = .ok b c' ↔ a = b ∧ c = c' := by
  constructor
  · intro h
    cases h
    exact ⟨rfl, rfl⟩
  · rintro ⟨rfl, rfl⟩
    rfl

/-- A read that only reshapes its result succeeds exactly when what it reshapes does. -/
theorem map_eq_ok_iff {r : Read α} {f : α → β} {c c' : Cursor} {b : β} :
    (r >>= fun a => pure (f a)) c = .ok b c' ↔ ∃ a, r c = .ok a c' ∧ f a = b := by
  constructor
  · intro h
    obtain ⟨a, c₁, hr, h⟩ := bind_eq_ok_iff.1 h
    obtain ⟨hb, rfl⟩ := pure_eq_ok_iff.1 h
    exact ⟨a, hr, hb⟩
  · rintro ⟨a, hr, rfl⟩
    exact bind_eq_ok_iff.2 ⟨a, c', hr, rfl⟩

/-- A demand that is met changes nothing. -/
theorem require_of_le {n : Nat} {c : Cursor} (h : n ≤ c.rest.length) : require n c = .ok () c :=
  if_pos h

/-! ## Lists of results -/

/-- A piece taken has the length asked for. -/
theorem length_of_take {n : Nat} {c c' : Cursor} {octets : List UInt8}
    (h : take n c = .ok octets c') : octets.length = n := by
  unfold take at h
  rw [takeExactly_eq] at h
  by_cases hroom : n ≤ c.rest.length
  · rw [if_pos hroom] at h
    cases h
    exact List.length_take_of_le hroom
  · rw [if_neg hroom] at h
    cases h

/-- A read repeated so many times gives so many results. -/
theorem length_of_times {r : Read α} {n : Nat} {c c' : Cursor} {as : List α}
    (h : times n r c = .ok as c') : as.length = n := by
  induction n generalizing c as with
  | zero =>
    obtain ⟨rfl, -⟩ := pure_eq_ok_iff.1 h
    rfl
  | succ n ih =>
    obtain ⟨a, c₁, -, h₁⟩ := bind_eq_ok_iff.1 h
    obtain ⟨others, htimes, rfl⟩ := map_eq_ok_iff.1 h₁
    rw [List.length_cons, ih htimes]

/-- Each result of a repeated read is the result of that read somewhere. -/
theorem mem_of_times {r : Read α} {n : Nat} {c c' : Cursor} {as : List α}
    (h : times n r c = .ok as c') :
    ∀ a ∈ as, ∃ c₁ c₂, r c₁ = .ok a c₂ := by
  induction n generalizing c as with
  | zero =>
    obtain ⟨rfl, -⟩ := pure_eq_ok_iff.1 h
    intro a ha
    cases ha
  | succ n ih =>
    obtain ⟨a, c₁, hfirst, h₁⟩ := bind_eq_ok_iff.1 h
    obtain ⟨others, htimes, rfl⟩ := map_eq_ok_iff.1 h₁
    intro b hb
    rcases List.mem_cons.1 hb with rfl | hb
    · exact ⟨c, c₁, hfirst⟩
    · exact ih htimes b hb

/-- Reads made for the items of a list give one result for each item, in order. -/
theorem forall₂_of_each {r : α → Read β} {c c' : Cursor} {as : List α} {bs : List β}
    (h : each r as c = .ok bs c') : List.Forall₂ (fun a b => ∃ c₁ c₂, r a c₁ = .ok b c₂) as bs := by
  induction as generalizing c bs with
  | nil =>
    obtain ⟨rfl, -⟩ := pure_eq_ok_iff.1 h
    exact .nil
  | cons a as ih =>
    obtain ⟨b, c₁, hfirst, h₁⟩ := bind_eq_ok_iff.1 h
    obtain ⟨others, heach, rfl⟩ := map_eq_ok_iff.1 h₁
    exact .cons ⟨c, c₁, hfirst⟩ (ih heach)

/-- Each result of reads made for the items of a list is the result of one of them somewhere. -/
theorem mem_of_each {r : α → Read β} {c c' : Cursor} {as : List α} {bs : List β}
    (h : each r as c = .ok bs c') : ∀ b ∈ bs, ∃ a ∈ as, ∃ c₁ c₂, r a c₁ = .ok b c₂ := by
  intro b hb
  obtain ⟨i, hi, rfl⟩ := List.mem_iff_getElem.1 hb
  have hboth := forall₂_of_each h
  have hi' : i < as.length := hboth.length_eq ▸ hi
  exact ⟨as[i], List.getElem_mem hi', hboth.get hi' hi⟩

end Read

/-! ## Pieces of output -/

namespace Emit

/-- The piece can be written at some offset. -/
def Writable (e : Emit) : Prop := ∃ position written, e position = .ok written

theorem not_writable_fail (f : Fault) : ¬(fail f).Writable := by
  rintro ⟨position, written, hw⟩
  cases hw

theorem Writable.parts {e e' : Emit} (h : (e ++ e').Writable) : e.Writable ∧ e'.Writable := by
  obtain ⟨position, written, hw⟩ := h
  obtain ⟨front, back, hfront, hback, -⟩ := append_eq_ok_iff.1 hw
  exact ⟨⟨position, front, hfront⟩, ⟨_, back, hback⟩⟩

/-- Where a list of pieces can be written, so can each of them. -/
theorem Writable.of_concat {α : Type} {xs : List α} {piece : α → Emit}
    (h : (concat (xs.map piece)).Writable) : ∀ x ∈ xs, (piece x).Writable := by
  induction xs with
  | nil =>
    intro x hx
    cases hx
  | cons x xs ih =>
    obtain ⟨hfirst, hothers⟩ := h.parts
    intro y hy
    rcases List.mem_cons.1 hy with rfl | hy
    · exact hfirst
    · exact ih hothers y hy

/-- Only a count that fits 32 bits can be written. -/
theorem Writable.lt_of_count {s : Settings} {n : Nat} (h : (count s n).Writable) :
    n < UInt32.size := by
  obtain ⟨position, written, hw⟩ := h
  by_contra hlarge
  rw [count, if_neg hlarge] at hw
  cases hw

/-- **Agreement.** At every offset the pieces append the same octets, or neither can be written
    there. The faults may differ. -/
def Agrees (e e' : Emit) : Prop :=
  ∀ (position : Nat) (written : List UInt8), e position = .ok written ↔ e' position = .ok written

namespace Agrees

variable {a a' b b' : Emit}

theorem refl (e : Emit) : e.Agrees e := fun _ _ => Iff.rfl

theorem fail (f f' : Fault) : (Emit.fail f).Agrees (.fail f') := by
  intro position written
  constructor <;> intro h <;> cases h

/-- Pieces in a row agree if the first do and the second do. -/
theorem append (ha : a.Agrees a') (hb : b.Agrees b') : (a ++ b).Agrees (a' ++ b') := by
  intro position written
  rw [append_eq_ok_iff, append_eq_ok_iff]
  simp only [ha position, hb (position + _)]

/-- The pieces of two lists agree if they do one by one. -/
theorem concat {α β : Type} {xs : List α} {k : α → β} {piece : α → Emit} {piece' : β → Emit}
    (h : ∀ x ∈ xs, (piece x).Agrees (piece' (k x))) :
    (Emit.concat (xs.map piece)).Agrees (.concat ((xs.map k).map piece')) := by
  induction xs with
  | nil => exact refl nothing
  | cons x xs ih =>
    have hothers := ih fun y hy => h y (List.mem_cons_of_mem x hy)
    exact (h x List.mem_cons_self).append hothers

end Agrees

end Emit

end ObjectBroker
