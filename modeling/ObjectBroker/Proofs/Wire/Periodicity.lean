import Mathlib.Data.Nat.Periodic
import ObjectBroker.Proofs.Wire.Outcome

/-!
# `ObjectBroker.Proofs.Wire.Periodicity` — offsets eight apart

A number starts at a multiple of its own width, and the widths are 1, 2, 4 and 8. So eight octets
further on the same padding is put in front of it, and an offset is felt by a piece of output or by
a read through nothing else. Both are functions of the offset, and eight is a period of them.

For a piece of output this is periodicity of a function. A read also says where it stopped, and that
moves along with where it started.
-/

namespace ObjectBroker

/-- An alignment that divides eight asks for the same padding eight octets on. -/
theorem padding_add_eight (position : Nat) {alignment : Nat} (h : alignment ∣ 8) :
    padding (position + 8) alignment = padding position alignment := by
  have hmod : (position + 8) % alignment = position % alignment := by
    rw [Nat.add_mod, Nat.mod_eq_zero_of_dvd h, Nat.add_zero, Nat.mod_mod]
  rw [padding, padding, hmod]

theorem WideWidth.octets_dvd_eight (wide : WideWidth) : wide.octets ∣ 8 := by
  cases wide <;> decide

/-! ## Pieces of output -/

/-- **Periodicity.** The piece appends the same eight octets further on, or fails alike. -/
def Emit.Periodic (e : Emit) : Prop := Function.Periodic e 8

namespace Emit.Periodic

variable {e e' : Emit}

/-- Only the remainder of an offset by eight is felt. -/
theorem eq_of_mod_eq (h : e.Periodic) {p q : Nat} (hpq : p % 8 = q % 8) : e p = e q := by
  rw [← h.map_mod_nat p, ← h.map_mod_nat q, hpq]

theorem fail (f : Fault) : (Emit.fail f).Periodic := fun _ => rfl

theorem octets (content : List UInt8) : (Emit.octets content).Periodic := fun _ => rfl

theorem nothing : Emit.nothing.Periodic := octets []

theorem append (h : e.Periodic) (h' : e'.Periodic) : (e ++ e').Periodic := by
  intro position
  rw [append_apply, append_apply, h position]
  cases e position with
  | error f => rfl
  | ok front =>
    -- The first piece is as long as before, so the second starts eight octets further on, too.
    dsimp only
    rw [Nat.add_right_comm, h' (position + front.length)]

theorem concat {α : Type} {xs : List α} {piece : α → Emit} (h : ∀ x ∈ xs, (piece x).Periodic) :
    (Emit.concat (xs.map piece)).Periodic := by
  induction xs with
  | nil => exact nothing
  | cons x xs ih =>
    have hothers := ih fun y hy => h y (List.mem_cons_of_mem x hy)
    exact (h x List.mem_cons_self).append hothers

theorem ofExcept {α : Type} (r : Except Fault α) {piece : α → Emit} (h : ∀ a, (piece a).Periodic) :
    (Emit.ofExcept r piece).Periodic := by
  cases r with
  | ok a => exact h a
  | error f => exact fail f

theorem pad {alignment : Nat} (h : alignment ∣ 8) : (Emit.pad alignment).Periodic := by
  intro position
  simp only [Emit.pad, padding_add_eight position h]

theorem word (s : Settings) {width : Nat} (h : width ∣ 8) (value : Nat) :
    (Emit.word s width value).Periodic :=
  (pad h).append (octets _)

end Emit.Periodic

open Emit

section Primitives

variable (s : Settings)

theorem periodic_ulong (v : UInt32) : (ulong s v).Periodic := Periodic.word s (by decide) _

theorem periodic_longlong (v : Int64) : (longlong s v).Periodic := Periodic.word s (by decide) _

theorem periodic_count (n : Nat) : (count s n).Periodic := by
  unfold count
  split
  · exact Periodic.word s (by decide) n
  · exact Periodic.fail _

theorem periodic_char (c : Char) : (char c).Periodic :=
  Periodic.ofExcept _ fun octet => Periodic.octets [octet]

theorem periodic_wchar (c : Char) : (wchar s c).Periodic := by
  unfold wchar
  split
  · split
    · exact Periodic.word s (by decide) _
    · exact Periodic.fail _
  · exact Periodic.word s (by decide) _

theorem periodic_scalar (v : ScalarValue) : (scalar s v).Periodic := by
  cases v with
  | octet v => exact Periodic.octets [v]
  | boolean v => exact Periodic.octets _
  | char c => exact periodic_char c
  | wchar c => exact periodic_wchar s c
  | _ => exact Periodic.word s (by decide) _

theorem periodic_string (text : String) : (string s text).Periodic := by
  refine Periodic.ofExcept _ fun content => ?_
  split
  · exact (Periodic.word s (by decide) _).append (Periodic.octets _)
  · exact Periodic.fail _

theorem periodic_wstring (text : String) : (wstring s text).Periodic := by
  unfold wstring
  split
  · exact (periodic_count s _).append (Periodic.concat fun _ _ => Periodic.word s (by decide) _)
  · exact (periodic_count s _).append (Periodic.concat fun _ _ => Periodic.word s (by decide) _)

theorem periodic_octetSequence (content : List UInt8) : (octetSequence s content).Periodic :=
  (periodic_count s _).append (Periodic.octets content)

end Primitives

/-! ## Reads -/

/-- The same octets, so many offsets later. -/
def Cursor.later (c : Cursor) (n : Nat) : Cursor := ⟨c.position + n, c.rest⟩

namespace Read

variable {α β : Type}

/-- The same outcome, reached so many offsets later. -/
def delay (n : Nat) : EStateM.Result Fault Cursor α → EStateM.Result Fault Cursor α
  | .ok a c => .ok a (c.later n)
  | .error f c => .error f (c.later n)

/-- **Periodicity.** Given the same octets eight offsets later, the read has the same outcome eight
    offsets later. -/
def Periodic (r : Read α) : Prop := ∀ c : Cursor, r (c.later 8) = delay 8 (r c)

namespace Periodic

variable {r : Read α} {k : α → Read β}

theorem pure (a : α) : Periodic (Pure.pure a : Read α) := fun _ => rfl

theorem throw (f : Fault) : Periodic (MonadExcept.throw f : Read α) := fun _ => rfl

theorem take (n : Nat) : (Read.take n).Periodic := by
  intro c
  unfold Read.take Cursor.later
  dsimp only
  cases takeExactly n c.rest with
  | none => rfl
  | some parts =>
    -- What is taken is decided by the octets left, and only the offset moves along.
    simp only [delay, Cursor.later]
    rw [Nat.add_right_comm]

theorem align {alignment : Nat} (h : alignment ∣ 8) : (Read.align alignment).Periodic := by
  intro c
  have hpadding : padding (c.later 8).position alignment = padding c.position alignment :=
    padding_add_eight c.position h
  unfold Read.align
  rw [hpadding, take]
  cases Read.take (padding c.position alignment) c <;> rfl

theorem require (n : Nat) : (Read.require n).Periodic := by
  intro c
  by_cases hroom : n ≤ c.rest.length
  · rw [require_of_le hroom]
    exact require_of_le hroom
  · unfold Read.require
    rw [if_neg hroom]
    exact if_neg hroom

/-- **Composition.** The second read starts eight offsets later because the first stops there. -/
theorem bind (h : r.Periodic) (hk : ∀ a, (k a).Periodic) : (r >>= k).Periodic := by
  intro c
  have hlater := h c
  cases hr : r c with
  | ok a c' =>
    rw [hr] at hlater
    rw [bind_of_ok hlater, bind_of_ok hr]
    exact hk a c'
  | error f c' =>
    rw [hr] at hlater
    rw [bind_of_error hlater, bind_of_error hr]
    rfl

/-- **Run.** What holds of one period holds of any number of them. -/
theorem later (h : r.Periodic) (c : Cursor) (n : Nat) :
    r (c.later (8 * n)) = delay (8 * n) (r c) := by
  induction n with
  | zero =>
    show r c = delay 0 (r c)
    cases r c <;> rfl
  | succ n ih =>
    have hsplit : c.later (8 * (n + 1)) = (c.later (8 * n)).later 8 := rfl
    rw [hsplit, h, ih]
    cases r c <;> rfl

end Periodic

end Read

end ObjectBroker
