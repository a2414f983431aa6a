import ObjectBroker.Proofs.Wire.Faults
import ObjectBroker.Proofs.Wire.Steps
import ObjectBroker.Wire.Primitive

/-!
# `ObjectBroker.Proofs.Wire.Pieces` — many steps that are one

Between the first octet of a primitive value and the last there are as many steps as the value has
numbers, and none of them is ever taken back. The call is one step all the same: only a check can
fail, and no step is taken before the last check. So steps in a row are compared with one write of
the pieces put together. The two are the same if nothing but the first of the steps can fail.
-/

namespace ObjectBroker

/-! ## Pieces that cannot fail -/

/-- **Certainty.** The piece can be written at every offset, since there is no fault it could end
    with. -/
abbrev Emit.Certain (e : Emit) : Prop := e.FailsWith fun _ => False

theorem Emit.Certain.exists_octets {e : Emit} (h : e.Certain) (position : Nat) :
    ∃ octets, e position = .ok octets := by
  cases hpiece : e position with
  | ok octets => exact ⟨octets, rfl⟩
  | error f => exact (h position f hpiece).elim

/-! ## Steps in a row -/

namespace Steps

/-- Two writes in a row are one, if the second cannot fail: then there is never a first one without
    it. -/
theorem write_append {e e' : Emit} (h : e'.Certain) :
    (e.write >>= fun _ => e'.write) = (e ++ e').write := by
  funext w
  cases hfront : e w.position with
  | error f =>
    have hboth : (e ++ e') w.position = .error f := by
      rw [Emit.append_apply, hfront]
    rw [bind_of_error (Emit.write_of_error hfront), Emit.write_of_error hboth]
  | ok front =>
    obtain ⟨back, hback⟩ := h.exists_octets (w.position + front.length)
    have hboth : (e ++ e') w.position = .ok (front ++ back) :=
      Emit.append_eq_ok_iff.2 ⟨front, back, hfront, hback, rfl⟩
    have hposition : (Writer.mk (w.content ++ front)).position = w.position + front.length :=
      List.length_append
    rw [bind_of_ok (Emit.write_of_ok hfront), Emit.write_of_ok hboth,
      Emit.write_of_ok (hposition ▸ hback), List.append_assoc]

/-- The writes of a list are one, if none of them can fail. -/
theorem each_write {α : Type} {xs : List α} {piece : α → Emit}
    (h : ∀ x ∈ xs, (piece x).Certain) :
    each (fun x => (piece x).write) xs = (Emit.concat (xs.map piece)).write := by
  induction xs with
  | nil =>
    funext w
    rw [Emit.write_of_ok (show (Emit.concat ([].map piece)) w.position = .ok [] from rfl),
      List.append_nil]
    rfl
  | cons x xs ih =>
    have hothers : ∀ y ∈ xs, (piece y).Certain := fun y hy => h y (List.mem_cons_of_mem x hy)
    rw [each, ih hothers, write_append (Emit.FailsWith.concat hothers)]
    rfl

section Values

variable (s : Settings)

theorem word_eq_write (width value : Nat) : word s width value = (Emit.word s width value).write :=
  write_append (.octets _)

theorem count_eq_write (n : Nat) : count s n = (Emit.count s n).write := by
  rw [count, Emit.count]
  split
  · exact word_eq_write s 4 n
  · rfl

/-- A count and the numbers it announces. -/
theorem counted_eq_write {α : Type} (n : Nat) (xs : List α) (width : Nat) (value : α → Nat) :
    (count s n >>= fun _ => each (fun x => word s width (value x)) xs)
      = (Emit.count s n ++ .concat (xs.map fun x => .word s width (value x))).write := by
  have hword : ∀ x ∈ xs, (Emit.word s width (value x)).Certain := fun x _ => .word s width (value x)
  simp only [word_eq_write]
  rw [count_eq_write, each_write hword, write_append (.concat hword)]

theorem char_eq_write (c : Char) : char c = (Emit.char c).write := by
  rw [char, Emit.char]
  cases Latin1.encode c <;> rfl

theorem wchar_eq_write (c : Char) : wchar s c = (Emit.wchar s c).write := by
  rw [wchar, Emit.wchar]
  cases s.wide with
  | two =>
    -- One code unit is written; none, or more than one, is refused.
    cases Utf16.units c with
    | nil => rfl
    | cons unit others =>
      cases others with
      | nil => exact word_eq_write s 2 unit.toNat
      | cons _ _ => rfl
  | four => exact word_eq_write s 4 c.toNat

theorem scalar_eq_write (v : ScalarValue) : scalar s v = (Emit.scalar s v).write := by
  cases v with
  | octet v => rfl
  | boolean v => rfl
  | char c => exact char_eq_write c
  | wchar c => exact wchar_eq_write s c
  | _ => exact word_eq_write s _ _

theorem string_eq_write (text : String) : string s text = (Emit.string s text).write := by
  rw [string, Emit.string]
  cases Latin1.encodeAll text with
  | error f => rfl
  | ok content =>
    dsimp only [Emit.ofExcept]
    split
    · have hcontent : Emit.octets content ++ Emit.octets [0] = Emit.octets (content ++ [0]) := rfl
      rw [word_eq_write, write_append (.octets _), hcontent, write_append (.octets _)]
    · rfl

theorem wstring_eq_write (text : String) : wstring s text = (Emit.wstring s text).write := by
  rw [wstring, Emit.wstring]
  cases s.wide with
  | two => exact counted_eq_write s _ _ 2 UInt16.toNat
  | four => exact counted_eq_write s _ _ 4 Char.toNat

end Values

end Steps

/-- **One step.** The steps of a primitive value append all of it, or fail before the first octet. -/
theorem steps_eq_write (s : Settings) (p : Primitive) : p.steps s = (p.emit s).write := by
  cases p with
  | scalar v => exact Steps.scalar_eq_write s v
  | string text => exact Steps.string_eq_write s text
  | wstring text => exact Steps.wstring_eq_write s text

/-- A call appends the value as a whole, or fails and leaves the message as it is. -/
theorem write_eq_put (s : Settings) (w : Writer) (p : Primitive) :
    w.write s p = w.put (p.emit s) := by
  unfold Writer.write Writer.perform
  rw [steps_eq_write]
  cases hpiece : p.emit s w.position with
  | ok piece => simp only [Emit.write_of_ok hpiece, Writer.put, hpiece]
  | error f => simp only [Emit.write_of_error hpiece, Writer.put, hpiece]

end ObjectBroker
