import ObjectBroker.Wire.Steps

/-!
# `ObjectBroker.Proofs.Wire.Steps` — steps that only append

Cutting a message back to where an attempt started undoes the attempt only if no step has touched
what was there before. So a walk in steps is compared with the piece of output it stands for: where
it succeeds it has appended that piece, and where it fails it has the fault of the piece and has
appended something. Both are kept by sequencing, so a walk has them if its single steps do.
-/

namespace ObjectBroker

/-! ## One step and the next -/

/-- A message ends where the piece just appended to it does. -/
theorem Writer.position_of_append {w w' : Writer} {piece : List UInt8}
    (h : w'.content = w.content ++ piece) : w'.position = w.position + piece.length := by
  rw [position, h, List.length_append, position]

theorem Emit.write_of_ok {e : Emit} {w : Writer} {piece : List UInt8}
    (h : e w.position = .ok piece) : e.write w = .ok () ⟨w.content ++ piece⟩ := by
  simp only [write, Writer.put, h]

theorem Emit.write_of_error {e : Emit} {w : Writer} {f : Fault} (h : e w.position = .error f) :
    e.write w = .error f w := by
  simp only [write, Writer.put, h]

namespace Steps

variable {steps steps' : Steps} {w w' : Writer}

theorem bind_of_ok (h : steps w = .ok () w') : (steps >>= fun _ => steps') w = steps' w' := by
  show EStateM.bind steps (fun _ => steps') w = steps' w'
  simp only [EStateM.bind, h]

theorem bind_of_error {f : Fault} (h : steps w = .error f w') :
    (steps >>= fun _ => steps') w = .error f w' := by
  show EStateM.bind steps (fun _ => steps') w = .error f w'
  simp only [EStateM.bind, h]

end Steps

/-- **Following.** The steps append what the piece appends; or they fail as the piece does, and
    everything that was there before them still is. -/
structure Steps.Follows (steps : Steps) (e : Emit) : Prop where
  ok : ∀ {w w' : Writer}, steps w = .ok () w' →
    ∃ piece, e w.position = .ok piece ∧ w'.content = w.content ++ piece
  error : ∀ {w w' : Writer} {f : Fault}, steps w = .error f w' →
    e w.position = .error f ∧ w.content <+: w'.content

namespace Steps.Follows

variable {steps steps' : Steps} {e e' : Emit}

/-! ## Laws of composition -/

/-- One step follows the piece it writes. -/
theorem write (e : Emit) : e.write.Follows e := by
  constructor
  · intro w w' h
    cases hpiece : e w.position with
    | ok piece =>
      rw [Emit.write_of_ok hpiece] at h
      cases h
      exact ⟨piece, rfl, rfl⟩
    | error f =>
      rw [Emit.write_of_error hpiece] at h
      cases h
  · intro w w' f h
    cases hpiece : e w.position with
    | ok piece =>
      rw [Emit.write_of_ok hpiece] at h
      cases h
    | error f' =>
      rw [Emit.write_of_error hpiece] at h
      cases h
      exact ⟨rfl, List.prefix_rfl⟩

/-- Giving up at once follows the piece that is never written. -/
theorem fail (f : Fault) : Follows (throw f) (.fail f) := by
  constructor
  · intro w w' h
    cases h
  · intro w w' f' h
    cases h
    exact ⟨rfl, List.prefix_rfl⟩

/-- No step at all follows the empty piece. -/
theorem nothing : Follows (pure ()) .nothing := by
  constructor
  · intro w w' h
    cases h
    exact ⟨[], rfl, (List.append_nil _).symm⟩
  · intro w w' f h
    cases h

/-- **Composition.** Steps after steps follow a piece after a piece. -/
theorem append (h : steps.Follows e) (h' : steps'.Follows e') :
    Follows (steps >>= fun _ => steps') (e ++ e') := by
  constructor
  · intro w w'' hrun
    cases hfirst : steps w with
    | error f w' =>
      rw [bind_of_error hfirst] at hrun
      cases hrun
    | ok _ w' =>
      rw [bind_of_ok hfirst] at hrun
      obtain ⟨front, hfront, hw'⟩ := h.ok hfirst
      obtain ⟨back, hback, hw''⟩ := h'.ok hrun
      rw [Writer.position_of_append hw'] at hback
      refine ⟨front ++ back, Emit.append_eq_ok_iff.2 ⟨front, back, hfront, hback, rfl⟩, ?_⟩
      rw [hw'', hw', List.append_assoc]
  · intro w w'' f hrun
    cases hfirst : steps w with
    | error f' w' =>
      rw [bind_of_error hfirst] at hrun
      cases hrun
      obtain ⟨hfault, hbefore⟩ := h.error hfirst
      refine ⟨?_, hbefore⟩
      rw [Emit.append_apply, hfault]
    | ok _ w' =>
      -- The first steps wrote their piece in full, and it stays there when the later ones fail.
      rw [bind_of_ok hfirst] at hrun
      obtain ⟨front, hfront, hw'⟩ := h.ok hfirst
      obtain ⟨hfault, hbefore⟩ := h'.error hrun
      rw [Writer.position_of_append hw'] at hfault
      refine ⟨?_, (hw' ▸ List.prefix_append _ _).trans hbefore⟩
      rw [Emit.append_apply, hfront]
      simp only [hfault]

/-- The steps for a list follow its pieces in order. -/
theorem each {α : Type} {xs : List α} {steps : α → Steps} {piece : α → Emit}
    (h : ∀ x ∈ xs, (steps x).Follows (piece x)) :
    (Steps.each steps xs).Follows (.concat (xs.map piece)) := by
  induction xs with
  | nil => exact nothing
  | cons x xs ih =>
    have hothers := ih fun y hy => h y (List.mem_cons_of_mem x hy)
    exact (h x List.mem_cons_self).append hothers

/-! ## What the piece decides -/

/-- Where the piece can be written, the steps write it. -/
theorem eq_of_piece (h : steps.Follows e) {w : Writer} {piece : List UInt8}
    (hpiece : e w.position = .ok piece) : steps w = .ok () ⟨w.content ++ piece⟩ := by
  cases hrun : steps w with
  | ok _ w' =>
    obtain ⟨piece', hpiece', hw'⟩ := h.ok hrun
    obtain rfl : piece = piece' := Except.ok.inj (hpiece.symm.trans hpiece')
    rw [← hw']
  | error f w' =>
    have hfault := (h.error hrun).1
    rw [hpiece] at hfault
    cases hfault

/-- Where the piece fails, the steps end with its fault. -/
theorem exists_of_fault (h : steps.Follows e) {w : Writer} {f : Fault}
    (hfault : e w.position = .error f) : ∃ w', steps w = .error f w' := by
  cases hrun : steps w with
  | ok _ w' =>
    obtain ⟨piece, hpiece, -⟩ := h.ok hrun
    rw [hfault] at hpiece
    cases hpiece
  | error f' w' =>
    obtain rfl : f = f' := Except.error.inj (hfault.symm.trans (h.error hrun).1)
    exact ⟨w', rfl⟩

end Steps.Follows

/-! ## Attempts -/

/-- **All or nothing.** Whatever a message holds, either the piece is appended to it, or there is
    the fault of the piece and the message is as it was. -/
def WholeOrNothing (write : Writer → Except Fault Unit × Writer) (e : Emit) : Prop :=
  ∀ before : List UInt8,
    (∃ written, e before.length = .ok written ∧ write ⟨before⟩ = (.ok (), ⟨before ++ written⟩)) ∨
      ∃ f, e before.length = .error f ∧ write ⟨before⟩ = (.error f, ⟨before⟩)

/-- A message grows by some octets exactly when they are the piece. -/
theorem WholeOrNothing.eq_ok_iff {write : Writer → Except Fault Unit × Writer} {e : Emit}
    (h : WholeOrNothing write e) {before written : List UInt8} :
    write ⟨before⟩ = (.ok (), ⟨before ++ written⟩) ↔ e before.length = .ok written := by
  rcases h before with ⟨piece, hpiece, hwrite⟩ | ⟨f, hfault, hwrite⟩
  · rw [hwrite, hpiece]
    simp
  · rw [hwrite, hfault]
    simp

/-- Where the piece fails, there is its fault and nothing else. -/
theorem WholeOrNothing.of_error {write : Writer → Except Fault Unit × Writer} {e : Emit}
    (h : WholeOrNothing write e) {before : List UInt8} {f : Fault}
    (hfault : e before.length = .error f) : write ⟨before⟩ = (.error f, ⟨before⟩) := by
  rcases h before with ⟨piece, hpiece, -⟩ | ⟨g, hg, hwrite⟩
  · rw [hfault] at hpiece
    cases hpiece
  · obtain rfl : g = f := Except.error.inj (hg.symm.trans hfault)
    exact hwrite

/-- Steps that follow a piece are undone as a whole by cutting the message back. -/
theorem Steps.Follows.attempt {steps : Steps} {e : Emit} (h : steps.Follows e) :
    WholeOrNothing (·.attempt steps) e := by
  intro before
  cases hrun : steps ⟨before⟩ with
  | ok _ w' =>
    obtain ⟨written, hwritten, hw'⟩ := h.ok hrun
    refine .inl ⟨written, hwritten, ?_⟩
    simp only [Writer.attempt, hrun, ← hw']
  | error f w' =>
    obtain ⟨hfault, hbefore⟩ := h.error hrun
    refine .inr ⟨f, hfault, ?_⟩
    -- What was there is the front part of what is there, and of the length cut back to.
    have hcut : w'.content.take before.length = before := (List.prefix_iff_eq_take.1 hbefore).symm
    simp only [Writer.attempt, hrun, Writer.truncate, Writer.position, hcut]

end ObjectBroker
