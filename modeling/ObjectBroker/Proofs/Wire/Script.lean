import ObjectBroker.Proofs.Wire.Outcome
import ObjectBroker.Wire.Stream

/-!
# `ObjectBroker.Proofs.Wire.Script` — a read as the requests it makes

A `Read` is a function of the whole cursor, so nothing in its type says which octets its result
depends on. A script says it. It is the tree of the requests a read makes of a message: octets to
look at, an alignment to skip to, a number of octets that have to be left. Only the octets looked at
decide how it goes on, and what it skips is known at each start.

What two runs of a script on two messages have in common then follows by induction on the tree, once
for every read that has a script.
-/

namespace ObjectBroker

/-! ## Single requests -/

namespace Read

/-- A piece is taken exactly when the message goes on with it. -/
theorem take_eq_ok_iff {n : Nat} {c c' : Cursor} {front : List UInt8} :
    take n c = .ok front c' ↔
      front.length = n ∧ c.rest = front ++ c'.rest ∧ c'.position = c.position + n := by
  obtain ⟨position, octets⟩ := c
  obtain ⟨stop, back⟩ := c'
  constructor
  · intro h
    have hlength := length_of_take h
    unfold take at h
    rw [takeExactly_eq] at h
    by_cases hroom : n ≤ octets.length
    · rw [if_pos hroom] at h
      cases h
      exact ⟨hlength, (List.take_append_drop n octets).symm, rfl⟩
    · rw [if_neg hroom] at h
      cases h
  · rintro ⟨rfl, hoctets, hstop⟩
    dsimp only at hoctets hstop
    rw [hoctets, hstop]
    exact take_append position front back

/-- Skipping takes the octets up to the next multiple, whatever they are. -/
theorem align_eq_ok_iff {alignment : Nat} {c c' : Cursor} :
    align alignment c = .ok () c' ↔
      ∃ front, front.length = padding c.position alignment ∧ c.rest = front ++ c'.rest ∧
        c'.position = c.position + padding c.position alignment := by
  unfold align
  constructor
  · intro h
    cases htake : take (padding c.position alignment) c with
    | ok front c₁ =>
      rw [htake] at h
      cases h
      exact ⟨front, take_eq_ok_iff.1 htake⟩
    | error f c₁ =>
      rw [htake] at h
      cases h
  · rintro ⟨front, hfront⟩
    rw [take_eq_ok_iff.2 hfront]

theorem align_append {position alignment : Nat} {front : List UInt8} (back : List UInt8)
    (h : front.length = padding position alignment) :
    align alignment ⟨position, front ++ back⟩ = .ok () ⟨position + front.length, back⟩ :=
  align_eq_ok_iff.2 ⟨front, h, rfl, congrArg (position + ·) h⟩

theorem require_eq_ok_iff {n : Nat} {c c' : Cursor} :
    require n c = .ok () c' ↔ n ≤ c.rest.length ∧ c' = c := by
  constructor
  · intro h
    unfold require at h
    by_cases hroom : n ≤ c.rest.length
    · rw [if_pos hroom] at h
      cases h
      exact ⟨hroom, rfl⟩
    · rw [if_neg hroom] at h
      cases h
  · rintro ⟨hroom, rfl⟩
    exact require_of_le hroom

/-- A piece that is longer than what is left is not taken. -/
theorem take_of_short {n : Nat} {c : Cursor} (h : c.rest.length < n) :
    take n c = .error (.unexpectedEnd n c.rest.length) c := by
  unfold take
  rw [takeExactly_eq, if_neg (Nat.not_le.2 h)]

theorem align_of_short {alignment : Nat} {c : Cursor}
    (h : c.rest.length < padding c.position alignment) :
    align alignment c
      = .error (.unexpectedEnd (padding c.position alignment) c.rest.length) c := by
  unfold align
  rw [take_of_short h]

theorem require_of_short {n : Nat} {c : Cursor} (h : c.rest.length < n) :
    require n c = .error (.unexpectedEnd n c.rest.length) c :=
  if_neg (Nat.not_le.2 h)

end Read

/-! ## Scripts -/

/-- The requests a read makes, in order. How it goes on depends on the octets it was given. -/
inductive Script (α : Type) where
  | done (a : α)
  | fail (f : Fault)
  | take (n : Nat) (next : List UInt8 → Script α)
  | align (alignment : Nat) (next : Script α)
  | require (n : Nat) (next : Script α)

namespace Script

variable {α β : Type}

/-- The read that makes the requests. -/
def run : Script α → Read α
  | done a => pure a
  | fail f => throw f
  | take n next => Read.take n >>= fun octets => (next octets).run
  | align alignment next => Read.align alignment >>= fun _ => next.run
  | require n next => Read.require n >>= fun _ => next.run

/-- The offsets of the padding that a run from the cursor skips. -/
def skipped : Script α → Cursor → List Nat
  | done _, _ => []
  | fail _, _ => []
  | take n next, c =>
    match Read.take n c with
    | .ok octets c' => (next octets).skipped c'
    | .error _ _ => []
  | align alignment next, c =>
    match Read.align alignment c with
    | .ok _ c' => List.range' c.position (padding c.position alignment) ++ next.skipped c'
    | .error _ _ => []
  | require n next, c =>
    match Read.require n c with
    | .ok _ c' => next.skipped c'
    | .error _ _ => []

/-- The requests of one script, then those of another that depends on the result. -/
def bind : Script α → (α → Script β) → Script β
  | done a, k => k a
  | fail f, _ => fail f
  | take n next, k => take n fun octets => (next octets).bind k
  | align alignment next, k => align alignment (next.bind k)
  | require n next, k => require n (next.bind k)

theorem run_bind (script : Script α) (k : α → Script β) :
    (script.bind k).run = script.run >>= fun a => (k a).run := by
  induction script with
  | done a => rfl
  | fail f => rfl
  | take n next ih => simp only [bind, run, ih, bind_assoc]
  | align alignment next ih => simp only [bind, run, ih, bind_assoc]
  | require n next ih => simp only [bind, run, ih, bind_assoc]

/-! ## What a run takes -/

/-- A run takes a front part of what is left. -/
theorem run_split {script : Script α} {c c' : Cursor} {a : α} (h : script.run c = .ok a c') :
    ∃ taken, c.rest = taken ++ c'.rest ∧ c'.position = c.position + taken.length := by
  induction script generalizing c with
  | done a =>
    obtain ⟨-, rfl⟩ := Read.pure_eq_ok_iff.1 h
    exact ⟨[], rfl, rfl⟩
  | fail f => cases h
  | take n next ih =>
    obtain ⟨front, c₁, htake, hnext⟩ := Read.bind_eq_ok_iff.1 h
    obtain ⟨rfl, hrest, hposition⟩ := Read.take_eq_ok_iff.1 htake
    obtain ⟨taken, hrest', hposition'⟩ := ih front hnext
    refine ⟨front ++ taken, ?_, ?_⟩
    · rw [hrest, hrest', List.append_assoc]
    · rw [hposition', hposition, List.length_append, Nat.add_assoc]
  | align alignment next ih =>
    obtain ⟨⟨⟩, c₁, halign, hnext⟩ := Read.bind_eq_ok_iff.1 h
    obtain ⟨front, hlength, hrest, hposition⟩ := Read.align_eq_ok_iff.1 halign
    obtain ⟨taken, hrest', hposition'⟩ := ih hnext
    refine ⟨front ++ taken, ?_, ?_⟩
    · rw [hrest, hrest', List.append_assoc]
    · rw [hposition', hposition, List.length_append, hlength, Nat.add_assoc]
  | require n next ih =>
    obtain ⟨⟨⟩, c₁, hrequire, hnext⟩ := Read.bind_eq_ok_iff.1 h
    obtain ⟨-, rfl⟩ := Read.require_eq_ok_iff.1 hrequire
    exact ih hnext

/-- More input behind what a successful run was given changes nothing. -/
theorem run_append {script : Script α} {position stop : Nat} {octets back : List UInt8} {a : α}
    (more : List UInt8) (h : script.run ⟨position, octets⟩ = .ok a ⟨stop, back⟩) :
    script.run ⟨position, octets ++ more⟩ = .ok a ⟨stop, back ++ more⟩ := by
  induction script generalizing position octets with
  | done b =>
    obtain ⟨rfl, hc⟩ := Read.pure_eq_ok_iff.1 h
    cases hc
    rfl
  | fail f => cases h
  | take n next ih =>
    obtain ⟨front, ⟨middle, after⟩, htake, hnext⟩ := Read.bind_eq_ok_iff.1 h
    obtain ⟨hlength, hrest, hposition⟩ := Read.take_eq_ok_iff.1 htake
    have htake' : Read.take n ⟨position, octets ++ more⟩ = .ok front ⟨middle, after ++ more⟩ := by
      refine Read.take_eq_ok_iff.2 ⟨hlength, ?_, hposition⟩
      dsimp only at hrest ⊢
      rw [hrest, List.append_assoc]
    exact Read.bind_eq_ok_iff.2 ⟨front, _, htake', ih front hnext⟩
  | align alignment next ih =>
    obtain ⟨⟨⟩, ⟨middle, after⟩, halign, hnext⟩ := Read.bind_eq_ok_iff.1 h
    obtain ⟨front, hlength, hrest, hposition⟩ := Read.align_eq_ok_iff.1 halign
    have halign' :
        Read.align alignment ⟨position, octets ++ more⟩ = .ok () ⟨middle, after ++ more⟩ := by
      refine Read.align_eq_ok_iff.2 ⟨front, hlength, ?_, hposition⟩
      dsimp only at hrest ⊢
      rw [hrest, List.append_assoc]
    exact Read.bind_eq_ok_iff.2 ⟨(), _, halign', ih hnext⟩
  | require n next ih =>
    obtain ⟨⟨⟩, c₁, hrequire, hnext⟩ := Read.bind_eq_ok_iff.1 h
    obtain ⟨hroom, rfl⟩ := Read.require_eq_ok_iff.1 hrequire
    have hroom' : n ≤ (octets ++ more).length := by
      dsimp only at hroom
      rw [List.length_append]
      omega
    exact Read.bind_eq_ok_iff.2 ⟨(), _, Read.require_of_le hroom', ih hnext⟩

/-! ## What a run depends on -/

/-- No offset before the start is skipped. -/
theorem le_of_mem_skipped {script : Script α} {c : Cursor} {i : Nat} (h : i ∈ script.skipped c) :
    c.position ≤ i := by
  induction script generalizing c with
  | done a => cases h
  | fail f => cases h
  | take n next ih =>
    unfold skipped at h
    split at h
    · rename_i front c' htake
      have hbelow := ih front h
      have hposition := (Read.take_eq_ok_iff.1 htake).2.2
      omega
    · cases h
  | align alignment next ih =>
    unfold skipped at h
    split at h
    · rename_i c' halign
      obtain ⟨front, -, -, hposition⟩ := Read.align_eq_ok_iff.1 halign
      rcases List.mem_append.1 h with h | h
      · exact (List.mem_range'_1.1 h).1
      · have hbelow := ih h
        omega
    · cases h
  | require n next ih =>
    unfold skipped at h
    split at h
    · rename_i c' hrequire
      obtain ⟨-, rfl⟩ := Read.require_eq_ok_iff.1 hrequire
      exact ih h
    · cases h

/-- The octets from an offset on are as many as others and equal to them outside of some offsets. -/
def AgreeOff (offsets : List Nat) (position : Nat) (octets octets' : List UInt8) : Prop :=
  octets'.length = octets.length ∧
    ∀ i < octets.length, position + i ∉ offsets → octets'[i]? = octets[i]?

namespace AgreeOff

variable {offsets : List Nat} {position : Nat} {front back octets octets' : List UInt8}

/-- Octets that agree with two pieces in a row are two pieces that agree one by one. -/
theorem split (h : AgreeOff offsets position (front ++ back) octets') :
    ∃ front' back', octets' = front' ++ back' ∧ AgreeOff offsets position front front' ∧
      AgreeOff offsets (position + front.length) back back' := by
  obtain ⟨hlength, hagree⟩ := h
  rw [List.length_append] at hlength hagree
  refine ⟨octets'.take front.length, octets'.drop front.length,
    (List.take_append_drop _ _).symm, ⟨?_, ?_⟩, ⟨?_, ?_⟩⟩
  · rw [List.length_take]
    omega
  · intro i hi hoff
    rw [List.getElem?_take_of_lt hi, hagree i (by omega) hoff, List.getElem?_append_left hi]
  · rw [List.length_drop]
    omega
  · intro i hi hoff
    rw [Nat.add_assoc] at hoff
    rw [List.getElem?_drop, hagree _ (by omega) hoff,
      List.getElem?_append_right (Nat.le_add_right _ _), Nat.add_sub_cancel_left]

/-- Where the offsets left out all lie behind the octets, nothing is left out. -/
theorem eq (h : AgreeOff offsets position octets octets')
    (hbehind : ∀ i ∈ offsets, position + octets.length ≤ i) : octets' = octets := by
  refine List.ext_getElem? fun i => ?_
  by_cases hi : i < octets.length
  · refine h.2 i hi fun hoff => ?_
    have := hbehind _ hoff
    omega
  · rw [List.getElem?_eq_none (by rw [h.1]; omega), List.getElem?_eq_none (by omega)]

/-- Fewer offsets may be left out if the others lie before the octets. -/
theorem of_append {before : List Nat} (h : AgreeOff (before ++ offsets) position octets octets')
    (hbefore : ∀ i ∈ before, i < position) : AgreeOff offsets position octets octets' := by
  refine ⟨h.1, fun i hi hoff => h.2 i hi fun hmem => ?_⟩
  rcases List.mem_append.1 hmem with hmem | hmem
  · have := hbefore _ hmem
    omega
  · exact hoff hmem

end AgreeOff

/-- **Locality.** A run that needs no more than some octets gives the same on octets that agree with
    them outside of the padding it skips, and whatever follows. -/
theorem run_of_agreeOff {script : Script α} {position stop : Nat} {octets octets' : List UInt8}
    {a : α} (rest rest' : List UInt8) (h : script.run ⟨position, octets⟩ = .ok a ⟨stop, []⟩)
    (hagree : AgreeOff (script.skipped ⟨position, octets ++ rest⟩) position octets octets') :
    script.run ⟨position, octets' ++ rest'⟩ = .ok a ⟨stop, rest'⟩ := by
  induction script generalizing position octets octets' with
  | done b =>
    obtain ⟨rfl, hc⟩ := Read.pure_eq_ok_iff.1 h
    cases hc
    obtain rfl := List.length_eq_zero_iff.1 hagree.1
    rfl
  | fail f => cases h
  | take n next ih =>
    obtain ⟨front, ⟨middle, after⟩, htake, hnext⟩ := Read.bind_eq_ok_iff.1 h
    obtain ⟨rfl, hrest, hmiddle⟩ := Read.take_eq_ok_iff.1 htake
    dsimp only at hrest hmiddle
    subst hrest hmiddle
    rw [skipped, List.append_assoc, Read.take_append] at hagree
    obtain ⟨front', after', rfl, hfront, hafter⟩ := hagree.split
    -- What is still to be skipped lies behind the piece, so the piece is there as it was.
    obtain rfl := hfront.eq fun i hi => le_of_mem_skipped hi
    refine Read.bind_eq_ok_iff.2 ⟨front', _, ?_, ih front' hnext hafter⟩
    rw [List.append_assoc]
    exact Read.take_append position front' (after' ++ rest')
  | align alignment next ih =>
    obtain ⟨⟨⟩, ⟨middle, after⟩, halign, hnext⟩ := Read.bind_eq_ok_iff.1 h
    obtain ⟨front, hfront, hrest, hmiddle⟩ := Read.align_eq_ok_iff.1 halign
    dsimp only at hfront hrest hmiddle
    rw [← hfront] at hmiddle
    subst hrest hmiddle
    rw [skipped, List.append_assoc, Read.align_append _ hfront] at hagree
    obtain ⟨front', after', rfl, hfront', hafter⟩ := hagree.split
    -- The piece may have changed, but not its length; nothing behind it was passed over with it.
    have hafter := hafter.of_append fun i hi => by
      have := (List.mem_range'_1.1 hi).2
      dsimp only at this
      omega
    refine Read.bind_eq_ok_iff.2 ⟨(), _, ?_, ih hnext hafter⟩
    rw [List.append_assoc, Read.align_append _ (hfront'.1.trans hfront), hfront'.1]
  | require n next ih =>
    obtain ⟨⟨⟩, c₁, hrequire, hnext⟩ := Read.bind_eq_ok_iff.1 h
    obtain ⟨hroom, rfl⟩ := Read.require_eq_ok_iff.1 hrequire
    dsimp only at hroom
    have hmet : n ≤ (octets ++ rest).length := by
      rw [List.length_append]
      omega
    have hmet' : n ≤ (octets' ++ rest').length := by
      rw [List.length_append, hagree.1]
      omega
    rw [skipped, Read.require_of_le hmet] at hagree
    exact Read.bind_eq_ok_iff.2 ⟨(), _, Read.require_of_le hmet', ih hnext hagree⟩

/-- **Truncation.** A run that needs all of some octets ends for want of octets when it is given
    fewer of them. -/
theorem run_truncated {script : Script α} {position stop k : Nat} {octets : List UInt8} {a : α}
    (h : script.run ⟨position, octets⟩ = .ok a ⟨stop, []⟩) (hk : k < octets.length) :
    ∃ n left c, script.run ⟨position, octets.take k⟩ = .error (.unexpectedEnd n left) c := by
  induction script generalizing position octets k with
  | done b =>
    obtain ⟨-, hc⟩ := Read.pure_eq_ok_iff.1 h
    cases hc
    cases hk
  | fail f => cases h
  | take n next ih =>
    obtain ⟨front, ⟨middle, after⟩, htake, hnext⟩ := Read.bind_eq_ok_iff.1 h
    obtain ⟨rfl, hrest, hmiddle⟩ := Read.take_eq_ok_iff.1 htake
    dsimp only at hrest hmiddle
    subst hrest hmiddle
    rw [List.length_append] at hk
    by_cases hwhole : front.length ≤ k
    · obtain ⟨n, left, c, hcut⟩ := ih front hnext (k := k - front.length) (by omega)
      refine ⟨n, left, c, ?_⟩
      rw [run, List.take_append, List.take_of_length_le hwhole,
        Read.bind_of_ok (Read.take_append position front _)]
      exact hcut
    · have hshort : ((front ++ after).take k).length < front.length := by
        rw [List.length_take]
        omega
      exact ⟨_, _, _, Read.bind_of_error (Read.take_of_short hshort)⟩
  | align alignment next ih =>
    obtain ⟨⟨⟩, ⟨middle, after⟩, halign, hnext⟩ := Read.bind_eq_ok_iff.1 h
    obtain ⟨front, hfront, hrest, hmiddle⟩ := Read.align_eq_ok_iff.1 halign
    dsimp only at hfront hrest hmiddle
    rw [← hfront] at hmiddle
    subst hrest hmiddle
    rw [List.length_append] at hk
    by_cases hwhole : front.length ≤ k
    · obtain ⟨n, left, c, hcut⟩ := ih hnext (k := k - front.length) (by omega)
      refine ⟨n, left, c, ?_⟩
      rw [run, List.take_append, List.take_of_length_le hwhole,
        Read.bind_of_ok (Read.align_append _ hfront)]
      exact hcut
    · have hshort : ((front ++ after).take k).length < padding position alignment := by
        rw [List.length_take]
        omega
      exact ⟨_, _, _, Read.bind_of_error (Read.align_of_short hshort)⟩
  | require n next ih =>
    obtain ⟨⟨⟩, c₁, hrequire, hnext⟩ := Read.bind_eq_ok_iff.1 h
    obtain ⟨-, rfl⟩ := Read.require_eq_ok_iff.1 hrequire
    by_cases hroom : n ≤ (octets.take k).length
    · obtain ⟨m, left, c, hcut⟩ := ih hnext hk
      refine ⟨m, left, c, ?_⟩
      rw [run, Read.bind_of_ok (Read.require_of_le hroom)]
      exact hcut
    · exact ⟨_, _, _, Read.bind_of_error (Read.require_of_short (Nat.not_le.1 hroom))⟩

end Script

end ObjectBroker
