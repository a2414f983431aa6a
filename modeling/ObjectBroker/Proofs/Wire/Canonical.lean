import ObjectBroker.Proofs.Wire.Limits
import ObjectBroker.Proofs.Wire.Locality

/-!
# `ObjectBroker.Proofs.Wire.Canonical` — writes that undo reads

A read that gives a value was given some octets, and the question is whether the value says which.
It does not say what the padding held, since nobody looks at it. Everything else it has to say: the
piece of output made from the value is what was taken, with zeros in place of the padding.

One read gives the same value for two inputs. An empty narrow string comes with its terminator or
with a length of zero, and is written with its terminator. So a read is compared with a strict one
that takes only what the write gives back. Where the strict read succeeds, the read does the same,
and the write undoes it.

## Contents
- `Script.blanked`: what a run takes, with zeros for the padding; `Script.getElem?_blanked`,
  `Script.skipped_congr`.
- `Read.Canonical` and its laws: `pure`, `throw`, `take`, `align`, `bind`, `map`, `demand`, `times`,
  `each`.
- Numbers and characters up to `canonical_scalar`.
- `Read.terminated`: a narrow string with its terminator; `canonical_string`, `canonical_wstring`,
  `canonical_octetSequence`.
- `Read.Canonical.readAt`: what a canonical read was given at an offset of a message.
-/

namespace ObjectBroker

variable {α β : Type}

/-! ## What a run takes, with the padding blanked -/

namespace Script

/-- The octets a run from the cursor takes, with zeros in place of the padding it skips. -/
def blanked : Script α → Cursor → List UInt8
  | done _, _ => []
  | fail _, _ => []
  | take n next, c =>
    match Read.take n c with
    | .ok octets c' => octets ++ (next octets).blanked c'
    | .error _ _ => []
  | align alignment next, c =>
    match Read.align alignment c with
    | .ok _ c' => List.replicate (padding c.position alignment) 0 ++ next.blanked c'
    | .error _ _ => []
  | require n next, c =>
    match Read.require n c with
    | .ok _ c' => next.blanked c'
    | .error _ _ => []

theorem blanked_take {n : Nat} {next : List UInt8 → Script α} {c c' : Cursor} {octets : List UInt8}
    (h : Read.take n c = .ok octets c') :
    (take n next).blanked c = octets ++ (next octets).blanked c' := by
  simp only [blanked, h]

theorem blanked_align {alignment : Nat} {next : Script α} {c c' : Cursor}
    (h : Read.align alignment c = .ok () c') :
    (align alignment next).blanked c
      = List.replicate (padding c.position alignment) 0 ++ next.blanked c' := by
  simp only [blanked, h]

theorem blanked_require {n : Nat} {next : Script α} {c c' : Cursor}
    (h : Read.require n c = .ok () c') : (require n next).blanked c = next.blanked c' := by
  simp only [blanked, h]

theorem skipped_take {n : Nat} {next : List UInt8 → Script α} {c c' : Cursor} {octets : List UInt8}
    (h : Read.take n c = .ok octets c') :
    (take n next).skipped c = (next octets).skipped c' := by
  simp only [skipped, h]

theorem skipped_align {alignment : Nat} {next : Script α} {c c' : Cursor}
    (h : Read.align alignment c = .ok () c') :
    (align alignment next).skipped c
      = List.range' c.position (padding c.position alignment) ++ next.skipped c' := by
  simp only [skipped, h]

theorem skipped_require {n : Nat} {next : Script α} {c c' : Cursor}
    (h : Read.require n c = .ok () c') : (require n next).skipped c = next.skipped c' := by
  simp only [skipped, h]

/-- Two scripts in a row take what the first takes and then what the second does. -/
theorem blanked_bind {script : Script α} {k : α → Script β} {c c' : Cursor} {a : α}
    (h : script.run c = .ok a c') :
    (script.bind k).blanked c = script.blanked c ++ (k a).blanked c' := by
  induction script generalizing c with
  | done b =>
    obtain ⟨rfl, rfl⟩ := Read.pure_eq_ok_iff.1 h
    rfl
  | fail f => cases h
  | take n next ih =>
    obtain ⟨front, c₁, htake, hnext⟩ := Read.bind_eq_ok_iff.1 h
    rw [bind, blanked_take htake, blanked_take htake, ih front hnext, List.append_assoc]
  | align alignment next ih =>
    obtain ⟨⟨⟩, c₁, halign, hnext⟩ := Read.bind_eq_ok_iff.1 h
    rw [bind, blanked_align halign, blanked_align halign, ih hnext, List.append_assoc]
  | require n next ih =>
    obtain ⟨⟨⟩, c₁, hrequire, hnext⟩ := Read.bind_eq_ok_iff.1 h
    rw [bind, blanked_require hrequire, blanked_require hrequire, ih hnext]

/-- What a run takes up to where it stops has the length of the blanked octets, and is the same
    octet by octet, except for zeros where padding is skipped. -/
theorem getElem?_blanked {script : Script α} {c c' : Cursor} {a : α}
    (h : script.run c = .ok a c') :
    c.position + (script.blanked c).length = c'.position ∧
      ∀ i < (script.blanked c).length, (script.blanked c)[i]? =
        if c.position + i ∈ script.skipped c then some 0 else c.rest[i]? := by
  induction script generalizing c with
  | done b =>
    obtain ⟨-, rfl⟩ := Read.pure_eq_ok_iff.1 h
    refine ⟨rfl, ?_⟩
    intro i hi
    cases hi
  | fail f => cases h
  | take n next ih =>
    obtain ⟨front, c₁, htake, hnext⟩ := Read.bind_eq_ok_iff.1 h
    obtain ⟨rfl, hrest, hposition⟩ := Read.take_eq_ok_iff.1 htake
    obtain ⟨hstop, hoctets⟩ := ih front hnext
    rw [blanked_take htake, skipped_take htake, List.length_append]
    refine ⟨by omega, ?_⟩
    intro i hi
    by_cases hfront : i < front.length
    · -- Padding is skipped behind the piece only, so the octets of the piece are all there.
      have hoff : c.position + i ∉ (next front).skipped c₁ := by
        intro hmem
        have := le_of_mem_skipped hmem
        omega
      rw [if_neg hoff, hrest, List.getElem?_append_left hfront, List.getElem?_append_left hfront]
    · have hbehind : front.length ≤ i := Nat.le_of_not_lt hfront
      have hoffset : c₁.position + (i - front.length) = c.position + i := by omega
      have hafter := hoctets (i - front.length) (by omega)
      rw [hoffset] at hafter
      rw [hrest, List.getElem?_append_right hbehind, List.getElem?_append_right hbehind, hafter]
  | align alignment next ih =>
    obtain ⟨⟨⟩, c₁, halign, hnext⟩ := Read.bind_eq_ok_iff.1 h
    obtain ⟨front, hlength, hrest, hposition⟩ := Read.align_eq_ok_iff.1 halign
    obtain ⟨hstop, hoctets⟩ := ih hnext
    rw [blanked_align halign, skipped_align halign, List.length_append, List.length_replicate]
    refine ⟨by omega, ?_⟩
    intro i hi
    by_cases hfront : i < padding c.position alignment
    · -- In the padding there is a zero, and the place is skipped.
      have hin : c.position + i ∈ List.range' c.position (padding c.position alignment) ++
          next.skipped c₁ :=
        List.mem_append_left _ (List.mem_range'_1.2 ⟨by omega, by omega⟩)
      rw [if_pos hin, List.getElem?_append_left (by rwa [List.length_replicate]),
        List.getElem?_replicate, if_pos hfront]
    · -- Behind the padding, whether a place is skipped is up to the rest of the run.
      have hbehind : padding c.position alignment ≤ i := Nat.le_of_not_lt hfront
      have hoffset : c₁.position + (i - padding c.position alignment) = c.position + i := by omega
      have hafter := hoctets (i - padding c.position alignment) (by omega)
      have hiff : c.position + i ∈ List.range' c.position (padding c.position alignment) ++
          next.skipped c₁ ↔ c.position + i ∈ next.skipped c₁ := by
        rw [List.mem_append, List.mem_range'_1]
        constructor
        · rintro (hrange | hmem)
          · omega
          · exact hmem
        · exact .inr
      rw [hoffset] at hafter
      rw [List.getElem?_append_right (by rwa [List.length_replicate]), List.length_replicate,
        hafter, hrest, List.getElem?_append_right (by rwa [hlength]), hlength]
      simp only [hiff]
  | require n next ih =>
    obtain ⟨⟨⟩, c₁, hrequire, hnext⟩ := Read.bind_eq_ok_iff.1 h
    obtain ⟨-, rfl⟩ := Read.require_eq_ok_iff.1 hrequire
    rw [blanked_require hrequire, skipped_require hrequire]
    exact ih hnext

/-- Runs from one offset that take the same skip the same: only what they take decides how they go
    on. -/
theorem skipped_congr {script : Script α} {c c' d d' : Cursor} {a b : α}
    (hc : script.run c = .ok a c') (hd : script.run d = .ok b d')
    (hstart : c.position = d.position) (hsame : script.blanked c = script.blanked d) :
    script.skipped c = script.skipped d := by
  induction script generalizing c d with
  | done a => rfl
  | fail f => rfl
  | take n next ih =>
    obtain ⟨front, c₁, htake, hnext⟩ := Read.bind_eq_ok_iff.1 hc
    obtain ⟨front', d₁, htake', hnext'⟩ := Read.bind_eq_ok_iff.1 hd
    have hlengths := (Read.length_of_take htake).trans (Read.length_of_take htake').symm
    have hpositions : c₁.position = d₁.position := by
      rw [(Read.take_eq_ok_iff.1 htake).2.2, (Read.take_eq_ok_iff.1 htake').2.2, hstart]
    rw [blanked_take htake, blanked_take htake'] at hsame
    -- The pieces are of one length, so they are the same piece and the runs go on alike.
    obtain ⟨rfl, hafter⟩ := List.append_inj hsame hlengths
    rw [skipped_take htake, skipped_take htake']
    exact ih front hnext hnext' hpositions hafter
  | align alignment next ih =>
    obtain ⟨⟨⟩, c₁, halign, hnext⟩ := Read.bind_eq_ok_iff.1 hc
    obtain ⟨⟨⟩, d₁, halign', hnext'⟩ := Read.bind_eq_ok_iff.1 hd
    obtain ⟨-, -, -, hposition⟩ := Read.align_eq_ok_iff.1 halign
    obtain ⟨-, -, -, hposition'⟩ := Read.align_eq_ok_iff.1 halign'
    have hpositions : c₁.position = d₁.position := by
      rw [hposition, hposition', hstart]
    rw [blanked_align halign, blanked_align halign', hstart] at hsame
    rw [skipped_align halign, skipped_align halign', hstart,
      ih hnext hnext' hpositions (List.append_cancel_left hsame)]
  | require n next ih =>
    obtain ⟨⟨⟩, c₁, hrequire, hnext⟩ := Read.bind_eq_ok_iff.1 hc
    obtain ⟨⟨⟩, d₁, hrequire', hnext'⟩ := Read.bind_eq_ok_iff.1 hd
    obtain ⟨-, rfl⟩ := Read.require_eq_ok_iff.1 hrequire
    obtain ⟨-, rfl⟩ := Read.require_eq_ok_iff.1 hrequire'
    rw [blanked_require hrequire, blanked_require hrequire'] at hsame
    rw [skipped_require hrequire, skipped_require hrequire']
    exact ih hnext hnext' hstart hsame

end Script

namespace Read

/-! ## Canonical reads -/

/-- **Canonicity.** The read makes its requests by a script. Where the strict read succeeds, the
    read does the same, and the piece made from the value is what was taken, with the padding
    blanked. -/
def Canonical (strict r : Read α) (piece : α → Emit) : Prop :=
  ∃ script : Script α, script.run = r ∧
    ∀ {c c' : Cursor} {a : α}, strict c = .ok a c' →
      r c = .ok a c' ∧ piece a c.position = .ok (script.blanked c)

namespace Canonical

variable {strict r : Read α} {piece : α → Emit}

theorem scripted (h : Canonical strict r piece) : ∃ script : Script α, script.run = r := by
  obtain ⟨script, hscript, -⟩ := h
  exact ⟨script, hscript⟩

/-- Another piece does as well if it is written wherever that of a value read is. -/
theorem mono {piece' : α → Emit} (h : Canonical strict r piece)
    (hextends : ∀ {c c' : Cursor} {a : α}, strict c = .ok a c' → (piece' a).Extends (piece a)) :
    Canonical strict r piece' := by
  obtain ⟨script, hscript, hpiece⟩ := h
  refine ⟨script, hscript, fun hread => ?_⟩
  obtain ⟨hsame, hwritten⟩ := hpiece hread
  exact ⟨hsame, hextends hread _ _ hwritten⟩

theorem pure (a : α) (piece : α → Emit) (h : (piece a).Extends .nothing) :
    Canonical (Pure.pure a) (Pure.pure a) piece := by
  refine ⟨.done a, rfl, ?_⟩
  intro c c' b hread
  obtain ⟨rfl, rfl⟩ := pure_eq_ok_iff.1 hread
  exact ⟨rfl, h _ _ rfl⟩

theorem throw (f f' : Fault) (piece : α → Emit) :
    Canonical (MonadExcept.throw f) (MonadExcept.throw f') piece := by
  refine ⟨.fail f', rfl, ?_⟩
  intro c c' a hread
  cases hread

theorem take (n : Nat) : Canonical (Read.take n) (Read.take n) Emit.octets := by
  refine ⟨.take n .done, bind_pure _, ?_⟩
  intro c c' content hread
  rw [Script.blanked_take hread]
  exact ⟨hread, congrArg _ (List.append_nil content).symm⟩

theorem align (alignment : Nat) :
    Canonical (Read.align alignment) (Read.align alignment) fun _ => .pad alignment := by
  refine ⟨.align alignment (.done ()), bind_pure _, ?_⟩
  intro c c' _ hread
  rw [Script.blanked_align hread]
  exact ⟨hread, congrArg _ (List.append_nil _).symm⟩

/-- **Composition.** Of canonical reads in a row, the piece of the result has to be written where
    the pieces in a row are. -/
theorem bind {k strict' : α → Read β} {whole : β → Emit} (h : Canonical strict r piece)
    (hk : ∀ a, ∃ piece' : β → Emit, Canonical (strict' a) (k a) piece' ∧
      ∀ {c c' c'' : Cursor} {b : β}, strict c = .ok a c' → strict' a c' = .ok b c'' →
        (whole b).Extends (piece a ++ piece' b)) :
    Canonical (strict >>= strict') (r >>= k) whole := by
  obtain ⟨script, rfl, hpiece⟩ := h
  choose piece' hk hwhole using hk
  choose scripts hscripts hpieces using hk
  refine ⟨script.bind scripts, ?_, ?_⟩
  · rw [Script.run_bind, funext hscripts]
  · intro c c'' b hread
    obtain ⟨a, c', hfirst, hsecond⟩ := bind_eq_ok_iff.1 hread
    obtain ⟨hr, hfront⟩ := hpiece hfirst
    obtain ⟨hka, hback⟩ := hpieces a hsecond
    refine ⟨bind_eq_ok_iff.2 ⟨a, c', hr, hka⟩, ?_⟩
    -- The second read starts where what the first one took ends, blanked or not.
    rw [Script.blanked_bind hr]
    refine hwhole a hfirst hsecond _ _ (Emit.append_eq_ok_iff.2 ⟨_, _, hfront, ?_, rfl⟩)
    rw [(Script.getElem?_blanked hr).1]
    exact hback

/-- A read that goes on without taking octets, and a strict read that does as it does and gives only
    what is written as was taken. -/
theorem conclude {k : α → Read β} {strict' : Read β} {whole : β → Emit}
    (h : Canonical strict r piece)
    (hk : ∀ a, (∃ b, k a = Pure.pure b) ∨ ∃ f, k a = MonadExcept.throw f)
    (hwhole : ∀ {c c' : Cursor} {b : β}, strict' c = .ok b c' →
      ∃ a, strict c = .ok a c' ∧ k a c' = .ok b c' ∧ (whole b).Extends (piece a)) :
    Canonical strict' (r >>= k) whole := by
  obtain ⟨script, rfl, hpiece⟩ := h
  have hscripts : ∀ a, ∃ last : Script β, last.run = k a ∧ ∀ c, last.blanked c = [] := by
    intro a
    rcases hk a with ⟨b, hb⟩ | ⟨f, hf⟩
    · exact ⟨.done b, hb.symm, fun _ => rfl⟩
    · exact ⟨.fail f, hf.symm, fun _ => rfl⟩
  choose last hlast hnothing using hscripts
  refine ⟨script.bind last, ?_, ?_⟩
  · rw [Script.run_bind, funext hlast]
  · intro c c' b hread
    obtain ⟨a, hfirst, hsecond, hextends⟩ := hwhole hread
    obtain ⟨hr, hwritten⟩ := hpiece hfirst
    refine ⟨bind_eq_ok_iff.2 ⟨a, c', hr, hsecond⟩, ?_⟩
    rw [Script.blanked_bind hr, hnothing, List.append_nil]
    exact hextends _ _ hwritten

/-- What a read does without taking octets, to its value or against it. -/
theorem finish {k : α → Read β} {whole : β → Emit} (h : Canonical strict r piece)
    (hk : ∀ a, (∃ b, k a = Pure.pure b) ∨ ∃ f, k a = MonadExcept.throw f)
    (hwhole : ∀ {c c' : Cursor} {a : α} {b : β}, strict c = .ok a c' → k a c' = .ok b c' →
      (whole b).Extends (piece a)) :
    Canonical (strict >>= k) (r >>= k) whole := by
  refine h.conclude hk ?_
  intro c c'' b hread
  obtain ⟨a, c', hfirst, hsecond⟩ := bind_eq_ok_iff.1 hread
  obtain rfl : c' = c'' := by
    rcases hk a with ⟨b', hb⟩ | ⟨f, hf⟩
    · rw [hb] at hsecond
      exact (pure_eq_ok_iff.1 hsecond).2
    · rw [hf] at hsecond
      cases hsecond
  exact ⟨a, hfirst, hsecond, hwhole hfirst hsecond⟩

/-- A read that only reshapes its result. -/
theorem map {f : α → β} {whole : β → Emit} (h : Canonical strict r piece)
    (hwhole : ∀ {c c' : Cursor} {a : α}, strict c = .ok a c' → (whole (f a)).Extends (piece a)) :
    Canonical (strict >>= fun a => Pure.pure (f a)) (r >>= fun a => Pure.pure (f a)) whole := by
  refine h.finish (fun a => .inl ⟨f a, rfl⟩) ?_
  intro c c' a b hread hlast
  obtain ⟨rfl, -⟩ := pure_eq_ok_iff.1 hlast
  exact hwhole hread

/-- A demand for octets takes none. -/
theorem demand (h : Canonical strict r piece) (n : Nat) :
    Canonical (require n >>= fun _ => strict) (require n >>= fun _ => r) piece := by
  obtain ⟨script, rfl, hpiece⟩ := h
  refine ⟨.require n script, rfl, ?_⟩
  intro c c' a hread
  obtain ⟨⟨⟩, c₁, hrequire, hstrict⟩ := bind_eq_ok_iff.1 hread
  obtain ⟨hr, hwritten⟩ := hpiece hstrict
  rw [Script.blanked_require hrequire]
  obtain ⟨-, rfl⟩ := require_eq_ok_iff.1 hrequire
  exact ⟨bind_eq_ok_iff.2 ⟨(), c₁, hrequire, hr⟩, hwritten⟩

theorem times (h : Canonical strict r piece) (n : Nat) :
    Canonical (Read.times n strict) (Read.times n r) fun as => .concat (as.map piece) := by
  induction n with
  | zero => exact pure [] _ (Emit.Extends.refl _)
  | succ n ih =>
    refine h.bind fun a => ⟨fun as => .concat (as.tail.map piece),
      ih.map fun _ => Emit.Extends.refl _, ?_⟩
    intro c c' c'' as _ hothers
    obtain ⟨others, -, rfl⟩ := map_eq_ok_iff.1 hothers
    exact Emit.Extends.refl _

/-- Reads made for the items of a list, each with the piece of its item. -/
theorem each {strict r : α → Read β} {piece : α → β → Emit} {as : List α}
    (h : ∀ a ∈ as, Canonical (strict a) (r a) (piece a)) :
    Canonical (Read.each strict as) (Read.each r as) fun bs =>
      .concat ((as.zip bs).map fun p => piece p.1 p.2) := by
  induction as with
  | nil => exact pure [] _ (Emit.Extends.refl _)
  | cons a as ih =>
    have hothers := ih fun b hb => h b (List.mem_cons_of_mem a hb)
    refine (h a List.mem_cons_self).bind fun b =>
      ⟨fun bs => .concat ((as.zip bs.tail).map fun p => piece p.1 p.2),
        hothers.map fun _ => Emit.Extends.refl _, ?_⟩
    intro c c' c'' bs _ hrest
    obtain ⟨others, -, rfl⟩ := map_eq_ok_iff.1 hrest
    exact Emit.Extends.refl _

end Canonical

end Read

open Read

/-! ## Numbers and characters -/

variable (s : Settings)

/-- A number read is written as the octets it was read from. -/
theorem canonical_word (width : Nat) :
    Canonical (word s width) (word s width) (Emit.word s width) := by
  refine (Canonical.align width).bind fun _ =>
    ⟨fun n => .octets (s.order.arrange (littleEndian width n)), (Canonical.take width).map ?_,
      fun _ _ => Emit.Extends.refl _⟩
  intro c c' content hread
  obtain rfl := length_of_take hread
  have hback := littleEndian_ofLittleEndian (s.order.arrange content)
  rw [ByteOrder.arrange_length] at hback
  rw [hback, ByteOrder.arrange_arrange]
  exact Emit.Extends.refl _

/-- A number read fits the width it was read with. -/
theorem lt_of_word {width n : Nat} {c c' : Cursor} (h : word s width c = .ok n c') :
    n < Nat.pow 256 width := by
  obtain ⟨⟨⟩, c₁, -, h⟩ := bind_eq_ok_iff.1 h
  obtain ⟨content, htake, rfl⟩ := map_eq_ok_iff.1 h
  have hfit := ofLittleEndian_lt (s.order.arrange content)
  rwa [ByteOrder.arrange_length, length_of_take htake] at hfit

theorem canonical_octet : Canonical octet octet Emit.octet := by
  refine (Canonical.take 1).map ?_
  intro c c' content hread
  obtain ⟨v, rfl⟩ := List.length_eq_one_iff.1 (length_of_take hread)
  have hvalue : UInt8.ofNat (ofLittleEndian [v]) = v := by simp [ofLittleEndian]
  rw [hvalue]
  exact Emit.Extends.refl _

theorem canonical_boolean : Canonical boolean boolean Emit.boolean := by
  refine canonical_octet.finish (fun v => ?_) ?_
  · split
    · exact .inl ⟨_, rfl⟩
    · exact .inl ⟨_, rfl⟩
    · exact .inr ⟨_, rfl⟩
  · intro c c' v b _ hlast
    split at hlast
    · obtain ⟨rfl, -⟩ := pure_eq_ok_iff.1 hlast
      exact Emit.Extends.refl _
    · obtain ⟨rfl, -⟩ := pure_eq_ok_iff.1 hlast
      exact Emit.Extends.refl _
    · cases hlast

/-- What is made of a number, where the number is written for it. -/
theorem canonical_number {width : Nat} {f : Nat → β} {whole : β → Emit}
    (h : ∀ n < Nat.pow 256 width, whole (f n) = .word s width n) :
    Canonical (word s width >>= fun n => Pure.pure (f n))
      (word s width >>= fun n => Pure.pure (f n)) whole := by
  refine (canonical_word s width).map ?_
  intro c c' n hread
  rw [h n (lt_of_word s hread)]
  exact Emit.Extends.refl _

theorem canonical_ulong : Canonical (ulong s) (ulong s) (Emit.ulong s) := by
  refine canonical_number s fun n hfit => ?_
  rw [Emit.ulong, UInt32.toNat_ofNat_of_lt' hfit]

theorem canonical_longlong : Canonical (longlong s) (longlong s) (Emit.longlong s) := by
  refine canonical_number s fun n hfit => ?_
  rw [Emit.longlong, UInt64.toUInt64_toInt64, UInt64.toNat_ofNat_of_lt' hfit]

theorem canonical_char : Canonical char char Emit.char := by
  refine canonical_octet.map ?_
  intro c c' v _
  rw [Emit.char, Latin1.encode_decode]
  exact Emit.Extends.refl _

/-- A unit of two octets that is a character is the one unit of that character. -/
theorem Utf16.units_of_toNat {c : Char} {n : Nat} (hfit : n < 0x10000) (h : c.toNat = n) :
    Utf16.units c = [n.toUInt16] := by
  rw [Utf16.units, h, if_pos hfit]

theorem canonical_wchar : Canonical (wchar s) (wchar s) (Emit.wchar s) := by
  refine (canonical_word s s.wide.octets).finish (fun n => ?_) ?_
  · dsimp only
    split
    · exact .inl ⟨_, rfl⟩
    · exact .inr ⟨_, rfl⟩
  · intro c c' n b hread hlast
    cases hunit : charOfUnit? (UInt32.ofNat n) with
    | none =>
      simp only [hunit] at hlast
      cases hlast
    | some unit =>
      simp only [hunit] at hlast
      obtain ⟨rfl, -⟩ := pure_eq_ok_iff.1 hlast
      have hfit := lt_of_word s hread
      have hnarrow : n < UInt32.size := by
        cases hwide : s.wide <;> rw [hwide] at hfit <;> simp [WideWidth.octets] at hfit <;>
          simp [UInt32.size] <;> omega
      have hvalue : unit.toNat = n := by
        rw [Char.toNat, charOfUnit?_eq_some_iff.1 hunit, UInt32.toNat_ofNat_of_lt' hnarrow]
      unfold Emit.wchar
      cases hwide : s.wide with
      | two =>
        -- A surrogate is no character, so the unit is all that its character is written as.
        rw [hwide] at hfit
        have hshort : n < 0x10000 := hfit
        have hunit : n.toUInt16.toNat = n := UInt16.toNat_ofNat_of_lt' hshort
        simp only [Utf16.units_of_toNat hshort hvalue, hunit]
        exact Emit.Extends.refl _
      | four =>
        simp only [hvalue]
        exact Emit.Extends.refl _

/-- **Scalars.** A scalar read is written as the octets it was read from. -/
theorem canonical_scalar (kind : Scalar) :
    Canonical (scalar s kind) (scalar s kind) (Emit.scalar s) := by
  have hsame : ∀ {v : ScalarValue}, (Emit.scalar s v).Extends (Emit.scalar s v) :=
    Emit.Extends.refl _
  cases kind with
  | octet => exact canonical_octet.map fun _ => hsame
  | boolean => exact canonical_boolean.map fun _ => hsame
  | short =>
    refine canonical_number s fun n hfit => ?_
    rw [Emit.scalar, UInt16.toUInt16_toInt16, UInt16.toNat_ofNat_of_lt' hfit]
  | ushort =>
    refine canonical_number s fun n hfit => ?_
    rw [Emit.scalar, UInt16.toNat_ofNat_of_lt' hfit]
  | long =>
    refine canonical_number s fun n hfit => ?_
    rw [Emit.scalar, UInt32.toUInt32_toInt32, UInt32.toNat_ofNat_of_lt' hfit]
  | ulong => exact (canonical_ulong s).map fun _ => hsame
  | longlong => exact (canonical_longlong s).map fun _ => hsame
  | ulonglong =>
    refine canonical_number s fun n hfit => ?_
    rw [Emit.scalar, UInt64.toNat_ofNat_of_lt' hfit]
  | float =>
    refine canonical_number s fun n hfit => ?_
    rw [Emit.scalar, UInt32.toNat_ofNat_of_lt' hfit]
  | double =>
    refine canonical_number s fun n hfit => ?_
    rw [Emit.scalar, UInt64.toNat_ofNat_of_lt' hfit]
  | char => exact canonical_char.map fun _ => hsame
  | wchar => exact (canonical_wchar s).map fun _ => hsame

/-! ## Texts and runs of octets -/

/-- A count that was read is below the greatest, so it is written as the number it was read as. -/
theorem Emit.count_of_lt {n : Nat} (h : n < UInt32.size) : Emit.count s n = .word s 4 n :=
  if_pos h

theorem canonical_octetSequence :
    Canonical (octetSequence s) (octetSequence s) (Emit.octetSequence s) := by
  refine (canonical_word s 4).bind fun length => ⟨Emit.octets, Canonical.take length, ?_⟩
  intro c c' c'' content hlength hcontent
  obtain rfl := length_of_take hcontent
  rw [Emit.octetSequence, Emit.count_of_lt s (lt_of_word s hlength)]
  exact Emit.Extends.refl _

/-- A narrow string is a run of octets of which the last, if there is one, is the terminator. -/
theorem Read.string_eq :
    string s = octetSequence s >>= fun content =>
      match content.getLast? with
      | some 0 | none => Pure.pure (Latin1.decodeAll content.dropLast)
      | some octet => reject (.terminator octet) := by
  unfold string octetSequence
  rw [bind_assoc]
  refine congrArg _ (funext fun length => ?_)
  split
  · rename_i hzero
    rw [hzero]
    rfl
  · rfl

/-- A narrow string that comes with its terminator. The zero length that also stands for the empty
    string is refused. -/
def Read.terminated : Read String := fun c =>
  match word s 4 c with
  | .ok 0 after => .error (.unexpectedEnd 1 0) after
  | _ => string s c

/-- A narrow string with its terminator is read as any narrow string is, and not from a length of
    zero. -/
theorem cases_of_terminated {c c' : Cursor} {text : String} (h : terminated s c = .ok text c') :
    string s c = .ok text c' ∧ ∀ after, word s 4 c ≠ .ok 0 after := by
  unfold terminated at h
  split at h
  · cases h
  · rename_i hlength
    exact ⟨h, hlength⟩

/-- What is known of a narrow string with its terminator once it is read. -/
theorem exists_of_terminated {c c' : Cursor} {text : String} (h : terminated s c = .ok text c') :
    ∃ content, octetSequence s c = .ok (content ++ [0]) c' ∧ text = Latin1.decodeAll content := by
  obtain ⟨hstring, hlength⟩ := cases_of_terminated s h
  rw [string_eq] at hstring
  obtain ⟨octets, c₁, hoctets, hlast⟩ := bind_eq_ok_iff.1 hstring
  have hnonempty : octets ≠ [] := by
    rintro rfl
    obtain ⟨length, c₂, hword, htake⟩ := bind_eq_ok_iff.1 hoctets
    obtain rfl : 0 = length := length_of_take htake
    exact hlength c₂ hword
  cases hend : octets.getLast? with
  | none => exact absurd (List.getLast?_eq_none_iff.1 hend) hnonempty
  | some last =>
    by_cases hzero : last = 0
    · subst hzero
      simp only [hend] at hlast
      obtain ⟨rfl, rfl⟩ := pure_eq_ok_iff.1 hlast
      refine ⟨octets.dropLast, ?_, rfl⟩
      rwa [List.dropLast_append_getLast? 0 hend]
    · simp only [hend] at hlast
      cases hlast

theorem canonical_string : Canonical (terminated s) (string s) (Emit.string s) := by
  rw [string_eq]
  refine (canonical_octetSequence s).conclude (fun content => ?_) ?_
  · split
    · exact .inl ⟨_, rfl⟩
    · exact .inl ⟨_, rfl⟩
    · exact .inr ⟨_, rfl⟩
  · intro c c' text hread
    obtain ⟨content, hoctets, rfl⟩ := exists_of_terminated s hread
    -- The run of octets that was read has the terminator in it, as the one that is written does.
    refine ⟨content ++ [0], hoctets, ?_, ?_⟩
    · simp only [List.getLast?_append, List.getLast?_singleton, Option.some_or,
        List.dropLast_concat]
      rfl
    · obtain ⟨length, c₁, hword, htake⟩ := bind_eq_ok_iff.1 hoctets
      obtain rfl := length_of_take htake
      have hfit : (content ++ [0]).length < UInt32.size := lt_of_word s hword
      rw [Emit.octetSequence, Emit.count_of_lt s hfit]
      rw [List.length_append, List.length_singleton] at hfit ⊢
      simp only [Emit.string, Latin1.encodeAll_decodeAll, Emit.ofExcept, if_pos hfit]
      exact Emit.Extends.refl _

theorem canonical_utf32 :
    Canonical (utf32 s) (utf32 s) fun c => .word s 4 c.toNat := by
  refine (canonical_ulong s).finish (fun unit => ?_) ?_
  · split
    · exact .inl ⟨_, rfl⟩
    · exact .inr ⟨_, rfl⟩
  · intro c c' unit character _ hlast
    cases hunit : charOfUnit? unit with
    | none =>
      simp only [hunit] at hlast
      cases hlast
    | some c =>
      simp only [hunit] at hlast
      obtain ⟨rfl, -⟩ := pure_eq_ok_iff.1 hlast
      rw [Char.toNat, charOfUnit?_eq_some_iff.1 hunit]
      exact Emit.Extends.refl _

/-- A wide string is written as its length and its units, in units of either width. -/
theorem canonical_wstring : Canonical (wstring s) (wstring s) (Emit.wstring s) := by
  unfold wstring Emit.wstring
  cases s.wide with
  | two =>
    have hunit : Canonical (word s 2 >>= fun n => Pure.pure (UInt16.ofNat n))
        (word s 2 >>= fun n => Pure.pure (UInt16.ofNat n)) fun unit => .word s 2 unit.toNat := by
      refine canonical_number s fun n hfit => ?_
      rw [UInt16.toNat_ofNat_of_lt' hfit]
    refine (canonical_word s 4).bind fun length =>
      ⟨fun text => .concat ((Utf16.encodeAll text).map fun unit => .word s 2 unit.toNat),
        Canonical.demand ?_ _, ?_⟩
    · refine (hunit.times length).finish (fun units => ?_) ?_
      · split
        · exact .inl ⟨_, rfl⟩
        · exact .inr ⟨_, rfl⟩
      · intro c c' units text _ hlast
        cases htext : Utf16.decodeAll? units with
        | none =>
          simp only [htext] at hlast
          cases hlast
        | some characters =>
          simp only [htext] at hlast
          obtain ⟨rfl, -⟩ := pure_eq_ok_iff.1 hlast
          rw [Utf16.encodeAll_of_decodeAll? htext]
          exact Emit.Extends.refl _
    · intro c c' c'' text hlength hrest
      obtain ⟨⟨⟩, c₁, -, hrest⟩ := bind_eq_ok_iff.1 hrest
      obtain ⟨units, c₂, htimes, hlast⟩ := bind_eq_ok_iff.1 hrest
      obtain rfl := length_of_times htimes
      -- Units that make up a text are the units of that text, so the count is the same too.
      cases htext : Utf16.decodeAll? units with
      | none =>
        simp only [htext] at hlast
        cases hlast
      | some characters =>
        simp only [htext] at hlast
        obtain ⟨rfl, -⟩ := pure_eq_ok_iff.1 hlast
        simp only [Utf16.encodeAll_of_decodeAll? htext]
        rw [Emit.count_of_lt s (lt_of_word s hlength)]
        exact Emit.Extends.refl _
  | four =>
    refine (canonical_word s 4).bind fun length =>
      ⟨fun text => .concat (text.toList.map fun c => .word s 4 c.toNat),
        Canonical.demand ?_ _, ?_⟩
    · refine ((canonical_utf32 s).times length).map ?_
      intro c c' characters _
      rw [String.toList_ofList]
      exact Emit.Extends.refl _
    · intro c c' c'' text hlength htext
      obtain ⟨⟨⟩, c₁, -, htext⟩ := bind_eq_ok_iff.1 htext
      obtain ⟨characters, htimes, rfl⟩ := map_eq_ok_iff.1 htext
      obtain rfl := length_of_times htimes
      simp only [String.toList_ofList]
      rw [Emit.count_of_lt s (lt_of_word s hlength)]
      exact Emit.Extends.refl _

/-! ## Reads at an offset of a message -/

/-- What a run between two offsets of a message takes, octet by octet. -/
theorem Script.getElem?_blanked_of_readAt {script : Script α} {message : List UInt8}
    {start stop : Nat} {a : α} (h : Reader.readAt message start script.run = .ok (a, stop)) :
    start + (script.blanked ⟨start, message.drop start⟩).length = stop ∧
      ∀ i, start ≤ i → i < stop → (script.blanked ⟨start, message.drop start⟩)[i - start]? =
        if i ∈ script.skipped ⟨start, message.drop start⟩ then some 0 else message[i]? := by
  obtain ⟨-, back, hrun⟩ := Reader.readAt_eq_ok_iff.1 h
  obtain ⟨hlength, hoctets⟩ := getElem?_blanked hrun
  dsimp only at hlength hoctets
  refine ⟨hlength, ?_⟩
  intro i hstart hstop
  have hoctet := hoctets (i - start) (by omega)
  rwa [List.getElem?_drop, Nat.add_sub_cancel' hstart] at hoctet

/-- **Canonicity in a message.** What a canonical read was given at an offset of a message is what
    is written there for the value, up to the padding. A second message that is read as the same
    value holds the same. -/
theorem Read.Canonical.readAt {strict r : Read α} {piece : α → Emit}
    (h : Canonical strict r piece) :
    ∃ script : Script α, script.run = r ∧
      ∀ (message : List UInt8) (start stop : Nat) (a : α),
        Reader.readAt message start r = .ok (a, stop) →
        (Reader.readAt message start strict).isOk = true →
          (∃ octets, piece a start = .ok octets ∧ start + octets.length = stop ∧
            ∀ i, start ≤ i → i < stop → octets[i - start]? =
              if i ∈ script.skipped ⟨start, message.drop start⟩ then some 0 else message[i]?) ∧
          ∀ (message' : List UInt8) (stop' : Nat),
            Reader.readAt message' start r = .ok (a, stop') →
            (Reader.readAt message' start strict).isOk = true →
              stop' = stop ∧
              script.skipped ⟨start, message'.drop start⟩
                = script.skipped ⟨start, message.drop start⟩ ∧
              ∀ i, start ≤ i → i < stop → i ∉ script.skipped ⟨start, message.drop start⟩ →
                message'[i]? = message[i]? := by
  obtain ⟨script, rfl, hpiece⟩ := h
  have hwritten : ∀ {message : List UInt8} {start stop : Nat} {a : α},
      Reader.readAt message start script.run = .ok (a, stop) →
      (Reader.readAt message start strict).isOk = true →
      piece a start = .ok (script.blanked ⟨start, message.drop start⟩) := by
    intro message start stop a hread hstrict
    obtain ⟨-, back, hrun⟩ := Reader.readAt_eq_ok_iff.1 hread
    cases hresult : Reader.readAt message start strict with
    | error f =>
      rw [hresult] at hstrict
      cases hstrict
    | ok result =>
      obtain ⟨-, back', hstrictly⟩ := Reader.readAt_eq_ok_iff.1 hresult
      obtain ⟨hsame, hpiece⟩ := hpiece hstrictly
      rw [hsame] at hrun
      cases hrun
      exact hpiece
  refine ⟨script, rfl, ?_⟩
  intro message start stop a hread hstrict
  obtain ⟨hlength, hoctets⟩ := Script.getElem?_blanked_of_readAt hread
  refine ⟨⟨_, hwritten hread hstrict, hlength, hoctets⟩, ?_⟩
  intro message' stop' hread' hstrict'
  obtain ⟨hlength', hoctets'⟩ := Script.getElem?_blanked_of_readAt hread'
  -- One piece is written for the value, so the two runs took the same up to the padding.
  have hsame := Except.ok.inj ((hwritten hread' hstrict').symm.trans (hwritten hread hstrict))
  have hskipped := Script.skipped_congr (Reader.readAt_eq_ok_iff.1 hread').2.choose_spec
    (Reader.readAt_eq_ok_iff.1 hread).2.choose_spec rfl hsame
  rw [hsame] at hlength' hoctets'
  obtain rfl : stop' = stop := by omega
  refine ⟨rfl, hskipped, ?_⟩
  intro i hstart hstop hoff
  have hoctet := hoctets i hstart hstop
  have hoctet' := hoctets' i hstart hstop
  rw [hskipped] at hoctet'
  rw [if_neg hoff] at hoctet hoctet'
  rw [← hoctet', hoctet]

end ObjectBroker
