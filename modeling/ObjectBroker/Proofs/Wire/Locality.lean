import ObjectBroker.Proofs.Wire.Periodicity
import ObjectBroker.Proofs.Wire.Refusal
import ObjectBroker.Proofs.Wire.Script

/-!
# `ObjectBroker.Proofs.Wire.Locality` — reads that depend on what they take

A read with a script looks at no octet that it does not take, but it may count the octets left. The
length of a wide string and the counts in a type code are held against that number before anything
of what they announce is read. A read is local if this makes no difference either: what it gives, it
also gives on a message that ends where it ends. A demand is of this kind where the read goes on to
take at least the octets demanded. So the least number of octets a read takes is part of what is
kept by sequencing and repetition, and the reads of announced items are local because no item is
empty.
-/

namespace ObjectBroker

variable {α β : Type}

namespace Read

/-- **Locality.** The read makes its requests by a script; it gives what it gives on a message that
    ends where the read does; it takes at least so many octets; and it feels its offset in the
    padding alone. -/
structure Local (r : Read α) (least : Nat) : Prop where
  scripted : ∃ script : Script α, script.run = r
  contained : ∀ {position stop : Nat} {octets rest : List UInt8} {a : α},
    r ⟨position, octets ++ rest⟩ = .ok a ⟨stop, rest⟩ → r ⟨position, octets⟩ = .ok a ⟨stop, []⟩
  takes : ∀ {c c' : Cursor} {a : α}, r c = .ok a c' → c.position + least ≤ c'.position
  periodic : r.Periodic

namespace Local

variable {r : Read α} {k : α → Read β} {m n : Nat}

/-! ## Laws of composition -/

/-- A success takes a front part of what is left. -/
theorem split (h : r.Local n) {c c' : Cursor} {a : α} (hr : r c = .ok a c') :
    ∃ taken, c.rest = taken ++ c'.rest ∧ c'.position = c.position + taken.length := by
  obtain ⟨script, rfl⟩ := h.scripted
  exact Script.run_split hr

/-- More input behind what a success was given changes nothing. -/
theorem append (h : r.Local n) {position stop : Nat} {octets back : List UInt8} {a : α}
    (more : List UInt8) (hr : r ⟨position, octets⟩ = .ok a ⟨stop, back⟩) :
    r ⟨position, octets ++ more⟩ = .ok a ⟨stop, back ++ more⟩ := by
  obtain ⟨script, rfl⟩ := h.scripted
  exact Script.run_append more hr

theorem mono (h : r.Local n) (hle : m ≤ n) : r.Local m := by
  refine ⟨h.scripted, h.contained, fun hr => ?_, h.periodic⟩
  have := h.takes hr
  omega

theorem pure (a : α) : Local (Pure.pure a) 0 := by
  refine ⟨⟨.done a, rfl⟩, ?_, ?_, .pure a⟩
  · intro position stop octets rest b h
    obtain ⟨rfl, hc⟩ := pure_eq_ok_iff.1 h
    injection hc with hposition hrest
    obtain rfl : octets = [] := List.append_cancel_right hrest
    rw [hposition]
    rfl
  · intro c c' b h
    obtain ⟨-, rfl⟩ := pure_eq_ok_iff.1 h
    exact Nat.le_refl _

theorem throw (f : Fault) (n : Nat) : Local (MonadExcept.throw f : Read α) n := by
  refine ⟨⟨.fail f, rfl⟩, ?_, ?_, .throw f⟩
  · intro position stop octets rest a h
    cases h
  · intro c c' a h
    cases h

theorem take (n : Nat) : Local (Read.take n) n := by
  refine ⟨⟨.take n .done, bind_pure _⟩, ?_, ?_, .take n⟩
  · intro position stop octets rest front h
    obtain ⟨hlength, hrest, hstop⟩ := take_eq_ok_iff.1 h
    have hall : octets = front := List.append_cancel_right hrest
    exact take_eq_ok_iff.2 ⟨hlength, by rw [hall, List.append_nil], hstop⟩
  · intro c c' front h
    exact Nat.le_of_eq (take_eq_ok_iff.1 h).2.2.symm

theorem align {alignment : Nat} (h : alignment ∣ 8) : Local (Read.align alignment) 0 := by
  refine ⟨⟨.align alignment (.done ()), bind_pure _⟩, ?_, ?_, .align h⟩
  · intro position stop octets rest a h
    obtain ⟨front, hlength, hrest, hstop⟩ := align_eq_ok_iff.1 h
    have hall : octets = front := List.append_cancel_right hrest
    exact align_eq_ok_iff.2 ⟨front, hlength, by rw [hall, List.append_nil], hstop⟩
  · intro c c' a h
    obtain ⟨front, -, -, hstop⟩ := align_eq_ok_iff.1 h
    omega

/-- **Composition.** Local reads in a row are a local read, and what they take adds up. -/
theorem bind (h : r.Local m) (hk : ∀ a, (k a).Local n) : (r >>= k).Local (m + n) := by
  refine ⟨?_, ?_, ?_, h.periodic.bind fun a => (hk a).periodic⟩
  · obtain ⟨script, hscript⟩ := h.scripted
    choose scripts hscripts using fun a => (hk a).scripted
    refine ⟨script.bind scripts, ?_⟩
    rw [Script.run_bind, hscript, funext hscripts]
  · intro position stop octets rest b hrun
    obtain ⟨a, ⟨middle, after⟩, hr, hka⟩ := bind_eq_ok_iff.1 hrun
    obtain ⟨front, hfront, -⟩ := h.split hr
    obtain ⟨back, hback, -⟩ := (hk a).split hka
    dsimp only at hfront hback
    -- The second read takes the back part of the octets, so the first one took the front part.
    subst hback
    rw [← List.append_assoc] at hfront
    obtain rfl := List.append_cancel_right hfront
    rw [List.append_assoc] at hr
    have hfirst := h.append back (h.contained hr)
    exact bind_eq_ok_iff.2 ⟨a, _, hfirst, (hk a).contained hka⟩
  · intro c c'' b hrun
    obtain ⟨a, c', hr, hka⟩ := bind_eq_ok_iff.1 hrun
    have hfirst := h.takes hr
    have hsecond := (hk a).takes hka
    omega

/-- What is taken first is taken in any case. -/
theorem first (h : r.Local n) (hk : ∀ a, (k a).Local 0) : (r >>= k).Local n := h.bind hk

/-- A local read whose result is reshaped is local. -/
theorem map (h : r.Local n) (f : α → β) : (r >>= fun a => Pure.pure (f a)).Local n :=
  h.first fun a => pure (f a)

theorem times (h : r.Local n) (count : Nat) : (Read.times count r).Local (count * n) := by
  induction count with
  | zero =>
    rw [Nat.zero_mul]
    exact pure []
  | succ count ih =>
    rw [Nat.succ_mul, Nat.add_comm (count * n)]
    exact h.bind fun first => ih.map (first :: ·)

theorem each {read : α → Read β} {as : List α} (h : ∀ a ∈ as, (read a).Local 0) :
    (Read.each read as).Local 0 := by
  induction as with
  | nil => exact pure []
  | cons a as ih =>
    have hothers := ih fun b hb => h b (List.mem_cons_of_mem a hb)
    exact (h a List.mem_cons_self).bind fun first => hothers.map (first :: ·)

/-! ## Demands -/

/-- A demand for no more octets than are taken afterwards does not change what is given. -/
theorem demand (h : r.Local n) (hle : m ≤ n) : (require m >>= fun _ => r).Local n := by
  refine ⟨?_, ?_, ?_, (Periodic.require m).bind fun _ => h.periodic⟩
  · obtain ⟨script, rfl⟩ := h.scripted
    exact ⟨.require m script, rfl⟩
  · intro position stop octets rest a hrun
    obtain ⟨⟨⟩, c, hrequire, hr⟩ := bind_eq_ok_iff.1 hrun
    obtain ⟨-, rfl⟩ := require_eq_ok_iff.1 hrequire
    -- What the read takes is all of the octets, so the demand is met by these alone.
    obtain ⟨taken, htaken, hstop⟩ := h.split hr
    obtain rfl := List.append_cancel_right htaken
    have hroom : m ≤ octets.length := by
      have := h.takes hr
      dsimp only at this hstop
      omega
    exact bind_eq_ok_iff.2 ⟨(), _, require_of_le hroom, h.contained hr⟩
  · intro c c' a hrun
    obtain ⟨⟨⟩, c₁, hrequire, hr⟩ := bind_eq_ok_iff.1 hrun
    obtain ⟨-, rfl⟩ := require_eq_ok_iff.1 hrequire
    exact h.takes hr

end Local

end Read

open Read

/-! ## Numbers and characters -/

variable (s : Settings)

theorem local_word (width : Nat) (h : width ∣ 8 := by decide) : (word s width).Local width :=
  ((Local.align h).bind fun _ => (Local.take width).map _).mono (by omega)

theorem local_octet : octet.Local 1 := (Local.take 1).map _

theorem local_boolean : boolean.Local 1 := by
  refine local_octet.first fun v => ?_
  split
  · exact .pure _
  · exact .pure _
  · exact .throw _ _

theorem local_ulong : (ulong s).Local 4 := (local_word s 4).map _

theorem local_longlong : (longlong s).Local 8 := (local_word s 8).map _

theorem local_char : char.Local 1 := local_octet.map _

theorem local_wchar : (wchar s).Local s.wide.octets := by
  refine (local_word s _ s.wide.octets_dvd_eight).first fun unit => ?_
  dsimp only
  split
  · exact .pure _
  · exact .throw _ _

/-- Every scalar has at least one octet. -/
theorem local_scalar (kind : Scalar) : (scalar s kind).Local 1 := by
  have hwide : 1 ≤ s.wide.octets := by cases s.wide <;> decide
  cases kind with
  | octet => exact local_octet.map _
  | boolean => exact local_boolean.map _
  | short => exact ((local_word s 2).map _).mono (by decide)
  | ushort => exact ((local_word s 2).map _).mono (by decide)
  | long => exact ((local_word s 4).map _).mono (by decide)
  | ulong => exact ((local_ulong s).map _).mono (by decide)
  | longlong => exact ((local_longlong s).map _).mono (by decide)
  | ulonglong => exact ((local_word s 8).map _).mono (by decide)
  | float => exact ((local_word s 4).map _).mono (by decide)
  | double => exact ((local_word s 8).map _).mono (by decide)
  | char => exact local_char.map _
  | wchar => exact ((local_wchar s).map _).mono hwide

/-! ## Counted items -/

variable {s}

/-- A count that is held against the octets left is harmless where no item is empty. -/
theorem Read.Local.items {item : Read α} {k : List α → Read β} {n : Nat} (hitem : item.Local n)
    (hn : 1 ≤ n) (hk : ∀ as, (k as).Local 0) :
    (boundedCount s >>= fun count => Read.times count item >>= k).Local 4 := by
  rw [boundedCount_bind]
  refine (local_word s 4).first fun count => ?_
  have hroom : count ≤ count * n := Nat.le_mul_of_pos_right count hn
  exact (((hitem.times count).first hk).demand hroom).mono (Nat.zero_le _)

/-! ## Texts and runs of octets -/

variable (s)

theorem local_string : (string s).Local 4 := by
  refine (local_word s 4).first fun length => ?_
  split
  · exact .pure _
  · refine ((Local.take length).first fun content => ?_).mono (Nat.zero_le length)
    split
    · exact .pure _
    · exact .pure _
    · exact .throw _ _

theorem local_utf32 : (utf32 s).Local 4 := by
  refine (local_ulong s).first fun unit => ?_
  split
  · exact .pure _
  · exact .throw _ _

/-- A wide string takes all of the octets that its length announces, in units of either width. -/
theorem local_wstring : (wstring s).Local 4 := by
  refine (local_word s 4).first fun length => ?_
  cases s.wide with
  | two =>
    have hunits := ((local_word s 2).map UInt16.ofNat).times length
    refine ((hunits.first fun units => ?_).demand (Nat.le_refl _)).mono (Nat.zero_le _)
    split
    · exact .pure _
    · exact .throw _ _
  | four =>
    have hunits := ((local_utf32 s).times length).map String.ofList
    exact (hunits.demand (Nat.le_refl _)).mono (Nat.zero_le _)

theorem local_octetSequence : (octetSequence s).Local 4 :=
  (local_word s 4).first fun length => (Local.take length).mono (Nat.zero_le _)

/-! ## Reads at an offset of a message -/

/-- What a read started at an offset of a message gives, and the offset where it stops. -/
def Reader.readAt (message : List UInt8) (position : Nat) (action : Read α) :
    Except Fault (α × Nat) :=
  match (ofOctets message).seek position with
  | (.error f, _) => .error f
  | (.ok (), start) =>
    match start.run action with
    | (.error f, _) => .error f
    | (.ok a, stop) => .ok (a, stop.position)

theorem Reader.readAt_of_le {message : List UInt8} {position : Nat} (action : Read α)
    (h : position ≤ message.length) :
    readAt message position action =
      match action ⟨position, message.drop position⟩ with
      | .ok a stop => .ok (a, stop.position)
      | .error f _ => .error f := by
  have hinside : ¬(ofOctets message).message.length < position := Nat.not_lt.2 h
  rw [readAt, seek, if_neg hinside]
  simp only [run, ofOctets, Reader.position]
  cases action ⟨position, message.drop position⟩ with
  | ok a stop => rfl
  | error f stop => rfl

/-- A read at an offset succeeds exactly when the offset lies in the message and the read does from
    there. -/
theorem Reader.readAt_eq_ok_iff {message : List UInt8} {position stop : Nat} {action : Read α}
    {a : α} :
    readAt message position action = .ok (a, stop) ↔
      position ≤ message.length ∧
        ∃ back, action ⟨position, message.drop position⟩ = .ok a ⟨stop, back⟩ := by
  by_cases hinside : position ≤ message.length
  · rw [readAt_of_le action hinside]
    constructor
    · intro h
      refine ⟨hinside, ?_⟩
      cases hrun : action ⟨position, message.drop position⟩ with
      | ok b c =>
        rw [hrun] at h
        cases h
        exact ⟨c.rest, rfl⟩
      | error f c =>
        rw [hrun] at h
        cases h
    · rintro ⟨-, back, hrun⟩
      rw [hrun]
  · have houtside : (ofOctets message).message.length < position := Nat.not_le.1 hinside
    constructor
    · intro h
      rw [readAt, seek, if_pos houtside] at h
      cases h
    · rintro ⟨h, -⟩
      exact absurd h hinside

/-- Behind some content, a read starts at what comes after it. -/
theorem Reader.readAt_append (before rest : List UInt8) (action : Read α) :
    readAt (before ++ rest) before.length action =
      match action ⟨before.length, rest⟩ with
      | .ok a stop => .ok (a, stop.position)
      | .error f _ => .error f := by
  have hinside : before.length ≤ (before ++ rest).length := by
    rw [List.length_append]
    exact Nat.le_add_right ..
  rw [readAt_of_le action hinside, List.drop_left]

/-- Behind any content, and whatever follows, a piece is read back where it was written. -/
theorem Recovers.readAt {e : Emit} {r : Read α} {a : α} (h : Recovers e r a)
    {before written : List UInt8} (hw : e before.length = .ok written) (after : List UInt8) :
    Reader.readAt (before ++ written ++ after) before.length r
      = .ok (a, before.length + written.length) := by
  rw [List.append_assoc, Reader.readAt_append, h _ _ _ hw]

/-- Behind any content, and whatever follows, a refused piece is refused where it was written. -/
theorem Refuses.readAt {e : Emit} {r : Read α} {f : Fault} (h : Refuses e r f)
    {before written : List UInt8} (hw : e before.length = .ok written) (after : List UInt8) :
    Reader.readAt (before ++ written ++ after) before.length r = .error f := by
  obtain ⟨stop, hfault⟩ := h _ _ after hw
  rw [List.append_assoc, Reader.readAt_append, hfault]

theorem Reader.readAt_map (g : α → β) (r : Read α) (message : List UInt8)
    (position : Nat) :
    readAt message position (g <$> r)
      = (readAt message position r).map fun (a, stop) => (g a, stop) := by
  by_cases hinside : position ≤ message.length
  · rw [readAt_of_le r hinside, readAt_of_le (g <$> r) hinside]
    cases hrun : r ⟨position, message.drop position⟩ with
    | ok a stop => simp only [Read.map_of_ok g hrun, Except.map]
    | error f stop => simp only [Read.map_of_error g hrun, Except.map]
  · have houtside : (ofOctets message).message.length < position := Nat.not_le.1 hinside
    simp only [readAt, seek, if_pos houtside, Except.map]

namespace Read.Local

variable {r : Read α} {n : Nat} {message message' : List UInt8} {position stop : Nat} {a : α}

/-- A local read at an offset takes the octets up to where it stops, and needs no others. -/
theorem exists_taken (h : r.Local n) (hread : Reader.readAt message position r = .ok (a, stop)) :
    ∃ taken back, message.drop position = taken ++ back ∧ stop = position + taken.length ∧
      stop ≤ message.length ∧ r ⟨position, taken⟩ = .ok a ⟨stop, []⟩ := by
  obtain ⟨hinside, back, hrun⟩ := Reader.readAt_eq_ok_iff.1 hread
  obtain ⟨taken, htaken, hstop⟩ := h.split hrun
  dsimp only at htaken hstop
  have hlength := congrArg List.length htaken
  rw [List.length_drop, List.length_append] at hlength
  rw [htaken] at hrun
  exact ⟨taken, back, htaken, hstop, by omega, h.contained hrun⟩

/-- **Locality in a message.** A read gives the same at the same offset of every message that is
    long enough and agrees with the first on the octets read, except for padding. -/
theorem readAt_of_agree (h : r.Local n) {script : Script α} (hscript : script.run = r)
    (hread : Reader.readAt message position r = .ok (a, stop)) (hroom : stop ≤ message'.length)
    (hagree : ∀ i, position ≤ i → i < stop →
      i ∉ script.skipped ⟨position, message.drop position⟩ → message'[i]? = message[i]?) :
    Reader.readAt message' position r = .ok (a, stop) := by
  obtain ⟨taken, back, htaken, hstop, -, hrun⟩ := h.exists_taken hread
  subst hscript
  have hoff : Script.AgreeOff (script.skipped ⟨position, taken ++ back⟩) position taken
      ((message'.drop position).take taken.length) := by
    constructor
    · rw [List.length_take, List.length_drop]
      omega
    · intro i hi hoff
      rw [← htaken] at hoff
      have hsame := hagree (position + i) (by omega) (by omega) hoff
      rw [List.getElem?_take_of_lt hi, List.getElem?_drop, hsame, ← List.getElem?_drop, htaken,
        List.getElem?_append_left hi]
  have hrun' := Script.run_of_agreeOff back ((message'.drop position).drop taken.length) hrun hoff
  rw [List.take_append_drop] at hrun'
  exact Reader.readAt_eq_ok_iff.2 ⟨by omega, _, hrun'⟩

/-- **Truncation of a message.** A message that ends before the read does leaves it without
    octets. -/
theorem readAt_take (h : r.Local n) (hread : Reader.readAt message position r = .ok (a, stop))
    {k : Nat} (hstart : position ≤ k) (hshort : k < stop) :
    ∃ needed left,
      Reader.readAt (message.take k) position r = .error (.unexpectedEnd needed left) := by
  obtain ⟨taken, back, htaken, hstop, hinside, hrun⟩ := h.exists_taken hread
  obtain ⟨script, rfl⟩ := h.scripted
  have hcut : k - position < taken.length := by omega
  obtain ⟨needed, left, c, hrun'⟩ := Script.run_truncated hrun hcut
  refine ⟨needed, left, ?_⟩
  have hle : position ≤ (message.take k).length := by
    rw [List.length_take]
    omega
  have hrest : (message.take k).drop position = taken.take (k - position) := by
    rw [List.drop_take, htaken, List.take_append_of_le_length (Nat.le_of_lt hcut)]
  rw [Reader.readAt_of_le _ hle, hrest, hrun']

/-- **Offsets in a message.** A whole number of periods may be cut off the front of a message. The
    read from the offset that is left takes as many octets and gives the same, or fails alike. -/
theorem readAt_mod_eight (h : r.Local n) {offset : Nat} (hinside : offset ≤ message.length) :
    (∃ a taken, Reader.readAt message offset r = .ok (a, offset + taken) ∧
      Reader.readAt (message.drop (offset - offset % 8)) (offset % 8) r
        = .ok (a, offset % 8 + taken)) ∨
    ∃ f, Reader.readAt message offset r = .error f ∧
      Reader.readAt (message.drop (offset - offset % 8)) (offset % 8) r = .error f := by
  have hcut : offset - offset % 8 + offset % 8 = offset := Nat.sub_add_cancel (Nat.mod_le ..)
  have hinside' : offset % 8 ≤ (message.drop (offset - offset % 8)).length := by
    rw [List.length_drop]
    omega
  -- With or without the whole periods in front, the octets from the offset on are the same.
  have hstart : (⟨offset, message.drop offset⟩ : Cursor)
      = Cursor.later ⟨offset % 8, message.drop offset⟩ (8 * (offset / 8)) := by
    rw [Cursor.later, Nat.mod_add_div]
  rw [Reader.readAt_of_le r hinside, Reader.readAt_of_le r hinside', List.drop_drop, hcut, hstart,
    h.periodic.later]
  cases hrun : r ⟨offset % 8, message.drop offset⟩ with
  | ok a stop =>
    have htakes : offset % 8 + n ≤ stop.position := h.takes hrun
    have hlater : stop.position + 8 * (offset / 8) = offset + (stop.position - offset % 8) := by
      omega
    have hplain : stop.position = offset % 8 + (stop.position - offset % 8) := by omega
    refine .inl ⟨a, stop.position - offset % 8, ?_, ?_⟩
    · rw [← hlater]
      rfl
    · rw [← hplain]
  | error f stop => exact .inr ⟨f, rfl, rfl⟩

end Read.Local

end ObjectBroker
