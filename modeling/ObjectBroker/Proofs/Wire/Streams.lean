import ObjectBroker.Proofs.Wire.Layout
import ObjectBroker.Proofs.Wire.Pieces

/-!
# `ObjectBroker.Proofs.Wire.Streams` — primitive values written in a run and read back

A run writes any values of any kinds to a message that already holds something. Some of the writes
fail; the run goes on. Padding makes the octets of a value depend on all that was written before it,
and so does the place it is read from. What carries the proof is that a reader that stands where a
value was written stops where the writer stopped: a write that fails moves neither of them, and a
write that succeeds moves both by the same octets.
-/

namespace ObjectBroker

/-! ## Runs of writes -/

/-- One write of a run: the value, how the write ended, and the message before and after it. -/
structure WriteCall where
  value : Primitive
  outcome : Except Fault Unit
  before : Writer
  after : Writer

/-- Whether the write has appended its value. -/
def WriteCall.succeeded (c : WriteCall) : Bool := c.outcome.isOk

namespace Writer

/-- The write of a value to a message. -/
def call (s : Settings) (w : Writer) (p : Primitive) : WriteCall :=
  let (outcome, after) := w.write s p
  { value := p, outcome := outcome, before := w, after := after }

/-- The writes of some values in order. A write that fails does not end the run. -/
def calls (s : Settings) (w : Writer) : List Primitive → List WriteCall
  | [] => []
  | p :: ps => w.call s p :: (w.call s p).after.calls s ps

/-- The message after the writes of some values. -/
def afterAll (s : Settings) (w : Writer) : List Primitive → Writer
  | [] => w
  | p :: ps => (w.call s p).after.afterAll s ps

/-- **One write.** Either the value can be written, and its numbers are appended in their places; or
    it cannot, and the message is as it was. -/
theorem call_cases (s : Settings) (w : Writer) (p : Primitive) :
    (p.Expressible s ∧ ∃ octets, p.emit s w.position = .ok octets ∧
      LaidOut s w.position (p.numbers s) octets ∧
      w.call s p = ⟨p, .ok (), w, ⟨w.content ++ octets⟩⟩) ∨
    (¬p.Expressible s ∧ ∃ f, w.call s p = ⟨p, .error f, w, w⟩) := by
  by_cases hp : p.Expressible s
  · obtain ⟨octets, hoctets, hplaces⟩ := exists_laidOut hp w.position
    refine .inl ⟨hp, octets, hoctets, hplaces, ?_⟩
    simp only [call, write_eq_put, put, hoctets]
  · obtain ⟨f, hf⟩ := exists_fault_of_not_expressible hp
    have hfault : p.emit s w.position = .error f := congrFun hf w.position
    refine .inr ⟨hp, f, ?_⟩
    simp only [call, write_eq_put, put, hfault]

/-- A run of writes only appends. -/
theorem exists_content_afterAll (s : Settings) (w : Writer) (ps : List Primitive) :
    ∃ more, (w.afterAll s ps).content = w.content ++ more := by
  induction ps generalizing w with
  | nil => exact ⟨[], (List.append_nil _).symm⟩
  | cons p ps ih =>
    rw [afterAll]
    rcases w.call_cases s p with ⟨-, octets, -, -, hcall⟩ | ⟨-, f, hcall⟩
    · obtain ⟨more, hmore⟩ := ih ⟨w.content ++ octets⟩
      rw [hcall, hmore]
      exact ⟨octets ++ more, List.append_assoc _ _ _⟩
    · rw [hcall]
      exact ih w

end Writer

/-! ## Runs of reads -/

namespace Reader

/-- The reader of a message that stands at an offset. -/
def atOffset (message : List UInt8) (position : Nat) : Reader :=
  ⟨message, ⟨position, message.drop position⟩⟩

/-- The reads of some kinds in order, each with what it gives and the reader after it. A read that
    fails does not end the run. -/
def reads (s : Settings) (r : Reader) : List PrimitiveKind → List (Except Fault Primitive × Reader)
  | [] => []
  | k :: ks => r.read s k :: (r.read s k).2.reads s ks

theorem atOffset_length (front back : List UInt8) :
    atOffset (front ++ back) front.length = ⟨front ++ back, ⟨front.length, back⟩⟩ := by
  rw [atOffset, List.drop_left]

/-- **One read.** A reader that stands where a piece was written gives the value of the piece, and
    stands where the writer stood after it. -/
theorem run_of_recovers {α : Type} {e : Emit} {r : Read α} {a : α} (h : Recovers e r a)
    {before written : List UInt8} (hw : e before.length = .ok written) (rest : List UInt8) :
    (atOffset (before ++ written ++ rest) before.length).run r
      = (.ok a, atOffset (before ++ written ++ rest) (before ++ written).length) := by
  have hread := h before.length written rest hw
  rw [atOffset_length (before ++ written), List.append_assoc, atOffset_length, run, hread,
    List.length_append]

end Reader

/-! ## What one write may do -/

/-- **A write in order.** -/
structure WriteCall.InOrder (s : Settings) (c : WriteCall) : Prop where
  /-- It succeeds exactly if each number of the value fits its width. -/
  succeeds_iff : c.outcome = .ok () ↔ c.value.Expressible s
  /-- If it fails, the message is as it was. -/
  unchanged : ∀ f, c.outcome = .error f → c.after = c.before
  /-- If it succeeds, the message has grown by the numbers of the value in their places. -/
  placed : c.outcome = .ok () → ∃ octets, c.after.content = c.before.content ++ octets ∧
    LaidOut s c.before.position (c.value.numbers s) octets

/-- Every single write is in order. -/
theorem inOrder_call (s : Settings) (w : Writer) (p : Primitive) : (w.call s p).InOrder s := by
  rcases w.call_cases s p with ⟨hp, octets, -, hplaces, hcall⟩ | ⟨hp, f, hcall⟩
  · rw [hcall]
    refine ⟨iff_of_true rfl hp, fun f hf => ?_, fun _ => ⟨octets, rfl, hplaces⟩⟩
    cases hf
  · rw [hcall]
    refine ⟨iff_of_false nofun hp, fun _ _ => rfl, fun hok => ?_⟩
    cases hok

/-- So is every write of a run. -/
theorem inOrder_of_mem_calls (s : Settings) (w : Writer) (ps : List Primitive) :
    ∀ c ∈ w.calls s ps, c.InOrder s := by
  induction ps generalizing w with
  | nil =>
    intro c hc
    cases hc
  | cons p ps ih =>
    intro c hc
    rcases List.mem_cons.1 hc with rfl | hc
    · exact inOrder_call s w p
    · exact ih _ c hc

/-! ## Reading back -/

/-- The kinds of what was written, read from where the first value was put, whatever follows the
    last. -/
theorem reads_of_calls (s : Settings) (w : Writer) (ps : List Primitive) (rest : List UInt8) :
    (Reader.atOffset ((w.afterAll s ps).content ++ rest) w.position).reads s
        (((w.calls s ps).filter (·.succeeded)).map (·.value.kind))
      = ((w.calls s ps).filter (·.succeeded)).map fun c =>
          (.ok c.value, .atOffset ((w.afterAll s ps).content ++ rest) c.after.position) := by
  induction ps generalizing w with
  | nil => rfl
  | cons p ps ih =>
    rw [Writer.calls, Writer.afterAll]
    rcases w.call_cases s p with ⟨-, octets, hoctets, -, hcall⟩ | ⟨-, f, hcall⟩
    · -- The value is read from where it was put, and the others from where it ends.
      rw [hcall]
      obtain ⟨more, hmore⟩ := Writer.exists_content_afterAll s ⟨w.content ++ octets⟩ ps
      have hmessage : ((Writer.mk (w.content ++ octets)).afterAll s ps).content ++ rest
          = w.content ++ octets ++ (more ++ rest) := by
        rw [hmore, List.append_assoc]
      have hothers := ih ⟨w.content ++ octets⟩
      have hfirst := Reader.run_of_recovers (recovers_primitive s p) hoctets (more ++ rest)
      rw [← hmessage] at hfirst
      show Reader.read s _ p.kind :: Reader.reads s (Reader.read s _ p.kind).2 _ = _
      rw [Reader.read, show w.position = w.content.length from rfl, hfirst]
      exact congrArg _ hothers
    · -- The writer has not moved, and nothing is read.
      rw [hcall]
      exact ih w

/-- **Round trip of a run.** Whatever a message holds, and whatever values are written to it in
    order, every write is in order: it fails and leaves the message as it was, or it puts each number
    of its value at a multiple of the number's width, behind fewer zeros than that. A reader placed
    where the run started, and asked for the kinds of the values that were written, gives these
    values, floating-point numbers by their bits; after each of them it stands where the writer
    stood, whatever follows the last. -/
theorem stream_roundTrip (s : Settings) (before rest : List UInt8) (values : List Primitive) :
    let calls := (Writer.mk before).calls s values
    let written := calls.filter (·.succeeded)
    let message := ((Writer.mk before).afterAll s values).content ++ rest
    (∀ c ∈ calls, c.InOrder s) ∧
    (Reader.ofOctets message).seek before.length = (.ok (), .atOffset message before.length) ∧
    (Reader.atOffset message before.length).reads s (written.map (·.value.kind)) =
      written.map fun c => (.ok c.value, .atOffset message c.after.position) := by
  refine ⟨inOrder_of_mem_calls s ⟨before⟩ values, ?_, reads_of_calls s ⟨before⟩ values rest⟩
  obtain ⟨more, hmore⟩ := Writer.exists_content_afterAll s ⟨before⟩ values
  rw [hmore, List.append_assoc, Reader.seek_append, Reader.atOffset_length]

/-- Values of many kinds. The second is no Latin-1 character, and the fourth is two code units of two
    octets. -/
def mixedValues : List Primitive :=
  [.scalar (.long (-2)), .scalar (.char 'Ā'), .string "hi", .scalar (.wchar '😀'), .wstring "😀",
    .scalar (.octet 7), .scalar (.double ⟨0x7FF8000000000001⟩)]

/-- What is left of these values behind one octet, most significant octet first. -/
def mixedOctets : List UInt8 :=
  [9, 0, 0, 0, 0xFF, 0xFF, 0xFF, 0xFE, 0, 0, 0, 3, 0x68, 0x69, 0, 0, 0, 0, 0, 2, 0xD8, 0x3D, 0xDE, 0,
    7, 0, 0, 0, 0, 0, 0, 0, 0x7F, 0xF8, 0, 0, 0, 0, 0, 1]

/-- A run with two writes that fail, read back with an octet more behind it. -/
theorem stream_roundTrip_mixed :
    (Writer.mk [9]).afterAll ⟨.bigEndian, .two⟩ mixedValues = ⟨mixedOctets⟩ ∧
    (∃ c ∈ (Writer.mk [9]).calls ⟨.bigEndian, .two⟩ mixedValues,
      c.value = .scalar (.wchar '😀') ∧ c.before.position = 15 ∧
      c.outcome = .error (.invalidData (.notSingleUnit '😀')) ∧ c.after = c.before) ∧
    (Reader.atOffset (mixedOctets ++ [5]) 1).reads ⟨.bigEndian, .two⟩
        [.scalar .long, .string, .wstring, .scalar .octet, .scalar .double] =
      [(.ok (.scalar (.long (-2))), .atOffset (mixedOctets ++ [5]) 8),
        (.ok (.string "hi"), .atOffset (mixedOctets ++ [5]) 15),
        (.ok (.wstring "😀"), .atOffset (mixedOctets ++ [5]) 24),
        (.ok (.scalar (.octet 7)), .atOffset (mixedOctets ++ [5]) 25),
        (.ok (.scalar (.double ⟨0x7FF8000000000001⟩)), .atOffset (mixedOctets ++ [5]) 40)] := by
  obtain ⟨horder, -, hreads⟩ := stream_roundTrip ⟨.bigEndian, .two⟩ [9] [5] mixedValues
  have hfourth : (Writer.mk (mixedOctets.take 15)).call _ (.scalar (.wchar '😀')) ∈
      (Writer.mk [9]).calls ⟨.bigEndian, .two⟩ mixedValues :=
    .tail _ (.tail _ (.tail _ (.head _)))
  exact ⟨rfl, ⟨_, hfourth, rfl, rfl, rfl, (horder _ hfourth).unchanged _ rfl⟩, hreads⟩

end ObjectBroker
