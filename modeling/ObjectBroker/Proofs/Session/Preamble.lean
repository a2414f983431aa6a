import ObjectBroker.Proofs.Session.RoundTrip
import ObjectBroker.Proofs.Wire.Faults

/-!
# `ObjectBroker.Proofs.Session.Preamble` — messages that end a connection

Two kinds of message end the connection they arrive on. One is sent to that end, and says so in the
third octet. The other was written under other parameters, which shows in the first two, and nothing
that follows them can be trusted. Every other fault is about one message and leaves the connection
as it was: the message is too short for a preamble, of no known kind, or has a header that cannot be
read. Whether a message ends a connection is thus decided by its length and by three octets.
-/

namespace ObjectBroker

namespace Message

/-- The message is long enough to have a preamble, and the preamble has other parameters. -/
def Foreign (s : Settings) (message : List UInt8) : Prop :=
  4 ≤ message.length ∧
    (message[0]? ≠ some s.order.flag ∨ message[1]? ≠ some s.wide.octets.toUInt8)

/-- The message is long enough to have a preamble, and the preamble has these parameters and
    announces the end. -/
def AnnouncesEnd (s : Settings) (message : List UInt8) : Prop :=
  4 ≤ message.length ∧ message[0]? = some s.order.flag ∧
    message[1]? = some s.wide.octets.toUInt8 ∧ message[2]? = some MessageKind.closing.id

end Message

/-! ## Single octets -/

theorem ByteOrder.ofFlag_cases (flag : UInt8) :
    (∃ order : ByteOrder, ofFlag flag = .ok order ∧ flag = order.flag) ∨
      ∃ cause, ofFlag flag = .error (.encodingMismatch cause) := by
  unfold ofFlag
  split
  · exact .inl ⟨.bigEndian, rfl, rfl⟩
  · exact .inl ⟨.littleEndian, rfl, rfl⟩
  · exact .inr ⟨_, rfl⟩

theorem WideWidth.ofOctets_cases (width : UInt8) :
    (∃ wide : WideWidth, ofOctets width = .ok wide ∧ width = wide.octets.toUInt8) ∨
      ∃ cause, ofOctets width = .error (.encodingMismatch cause) := by
  unfold ofOctets
  split
  · exact .inl ⟨.two, rfl, rfl⟩
  · exact .inl ⟨.four, rfl, rfl⟩
  · exact .inr ⟨_, rfl⟩

theorem MessageKind.ofId_cases (id : UInt8) :
    (∃ kind : MessageKind, ofId id = .ok kind ∧ id = kind.id) ∨
      ∃ f : Fault, f.IsContent ∧ ofId id = .error f ∧ ∀ kind : MessageKind, id ≠ kind.id := by
  unfold ofId
  split
  · exact .inl ⟨.request, rfl, rfl⟩
  · exact .inl ⟨.reply, rfl, rfl⟩
  · exact .inl ⟨.closing, rfl, rfl⟩
  · rename_i hrequest hreply hclosing
    refine .inr ⟨_, .inr ⟨_, rfl⟩, rfl, fun kind => ?_⟩
    cases kind
    · exact hrequest
    · exact hreply
    · exact hclosing

theorem MessageKind.id_injective {a b : MessageKind} (h : a.id = b.id) : a = b := by
  cases a <;> cases b <;> first | rfl | cases h

namespace Message

/-! ## Headers -/

theorem failsWith_readRequest (s : Settings) : (readRequest s).FailsWith Fault.IsContent :=
  ((Read.FailsWith.word s 4).map _).bind fun _ => Read.FailsWith.boolean.bind fun _ =>
    (Read.FailsWith.octetSequence s).bind fun _ => (Read.FailsWith.string s).map _

theorem failsWith_readReply (s : Settings) : (readReply s).FailsWith Fault.IsContent := by
  refine ((Read.FailsWith.word s 4).map _).bind fun _ =>
    ((Read.FailsWith.word s 4).map _).bind fun status => ?_
  cases hstatus : ReplyStatus.ofId status with
  | ok status => exact Read.FailsWith.pure _
  | error f =>
    refine Read.FailsWith.throw ?_
    unfold ReplyStatus.ofId at hstatus
    split at hstatus
    · cases hstatus
    · cases hstatus
    · cases hstatus
    · cases hstatus
      exact .inr ⟨_, rfl⟩

/-- Behind the preamble, a message is of its kind or fails for its content. -/
theorem parseRest_cases (s : Settings) (message : List UInt8) (c : Cursor) (kind : MessageKind) :
    (∃ f : Fault, f.IsContent ∧ parseRest s message c kind = .error f ∧ kind ≠ .closing) ∨
      ∃ m, parseRest s message c kind = .ok m ∧ (m = .closing ↔ kind = .closing) := by
  unfold parseRest
  cases kind with
  | request =>
    cases hread : readRequest s c with
    | ok header c' => exact .inr ⟨_, rfl, by simp⟩
    | error f c' => exact .inl ⟨f, failsWith_readRequest s _ _ _ hread, rfl, by simp⟩
  | reply =>
    cases hread : readReply s c with
    | ok header c' => exact .inr ⟨_, rfl, by simp⟩
    | error f c' => exact .inl ⟨f, failsWith_readReply s _ _ _ hread, rfl, by simp⟩
  | closing => exact .inr ⟨_, rfl, by simp⟩

/-! ## Whole messages -/

theorem exists_preamble {message : List UInt8} (h : 4 ≤ message.length) :
    ∃ flag width kind last rest, message = flag :: width :: kind :: last :: rest := by
  match message with
  | flag :: width :: kind :: last :: rest => exact ⟨flag, width, kind, last, rest, rfl⟩

theorem parse_of_short (s : Settings) {message : List UInt8} (h : message.length < 4) :
    parse s message = .error (.unexpectedEnd 4 message.length) := by
  match message with
  | [] => rfl
  | [_] => rfl
  | [_, _] => rfl
  | [_, _, _] => rfl
  | _ :: _ :: _ :: _ :: rest =>
    simp only [List.length_cons] at h
    omega

/-- Under the parameters of the session only the kind and what follows it are left to decide. -/
theorem parse_of_same (s : Settings) (kind last : UInt8) (rest : List UInt8) :
    parse s (s.order.flag :: s.wide.octets.toUInt8 :: kind :: last :: rest) =
      (MessageKind.ofId kind).bind
        (parseRest s (s.order.flag :: s.wide.octets.toUInt8 :: kind :: last :: rest) ⟨4, rest⟩) := by
  have hmatch : s.ensureMatches ⟨s.order, s.wide⟩ = .ok () :=
    Settings.ensureMatches_eq_ok_iff.2 rfl
  simp only [parse, ByteOrder.ofFlag_flag, WideWidth.ofOctets_octets, bind, Except.bind, hmatch]

/-- Each of the checks before the kind can only find that the parameters are others. -/
theorem parse_of_other (s : Settings) {flag width : UInt8} (kind last : UInt8) (rest : List UInt8)
    (h : flag ≠ s.order.flag ∨ width ≠ s.wide.octets.toUInt8) :
    ∃ cause, parse s (flag :: width :: kind :: last :: rest) = .error (.encodingMismatch cause) := by
  simp only [parse, bind, Except.bind]
  -- Either octet may be no parameter at all. If both are, they are not those of the session.
  rcases ByteOrder.ofFlag_cases flag with ⟨order, horder, rfl⟩ | ⟨cause, horder⟩
  · rcases WideWidth.ofOctets_cases width with ⟨wide, hwide, rfl⟩ | ⟨cause, hwide⟩
    · have hpeer : (⟨order, wide⟩ : Settings) ≠ s := by
        rintro rfl
        rcases h with h | h
        · exact h rfl
        · exact h rfl
      obtain ⟨cause, hcause⟩ := Settings.ensureMatches_of_ne hpeer
      simp only [horder, hwide, hcause]
      exact ⟨cause, rfl⟩
    · simp only [horder, hwide]
      exact ⟨cause, rfl⟩
  · simp only [horder]
    exact ⟨cause, rfl⟩

/-- **One message, three fates.** A message under other parameters is told apart by its first two
    octets. One under the parameters of the session announces the end, or is a request or a reply,
    or fails for its content. -/
theorem parse_cases (s : Settings) (message : List UInt8) :
    (Foreign s message ∧ ∃ cause, parse s message = .error (.encodingMismatch cause)) ∨
      ¬Foreign s message ∧
        ((∃ f : Fault, f.IsContent ∧ parse s message = .error f ∧ ¬AnnouncesEnd s message) ∨
          ∃ m, parse s message = .ok m ∧ (m = .closing ↔ AnnouncesEnd s message)) := by
  by_cases hlong : 4 ≤ message.length
  · obtain ⟨flag, width, kind, last, rest, rfl⟩ := exists_preamble hlong
    by_cases hother : flag ≠ s.order.flag ∨ width ≠ s.wide.octets.toUInt8
    · refine .inl ⟨⟨hlong, by simpa using hother⟩, parse_of_other s kind last rest hother⟩
    · obtain ⟨rfl, rfl⟩ : flag = s.order.flag ∧ width = s.wide.octets.toUInt8 := by
        simpa [not_or] using hother
      refine .inr ⟨fun hforeign => ?_, ?_⟩
      · simpa using hforeign.2
      · rw [parse_of_same]
        have hend : AnnouncesEnd s (s.order.flag :: s.wide.octets.toUInt8 :: kind :: last :: rest) ↔
            kind = MessageKind.closing.id := by
          simp [AnnouncesEnd]
        rw [hend]
        -- The parameters agree, so what is left is the kind, and then the header.
        rcases MessageKind.ofId_cases kind with ⟨k, hkind, rfl⟩ | ⟨f, hcontent, hkind, hunknown⟩
        · rw [hkind]
          have hclosing : k.id = MessageKind.closing.id ↔ k = .closing :=
            ⟨MessageKind.id_injective, fun h => h ▸ rfl⟩
          rw [hclosing]
          rcases parseRest_cases s _ ⟨4, rest⟩ k with ⟨f, hcontent, hparse, hk⟩ | ⟨m, hparse, hk⟩
          · exact .inl ⟨f, hcontent, hparse, hk⟩
          · exact .inr ⟨m, hparse, hk⟩
        · rw [hkind]
          exact .inl ⟨f, hcontent, rfl, hunknown .closing⟩
  · -- A short message has no parameters to differ in.
    have hshort := parse_of_short s (Nat.lt_of_not_le hlong)
    exact .inr ⟨fun h => hlong h.1, .inl ⟨_, .inl ⟨_, _, rfl⟩, hshort, fun h => hlong h.1⟩⟩

/-- Exactly the messages under other parameters are refused for their parameters. -/
theorem parse_mismatch_iff (s : Settings) (message : List UInt8) :
    (∃ cause, parse s message = .error (.encodingMismatch cause)) ↔ Foreign s message := by
  rcases parse_cases s message with ⟨hforeign, hparse⟩ | ⟨hforeign, hrest⟩
  · exact ⟨fun _ => hforeign, fun _ => hparse⟩
  · refine ⟨fun ⟨cause, hcause⟩ => ?_, fun h => absurd h hforeign⟩
    rcases hrest with ⟨f, hcontent, hparse, -⟩ | ⟨m, hparse, -⟩
    · rw [hcause] at hparse
      cases hparse
      rcases hcontent with ⟨needed, left, h⟩ | ⟨datum, h⟩
      · cases h
      · cases h
    · rw [hcause] at hparse
      cases hparse

/-- Exactly the messages that announce the end are parsed as such. -/
theorem parse_closing_iff (s : Settings) (message : List UInt8) :
    parse s message = .ok .closing ↔ AnnouncesEnd s message := by
  rcases parse_cases s message with ⟨hforeign, cause, hparse⟩ | ⟨-, hrest⟩
  · rw [hparse]
    refine ⟨fun h => (by cases h), fun hend => ?_⟩
    rcases hforeign.2 with h | h
    · exact absurd hend.2.1 h
    · exact absurd hend.2.2.1 h
  · rcases hrest with ⟨f, -, hparse, hend⟩ | ⟨m, hparse, hm⟩
    · rw [hparse]
      exact ⟨fun h => (by cases h), fun h => absurd h hend⟩
    · rw [hparse, ← hm, Except.ok.injEq]

end Message

end ObjectBroker
