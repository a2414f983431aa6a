import ObjectBroker.Proofs.Codec.RoundTrip
import ObjectBroker.Session.Message

/-!
# `ObjectBroker.Proofs.Session.RoundTrip` — requests and replies written and read back

A message is a preamble, a header and values. The values are read long after the header, from the
offset at which the header ended, and that offset depends on the texts in the header. They are
aligned right because the offset is the one they were written at.

A peer whose parameters are others never gets past the preamble.
-/

namespace ObjectBroker

/-! ## The preamble -/

@[simp] theorem WideWidth.ofOctets_octets (width : WideWidth) :
    WideWidth.ofOctets width.octets.toUInt8 = .ok width := by
  cases width <;> rfl

/-- Other parameters than the session's are told apart from every other fault. -/
theorem Settings.ensureMatches_of_ne {session peer : Settings} (h : peer ≠ session) :
    ∃ cause, session.ensureMatches peer = .error (.encodingMismatch cause) := by
  unfold ensureMatches
  by_cases horder : session.order = peer.order
  · by_cases hwide : session.wide = peer.wide
    · cases session
      cases peer
      simp_all
    · exact ⟨_, by rw [if_neg (not_not.2 horder), if_pos hwide]⟩
  · exact ⟨_, by rw [if_pos horder]⟩

namespace Message

/-- What follows the preamble of a message, and how the message is parsed: by its kind under the
    parameters it was written under, and not at all under others. -/
theorem parse_of_preamble {s : Settings} {kind : MessageKind} {e : Emit} {message : List UInt8}
    (h : (preamble s kind ++ e).message = .ok message) :
    ∃ front rest, front.length = 4 ∧ e 4 = .ok rest ∧ message = front ++ rest ∧
      parse s message = parseRest s message ⟨4, rest⟩ kind ∧
      ∀ s', s' ≠ s → ∃ cause, parse s' message = .error (.encodingMismatch cause) := by
  obtain ⟨front, rest, hfront, hrest, rfl⟩ := Emit.append_eq_ok_iff.1 h
  cases hfront
  refine ⟨_, rest, rfl, hrest, rfl, ?_, ?_⟩
  · have hmatch : s.ensureMatches ⟨s.order, s.wide⟩ = .ok () :=
      Settings.ensureMatches_eq_ok_iff.2 rfl
    simp only [parse, List.cons_append, List.nil_append, ByteOrder.ofFlag_flag,
      WideWidth.ofOctets_octets, MessageKind.ofId_id, bind, Except.bind, hmatch]
  · intro s' hs'
    have hpeer : (⟨s.order, s.wide⟩ : Settings) ≠ s' := Ne.symm hs'
    obtain ⟨cause, hcause⟩ := Settings.ensureMatches_of_ne hpeer
    refine ⟨cause, ?_⟩
    simp only [parse, List.cons_append, List.nil_append, ByteOrder.ofFlag_flag,
      WideWidth.ofOctets_octets, bind, Except.bind, hcause]

end Message

/-! ## Headers and values -/

theorem recovers_readRequest (s : Settings) (header : RequestHeader) :
    Recovers (.ulong s header.id ++ (.boolean header.responseExpected ++
        (.octetSequence s header.key ++ .string s header.operation)))
      (Message.readRequest s) header := by
  refine (recovers_ulong s header.id).bind ((recovers_boolean header.responseExpected).bind ?_)
  refine (recovers_octetSequence s header.key).bind ?_
  exact (recovers_string s header.operation).finish rfl

theorem recovers_readReply (s : Settings) (header : ReplyHeader) :
    Recovers (.ulong s header.id ++ .ulong s header.status.id) (Message.readReply s) header := by
  refine (recovers_ulong s header.id).bind ((recovers_ulong s header.status.id).finish ?_)
  rw [ReplyStatus.ofId_id]

namespace Codec

/-- What is written does not depend on the connection the codec is bound to. -/
theorem encode_boundTo (c : Codec) (id : ConnectionId) (levels : Nat) :
    (c.boundTo id).encode levels = c.encode levels := by
  induction levels with
  | zero => rfl
  | succ levels ih =>
    funext enclosing type value
    rw [encode, encode, ih]
    rfl

theorem values_boundTo (c : Codec) (id : ConnectionId) (xs : List Dynamic) :
    (c.boundTo id).values xs = c.values xs := by
  have hvalue : (c.boundTo id).value = c.value := by
    funext x
    rw [value, value, encode_boundTo, maxDepth_boundTo]
  rw [values, values, hvalue]

end Codec

/-- Values one after the other are recovered, each under its own type. -/
theorem recovers_values {c : Codec} {xs : List Dynamic} (hkept : c.aliases = .preserve)
    (hfit : ∀ x ∈ xs, x.type.ordinalsFit = true)
    (hcontents : ∀ x ∈ xs, x.payload.contentsFit c.maxDepth [] x.type = true) :
    Recovers (c.values xs) (Read.each c.readValue (xs.map (·.type)))
      (xs.map (·.receivedOver c.binding)) := by
  unfold Codec.values
  induction xs with
  | nil => exact Recovers.pure []
  | cons x xs ih =>
    rw [List.forall_mem_cons] at hfit hcontents
    have hfirst := recovers_value hkept hfit.1 hcontents.1
    have hothers := ih hfit.2 hcontents.2
    exact hfirst.bind (hothers.map (x.receivedOver c.binding :: ·))

/-! ## Whole messages -/

/-- The values of a message are read from the offset at which its header ended, whatever the length
    of the header. -/
theorem decode_of_values {c : Codec} {xs : List Dynamic} {front values : List UInt8}
    (hkept : c.aliases = .preserve) (hfit : ∀ x ∈ xs, x.type.ordinalsFit = true)
    (hcontents : ∀ x ∈ xs, x.payload.contentsFit c.maxDepth [] x.type = true)
    (hvalues : c.values xs front.length = .ok values) :
    (MessageBody.mk (front ++ values) front.length).decode c (xs.map (·.type))
      = .ok (xs.map (·.receivedOver c.binding)) := by
  have hread := recovers_values hkept hfit hcontents front.length values [] hvalues
  rw [List.append_nil] at hread
  unfold MessageBody.decode
  simp only [Reader.seek_append, bind, Except.bind, Reader.run, hread]

/-- What becomes of a message that carries values: under its own parameters it is recognised and
    its values are recovered by a codec bound to any connection, and under any others it is an
    encoding mismatch. -/
def Codec.Delivers (c : Codec) (xs : List Dynamic) (message : List UInt8)
    (recognised : MessageBody → Message) : Prop :=
  (∃ body, Message.parse c.settings message = .ok (recognised body) ∧
    ∀ id : ConnectionId, body.decode (c.boundTo id) (xs.map (·.type))
      = .ok (xs.map (·.receivedOver (some id)))) ∧
  ∀ s, s ≠ c.settings → ∃ cause, Message.parse s message = .error (.encodingMismatch cause)

/-- A message of a preamble, a header and values: how it is parsed, and where its values start. -/
theorem Message.parse_of_header {α : Type} {c : Codec} {xs : List Dynamic} {kind : MessageKind}
    {e : Emit} {read : Read α} {header : α} {recognised : MessageBody → Message}
    {message : List UInt8} (hheader : Recovers e read header)
    (hparse : ∀ content start stop, read start = .ok header stop →
      parseRest c.settings content start kind = .ok (recognised ⟨content, stop.position⟩))
    (hwritten : (preamble c.settings kind ++ (e ++ c.values xs)).message = .ok message) :
    ∃ front values, message = front ++ values ∧ c.values xs front.length = .ok values ∧
      parse c.settings message = .ok (recognised ⟨message, front.length⟩) ∧
      ∀ s, s ≠ c.settings → ∃ cause, parse s message = .error (.encodingMismatch cause) := by
  obtain ⟨front, rest, hfront, hrest, rfl, hown, hother⟩ := parse_of_preamble hwritten
  obtain ⟨head, values, hhead, hvalues, rfl⟩ := Emit.append_eq_ok_iff.1 hrest
  have hstop := hheader 4 head values hhead
  -- The values start where the reader of the header stopped: behind the preamble and the header.
  have hlength : 4 + head.length = (front ++ head).length := by
    rw [List.length_append, hfront]
  refine ⟨front ++ head, values, (List.append_assoc _ _ _).symm, hlength ▸ hvalues, ?_, hother⟩
  rw [← hlength]
  exact hown.trans (hparse _ _ _ hstop)

/-- A request as it is parsed under the parameters it was written under. -/
theorem Message.parse_of_request {c : Codec} {header : RequestHeader} {xs : List Dynamic}
    {message : List UInt8} (h : (c.request header xs).message = .ok message) :
    ∃ front values, message = front ++ values ∧ c.values xs front.length = .ok values ∧
      parse c.settings message = .ok (.request header ⟨message, front.length⟩) ∧
      ∀ s, s ≠ c.settings → ∃ cause, parse s message = .error (.encodingMismatch cause) := by
  simp only [Codec.request, Emit.append_assoc] at h
  refine parse_of_header (recovers_readRequest c.settings header) ?_
    (by simpa only [Emit.append_assoc] using h)
  intro content start stop hread
  simp only [parseRest, hread]

/-- A reply as it is parsed under the parameters it was written under. -/
theorem Message.parse_of_reply {c : Codec} {header : ReplyHeader} {xs : List Dynamic}
    {message : List UInt8} (h : (c.reply header xs).message = .ok message) :
    ∃ front values, message = front ++ values ∧ c.values xs front.length = .ok values ∧
      parse c.settings message = .ok (.reply header ⟨message, front.length⟩) ∧
      ∀ s, s ≠ c.settings → ∃ cause, parse s message = .error (.encodingMismatch cause) := by
  simp only [Codec.reply, Emit.append_assoc] at h
  refine parse_of_header (recovers_readReply c.settings header) ?_
    (by simpa only [Emit.append_assoc] using h)
  intro content start stop hread
  simp only [parseRest, hread]

/-- A message that is parsed with its values behind a header delivers them. -/
theorem delivers_of_parse {c : Codec} {xs : List Dynamic} {recognised : MessageBody → Message}
    {message : List UInt8} (hkept : c.aliases = .preserve)
    (hfit : ∀ x ∈ xs, x.type.ordinalsFit = true)
    (hcontents : ∀ x ∈ xs, x.payload.contentsFit c.maxDepth [] x.type = true)
    (hparse : ∃ front values, message = front ++ values ∧ c.values xs front.length = .ok values ∧
      Message.parse c.settings message = .ok (recognised ⟨message, front.length⟩) ∧
      ∀ s, s ≠ c.settings → ∃ cause, Message.parse s message = .error (.encodingMismatch cause)) :
    c.Delivers xs message recognised := by
  obtain ⟨front, values, rfl, hvalues, hown, hother⟩ := hparse
  refine ⟨⟨_, hown, ?_⟩, hother⟩
  intro id
  rw [← Codec.values_boundTo c id] at hvalues
  exact decode_of_values hkept hfit hcontents hvalues

/-- **Message round trip.** Where a codec that keeps `typedef` names writes a request or a reply, the
    message is recognised as that request or reply, with its header, by every peer with the same
    parameters. Its values are recovered as their receiver sees them, under any connection: each
    reference bound to it, except that nil is bound to none. A peer with other parameters gets an
    encoding mismatch. -/
theorem delivers_request_and_reply {c : Codec} {xs : List Dynamic} (hkept : c.aliases = .preserve)
    (hfit : ∀ x ∈ xs, x.type.ordinalsFit = true)
    (hcontents : ∀ x ∈ xs, x.payload.contentsFit c.maxDepth [] x.type = true) :
    (∀ header message, (c.request header xs).message = .ok message →
      c.Delivers xs message (.request header)) ∧
    ∀ header message, (c.reply header xs).message = .ok message →
      c.Delivers xs message (.reply header) := by
  constructor
  · intro header message hwritten
    exact delivers_of_parse hkept hfit hcontents (Message.parse_of_request hwritten)
  · intro header message hwritten
    exact delivers_of_parse hkept hfit hcontents (Message.parse_of_reply hwritten)

/-- A reference inside an `any`. -/
def carriedReference : Dynamic := ⟨.any, .any (.objectRef "S") (.objectRef ⟨"S", [5], none⟩)⟩

/-- The reference arrives as the argument of a request, and as the result of the reply to it. -/
theorem delivers_carriedReference :
    (({} : Codec).aliases = .preserve ∧
      (∀ x ∈ [carriedReference], x.type.ordinalsFit = true) ∧
      ∀ x ∈ [carriedReference], x.payload.contentsFit ({} : Codec).maxDepth [] x.type = true) ∧
    (∃ message, (({} : Codec).request ⟨1, true, [7], "op"⟩ [carriedReference]).message = .ok message ∧
      ({} : Codec).Delivers [carriedReference] message (.request ⟨1, true, [7], "op"⟩)) ∧
    ∃ message, (({} : Codec).reply ⟨1, .noException⟩ [carriedReference]).message = .ok message ∧
      ({} : Codec).Delivers [carriedReference] message (.reply ⟨1, .noException⟩) := by
  have hfit : ∀ x ∈ [carriedReference], x.type.ordinalsFit = true :=
    List.forall_mem_singleton.2 rfl
  have hcontents : ∀ x ∈ [carriedReference],
      x.payload.contentsFit ({} : Codec).maxDepth [] x.type = true :=
    List.forall_mem_singleton.2 rfl
  have hrequest : (({} : Codec).request ⟨1, true, [7], "op"⟩ [carriedReference]).message
      = .ok [1, 2, 0, 0, 1, 0, 0, 0, 1, 0, 0, 0, 1, 0, 0, 0, 7, 0, 0, 0, 3, 0, 0, 0, 111, 112, 0, 0,
          14, 0, 0, 0, 2, 0, 0, 0, 83, 0, 0, 0, 2, 0, 0, 0, 83, 0, 0, 0, 1, 0, 0, 0, 5] := by
    rfl
  have hreply : (({} : Codec).reply ⟨1, .noException⟩ [carriedReference]).message
      = .ok [1, 2, 1, 0, 1, 0, 0, 0, 0, 0, 0, 0,
          14, 0, 0, 0, 2, 0, 0, 0, 83, 0, 0, 0, 2, 0, 0, 0, 83, 0, 0, 0, 1, 0, 0, 0, 5] := by
    rfl
  have hkept : ({} : Codec).aliases = .preserve := rfl
  have h := delivers_request_and_reply hkept hfit hcontents
  exact ⟨⟨hkept, hfit, hcontents⟩, ⟨_, hrequest, h.1 _ _ hrequest⟩, ⟨_, hreply, h.2 _ _ hreply⟩⟩

/-- A nil reference that is bound to a connection. -/
def boundNil : Dynamic := ⟨.objectRef "S", .objectRef ⟨"", [], some ⟨5⟩⟩⟩

/-- Nil is read as bound to none, even if it was bound when it was sent. So the values of a message
    do not arrive with all but the references to objects left as they were. -/
theorem boundNil_arrives_unbound :
    (({} : Codec).aliases = .preserve ∧
      boundNil.payload.contentsFit ({} : Codec).maxDepth [] boundNil.type = true) ∧
    ∃ message body received,
      (({} : Codec).request ⟨1, true, [7], "op"⟩ [boundNil]).message = .ok message ∧
      Message.parse {} message = .ok (.request ⟨1, true, [7], "op"⟩ body) ∧
      body.decode (({} : Codec).boundTo ⟨4⟩) [boundNil.type] = .ok received ∧
      received ≠ [⟨boundNil.type, boundNil.payload.mapReferences fun r =>
        if r.isNil then r else r.reboundTo ⟨4⟩⟩] := by
  have hwritten : (({} : Codec).request ⟨1, true, [7], "op"⟩ [boundNil]).message
      = .ok [1, 2, 0, 0, 1, 0, 0, 0, 1, 0, 0, 0, 1, 0, 0, 0, 7, 0, 0, 0, 3, 0, 0, 0, 111, 112, 0, 0,
          1, 0, 0, 0, 0, 0, 0, 0, 0, 0, 0, 0] := by
    rfl
  refine ⟨⟨rfl, rfl⟩, _, ⟨_, 27⟩, [⟨.objectRef "S", .objectRef .nil⟩], hwritten, by rfl, by rfl, ?_⟩
  -- The nil sent was bound to a connection, and the nil received is bound to none.
  intro h
  injection h with h
  injection h with _ h
  injection h with h
  cases h

end ObjectBroker
