import ObjectBroker.Proofs.Session.Correlation
import ObjectBroker.Proofs.Session.Preamble

/-!
# `ObjectBroker.Proofs.Session.Conversation` — two ends of one connection

Seen from one end, a reply is a message with the number of a request in it. That it answers that
request can only be said with both ends in view: the other end must have received the request, and
must have been asked to reply to it with just this status and these results.

A `Conversation` is both ends and what is under way between them. Every message that an end hands to
the connection may arrive at the other end once, at any later time and in any order, or never. Each
end makes requests whenever it likes, also while it is about to answer one, and does anything else
that can be done on a connection. The one thing it does not do is reply to what it was not asked.

The proof follows a message from where it is written to what it causes. What an end has taken in,
the other end has said; what it replies to, it has taken in. So a reply leads back to a request, and
the request to the call that waits.

## Contents
- `Said`, `Router.utters?`: what an end says, and `Said.parse_message`: what the other end makes of it.
- `Peer`, `Conversation`, `Event`, `Conversation.step`, `Conversation.run`.
- `Peer.Sound`, `Peer.Heard`: the invariant, of one end and between both, with
  `Peer.Wrote.parse`, `Peer.Meant.of_request` and `Peer.Meant.of_reply`.
- `Conversation.sound_step`, `Conversation.sound_run`.
- `Conversation.EndToEnd`, `end_to_end`: the main result.
-/

namespace ObjectBroker

/-- The other end of a connection. -/
def Role.other : Role → Role
  | .initiator => .acceptor
  | .acceptor => .initiator

@[simp] theorem Role.other_other (side : Role) : side.other.other = side := by
  cases side <;> rfl

theorem Role.other_ne (side : Role) : side.other ≠ side := by
  cases side <;> exact Role.noConfusion

/-- Of the two ends, what is not the one is the other. -/
theorem Role.eq_other_of_ne {side role : Role} (h : role ≠ side) : role = side.other := by
  cases side <;> cases role <;> first | rfl | exact absurd rfl h

/-! ## What is said -/

/-- Something that one end says to the other. -/
inductive Said where
  | request (id : UInt32) (reference : ObjectRef) (operation : String) (arguments : List Dynamic)
  | reply (id : UInt32) (status : ReplyStatus) (results : List Dynamic)
  | closing

namespace Said

/-- The number of the request that is made. -/
def number? : Said → Option UInt32
  | .request id _ _ _ => some id
  | .reply _ _ _ | .closing => none

/-- The message it is said in. -/
def message (c : Codec) : Said → Except Fault (List UInt8)
  | .request id reference operation arguments =>
    (c.request ⟨id, true, reference.key, operation⟩ arguments).message
  | .reply id status results => (c.reply ⟨id, status⟩ results).message
  | .closing => .ok (Codec.closing c.settings)

/-- The values that go with it. -/
def values : Said → List Dynamic
  | .request _ _ _ arguments => arguments
  | .reply _ _ results => results
  | .closing => []

/-- It as it is received, with a body that has the values in it. -/
def received (body : MessageBody) : Said → Message
  | .request id reference operation _ => .request ⟨id, true, reference.key, operation⟩ body
  | .reply id status _ => .reply ⟨id, status⟩ body
  | .closing => .closing

end Said

/-- From the place on where its values start, the body is what a codec writes for the values there,
    and nothing else. -/
def MessageBody.Carries (body : MessageBody) (c : Codec) (xs : List Dynamic) : Prop :=
  ∃ front bytes, body = ⟨front ++ bytes, front.length⟩ ∧ c.values xs front.length = .ok bytes

/-- The connection a codec is bound to does not show in what is said. -/
theorem Said.message_boundTo (x : Said) (c : Codec) (id : ConnectionId) :
    x.message (c.boundTo id) = x.message c := by
  cases x with
  | request number reference operation arguments =>
    simp only [message, Codec.request, Codec.values_boundTo]
    rfl
  | reply number status results =>
    simp only [message, Codec.reply, Codec.values_boundTo]
    rfl
  | closing => rfl

/-- What is said is understood by who has the same parameters. -/
theorem Said.parse_message {x : Said} {c : Codec} {message : List UInt8}
    (h : x.message c = .ok message) :
    ∃ body : MessageBody, Message.parse c.settings message = .ok (x.received body) ∧
      body.Carries c x.values := by
  cases x with
  | request id reference operation arguments =>
    obtain ⟨front, bytes, rfl, hbytes, hparse, -⟩ := Message.parse_of_request h
    exact ⟨_, hparse, front, bytes, rfl, hbytes⟩
  | reply id status results =>
    obtain ⟨front, bytes, rfl, hbytes, hparse, -⟩ := Message.parse_of_reply h
    exact ⟨_, hparse, front, bytes, rfl, hbytes⟩
  | closing =>
    cases h
    refine ⟨⟨[] ++ [], 0⟩, ?_, [], [], rfl, rfl⟩
    rw [Said.received, Message.parse_closing_iff]
    exact ⟨Nat.le_refl 4, rfl, rfl, rfl⟩

namespace Router

/-- What an operation says to the other end. -/
def utters? (r : Router) : Operation → Option Said
  | .send reference operation arguments =>
    match (r.request reference operation arguments).1 with
    | .ok (id, _) => some (.request id reference operation arguments)
    | .error _ => none
  | .reply id status results =>
    match r.replyMessage id status results with
    | .ok _ => some (.reply id status results)
    | .error _ => none
  | .close => if r.isClosed then none else some .closing
  | .sent _ | .sendFailed _ | .handle _ | .unregister _ | .collect _ | .drop _
  | .decodeArguments _ _ | .decodeResults _ _ => none

/-- The message made of a request is one with its number, its target and its arguments. -/
theorem message_of_request {r : Router} {reference : ObjectRef} {operation : String}
    {arguments : List Dynamic} {id : UInt32} {message : List UInt8}
    (h : (r.request reference operation arguments).1 = .ok (id, message)) :
    (Said.request id reference operation arguments).message r.codec = .ok message := by
  unfold request at h
  split at h
  · cases h
  · split at h
    · cases h
    · split at h
      · rename_i hwritten
        cases h
        exact hwritten
      · cases h

/-- Every message that an operation hands over says something. -/
theorem utters_of_handedOver {r : Router} {op : Operation} {message : List UInt8}
    (h : r.handedOver? op = some message) :
    ∃ x, r.utters? op = some x ∧ x.message r.codec = .ok message := by
  cases op with
  | send reference operation arguments =>
    simp only [handedOver?] at h
    cases hrequest : (r.request reference operation arguments).1 with
    | error f =>
      rw [hrequest] at h
      cases h
    | ok numbered =>
      obtain ⟨id, written⟩ := numbered
      rw [hrequest] at h
      cases h
      exact ⟨_, by simp only [utters?, hrequest], message_of_request hrequest⟩
  | reply id status results =>
    simp only [handedOver?] at h
    cases hreply : r.replyMessage id status results with
    | error f =>
      rw [hreply] at h
      cases h
    | ok written =>
      rw [hreply] at h
      cases h
      refine ⟨.reply id status results, by simp only [utters?, hreply], ?_⟩
      unfold replyMessage at hreply
      split at hreply
      · cases hreply
      · exact hreply
  | close =>
    simp only [handedOver?, close] at h
    split at h
    · cases h
    · rename_i hopen
      cases h
      exact ⟨.closing, if_neg hopen, rfl⟩
  | _ => cases h

/-- A request is handed out as it was parsed. -/
theorem parse_of_handle {r : Router} {message : List UInt8} {request : IncomingRequest}
    (h : (r.handle message).1 = .ok (some request)) :
    Message.parse r.codec.settings message = .ok (.request request.header request.body) := by
  unfold handle at h
  split at h
  · cases h
  · split at h
    · cases h
    · cases h
    · rename_i hparse
      cases h
      exact hparse
    · cases h
    · cases h

end Router

/-- The number of what is said is handed out then. -/
theorem Session.issued_utters (σ : Session) (op : Operation) :
    (σ.issued ++ ((σ.router.utters? op).bind Said.number?).toList).Sublist (σ.step op).issued := by
  have hprefix := (σ.issued_prefix_step op).sublist
  cases op with
  | send reference operation arguments =>
    rcases σ.router.request_cases reference operation arguments with
      ⟨-, f, hrequest⟩ | ⟨id, ids, hnumber, -, -, ⟨message, hrequest⟩ | ⟨f, hrequest⟩⟩
    · simpa [Router.utters?, hrequest] using hprefix
    · simp [Router.utters?, hrequest, step, perform, observe, hnumber, Said.number?]
    · simpa [Router.utters?, hrequest] using hprefix
  | reply id status results =>
    simp only [Router.utters?]
    split <;> simpa [Said.number?] using hprefix
  | close =>
    simp only [Router.utters?]
    split <;> simpa [Said.number?] using hprefix
  | _ => simpa [Router.utters?] using hprefix

/-! ## Conversations -/

/-- One end of a connection, with what it has said, the requests it has received, and the messages
    it has handed over that have not arrived. -/
structure Peer where
  session : Session
  said : List Said := []
  received : List IncomingRequest := []
  outbox : List (List UInt8) := []

namespace Peer

/-- One end of a new connection. -/
def start (connection : ConnectionId) (role : Role) (codec : Codec) : Peer :=
  { session := .start connection role codec }

/-- What an end may do by itself. Messages come from the other end only, and a reply is given to a
    request that was received. -/
def mayDo (p : Peer) : Operation → Bool
  | .handle _ => false
  | .reply id _ _ => p.received.any (·.header.id == id)
  | .send _ _ _ | .sent _ | .sendFailed _ | .unregister _ | .collect _ | .drop _
  | .decodeArguments _ _ | .decodeResults _ _ | .close => true

/-- An end does something by itself. -/
def act (p : Peer) (op : Operation) : Peer :=
  { p with
    session := p.session.step op
    said := p.said ++ (p.session.router.utters? op).toList
    outbox := p.outbox ++ (p.session.router.handedOver? op).toList }

/-- The request that a message turns out to be. -/
def requestIn? (p : Peer) (message : List UInt8) : Option IncomingRequest :=
  (p.session.router.handle message).1.toOption.join

/-- A message arrives at an end. -/
def take (p : Peer) (message : List UInt8) : Peer :=
  { p with
    session := p.session.step (.handle message)
    received := p.received ++ (p.requestIn? message).toList }

/-- One of the messages under way is under way no longer. -/
def release (p : Peer) (n : Nat) : Peer := { p with outbox := p.outbox.eraseIdx n }

end Peer

/-- Both ends of a connection. -/
structure Conversation where
  peer : Role → Peer

/-- What can happen in a conversation. -/
inductive Event where
  | act (side : Role) (op : Operation)
  /-- A message arrives that the other end has handed over, whichever of them. -/
  | arrive (side : Role) (n : Nat)

namespace Conversation

/-- A new connection, with the number and the codec that it has at each end. -/
def start (connection : Role → ConnectionId) (codec : Role → Codec) : Conversation :=
  ⟨fun side => .start (connection side) side (codec side)⟩

/-- One end at a later time, and the other as it was. -/
def set (w : Conversation) (side : Role) (p : Peer) : Conversation :=
  ⟨fun role => if role = side then p else w.peer role⟩

/-- One event; what may not happen does not. -/
def step (w : Conversation) : Event → Conversation
  | .act side op =>
    if (w.peer side).mayDo op then w.set side ((w.peer side).act op) else w
  | .arrive side n =>
    match (w.peer side.other).outbox[n]? with
    | some message =>
      (w.set side ((w.peer side).take message)).set side.other ((w.peer side.other).release n)
    | none => w

/-- Events one after the other. -/
def run (w : Conversation) (events : List Event) : Conversation := events.foldl step w

@[simp] theorem peer_set_self (w : Conversation) (side : Role) (p : Peer) :
    (w.set side p).peer side = p :=
  if_pos rfl

theorem peer_set_of_ne (w : Conversation) {side role : Role} (p : Peer) (h : role ≠ side) :
    (w.set side p).peer role = w.peer role :=
  if_neg h

end Conversation

/-! ## The invariant -/

namespace Peer

/-- A message in which an end has said something. -/
def Wrote (c : Codec) (p : Peer) (message : List UInt8) : Prop :=
  ∃ x ∈ p.said, x.message c = .ok message

/-- A message as the other end understands what an end has said. -/
def Meant (c : Codec) (p : Peer) (m : Message) : Prop :=
  ∃ x ∈ p.said, ∃ body : MessageBody, m = x.received body ∧ body.Carries c x.values

/-- What holds of one end for itself. -/
structure Sound (connection : ConnectionId) (c : Codec) (role : Role) (p : Peer) : Prop where
  tracked : p.session.Tracked connection c.settings role
  codec_eq : p.session.router.codec = c.boundTo connection
  /-- Requests are made under numbers that were handed out, each under its own. -/
  numbers : (p.said.filterMap Said.number?).Sublist p.session.issued
  /-- What is under way was said. -/
  outbox : ∀ message ∈ p.outbox, p.Wrote c message
  /-- What is replied to was received. -/
  asked : ∀ id status results, .reply id status results ∈ p.said →
    ∃ request ∈ p.received, request.header.id = id

/-- What an end has taken in was said by the other end. -/
structure Heard (c : Codec) (p other : Peer) : Prop where
  received : ∀ request ∈ p.received, other.Meant c (.request request.header request.body)
  histories : ∀ t ∈ p.session.tickets, ∀ message, .handle message ∈ t.since →
    other.Wrote c message

variable {connection : ConnectionId} {c : Codec} {role : Role} {p p' other other' : Peer}

theorem Wrote.mono {message : List UInt8} (h : p.Wrote c message) (hsaid : p.said ⊆ p'.said) :
    p'.Wrote c message := by
  obtain ⟨x, hx, hmessage⟩ := h
  exact ⟨x, hsaid hx, hmessage⟩

theorem Meant.mono {m : Message} (h : p.Meant c m) (hsaid : p.said ⊆ p'.said) :
    p'.Meant c m := by
  obtain ⟨x, hx, hmeant⟩ := h
  exact ⟨x, hsaid hx, hmeant⟩

/-- What is written is understood. -/
theorem Wrote.parse {message : List UInt8} (h : p.Wrote c message) :
    ∃ m, Message.parse c.settings message = .ok m ∧ p.Meant c m := by
  obtain ⟨x, hx, hmessage⟩ := h
  obtain ⟨body, hparse, hcarries⟩ := Said.parse_message hmessage
  exact ⟨_, hparse, x, hx, body, rfl, hcarries⟩

/-- A request that an end has meant is one that it has made. -/
theorem Meant.of_request {header : RequestHeader} {body : MessageBody}
    (h : p.Meant c (.request header body)) :
    ∃ reference operation arguments, .request header.id reference operation arguments ∈ p.said ∧
      header = ⟨header.id, true, reference.key, operation⟩ ∧ body.Carries c arguments := by
  obtain ⟨x, hx, body', hmeant, hcarries⟩ := h
  cases x with
  | request id reference operation arguments =>
    cases hmeant
    exact ⟨reference, operation, arguments, hx, rfl, hcarries⟩
  | reply id status results => cases hmeant
  | closing => cases hmeant

/-- A reply that an end has meant is one that it has given. -/
theorem Meant.of_reply {header : ReplyHeader} {body : MessageBody}
    (h : p.Meant c (.reply header body)) :
    ∃ results, .reply header.id header.status results ∈ p.said ∧ body.Carries c results := by
  obtain ⟨x, hx, body', hmeant, hcarries⟩ := h
  cases x with
  | request id reference operation arguments => cases hmeant
  | reply id status results =>
    cases hmeant
    exact ⟨results, hx, hcarries⟩
  | closing => cases hmeant

/-- What was heard of an end stays true when the end says more. -/
theorem Heard.mono (h : p.Heard c other) (hsaid : other.said ⊆ other'.said) :
    p.Heard c other' where
  received := fun request hrequest => (h.received request hrequest).mono hsaid
  histories := fun t ht message hmessage => (h.histories t ht message hmessage).mono hsaid

theorem sound_start (connection : ConnectionId) (role : Role) (codec : Codec) :
    (start connection role codec).Sound connection codec role where
  tracked := Session.tracked_start connection role codec
  codec_eq := rfl
  numbers := .slnil
  outbox := by
    intro message hmessage
    cases hmessage
  asked := by
    intro id status results hsaid
    cases hsaid

theorem heard_start (c : Codec) (connection : ConnectionId) (role : Role) (codec : Codec)
    (other : Peer) : (start connection role codec).Heard c other where
  received := by
    intro request hrequest
    cases hrequest
  histories := by
    intro t ht
    cases ht

/-! ### An end does something by itself -/

/-- A history gets longer by the operation that is done. -/
theorem mem_since_step {σ : Session} {op op' : Operation} {t : Ticket}
    (ht : t ∈ (σ.step op).tickets) (hop : op' ∈ t.since) :
    op' = op ∨ ∃ t₀ ∈ σ.tickets, op' ∈ t₀.since := by
  rcases Session.held_before ht with ⟨t₀, ht₀, -, hsince⟩ | ⟨-, hsince, -⟩
  · rw [hsince, List.mem_append, List.mem_singleton] at hop
    exact hop.symm.imp_right fun hbefore => ⟨t₀, ht₀, hbefore⟩
  · rw [hsince] at hop
    cases hop

theorem codec_step (h : p.Sound connection c role) (op : Operation) :
    (p.session.step op).router.codec = c.boundTo connection :=
  (p.session.later_step op).same.2.trans h.codec_eq

theorem Sound.act (h : p.Sound connection c role) {op : Operation} (hmay : p.mayDo op = true) :
    (p.act op).Sound connection c role where
  tracked := Session.tracked_step h.tracked op
  codec_eq := codec_step h op
  numbers := by
    have hissued := p.session.issued_utters op
    rw [Peer.act, List.filterMap_append]
    refine (h.numbers.append ?_).trans hissued
    cases p.session.router.utters? op with
    | none => exact .slnil
    | some x => cases x <;> exact List.Sublist.refl _
  outbox := by
    intro message hmessage
    rcases List.mem_append.1 hmessage with hmessage | hmessage
    · exact (h.outbox message hmessage).mono (List.subset_append_left _ _)
    · obtain ⟨x, huttered, hwritten⟩ := Router.utters_of_handedOver (Option.mem_toList.1 hmessage)
      -- The router writes with the codec bound to its connection, and that does not show.
      rw [h.codec_eq, x.message_boundTo] at hwritten
      refine ⟨x, List.mem_append_right _ ?_, hwritten⟩
      rw [huttered]
      exact List.mem_singleton_self x
  asked := by
    intro id status results hsaid
    rcases List.mem_append.1 hsaid with hsaid | hsaid
    · exact h.asked id status results hsaid
    · have huttered : p.session.router.utters? op = some (.reply id status results) :=
        Option.mem_toList.1 hsaid
      -- Only a reply says one, and it was allowed.
      cases op with
      | reply id' status' results' =>
        simp only [Router.utters?] at huttered
        split at huttered
        · cases huttered
          obtain ⟨request, hrequest, hid⟩ := List.any_eq_true.1 hmay
          exact ⟨request, hrequest, beq_iff_eq.1 hid⟩
        · cases huttered
      | send reference operation arguments =>
        simp only [Router.utters?] at huttered
        split at huttered <;> cases huttered
      | close =>
        simp only [Router.utters?] at huttered
        split at huttered <;> cases huttered
      | _ => cases huttered

theorem Heard.act (h : p.Heard c other) {op : Operation} (hmay : p.mayDo op = true) :
    (p.act op).Heard c other where
  received := h.received
  histories := by
    intro t ht message hmessage
    rcases mem_since_step ht hmessage with rfl | ⟨t₀, ht₀, hbefore⟩
    · -- An end does not take in messages by itself.
      cases hmay
    · exact h.histories t₀ ht₀ message hbefore

/-! ### A message arrives -/

theorem Sound.take (h : p.Sound connection c role) (message : List UInt8) :
    (p.take message).Sound connection c role where
  tracked := Session.tracked_step h.tracked (.handle message)
  codec_eq := codec_step h (.handle message)
  numbers := h.numbers.trans (p.session.issued_prefix_step (.handle message)).sublist
  outbox := h.outbox
  asked := by
    intro id status results hsaid
    obtain ⟨request, hrequest, hid⟩ := h.asked id status results hsaid
    exact ⟨request, List.mem_append_left _ hrequest, hid⟩

theorem Sound.release (h : p.Sound connection c role) (n : Nat) :
    (p.release n).Sound connection c role :=
  { h with outbox := fun message hmessage => h.outbox message (List.mem_of_mem_eraseIdx hmessage) }

theorem Heard.release (h : p.Heard c other) (n : Nat) : (p.release n).Heard c other :=
  ⟨h.received, h.histories⟩

/-- A message that the other end has written is taken in, by an end of the same parameters. -/
theorem Heard.take (h : p.Heard c other) {message : List UInt8}
    (hsettings : p.session.router.codec.settings = c.settings) (hwrote : other.Wrote c message) :
    (p.take message).Heard c other where
  received := by
    intro request hrequest
    rcases List.mem_append.1 hrequest with hrequest | hrequest
    · exact h.received request hrequest
    · -- It is a request as it was parsed, and it was parsed as it was meant.
      have hhandled : (p.session.router.handle message).1 = .ok (some request) := by
        have hjoin := Option.mem_toList.1 hrequest
        unfold requestIn? at hjoin
        cases hresult : (p.session.router.handle message).1 with
        | error f =>
          rw [hresult] at hjoin
          cases hjoin
        | ok given =>
          rw [hresult] at hjoin
          exact congrArg Except.ok hjoin
      have hparse := Router.parse_of_handle hhandled
      obtain ⟨m, hmeant, hm⟩ := hwrote.parse
      rw [hsettings, hmeant] at hparse
      cases hparse
      exact hm
  histories := by
    intro t ht earlier hearlier
    rcases mem_since_step ht hearlier with heq | ⟨t₀, ht₀, hbefore⟩
    · cases heq
      exact hwrote
    · exact h.histories t₀ ht₀ earlier hbefore

end Peer

/-! ## Every event -/

namespace Conversation

variable {connection : Role → ConnectionId} {codec : Role → Codec} {w : Conversation}

/-- Both ends are sound, and each has heard what it knows from the other. -/
structure Sound (connection : Role → ConnectionId) (codec : Role → Codec) (w : Conversation) :
    Prop where
  sound : ∀ side, (w.peer side).Sound (connection side) (codec side) side
  heard : ∀ side, (w.peer side).Heard (codec side.other) (w.peer side.other)

/-- What is to be shown when one end has changed and has said no less. -/
theorem Sound.set (h : w.Sound connection codec) {side : Role} {p : Peer}
    (hsound : p.Sound (connection side) (codec side) side)
    (hheard : p.Heard (codec side.other) (w.peer side.other))
    (hsaid : (w.peer side).said ⊆ p.said) : (w.set side p).Sound connection codec where
  sound := by
    intro role
    by_cases hrole : role = side
    · subst hrole
      rwa [peer_set_self]
    · rw [peer_set_of_ne w p hrole]
      exact h.sound role
  heard := by
    intro role
    by_cases hrole : role = side
    · subst hrole
      rwa [peer_set_self, peer_set_of_ne w p role.other_ne]
    · -- Seen from the other end it is the peer that has changed, and it has said no less.
      obtain rfl := Role.eq_other_of_ne hrole
      have hother := h.heard side.other
      rw [Role.other_other] at hother ⊢
      rw [peer_set_of_ne w p side.other_ne, peer_set_self]
      exact hother.mono hsaid

/-- When the ends have equal parameters, each has those of the other. -/
theorem settings_other (h : (codec .initiator).settings = (codec .acceptor).settings)
    (side : Role) : (codec side).settings = (codec side.other).settings := by
  cases side
  · exact h
  · exact h.symm

/-- **One event.** Whatever happens next, both ends stay sound. -/
theorem sound_step (hsettings : (codec .initiator).settings = (codec .acceptor).settings)
    (h : w.Sound connection codec) (event : Event) : (w.step event).Sound connection codec := by
  cases event with
  | act side op =>
    unfold step
    dsimp only
    split
    · rename_i hmay
      exact h.set ((h.sound side).act hmay) ((h.heard side).act hmay)
        (List.subset_append_left _ _)
    · exact h
  | arrive side n =>
    unfold step
    dsimp only
    split
    · rename_i message hmessage
      have hwrote := (h.sound side.other).outbox message (List.mem_of_getElem? hmessage)
      have hsame : (w.peer side).session.router.codec.settings = (codec side.other).settings :=
        (h.sound side).tracked.settings_eq.trans (settings_other hsettings side)
      have htaken := h.set ((h.sound side).take message) ((h.heard side).take hsame hwrote)
        (List.Subset.refl _)
      -- The message is then no longer under way, which takes back nothing of what was said.
      have hother := htaken.heard side.other
      rw [peer_set_of_ne _ _ side.other_ne] at hother
      refine htaken.set ((h.sound side.other).release n) (hother.release n) ?_
      rw [peer_set_of_ne _ _ side.other_ne]
      exact List.Subset.refl _
    · exact h

theorem sound_start (connection : Role → ConnectionId) (codec : Role → Codec) :
    (start connection codec).Sound connection codec where
  sound := fun side => Peer.sound_start (connection side) side (codec side)
  heard := fun side => Peer.heard_start _ (connection side) side (codec side) _

theorem sound_run (hsettings : (codec .initiator).settings = (codec .acceptor).settings)
    (h : w.Sound connection codec) (events : List Event) :
    (w.run events).Sound connection codec := by
  induction events generalizing w with
  | nil => exact h
  | cons event events ih => exact ih (sound_step hsettings h event)

end Conversation

/-! ## What callers rely on -/

/-- A reply is the outcome of a request because of a message that was taken in since. -/
theorem Operation.decision?_eq_replied {connection : ConnectionId} {s : Settings} {id : UInt32}
    {op : Operation} {reply : IncomingReply}
    (h : op.decision? connection s id = some (.replied reply)) :
    ∃ message, op = .handle message ∧
      Message.parse s message = .ok (.reply reply.header reply.body) ∧
      reply.connection = connection ∧ reply.header.id = id := by
  cases op with
  | handle message =>
    refine ⟨message, rfl, ?_⟩
    simp only [Operation.decision?] at h
    split at h
    · rename_i hparse
      split at h
      · rename_i hid
        cases h
        exact ⟨hparse, rfl, hid.symm⟩
      · cases h
    · cases h
    · cases h
    · cases h
    · cases h
  | unregister other =>
    simp only [Operation.decision?] at h
    split at h <;> cases h
  | close => cases h
  | _ => cases h

/-- A request whose outcome is a reply has a message in its history that was that reply. -/
theorem Session.Tracked.replied {connection : ConnectionId} {s : Settings} {role : Role}
    {σ : Session} (h : σ.Tracked connection s role) {id : UInt32} {reply : IncomingReply}
    (hreply : σ.router.outcome? id = some (.replied reply)) :
    ∃ t ∈ σ.tickets, ∃ message, .handle message ∈ t.since ∧
      Message.parse s message = .ok (.reply reply.header reply.body) ∧
      reply.connection = connection ∧ reply.header.id = id := by
  obtain ⟨t, ht, hid, hdecided⟩ := h.exists_ticket hreply
  obtain ⟨op, hop, hdecision⟩ := List.exists_of_findSome?_eq_some hdecided
  obtain ⟨message, rfl, hparse, hconnection, hnumber⟩ := Operation.decision?_eq_replied hdecision
  exact ⟨t, ht, message, hop, hparse, hconnection, hnumber.trans hid⟩

/-- **End to end.** What both ends of a connection can rely on. -/
structure Conversation.EndToEnd (connection : Role → ConnectionId) (codec : Role → Codec)
    (w : Conversation) : Prop where
  /-- A reply that a request of one end resolves with was given to that request: it is a request
      that the end has made, the other end has received it with its object, its operation and its
      arguments, and was asked to reply to it with this status and these results. -/
  replied : ∀ side id reply,
    (w.peer side).session.router.outcome? id = some (.replied reply) →
    ∃ reference operation arguments status results,
      .request id reference operation arguments ∈ (w.peer side).said ∧
      (∃ request ∈ (w.peer side.other).received,
        request.header = ⟨id, true, reference.key, operation⟩ ∧
        request.body.Carries (codec side) arguments) ∧
      .reply id status results ∈ (w.peer side.other).said ∧
      reply.connection = connection side ∧ reply.header = ⟨id, status⟩ ∧
      reply.body.Carries (codec side.other) results
  /-- An end makes each of its requests under a number of its own, -/
  nodup : ∀ side, ((w.peer side).said.filterMap Said.number?).Nodup
  /-- and no number is ever used by both. -/
  disjoint : ∀ id ∈ (w.peer .initiator).session.issued, id ∉ (w.peer .acceptor).session.issued
  /-- The numbers of requests are among those that are used. -/
  numbered : ∀ side, (w.peer side).said.filterMap Said.number? ⊆ (w.peer side).session.issued

/-- Two ends of equal parameters, after any events in any order: what is said arrives at most once,
    at any time or never, both ends make requests, and each replies to what it has received only. -/
theorem end_to_end {connection : Role → ConnectionId} {codec : Role → Codec}
    (hsettings : (codec .initiator).settings = (codec .acceptor).settings) (events : List Event) :
    ((Conversation.start connection codec).run events).EndToEnd connection codec := by
  have h := Conversation.sound_run hsettings (Conversation.sound_start connection codec) events
  generalize (Conversation.start connection codec).run events = w at h
  exact {
    replied := by
      intro side id reply hreply
      obtain ⟨t, ht, message, hsince, hparse, hconnection, hid⟩ :=
        (h.sound side).tracked.replied hreply
      -- The message was written by the other end, so it is a reply that the other end has given.
      obtain ⟨m, hmeant, hm⟩ := ((h.heard side).histories t ht message hsince).parse
      rw [Conversation.settings_other hsettings side, hmeant] at hparse
      cases hparse
      obtain ⟨results, hreplied, hcarries⟩ := hm.of_reply
      -- What the other end replies to it was asked, and by this end.
      obtain ⟨request, hrequest, hnumber⟩ := (h.sound side.other).asked _ _ _ hreplied
      have hmade := (h.heard side.other).received request hrequest
      rw [Role.other_other] at hmade
      obtain ⟨reference, operation, arguments, hsaid, hheader, hcarried⟩ := hmade.of_request
      rw [hid] at hreplied hnumber
      rw [hnumber] at hsaid hheader
      exact ⟨reference, operation, arguments, reply.header.status, results, hsaid,
        ⟨request, hrequest, hheader, hcarried⟩, hreplied, hconnection, by rw [← hid], hcarries⟩
    nodup := by
      intro side
      have hincreasing := (h.sound side).tracked.increasing
      have hnodup : (w.peer side).session.issued.Nodup :=
        hincreasing.imp fun hlt heq => absurd (heq ▸ hlt) (UInt32.lt_irrefl _)
      exact hnodup.sublist (h.sound side).numbers
    disjoint := by
      intro id hinitiator hacceptor
      have hodd := (h.sound .initiator).tracked.parity_eq id hinitiator
      have heven := (h.sound .acceptor).tracked.parity_eq id hacceptor
      rw [hodd] at heven
      cases heven
    numbered := fun side => (h.sound side).numbers.subset }

/-- The numbers that the connection has at its ends. -/
def callbackConnection : Role → ConnectionId
  | .initiator => ⟨1⟩
  | .acceptor => ⟨7⟩

/-- Codecs of equal parameters, one of which comes from another connection. -/
def callbackCodec : Role → Codec
  | .initiator => {}
  | .acceptor => { maxDepth := 4, binding := some ⟨3⟩ }

/-- While it answers a request, an end makes two of its own, of which the second arrives first and is
    answered. Then the end replies and closes the connection. The reply overtakes what is left. -/
def callbackEvents : List Event :=
  [.act .initiator (.send ⟨"S", [7], some ⟨1⟩⟩ "op" []), .arrive .acceptor 0,
    .act .acceptor (.send ⟨"C", [8], some ⟨7⟩⟩ "first" []),
    .act .acceptor (.send ⟨"C", [8], some ⟨7⟩⟩ "second" []), .arrive .initiator 1,
    .act .initiator (.reply 4 .noException []), .arrive .acceptor 0,
    .act .acceptor (.reply 1 .userException [⟨.string, .string "no"⟩]), .act .acceptor .close,
    .arrive .initiator 1]

/-- Both ends after that. -/
def callbackConversation : Conversation :=
  (Conversation.start callbackConnection callbackCodec).run callbackEvents

/-- Both requests resolve with a reply, each at its end. -/
theorem end_to_end_callback :
    (callbackCodec .initiator).settings = (callbackCodec .acceptor).settings ∧
      (callbackConversation.peer .initiator).session.router.outcome? 1
        = some (.replied ⟨⟨1⟩, ⟨1, .userException⟩,
            ⟨[1, 2, 1, 0, 1, 0, 0, 0, 1, 0, 0, 0, 3, 0, 0, 0, 110, 111, 0], 12⟩⟩) ∧
      (callbackConversation.peer .acceptor).session.router.outcome? 4
        = some (.replied ⟨⟨7⟩, ⟨4, .noException⟩, ⟨[1, 2, 1, 0, 4, 0, 0, 0, 0, 0, 0, 0], 12⟩⟩) ∧
      callbackConversation.EndToEnd callbackConnection callbackCodec :=
  ⟨rfl, by rfl, by rfl, end_to_end rfl callbackEvents⟩

end ObjectBroker
