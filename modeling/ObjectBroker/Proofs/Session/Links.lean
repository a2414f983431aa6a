import ObjectBroker.Proofs.Session.Conversation
import ObjectBroker.Session.Broker

/-!
# `ObjectBroker.Proofs.Session.Links` — what is done on one connection of a broker

Everything that is done on a connection of a broker is done to that connection alone: its router is
the same router at a later time, something may have been written to it, and nothing else in the
broker has changed. `Broker.Writes` says this together with what was written, and there is one lemma
for each operation. What a broker does with several connections can then be told from which of them
it uses.

An exchange that is to get one request out is followed from step to step: it tries, then it waits
for the reply, and it has written nothing before and the one message since (`Progress.Single`).
-/

namespace ObjectBroker

namespace Broker

variable {b b' b'' : Broker} {id : ConnectionId} {link link' : Link}

/-! ## Connections of a broker -/

/-- The messages that were written to a connection. -/
def sentOn (b : Broker) (id : ConnectionId) : List (List UInt8) :=
  ((b.link? id).map (·.channel.sent)).getD []

theorem connection_of_link? (h : b.link? id = some link) : link.router.connection = id := by
  simpa using List.find?_some h

/-- A later state of a connection is found where the connection was. -/
theorem link?_setLink (b : Broker) (link : Link) (id : ConnectionId) :
    (b.setLink link).link? id = (b.link? id).map fun l =>
      if l.router.connection = link.router.connection then link else l := by
  unfold link? setLink
  rw [List.find?_map]
  congr 2
  funext l
  by_cases h : l.router.connection = link.router.connection
  · simp [h]
  · simp [h]

/-- One connection has changed and no other: its router is the same at a later time, and these
    messages were written to it. -/
structure Writes (id : ConnectionId) (out : List (List UInt8)) (b b' : Broker) : Prop where
  configuration_eq : b'.configuration = b.configuration
  attached_eq : b'.attached = b.attached
  next_eq : b'.next = b.next
  resolver_eq : b'.resolver = b.resolver
  connections_eq : b'.links.map (·.router.connection) = b.links.map (·.router.connection)
  other : ∀ other, other ≠ id → b'.link? other = b.link? other
  later : ∀ link, b.link? id = some link →
    ∃ link', b'.link? id = some link' ∧ link.router.Later link'.router
  sent_eq : b'.sentOn id = b.sentOn id ++ out

theorem Writes.refl (b : Broker) (id : ConnectionId) : b.Writes id [] b where
  configuration_eq := rfl
  attached_eq := rfl
  next_eq := rfl
  resolver_eq := rfl
  connections_eq := rfl
  other := fun _ _ => rfl
  later := fun link h => ⟨link, h, .refl⟩
  sent_eq := (List.append_nil _).symm

theorem Writes.trans {out more : List (List UInt8)} (h : b.Writes id out b')
    (h' : b'.Writes id more b'') : b.Writes id (out ++ more) b'' where
  configuration_eq := h'.configuration_eq.trans h.configuration_eq
  attached_eq := h'.attached_eq.trans h.attached_eq
  next_eq := h'.next_eq.trans h.next_eq
  resolver_eq := h'.resolver_eq.trans h.resolver_eq
  connections_eq := h'.connections_eq.trans h.connections_eq
  other := fun other hne => (h'.other other hne).trans (h.other other hne)
  later := by
    intro link hlink
    obtain ⟨link', hlink', hlater⟩ := h.later link hlink
    obtain ⟨link'', hlink'', hlater'⟩ := h'.later link' hlink'
    exact ⟨link'', hlink'', hlater.trans hlater'⟩
  sent_eq := by rw [h'.sent_eq, h.sent_eq, List.append_assoc]

/-- What was written to the other connections is as it was. -/
theorem Writes.sentOn_other {out : List (List UInt8)} (h : b.Writes id out b')
    {other : ConnectionId} (hne : other ≠ id) : b'.sentOn other = b.sentOn other := by
  rw [sentOn, sentOn, h.other other hne]

/-- A connection is replaced by a later state of it. -/
theorem writes_setLink {out : List (List UInt8)} (h : b.link? id = some link)
    (hlater : link.router.Later link'.router)
    (hsent : link'.channel.sent = link.channel.sent ++ out) :
    b.Writes id out (b.setLink link') := by
  have hconnection : link.router.connection = id := connection_of_link? h
  have hconnection' : link'.router.connection = id := hlater.same.1.trans hconnection
  -- The later state has the number of the one it replaces, and so it is found under it.
  have hself : (b.setLink link').link? id = some link' := by
    rw [link?_setLink, h, Option.map_some, hconnection, hconnection', if_pos rfl]
  exact {
    configuration_eq := rfl
    attached_eq := rfl
    next_eq := rfl
    resolver_eq := rfl
    connections_eq := by
      unfold setLink
      rw [List.map_map]
      refine List.map_congr_left fun l _ => ?_
      by_cases hl : l.router.connection = link'.router.connection
      · simp [hl]
      · simp [hl]
    other := by
      intro other hne
      rw [link?_setLink]
      cases hfound : b.link? other with
      | none => rfl
      | some found =>
        have hother : found.router.connection = other := connection_of_link? hfound
        rw [Option.map_some, hother, hconnection', if_neg hne]
    later := by
      intro found hfound
      rw [h] at hfound
      cases hfound
      exact ⟨link', hself, hlater⟩
    sent_eq := by
      rw [sentOn, sentOn, hself, h]
      exact hsent }

/-! ## Single steps on a connection -/

theorem onRouter_of_none {α : Type} {absent : α} {operation : Router → α × Router}
    (h : b.link? id = none) : b.onRouter id absent operation = (absent, b) := by
  simp only [onRouter, h]

theorem onRouter_of_some {α : Type} {absent : α} {operation : Router → α × Router}
    (h : b.link? id = some link) :
    b.onRouter id absent operation =
      ((operation link.router).1, b.setLink { link with router := (operation link.router).2 }) := by
  simp only [onRouter, h]

theorem writes_onRouter {α : Type} (b : Broker) (id : ConnectionId) (absent : α)
    {operation : Router → α × Router} (hop : ∀ r : Router, r.Later (operation r).2) :
    b.Writes id [] (b.onRouter id absent operation).2 := by
  cases h : b.link? id with
  | none =>
    rw [onRouter_of_none h]
    exact .refl b id
  | some link =>
    rw [onRouter_of_some h]
    exact writes_setLink h (hop link.router) (List.append_nil _).symm

theorem writes_onChannel (b : Broker) (id : ConnectionId) {operation : Channel → Channel}
    (hop : ∀ ch, (operation ch).sent = ch.sent) : b.Writes id [] (b.onChannel id operation) := by
  unfold onChannel
  split
  · exact .refl b id
  · rename_i link h
    exact writes_setLink h .refl ((hop link.channel).trans (List.append_nil _).symm)

/-- An attempt leaves the message waiting, or writes it, or fails. -/
theorem advance_cases (b : Broker) (id : ConnectionId) (t : Transmission) :
    ∃ b₁,
      (∃ t', b.advance id t = (.waits t', b₁) ∧ t'.message = t.message ∧ b.Writes id [] b₁) ∨
      (b.advance id t = (.written, b₁) ∧ b.Writes id [t.message] b₁) ∨
      ∃ f, b.advance id t = (.failed f, b₁) ∧ b.Writes id [] b₁ := by
  unfold advance
  cases h : b.link? id with
  | none => exact ⟨b, .inr (.inr ⟨_, rfl, .refl b id⟩)⟩
  | some link =>
    have hwrites : ∀ (channel : Channel) (out : List (List UInt8)),
        channel.sent = link.channel.sent ++ out →
        b.Writes id out (b.setLink { link with channel }) := fun channel out hsent =>
      writes_setLink h .refl hsent
    unfold Channel.advance
    dsimp only
    split
    · exact ⟨_, .inl ⟨t, rfl, rfl, hwrites _ [] (List.append_nil _).symm⟩⟩
    · split
      · exact ⟨_, .inl ⟨_, rfl, rfl, hwrites _ [] (List.append_nil _).symm⟩⟩
      · split
        · exact ⟨_, .inr (.inr ⟨_, rfl, hwrites _ [] (List.append_nil _).symm⟩)⟩
        · exact ⟨_, .inr (.inl ⟨rfl, hwrites _ [t.message] rfl⟩)⟩

theorem writes_forget (b : Broker) (id : ConnectionId) (number : UInt32) :
    b.Writes id [] (b.forget id number) :=
  writes_onRouter b id () fun r => .single (.forget r number)

theorem writes_collect (b : Broker) (id : ConnectionId) (number : UInt32) :
    b.Writes id [] (b.collect id number).2 := by
  unfold collect
  split
  · exact .refl b id
  · exact writes_forget b id number
  · exact writes_forget b id number

end Broker

/-! ## Exchanges -/

/-- The connection an exchange uses. -/
def Exchange.connection : Exchange → ConnectionId
  | .sending connection _ _ | .waiting connection _ | .invoking connection _ _
  | .posting connection _ => connection

namespace Broker

variable {b : Broker} {id : ConnectionId}

/-- An exchange uses its own connection, however far it comes. -/
theorem writes_follow (b : Broker) (exchange : Exchange) :
    ∃ out, b.Writes exchange.connection out (b.follow exchange).2 := by
  cases exchange with
  | sending connection number t =>
    obtain ⟨b₁, ⟨t', h, -, hwrites⟩ | ⟨h, hwrites⟩ | ⟨f, h, hwrites⟩⟩ :=
      b.advance_cases connection t
    · simp only [follow, h]
      exact ⟨_, hwrites⟩
    · simp only [follow, h]
      exact ⟨_, hwrites⟩
    · simp only [follow, h]
      exact ⟨_, hwrites.trans (writes_forget b₁ connection number)⟩
  | invoking connection number t =>
    obtain ⟨b₁, ⟨t', h, -, hwrites⟩ | ⟨h, hwrites⟩ | ⟨f, h, hwrites⟩⟩ :=
      b.advance_cases connection t
    · simp only [follow, h]
      exact ⟨_, hwrites⟩
    · simp only [follow, h]
      exact ⟨_, hwrites.trans (writes_collect b₁ connection number)⟩
    · simp only [follow, h]
      exact ⟨_, hwrites.trans (writes_forget b₁ connection number)⟩
  | waiting connection number => exact ⟨_, writes_collect b connection number⟩
  | posting connection t =>
    obtain ⟨b₁, ⟨t', h, -, hwrites⟩ | ⟨h, hwrites⟩ | ⟨f, h, hwrites⟩⟩ :=
      b.advance_cases connection t
    · simp only [follow, h]
      exact ⟨_, hwrites⟩
    · simp only [follow, h]
      exact ⟨_, hwrites⟩
    · simp only [follow, h]
      exact ⟨_, hwrites⟩

/-- Giving an exchange up writes nothing. -/
theorem writes_leave (b : Broker) (exchange : Exchange) :
    b.Writes exchange.connection [] (b.leave exchange) := by
  have hsent : ∀ (t : Transmission) (ch : Channel), (ch.abandon t).sent = ch.sent := by
    intro t ch
    unfold Channel.abandon
    split <;> rfl
  cases exchange with
  | waiting connection number => exact writes_forget b connection number
  | sending connection number t => exact writes_onChannel b connection (hsent t)
  | invoking connection number t => exact writes_onChannel b connection (hsent t)
  | posting connection t => exact writes_onChannel b connection (hsent t)

theorem writes_send (b : Broker) (id : ConnectionId) (reference : ObjectRef) (operation : String)
    (arguments : List Dynamic) :
    ∃ out, b.Writes id out (b.send id reference operation arguments).2 := by
  have hnumbered := b.writes_onRouter id (.error .connectionLost)
    fun r => .single (.request r reference operation arguments)
  unfold send start
  split
  · rename_i number message b₁ heq
    rw [heq] at hnumbered
    obtain ⟨out, hout⟩ := b₁.writes_follow (.sending id number { message })
    exact ⟨_, hnumbered.trans hout⟩
  · rename_i heq
    rw [heq] at hnumbered
    exact ⟨_, hnumbered⟩

theorem writes_reply (b : Broker) (id : ConnectionId) (number : UInt32) (status : ReplyStatus)
    (results : List Dynamic) : ∃ out, b.Writes id out (b.reply id number status results).2 := by
  unfold reply
  split
  · exact ⟨_, .refl b id⟩
  · split
    · exact b.writes_follow (.posting id _)
    · exact ⟨_, .refl b id⟩

theorem writes_close (b : Broker) (id : ConnectionId) :
    ∃ out, b.Writes id out (b.close id).2 := by
  have hclosed := b.writes_onRouter id none fun r => .single (.close r)
  unfold close
  split
  · rename_i message b₁ heq
    rw [heq] at hclosed
    obtain ⟨out, hout⟩ := b₁.writes_follow (.posting id { message })
    exact ⟨_, hclosed.trans hout⟩
  · rename_i heq
    rw [heq] at hclosed
    exact ⟨_, hclosed⟩

end Broker

/-! ## All that is done on a connection -/

/-- What is done on a connection, by those who have it in hand and by the outside. Exchanges move on
    and are given up like any others, and the outgoing half may get stuck or break at any time. -/
inductive Traffic where
  | send (id : ConnectionId) (reference : ObjectRef) (operation : String)
      (arguments : List Dynamic)
  | follow (exchange : Exchange)
  | leave (exchange : Exchange)
  | reply (id : ConnectionId) (number : UInt32) (status : ReplyStatus) (results : List Dynamic)
  | close (id : ConnectionId)
  | handle (id : ConnectionId) (message : List UInt8)
  | unregister (id : ConnectionId) (number : UInt32)
  | setHeld (id : ConnectionId) (on : Bool)
  | setBroken (id : ConnectionId) (on : Bool)

/-- The connection it is done on. -/
def Traffic.connection : Traffic → ConnectionId
  | .send id _ _ _ | .reply id _ _ _ | .close id | .handle id _ | .unregister id _ | .setHeld id _
  | .setBroken id _ => id
  | .follow exchange | .leave exchange => exchange.connection

namespace Broker

/-- Does it. -/
def carry (b : Broker) : Traffic → Broker
  | .send id reference operation arguments => (b.send id reference operation arguments).2
  | .follow exchange => (b.follow exchange).2
  | .leave exchange => b.leave exchange
  | .reply id number status results => (b.reply id number status results).2
  | .close id => (b.close id).2
  | .handle id message => (b.handle id message).2
  | .unregister id number => (b.unregister id number).2
  | .setHeld id on => b.onChannel id (·.setHeld on)
  | .setBroken id on => b.onChannel id (·.setBroken on)

theorem writes_carry (b : Broker) (traffic : Traffic) :
    ∃ out, b.Writes traffic.connection out (b.carry traffic) := by
  cases traffic with
  | send id reference operation arguments => exact b.writes_send id reference operation arguments
  | follow exchange => exact b.writes_follow exchange
  | leave exchange => exact ⟨_, b.writes_leave exchange⟩
  | reply id number status results => exact b.writes_reply id number status results
  | close id => exact b.writes_close id
  | handle id message =>
    exact ⟨_, b.writes_onRouter id _ fun r => .single (.handle r message)⟩
  | unregister id number =>
    exact ⟨_, b.writes_onRouter id _ fun r => .single (.unregister r number)⟩
  | setHeld id on =>
    have hsent : ∀ ch : Channel, (ch.setHeld on).sent = ch.sent := fun _ => rfl
    exact ⟨_, b.writes_onChannel id hsent⟩
  | setBroken id on =>
    have hsent : ∀ ch : Channel, (ch.setBroken on).sent = ch.sent := fun _ => rfl
    exact ⟨_, b.writes_onChannel id hsent⟩

end Broker

/-! ## A request on its way -/

/-- The message is that of the request under the number. -/
def Codec.Requests (c : Codec) (reference : ObjectRef) (operation : String)
    (arguments : List Dynamic) (number : UInt32) (message : List UInt8) : Prop :=
  (Said.request number reference operation arguments).message c = .ok message

/-- How far a call can have come that is to get one request out on a connection, and what it has
    written: nothing as long as it tries, and the message of the request from then on. -/
inductive Progress.Single (target : ConnectionId) (requests : UInt32 → List UInt8 → Prop) :
    Progress → List (List UInt8) → Prop where
  | trying {number : UInt32} {t : Transmission} (h : requests number t.message) :
      Single target requests (.pending (.exchanging (.invoking target number t))) []
  | unsent (f : Fault) : Single target requests (.failed f) []
  | waiting {number : UInt32} {message : List UInt8} (h : requests number message) :
      Single target requests (.pending (.exchanging (.waiting target number))) [message]
  | replied {number : UInt32} {message : List UInt8} (h : requests number message)
      (reply : IncomingReply) : Single target requests (.replied reply) [message]
  | unanswered {number : UInt32} {message : List UInt8} (h : requests number message)
      (f : Fault) : Single target requests (.failed f) [message]

theorem Progress.Single.connection_eq {target : ConnectionId}
    {requests : UInt32 → List UInt8 → Prop} {exchange : Exchange} {out : List (List UInt8)}
    (h : (Progress.pending (.exchanging exchange)).Single target requests out) :
    exchange.connection = target := by
  cases h <;> rfl

namespace Broker

variable {b : Broker} {target : ConnectionId} {requests : UInt32 → List UInt8 → Prop}

theorem single_collect (b : Broker) {number : UInt32} {message : List UInt8}
    (h : requests number message) :
    (b.collect target number).1.Single target requests [message] := by
  unfold collect
  split
  · exact .waiting h
  · exact .replied h _
  · exact .unanswered h _

/-- A request that is tried for writes on its connection only, and stays a single one. -/
theorem single_try (b : Broker) {number : UInt32} {t : Transmission}
    (h : requests number t.message) :
    ∃ out, b.Writes target out (b.follow (.invoking target number t)).2 ∧
      (b.follow (.invoking target number t)).1.Single target requests out := by
  obtain ⟨b₁, ⟨t', hstep, hmessage, hwrites⟩ | ⟨hstep, hwrites⟩ | ⟨f, hstep, hwrites⟩⟩ :=
    b.advance_cases target t
  · simp only [follow, hstep]
    exact ⟨_, hwrites, .trying (hmessage ▸ h)⟩
  · -- With the message out the call waits, and may find that the reply is there already.
    simp only [follow, hstep]
    exact ⟨_, hwrites.trans (writes_collect b₁ target number), single_collect b₁ h⟩
  · simp only [follow, hstep]
    exact ⟨_, hwrites.trans (writes_forget b₁ target number), .unsent f⟩

/-- **One step.** An exchange that is to get one request out stays so, and uses its connection
    only. -/
theorem single_follow (b : Broker) {exchange : Exchange} {out : List (List UInt8)}
    (h : (Progress.pending (.exchanging exchange)).Single target requests out) :
    ∃ more, b.Writes target more (b.follow exchange).2 ∧
      (b.follow exchange).1.Single target requests (out ++ more) := by
  cases h with
  | trying h => exact single_try b h
  | waiting h => exact ⟨[], writes_collect b target _, single_collect b h⟩

/-- Invoking a reference over a connection is such an exchange from the first. -/
theorem single_invokeOn {link : Link} {c : Codec} {id : ConnectionId}
    (hlink : b.link? target = some link) (hcodec : link.router.codec = c.boundTo id)
    (reference : ObjectRef) (operation : String) (arguments : List Dynamic) :
    ∃ out, b.Writes target out (b.invokeOn target reference operation arguments).2 ∧
      (b.invokeOn target reference operation arguments).1.Single target
        (c.Requests reference operation arguments) out := by
  have hnumbered := b.writes_onRouter target (.error .connectionLost)
    fun r => .single (.request r reference operation arguments)
  have hresult : b.onRouter target (.error .connectionLost)
        (·.request reference operation arguments) =
      ((link.router.request reference operation arguments).1,
        b.setLink { link with router := (link.router.request reference operation arguments).2 }) :=
    onRouter_of_some hlink
  cases hrequest : (link.router.request reference operation arguments).1 with
  | error f =>
    rw [hrequest] at hresult
    rw [hresult] at hnumbered
    simp only [invokeOn, start, hresult]
    exact ⟨_, hnumbered, .unsent f⟩
  | ok numbered =>
    obtain ⟨number, message⟩ := numbered
    rw [hrequest] at hresult
    rw [hresult] at hnumbered
    have hmessage := Router.message_of_request hrequest
    -- The codec of the router is bound to the connection, which the message does not show.
    rw [hcodec, Said.message_boundTo] at hmessage
    have ht : c.Requests reference operation arguments number
        ({ message } : Transmission).message := hmessage
    simp only [invokeOn, start, hresult]
    obtain ⟨out, hwrites, hsingle⟩ := single_try
      (b.setLink { link with router := (link.router.request reference operation arguments).2 }) ht
    exact ⟨_, hnumbered.trans hwrites, hsingle⟩

end Broker

end ObjectBroker
