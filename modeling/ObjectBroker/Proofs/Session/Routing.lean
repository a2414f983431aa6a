import ObjectBroker.Proofs.Session.Account
import ObjectBroker.Proofs.Session.Binding

/-!
# `ObjectBroker.Proofs.Session.Routing` — invocations go to the right peer

A reference that came in over a connection names an object of the peer at its other end, and to any
other peer its key means nothing, or something else. So what matters is where the requests made with
it go: over its connection while that is in the table, and otherwise over a connection that was
established for it. A number that was handed out twice would send them to a stranger.
-/

namespace ObjectBroker

/-! ## The invariant -/

/-- The number of a connection, by how many there were before. -/
def ConnectionId.nth (n : Nat) : ConnectionId := ⟨UInt64.ofNat (n + 1)⟩

/-- No number is handed out twice before all of them are used. -/
theorem ConnectionId.nth_inj {m n : Nat} (hm : m < UInt64.size) (hn : n < UInt64.size)
    (h : nth m = nth n) : m = n := by
  have hvalue := congrArg (fun id : ConnectionId => id.value.toNat) h
  simp only [nth, UInt64.toNat_ofNat'] at hvalue
  unfold UInt64.size at hm hn
  omega

namespace Account

variable {configuration : Configuration} {a : Account}

/-- What holds between a broker and the record of its dealings. -/
structure Sound (configuration : Configuration) (a : Account) : Prop where
  configuration_eq : a.broker.configuration = configuration
  /-- Connections are numbered one after the other. -/
  connections_eq : a.broker.links.map (·.router.connection)
    = (List.range a.broker.links.length).map ConnectionId.nth
  next_eq : ⟨a.broker.next⟩ = ConnectionId.nth a.broker.links.length
  handedOut_eq : a.handedOut.map (·.1) = a.broker.links.map (·.router.connection)
  detached_mem : ∀ id ∈ a.detached, id ∈ a.handedOut.map (·.1)
  /-- In the table is what was handed out and not let go. -/
  attached_iff : ∀ id, a.broker.isAttached id = true ↔
    id ∈ a.handedOut.map (·.1) ∧ id ∉ a.detached
  /-- Under each number there is the router that was made for it, at a later time. -/
  routers : ∀ p ∈ a.handedOut, ∃ link, a.broker.link? p.1 = some link ∧
    (Router.new p.1 p.2 (.ofConfiguration configuration)).Later link.router
  /-- References stay on the connection on which they were decoded. -/
  decoded : ∀ p ∈ a.decoded, p.1 ∈ a.handedOut.map (·.1) ∧
    (p.2.isNil = false → p.2.connection = some p.1)
  invocations : ∀ inv ∈ a.invocations, inv.Routed (.ofConfiguration configuration) a.handedOut

theorem sound_start (configuration : Configuration) : (start configuration).Sound configuration where
  configuration_eq := rfl
  connections_eq := rfl
  next_eq := rfl
  handedOut_eq := rfl
  detached_mem := by
    intro id hid
    cases hid
  attached_iff := by
    intro id
    simp [start, Broker.isAttached]
  routers := by
    intro p hp
    cases hp
  decoded := by
    intro p hp
    cases hp
  invocations := by
    intro inv hinv
    cases hinv

theorem Sound.length_eq (h : a.Sound configuration) :
    a.handedOut.length = a.broker.links.length := by
  simpa using congrArg List.length h.handedOut_eq

/-- The numbers that were handed out are the first ones. -/
theorem Sound.numbers_eq (h : a.Sound configuration) :
    a.handedOut.map (·.1) = (List.range a.handedOut.length).map ConnectionId.nth := by
  rw [h.handedOut_eq, h.connections_eq, h.length_eq]

theorem Sound.nodup (h : a.Sound configuration) (hfew : a.handedOut.length < UInt64.size) :
    (a.handedOut.map (·.1)).Nodup := by
  rw [h.numbers_eq]
  refine List.Nodup.map_on ?_ List.nodup_range
  intro m hm n hn heq
  rw [List.mem_range] at hm hn
  exact ConnectionId.nth_inj (Nat.lt_trans hm hfew) (Nat.lt_trans hn hfew) heq

/-- The next number was not handed out. -/
theorem Sound.next_not_mem (h : a.Sound configuration) (hfew : a.handedOut.length < UInt64.size) :
    ⟨a.broker.next⟩ ∉ a.handedOut.map (·.1) := by
  rw [h.next_eq, h.numbers_eq, List.mem_map]
  rintro ⟨n, hn, heq⟩
  rw [List.mem_range] at hn
  rw [← h.length_eq] at heq
  exact absurd (ConnectionId.nth_inj (Nat.lt_trans hn hfew) hfew heq) (Nat.ne_of_lt hn)

/-- A number that was not handed out is that of no connection. -/
theorem Sound.link?_eq_none (h : a.Sound configuration) {id : ConnectionId}
    (hid : id ∉ a.handedOut.map (·.1)) : a.broker.link? id = none := by
  refine List.find?_eq_none.2 fun link hlink => ?_
  rw [h.handedOut_eq] at hid
  simp only [beq_iff_eq]
  rintro rfl
  exact hid (List.mem_map_of_mem hlink)

/-! ### The table and the connections -/

/-- Whatever is done on one connection, the record stays right. -/
theorem Sound.of_writes (h : a.Sound configuration) {id : ConnectionId}
    {out : List (List UInt8)} {b' : Broker} (hwrites : a.broker.Writes id out b') :
    ({ a with broker := b' } : Account).Sound configuration := by
  have hlength : b'.links.length = a.broker.links.length := by
    simpa using congrArg List.length hwrites.connections_eq
  exact {
    configuration_eq := hwrites.configuration_eq.trans h.configuration_eq
    connections_eq := by
      dsimp only
      rw [hwrites.connections_eq, hlength, h.connections_eq]
    next_eq := by
      dsimp only
      rw [hwrites.next_eq, hlength, h.next_eq]
    handedOut_eq := h.handedOut_eq.trans hwrites.connections_eq.symm
    detached_mem := h.detached_mem
    attached_iff := by
      intro other
      have hattached := h.attached_iff other
      rw [Broker.isAttached] at hattached ⊢
      rwa [hwrites.attached_eq]
    routers := by
      intro p hp
      obtain ⟨link, hlink, hlater⟩ := h.routers p hp
      by_cases hid : p.1 = id
      · subst hid
        obtain ⟨link', hlink', hlater'⟩ := hwrites.later link hlink
        exact ⟨link', hlink', hlater.trans hlater'⟩
      · exact ⟨link, (hwrites.other p.1 hid).trans hlink, hlater⟩
    decoded := h.decoded
    invocations := h.invocations }

/-- The resolver is no part of what is recorded. -/
theorem Sound.of_resolver (h : a.Sound configuration) (resolver : Resolver) :
    ({ a with broker := { a.broker with resolver } } : Account).Sound configuration :=
  { h with }

/-- A connection is taken over under a number that was not handed out. -/
theorem Sound.attach (h : a.Sound configuration) (hfew : a.handedOut.length < UInt64.size)
    (role : Role) (channel : Channel) :
    ({ a with
        broker := (a.broker.attach role channel).2
        handedOut := a.handedOut ++ [(⟨a.broker.next⟩, role)] } : Account).Sound configuration := by
  have hfresh := h.next_not_mem hfew
  have hunused := h.link?_eq_none hfresh
  have hconnections := a.broker.connections_attach role channel
  have hlength : (a.broker.attach role channel).2.links.length = a.broker.links.length + 1 := by
    simp [Broker.attach]
  have hnumbers : (a.handedOut ++ [((⟨a.broker.next⟩ : ConnectionId), role)]).map (·.1)
      = a.handedOut.map (·.1) ++ [⟨a.broker.next⟩] := by
    rw [List.map_append]
    rfl
  exact {
    configuration_eq := h.configuration_eq
    connections_eq := by
      dsimp only
      rw [hconnections, hlength, h.connections_eq, List.range_succ, List.map_append, h.next_eq]
      rfl
    next_eq := by
      dsimp only
      rw [hlength]
      have hnext := congrArg ConnectionId.value h.next_eq
      simp only [ConnectionId.nth, Broker.attach] at hnext ⊢
      rw [hnext, ← UInt64.ofNat_one, ← UInt64.ofNat_add]
    handedOut_eq := by
      dsimp only
      rw [hnumbers, hconnections, h.handedOut_eq]
    detached_mem := by
      intro id hid
      rw [hnumbers]
      exact List.mem_append_left _ (h.detached_mem id hid)
    attached_iff := by
      intro id
      have hattached := h.attached_iff id
      dsimp only
      rw [hnumbers]
      -- A fresh number was not let go either.
      have hdetached : (⟨a.broker.next⟩ : ConnectionId) ∉ a.detached := fun hmem =>
        hfresh (h.detached_mem _ hmem)
      by_cases hid : id = ⟨a.broker.next⟩
      · subst hid
        simp [Broker.isAttached, Broker.attach, hdetached]
      · simpa [Broker.isAttached, Broker.attach, hid] using hattached
    routers := by
      intro p hp
      rcases List.mem_append.1 hp with hp | hp
      · -- What was there is found before what is new.
        obtain ⟨link, hlink, hlater⟩ := h.routers p hp
        refine ⟨link, ?_, hlater⟩
        dsimp only
        rw [Broker.link?_attach, hlink, Option.some_or]
      · rw [List.mem_singleton.1 hp]
        refine ⟨_, Broker.link?_attach_self hunused role channel, ?_⟩
        rw [h.configuration_eq]
        exact .refl
    decoded := by
      intro p hp
      rw [hnumbers]
      exact ⟨List.mem_append_left _ (h.decoded p hp).1, (h.decoded p hp).2⟩
    invocations := fun inv hinv => (h.invocations inv hinv).mono _ }

/-- A connection is let go if it was in the table. -/
theorem Sound.detach (h : a.Sound configuration) (id : ConnectionId) :
    (a.step (.detach id)).Sound configuration := by
  have hattached := h.attached_iff id
  unfold step Broker.detach
  dsimp only
  split
  · rename_i hfound
    exact { h with
      detached_mem := by
        intro other hother
        rcases List.mem_append.1 hother with hother | hother
        · exact h.detached_mem other hother
        · rw [List.mem_singleton.1 hother]
          exact (hattached.1 hfound).1
      attached_iff := by
        intro other
        have hbefore := h.attached_iff other
        simp only [Broker.isAttached, List.contains_iff_mem] at hbefore ⊢
        simp [hbefore, and_assoc] }
  · rename_i hfound
    exact { h with
      attached_iff := by
        intro other
        have hbefore := h.attached_iff other
        have hother : a.broker.isAttached other = true → other ≠ id := by
          rintro hmem rfl
          exact hfound hmem
        simp only [Broker.isAttached, List.contains_iff_mem] at hbefore hother ⊢
        rw [← hbefore]
        simpa using hother }

/-- A connection that was handed out has its router, bound to it. -/
theorem Sound.exists_link (h : a.Sound configuration) {id : ConnectionId}
    (hid : id ∈ a.handedOut.map (·.1)) :
    ∃ link, a.broker.link? id = some link ∧ link.router.Binds id ∧
      link.router.codec = (Codec.ofConfiguration configuration).boundTo id := by
  obtain ⟨p, hp, rfl⟩ := List.mem_map.1 hid
  obtain ⟨link, hlink, hlater⟩ := h.routers p hp
  exact ⟨link, hlink, (Router.binds_new _ _ _).later hlater, hlater.same.2⟩

/-! ### Invocations -/

/-- A step of an invocation is recorded, with what it has attached. -/
theorem Sound.record (h : a.Sound configuration) (hfew : a.handedOut.length < UInt64.size)
    {b' : Broker} (hmoves : a.broker.Moves b') {invocations : List Invocation}
    (hrouted : ∀ inv ∈ invocations, inv.Routed (.ofConfiguration configuration)
      (a.handedOut ++ (a.broker.attachedSince b').map fun id => (id, .initiator))) :
    (a.record b' invocations).Sound configuration := by
  unfold Account.record
  cases hmoves with
  | @keeps resolver id out hwrites =>
    have hnone : a.broker.attachedSince b' = [] := hwrites.attachedSince
    rw [hnone, List.map_nil, List.append_nil] at hrouted ⊢
    exact { (h.of_resolver resolver).of_writes hwrites with invocations := hrouted }
  | @adds resolver out hwrites =>
    rw [Broker.attachedSince_of_connect hwrites] at hrouted ⊢
    have hconnected := (h.of_resolver (resolver.give .established)).attach hfew .initiator
      resolver.channel
    exact { hconnected.of_writes hwrites with invocations := hrouted }

/-- An invocation is made, and one more is recorded. -/
theorem Sound.record_made (h : a.Sound configuration) (hfew : a.handedOut.length < UInt64.size)
    {reference : ObjectRef} {operation : String} {arguments : List Dynamic}
    {result : Progress × Broker} (hinvoke : a.broker.invoke reference operation arguments = result)
    (hmoves : a.broker.Moves result.2)
    (hrouted : (Invocation.made a.broker reference operation arguments result).Routed
      (.ofConfiguration configuration)
      (a.handedOut ++ (a.broker.attachedSince result.2).map fun id => (id, .initiator))) :
    (a.step (.invoke reference operation arguments)).Sound configuration := by
  simp only [step, hinvoke]
  refine h.record hfew hmoves fun inv hinv => ?_
  rcases List.mem_append.1 hinv with hinv | hinv
  · exact (h.invocations inv hinv).mono _
  · rw [List.mem_singleton.1 hinv]
    exact hrouted

theorem Sound.invoke (h : a.Sound configuration) (hfew : a.handedOut.length < UInt64.size)
    (reference : ObjectRef) (operation : String) (arguments : List Dynamic) :
    (a.step (.invoke reference operation arguments)).Sound configuration := by
  rcases a.broker.invoke_cases reference operation arguments with
    ⟨hnil, hinvoke⟩ | ⟨hobject, ⟨target, hroute, hinvoke⟩ | ⟨hroute, hinvoke⟩⟩
  · -- A nil reference is refused at once.
    have hsame : ∀ id, a.broker.Writes id [] a.broker := Broker.Writes.refl a.broker
    refine h.record_made hfew hinvoke (.keeps (hsame ⟨0⟩)) ?_
    refine .refused hnil ?_ (fun id => ?_) rfl
    · exact (Invocation.asked_note _ _ _).trans (hsame ⟨0⟩).askedSince
    · exact (Invocation.written_note _ _ _ id).trans (hsame id).writtenSince_self
  · -- The connection is in the table, so it was handed out.
    have hattached := (Option.filter_eq_some_iff.1 hroute).2
    obtain ⟨link, hlink, -, hcodec⟩ := h.exists_link ((h.attached_iff target).1 hattached).1
    obtain ⟨out, hwrites, hsingle⟩ :=
      Broker.single_invokeOn hlink hcodec reference operation arguments
    refine h.record_made hfew hinvoke (.keeps hwrites) ?_
    refine .bound hobject hroute ?_ ⟨fun id hid => ?_, ?_⟩
    · exact (Invocation.asked_note _ _ _).trans hwrites.askedSince
    · exact (Invocation.written_note _ _ _ id).trans (hwrites.writtenSince_other hid)
    · have hwritten : (Invocation.made a.broker reference operation arguments _).written target
          = out := (Invocation.written_note _ _ _ target).trans hwrites.writtenSince_self
      exact hwritten ▸ hsingle
  · -- The resolver is asked, and may have an answer at once.
    have hunused := h.link?_eq_none (h.next_not_mem hfew)
    have hasked : (a.broker.resolver.ask reference).asked.drop a.broker.resolver.asked.length
        = [reference] := List.drop_left
    refine h.record_made hfew hinvoke (Broker.moves_resolve hunused _ _ _ _).1 ?_
    refine Invocation.routed_of_resolve rfl hobject hroute hasked rfl rfl ?_ hunused ?_
    · exact {
        answered_eq := rfl
        attached_eq := rfl
        silent := fun _ => rfl
        held := by
          intro _ s hs
          cases hs }
    · rw [h.configuration_eq]

/-- An invocation takes a step and stays routed. -/
theorem Sound.onCall (h : a.Sound configuration) (hfew : a.handedOut.length < UInt64.size) (n : Nat)
    {move : Invocation → Call → Invocation × Broker}
    (hmove : ∀ inv ∈ a.invocations, ∀ call, inv.call? = some call →
      a.broker.Moves (move inv call).2 ∧
        (move inv call).1.Routed (.ofConfiguration configuration)
          (a.handedOut ++ (a.broker.attachedSince (move inv call).2).map fun id =>
            (id, .initiator))) :
    (a.onCall n move).Sound configuration := by
  unfold Account.onCall
  split
  · exact h
  · rename_i inv hinv
    split
    · exact h
    · rename_i call hcall
      obtain ⟨hmoves, hrouted⟩ := hmove inv (List.mem_of_getElem? hinv) call hcall
      refine h.record hfew hmoves fun other hother => ?_
      rcases List.mem_or_eq_of_mem_set hother with hother | rfl
      · exact (h.invocations other hother).mono _
      · exact hrouted

theorem Sound.proceed (h : a.Sound configuration) (hfew : a.handedOut.length < UInt64.size)
    (n : Nat) : (a.step (.proceed n)).Sound configuration := by
  rw [step]
  refine h.onCall hfew n fun inv hinv call hcall => ?_
  have hrouted := h.invocations inv hinv
  obtain ⟨hpending, hkept⟩ := Invocation.of_call? hcall
  cases call with
  | exchanging exchange =>
    obtain ⟨target, ⟨-, hsingle⟩, hnote⟩ := hrouted.of_exchanging hpending
    rw [hpending] at hsingle
    obtain ⟨more, hwrites, hsingle⟩ := a.broker.single_follow hsingle
    refine ⟨.keeps hwrites, Invocation.Routed.mono ?_ _⟩
    exact hnote hwrites hsingle
  | resolving reference operation arguments =>
    have hunused := h.link?_eq_none (h.next_not_mem hfew)
    obtain ⟨hobject, hroute, hasked, hwaits, hcall⟩ := hrouted.left_resolving hpending
    cases hcall
    refine ⟨(Broker.moves_resolve hunused _ _ _ _).1, ?_⟩
    refine Invocation.routed_of_resolve rfl hobject hroute ?_ rfl rfl hwaits hunused ?_
    · rw [hasked, List.drop_length]
      rfl
    · rw [h.configuration_eq]

/-- An invocation that is given up is not heard of again. -/
theorem Sound.giveUp (h : a.Sound configuration) (hfew : a.handedOut.length < UInt64.size)
    (n : Nat) : (a.step (.giveUp n)).Sound configuration := by
  rw [step]
  refine h.onCall hfew n fun inv hinv call hcall => ?_
  have hrouted := h.invocations inv hinv
  obtain ⟨hpending, -⟩ := Invocation.of_call? hcall
  cases call with
  | exchanging exchange =>
    obtain ⟨target, ⟨-, hsingle⟩, hnote⟩ := hrouted.of_exchanging hpending
    have hwrites := a.broker.writes_leave exchange
    rw [hpending] at hsingle
    rw [hsingle.connection_eq] at hwrites
    rw [← hpending, ← List.append_nil (inv.written target)] at hsingle
    refine ⟨.keeps hwrites, Invocation.Routed.mono ?_ _⟩
    exact hnote hwrites hsingle
  | resolving reference operation arguments =>
    refine ⟨.keeps (.refl a.broker ⟨0⟩), Invocation.Routed.mono ?_ _⟩
    exact hrouted.giveUp_resolving hpending

/-! ### Values that are decoded -/

theorem Sound.learn (h : a.Sound configuration) {id : ConnectionId}
    {result : Except Fault (List Dynamic) × Broker} (hwrites : a.broker.Writes id [] result.2)
    (hbound : ∀ xs, result.1 = .ok xs →
      id ∈ a.handedOut.map (·.1) ∧ ∀ x ∈ xs, x.BoundOnlyTo id) :
    (a.learn id result).Sound configuration :=
  { h.of_writes hwrites with
    decoded := by
      intro p hp
      rcases List.mem_append.1 hp with hp | hp
      · exact h.decoded p hp
      · cases hresult : result.1 with
        | error f =>
          rw [hresult] at hp
          cases hp
        | ok xs =>
          rw [hresult] at hp
          obtain ⟨hid, hxs⟩ := hbound xs hresult
          obtain ⟨x, hx, hp⟩ := List.mem_flatMap.1 hp
          obtain ⟨r, hr, rfl⟩ := List.mem_map.1 hp
          refine ⟨hid, fun hobject => ?_⟩
          rw [hxs x hx r hr, if_neg (by simp [hobject])] }

/-- What is decoded on a connection is bound to it. -/
theorem Sound.decode (h : a.Sound configuration) (id : ConnectionId) (body : MessageBody)
    (types : List TypeDesc) :
    (a.learn id (a.broker.onRouter id (.error .connectionLost)
      (·.decodeBody body types))).Sound configuration := by
  refine h.learn (a.broker.writes_onRouter id _ fun r => .single (.decodeBody r body types)) ?_
  intro xs hxs
  by_cases hid : id ∈ a.handedOut.map (·.1)
  · obtain ⟨link, hlink, hbinds, -⟩ := h.exists_link hid
    rw [Broker.onRouter_of_some hlink] at hxs
    exact ⟨hid, boundOnlyTo_of_decodeBody hbinds hxs⟩
  · rw [Broker.onRouter_of_none (h.link?_eq_none hid)] at hxs
    cases hxs

/-! ### Every action -/

/-- **One action.** The record stays right as long as there are numbers to hand out. -/
theorem sound_step (h : a.Sound configuration) (hfew : a.handedOut.length < UInt64.size)
    (action : Action) : (a.step action).Sound configuration := by
  cases action with
  | attach role => exact h.attach hfew role {}
  | detach id => exact h.detach id
  | setResolver supply => exact h.of_resolver _
  | invoke reference operation arguments => exact h.invoke hfew reference operation arguments
  | proceed n => exact h.proceed hfew n
  | giveUp n => exact h.giveUp hfew n
  | decodeArguments id request types => exact h.decode id request.body types
  | decodeResultsOn id reply types => exact h.decode id reply.body types
  | decodeResults reply types =>
    unfold step Broker.decodeResults
    dsimp only
    split
    · exact h.decode reply.connection reply.body types
    · refine h.learn (Broker.Writes.refl _ _) ?_
      intro xs hxs
      cases hxs
  | carry traffic =>
    obtain ⟨out, hwrites⟩ := a.broker.writes_carry traffic
    exact h.of_writes hwrites

theorem prefix_onCall (a : Account) (n : Nat) (move : Invocation → Call → Invocation × Broker) :
    a.handedOut <+: (a.onCall n move).handedOut ∧ a.decoded <+: (a.onCall n move).decoded := by
  unfold onCall
  split
  · exact ⟨List.prefix_rfl, List.prefix_rfl⟩
  · split
    · exact ⟨List.prefix_rfl, List.prefix_rfl⟩
    · exact ⟨List.prefix_append _ _, List.prefix_rfl⟩

/-- What was handed out and what was decoded stays on record. -/
theorem prefix_step (a : Account) (action : Action) :
    a.handedOut <+: (a.step action).handedOut ∧ a.decoded <+: (a.step action).decoded := by
  cases action with
  | attach role => exact ⟨List.prefix_append _ _, List.prefix_rfl⟩
  | invoke reference operation arguments => exact ⟨List.prefix_append _ _, List.prefix_rfl⟩
  | proceed n => exact a.prefix_onCall n _
  | giveUp n => exact a.prefix_onCall n _
  | decodeArguments id request types => exact ⟨List.prefix_rfl, List.prefix_append _ _⟩
  | decodeResultsOn id reply types => exact ⟨List.prefix_rfl, List.prefix_append _ _⟩
  | decodeResults reply types => exact ⟨List.prefix_rfl, List.prefix_append _ _⟩
  | _ => exact ⟨List.prefix_rfl, List.prefix_rfl⟩

theorem prefix_run (a : Account) (actions : List Action) :
    a.handedOut <+: (a.run actions).handedOut ∧ a.decoded <+: (a.run actions).decoded := by
  induction actions generalizing a with
  | nil => exact ⟨List.prefix_rfl, List.prefix_rfl⟩
  | cons action actions ih =>
    obtain ⟨hnumbers, hdecoded⟩ := a.prefix_step action
    obtain ⟨hnumbers', hdecoded'⟩ := ih (a.step action)
    exact ⟨hnumbers.trans hnumbers', hdecoded.trans hdecoded'⟩

theorem sound_run (h : a.Sound configuration) (actions : List Action)
    (hfew : (a.run actions).handedOut.length < UInt64.size) : (a.run actions).Sound configuration := by
  induction actions generalizing a with
  | nil => exact h
  | cons action actions ih =>
    -- What is handed out at the end was not handed out before.
    have hbefore := (a.prefix_run (action :: actions)).1.length_le
    exact ih (sound_step h (Nat.lt_of_le_of_lt hbefore hfew) action) hfew

end Account

/-! ## What callers rely on -/

/-- The invocation has written nothing but its request, under some number, and that on one
    connection only. -/
def Invocation.WritesOnly (c : Codec) (target : ConnectionId) (inv : Invocation) : Prop :=
  (∀ id, id ≠ target → inv.written id = []) ∧
    (inv.written target = [] ∨ ∃ number message,
      c.Requests inv.reference inv.operation inv.arguments number message ∧
        inv.written target = [message])

theorem Invocation.OnWay.writesOnly {c : Codec} {target : ConnectionId} {inv : Invocation}
    (h : inv.OnWay c target) : inv.WritesOnly c target := by
  obtain ⟨hother, hsingle⟩ := h
  refine ⟨hother, ?_⟩
  generalize inv.written target = out at hsingle ⊢
  generalize inv.progress = progress at hsingle
  cases hsingle with
  | trying h => exact .inl rfl
  | unsent f => exact .inl rfl
  | waiting h => exact .inr ⟨_, _, h, rfl⟩
  | replied h reply => exact .inr ⟨_, _, h, rfl⟩
  | unanswered h f => exact .inr ⟨_, _, h, rfl⟩

/-- **Routing.** What a broker of a configuration can be relied on for, given its dealings. -/
structure Account.Routing (configuration : Configuration) (a : Account) : Prop where
  /-- No number is handed out twice, whatever was let go in between. -/
  nodup : (a.handedOut.map (·.1)).Nodup
  /-- A router is there from when its number is handed out until its connection is let go, -/
  isSome_router?_iff : ∀ id, (a.broker.router? id).isSome ↔
    id ∈ a.handedOut.map (·.1) ∧ id ∉ a.detached
  /-- it is the one that was made for the number, at a later time, -/
  router?_later : ∀ id role, (id, role) ∈ a.handedOut → ∀ r, a.broker.router? id = some r →
    (Router.new id role (.ofConfiguration configuration)).Later r
  /-- and what is done on another connection is nothing to it. -/
  apart : ∀ traffic id, id ≠ traffic.connection →
    (a.broker.carry traffic).router? id = a.broker.router? id
  /-- A reference that was decoded on a connection is bound to it and stays so. -/
  bound : ∀ id r, (id, r) ∈ a.decoded → r.isNil = false →
    id ∈ a.handedOut.map (·.1) ∧ r.connection = some id
  kept : ∀ actions, a.decoded <+: (a.run actions).decoded
  /-- While its connection is in the table, an invocation of it uses that connection only. -/
  attached : ∀ id r, (id, r) ∈ a.decoded → r.isNil = false → ∀ inv ∈ a.invocations,
    inv.reference = r → inv.before.isAttached id = true →
    inv.asked = [] ∧ inv.WritesOnly (.ofConfiguration configuration) id
  /-- When it is no longer there, the invocation asks the resolver, once. It waits for the answer
      as long as the resolver is held, whatever else is done, and has written nothing then, and
      nothing if the resolver refuses. If the resolver has a connection, that is attached under the
      number that is next by then, and a copy of the reference that is bound to it is used for a
      request over it and over no other. -/
  detached : ∀ id r, (id, r) ∈ a.decoded → r.isNil = false → ∀ inv ∈ a.invocations,
    inv.reference = r → inv.before.isAttached id = false →
    inv.asked = [r] ∧
      ((inv.Waits ∧ inv.progress = .pending (.resolving r inv.operation inv.arguments)) ∨
        (∃ f, inv.Unresolved f) ∨
        ∃ target, inv.Reroutes a.handedOut target ∧
          inv.WritesOnly (.ofConfiguration configuration) target)
  /-- A nil reference reaches neither the resolver nor any connection. -/
  nil : ∀ inv ∈ a.invocations, inv.reference.isNil = true →
    inv.asked = [] ∧ ∀ id, inv.written id = []

/-- A reference is invoked over its connection exactly while that is in the table. -/
theorem Broker.route?_of_bound (b : Broker) {r : ObjectRef} {id : ConnectionId}
    (h : r.connection = some id) : b.route? r = if b.isAttached id then some id else none := by
  rw [route?, h, Option.filter_some]

theorem Account.routing_of_sound {configuration : Configuration} {a : Account}
    (h : a.Sound configuration) (hfew : a.handedOut.length < UInt64.size) :
    a.Routing configuration where
  nodup := h.nodup hfew
  isSome_router?_iff := by
    intro id
    rw [← h.attached_iff id, Broker.router?]
    by_cases hattached : a.broker.isAttached id = true
    · obtain ⟨link, hlink, -⟩ := h.exists_link ((h.attached_iff id).1 hattached).1
      simp [hattached, hlink]
    · simp [hattached]
  router?_later := by
    intro id role hid r hr
    obtain ⟨link, hlink, hlater⟩ := h.routers (id, role) hid
    unfold Broker.router? at hr
    split at hr
    · rw [hlink] at hr
      cases hr
      exact hlater
    · cases hr
  apart := by
    intro traffic id hid
    obtain ⟨out, hwrites⟩ := a.broker.writes_carry traffic
    rw [Broker.router?, Broker.router?, hwrites.other id hid, Broker.isAttached, Broker.isAttached,
      hwrites.attached_eq]
  bound := fun id r hr hobject => ⟨(h.decoded (id, r) hr).1, (h.decoded (id, r) hr).2 hobject⟩
  kept := fun actions => (a.prefix_run actions).2
  attached := by
    rintro id r hr hobject inv hinv rfl hattached
    have hbound := inv.before.route?_of_bound ((h.decoded _ hr).2 hobject)
    rw [if_pos hattached] at hbound
    cases h.invocations inv hinv with
    | refused hnil => exact absurd hnil (by simp [hobject])
    | bound _ hroute hasked hway =>
      obtain rfl := Option.some.inj (hbound.symm.trans hroute)
      exact ⟨hasked, hway.writesOnly⟩
    | resolving _ hroute => cases hbound.symm.trans hroute
    | unresolved _ hroute => cases hbound.symm.trans hroute
    | rerouted _ hroute => cases hbound.symm.trans hroute
  detached := by
    rintro id r hr hobject inv hinv rfl hattached
    have hbound := inv.before.route?_of_bound ((h.decoded _ hr).2 hobject)
    rw [hattached, if_neg Bool.false_ne_true] at hbound
    cases h.invocations inv hinv with
    | refused hnil => exact absurd hnil (by simp [hobject])
    | bound _ hroute => cases hbound.symm.trans hroute
    | resolving _ _ hasked hwaits hpending => exact ⟨hasked, .inl ⟨hwaits, hpending⟩⟩
    | unresolved _ _ hasked hunresolved => exact ⟨hasked, .inr (.inl ⟨_, hunresolved⟩)⟩
    | rerouted _ _ hasked hreroutes hway =>
      exact ⟨hasked, .inr (.inr ⟨_, hreroutes, hway.writesOnly⟩)⟩
  nil := by
    intro inv hinv hnil
    cases h.invocations inv hinv with
    | refused _ hasked hsilent => exact ⟨hasked, hsilent⟩
    | bound hobject => exact absurd hnil (by simp [hobject])
    | resolving hobject => exact absurd hnil (by simp [hobject])
    | unresolved hobject => exact absurd hnil (by simp [hobject])
    | rerouted hobject => exact absurd hnil (by simp [hobject])

/-- A broker of any configuration, after any actions in any order, as long as it has not run out of
    numbers: its connections keep apart, and each invocation of a reference that was decoded on one
    of them goes over that connection, or, once it is gone, over one established for it. -/
theorem routing (configuration : Configuration) (actions : List Action)
    (hfew : ((Account.start configuration).run actions).handedOut.length < UInt64.size) :
    ((Account.start configuration).run actions).Routing configuration :=
  Account.routing_of_sound
    (Account.sound_run (Account.sound_start configuration) actions hfew) hfew

/-- A reference as it is sent. -/
def sentReference : List UInt8 := [2, 0, 0, 0, 83, 0, 0, 0, 1, 0, 0, 0, 5]

/-- The same reference as it is decoded on the first connection. -/
def storedReference : ObjectRef := ⟨"S", [5], some ⟨1⟩⟩

/-- The reference is invoked over its connection, and once more when that was closed. When it was
    let go the resolver is asked, and while it is held another connection is attached; then it has
    one to give, which is stuck at first, and after that none. -/
def storedReferenceActions : List Action :=
  [.attach .acceptor,
    .decodeArguments ⟨1⟩ ⟨⟨1, true, [7], "op"⟩, ⟨sentReference, 0⟩⟩ [.objectRef "S"],
    .invoke storedReference "a" [], .carry (.close ⟨1⟩), .invoke storedReference "b" [],
    .detach ⟨1⟩, .setResolver { held := true }, .invoke storedReference "c" [],
    .attach .acceptor, .proceed 2, .setResolver { available := 1, stuck := true }, .proceed 2,
    .carry (.setHeld ⟨3⟩ false), .proceed 2, .invoke storedReference "d" [], .invoke .nil "e" []]

/-- What comes of it: the first request goes over the first connection. The third goes over the
    connection that has the number after the one that was attached in between. -/
theorem routing_storedReference :
    let a := (Account.start {}).run storedReferenceActions
    a.handedOut.length < UInt64.size ∧
      a.handedOut = [(⟨1⟩, .acceptor), (⟨2⟩, .acceptor), (⟨3⟩, .initiator)] ∧
      a.detached = [⟨1⟩] ∧ a.decoded = [(⟨1⟩, storedReference)] ∧
      a.invocations.map (fun inv =>
          (inv.asked, inv.attached, inv.written ⟨1⟩, inv.written ⟨2⟩, inv.written ⟨3⟩)) =
        [([], [], [[1, 2, 0, 0, 2, 0, 0, 0, 1, 0, 0, 0, 1, 0, 0, 0, 5, 0, 0, 0, 2, 0, 0, 0, 97, 0]],
            [], []),
          ([], [], [], [], []),
          ([storedReference], [⟨3⟩], [], [],
            [[1, 2, 0, 0, 1, 0, 0, 0, 1, 0, 0, 0, 1, 0, 0, 0, 5, 0, 0, 0, 2, 0, 0, 0, 99, 0]]),
          ([storedReference], [], [], [], []), ([], [], [], [], [])] ∧
      a.Routing {} := by
  have hfew : ((Account.start {}).run storedReferenceActions).handedOut.length < UInt64.size := by
    have hlength : ((Account.start {}).run storedReferenceActions).handedOut.length = 3 := by
      rfl
    rw [hlength]
    decide
  exact ⟨hfew, by rfl, by rfl, by rfl, by rfl, routing {} storedReferenceActions hfew⟩

end ObjectBroker
