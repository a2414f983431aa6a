import ObjectBroker.Proofs.Codec.Binding
import ObjectBroker.Proofs.Session.History

/-!
# `ObjectBroker.Proofs.Session.Binding` — received references stay on their connection

A reference that comes in over a connection may be invoked over that connection only. What keeps it
there is that the router of a connection reads with a codec bound to the connection, and that
nothing that happens on the connection gives the router another codec.
-/

namespace ObjectBroker

/-! ## The codec of a router -/

/-- The router of a connection, which binds what it reads to that connection. -/
structure Router.Binds (connection : ConnectionId) (r : Router) : Prop where
  connection_eq : r.connection = connection
  binding_eq : r.codec.binding = some connection

/-- A router binds what it reads for as long as it is there. -/
theorem Router.Binds.later {connection : ConnectionId} {r r' : Router} (h : r.Binds connection)
    (hlater : r.Later r') : r'.Binds connection :=
  ⟨hlater.same.1.trans h.connection_eq, hlater.same.2 ▸ h.binding_eq⟩

theorem Router.binds_new (connection : ConnectionId) (role : Role) (codec : Codec) :
    (new connection role codec).Binds connection :=
  ⟨rfl, rfl⟩

/-- Whatever happens on a connection, its router binds what it reads to it. -/
theorem Session.binds_run (connection : ConnectionId) (role : Role) (codec : Codec)
    (ops : List Operation) : ((start connection role codec).run ops).router.Binds connection := by
  have hlater := (start connection role codec).later_run ops
  exact (Router.binds_new connection role codec).later hlater

/-! ## The values of a received message -/

/-- Each reference to an object in the value is bound to the connection, and each nil to none. -/
def Dynamic.BoundOnlyTo (connection : ConnectionId) (x : Dynamic) : Prop :=
  ∀ r ∈ x.payload.references, r.connection = if r.isNil then none else some connection

theorem boundOnlyTo_of_decode {connection : ConnectionId} {c : Codec}
    (hbinding : c.binding = some connection) {body : MessageBody} {types : List TypeDesc}
    {xs : List Dynamic} (h : body.decode c types = .ok xs) :
    ∀ x ∈ xs, x.BoundOnlyTo connection := by
  unfold MessageBody.decode at h
  cases hseek : (Reader.ofOctets body.message).seek body.offset with
  | mk started start =>
    simp only [hseek, bind, Except.bind] at h
    cases started with
    | error f => cases h
    | ok _ =>
      dsimp only [Reader.run] at h
      cases hread : Read.each c.readValue types start.cursor with
      | error f stop =>
        simp only [hread] at h
        cases h
      | ok ys stop =>
        simp only [hread] at h
        cases h
        intro x hx
        obtain ⟨type, -, c₁, c₂, hvalue⟩ := Read.mem_of_each hread x hx
        rw [Dynamic.BoundOnlyTo, ← hbinding]
        exact Codec.connection_of_readValue hvalue

theorem boundOnlyTo_of_decodeBody {connection : ConnectionId} {r : Router}
    (h : r.Binds connection) {body : MessageBody} {types : List TypeDesc} {xs : List Dynamic}
    (hdecode : (r.decodeBody body types).1 = .ok xs) : ∀ x ∈ xs, x.BoundOnlyTo connection := by
  have hbody : body.decode r.codec types = .ok xs := by
    unfold Router.decodeBody at hdecode
    cases hvalues : body.decode r.codec types with
    | ok ys =>
      simp only [hvalues] at hdecode
      exact hdecode
    | error f =>
      simp only [hvalues] at hdecode
      cases hdecode
  exact boundOnlyTo_of_decode h.binding_eq hbody

/-- **Reference binding.** A codec bound to a connection reads what any other codec of the same
    parameters reads, to the same fault or to the same place and with the same values, except that
    each reference to an object is bound to the connection and each nil to none. So whatever has
    happened on a connection, each reference to an object among the arguments and results that its
    router decodes is bound to that connection. -/
theorem references_bound_to_connection :
    (∀ (c : Codec) (id : ConnectionId) (type : TypeDesc) (start : Reader),
      c.ReadsAlike id type start) ∧
    ∀ (connection : ConnectionId) (role : Role) (codec : Codec) (ops : List Operation),
      let r := ((Session.start connection role codec).run ops).router
      r.connection = connection ∧
      (∀ request types xs, (r.decodeArguments request types).1 = .ok xs →
        ∀ x ∈ xs, x.BoundOnlyTo connection) ∧
      ∀ reply types xs, (r.decodeResults reply types).1 = .ok xs →
        ∀ x ∈ xs, x.BoundOnlyTo connection := by
  refine ⟨Codec.readsAlike, fun connection role codec ops => ?_⟩
  have hbinds := Session.binds_run connection role codec ops
  refine ⟨hbinds.connection_eq, ?_, ?_⟩
  · intro request types xs hdecode
    exact boundOnlyTo_of_decodeBody hbinds hdecode
  · intro reply types xs hdecode
    exact boundOnlyTo_of_decodeBody hbinds hdecode

/-- A request with one argument: a reference to an object and nil, each inside an `any`. -/
def carriedPair : List UInt8 :=
  [1, 2, 0, 0, 1, 0, 0, 0, 1, 0, 0, 0, 1, 0, 0, 0, 7, 0, 0, 0, 3, 0, 0, 0, 111, 112, 0, 0,
    2, 0, 0, 0, 14, 0, 0, 0, 2, 0, 0, 0, 83, 0, 0, 0, 2, 0, 0, 0, 83, 0, 0, 0, 1, 0, 0, 0,
    5, 0, 0, 0, 14, 0, 0, 0, 2, 0, 0, 0, 83, 0, 0, 0, 1, 0, 0, 0, 0, 0, 0, 0, 0, 0, 0, 0]

/-- The argument as it is decoded on the connection. -/
def receivedPair : Dynamic :=
  ⟨.sequence .any none,
    .sequence [.any (.objectRef "S") (.objectRef ⟨"S", [5], some ⟨9⟩⟩),
      .any (.objectRef "S") (.objectRef .nil)]⟩

/-- The router of the connection, made with a codec of another one, once the request is in. -/
def pairRouter : Router :=
  ((Session.start ⟨9⟩ .acceptor { binding := some ⟨3⟩ }).run [.handle carriedPair]).router

/-- The values are decoded as the arguments of a request and as the results of a reply. -/
theorem references_bound_to_connection_pair :
    (pairRouter.decodeArguments ⟨⟨1, true, [7], "op"⟩, ⟨carriedPair, 27⟩⟩ [.sequence .any none]).1
        = .ok [receivedPair] ∧
      (pairRouter.decodeResults ⟨⟨9⟩, ⟨1, .noException⟩, ⟨carriedPair, 27⟩⟩
        [.sequence .any none]).1 = .ok [receivedPair] ∧
      ∀ x ∈ [receivedPair], x.BoundOnlyTo ⟨9⟩ := by
  have hdecode : (pairRouter.decodeBody ⟨carriedPair, 27⟩ [.sequence .any none]).1
      = .ok [receivedPair] := by
    rfl
  obtain ⟨-, harguments, -⟩ := references_bound_to_connection.2 ⟨9⟩ .acceptor
    { binding := some ⟨3⟩ } [.handle carriedPair]
  exact ⟨hdecode, hdecode, harguments ⟨⟨1, true, [7], "op"⟩, ⟨carriedPair, 27⟩⟩ _ _ hdecode⟩

end ObjectBroker
