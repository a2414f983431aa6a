import ObjectBroker.Codec.Decode
import ObjectBroker.Proofs.Values.Received
import ObjectBroker.Proofs.Wire.Outcome

/-!
# `ObjectBroker.Proofs.Codec.Binding` — what the binding of a codec changes

Two codecs that differ only in the connection they are bound to read the same octets. They stop at
the same place, with the same fault if there is one, and otherwise the values they give differ in
the connections of the references alone. So reading with one of them is reading with the other, with
the references of the result bound afterwards.

As an equation between reads this covers both outcomes at once, and it is kept by everything a read
is made of, since binding the references of a composite value binds those of its parts.
-/

namespace ObjectBroker

/-! ## Results reshaped -/

namespace Read

variable {α β γ : Type}

/-- Results reshaped one by one are the results reshaped together. -/
theorem times_map (f : α → β) (r : Read α) (n : Nat) :
    times n (f <$> r) = List.map f <$> times n r := by
  induction n with
  | zero => simp only [times, map_pure, List.map_nil]
  | succ n ih => simp only [times, ih, map_bind, bind_map_left, map_pure, List.map_cons]

theorem each_map (f : β → γ) (r : α → Read β) (as : List α) :
    each (fun a => f <$> r a) as = List.map f <$> each r as := by
  induction as with
  | nil => simp only [each, map_pure, List.map_nil]
  | cons a as ih => simp only [each, ih, map_bind, bind_map_left, map_pure, List.map_cons]

end Read

/-! ## One node, given its parts -/

variable (c : Codec) (binding : Option ConnectionId)

/-- The connection is the last thing a reference is given, and nil is given none. -/
theorem decodeReference_binding :
    Decode.reference { c with binding }
      = (·.receivedOver binding) <$> Decode.reference c := by
  unfold Decode.reference
  simp only [map_bind, map_pure]
  refine congrArg _ (funext fun interface => congrArg _ (funext fun key => congrArg pure ?_))
  cases hnil : ObjectRef.isNil ⟨interface, key, none⟩ with
  | true => rfl
  | false =>
    have hnil' : ObjectRef.isNil ⟨interface, key, c.binding⟩ = false := hnil
    simp only [ObjectRef.receivedOver, hnil', Bool.false_eq_true, if_false]

section Parts

variable {read : PartReader} (enclosing : List TypeDesc)

theorem decodeElements_map (f : Payload → Payload)
    (hoctet : ∀ octet, f (.scalar (.octet octet)) = .scalar (.octet octet)) (s : Settings)
    (element : TypeDesc) (bound : Option UInt32) :
    Decode.elements s (fun enclosing type => f <$> read enclosing type) enclosing element bound
      = List.map f <$> Decode.elements s read enclosing element bound := by
  unfold Decode.elements
  simp only [map_bind]
  refine congrArg _ (funext fun count => ?_)
  cases bound.filter (· < count) with
  | some b => rfl
  | none =>
    dsimp only
    split
    · -- Octets are taken as one run, without the reader of parts; none of them is a reference.
      simp only [map_bind, map_pure, List.map_map, Function.comp_def, hoctet]
    · exact Read.times_map f _ _

theorem decodeAlternative_map (f : Payload → Payload)
    (hunion : ∀ d value, f (.union d value) = .union d (f value)) (s : Settings)
    (union : UnionType) :
    Decode.alternative s (fun enclosing type => f <$> read enclosing type) enclosing union
      = f <$> Decode.alternative s read enclosing union := by
  unfold Decode.alternative
  simp only [map_bind]
  refine congrArg _ (funext fun d => ?_)
  cases union.selected? d with
  | none => rfl
  | some b => simp only [map_bind, bind_map_left, map_pure, hunion]

/-- **One node.** If binding its parts afterwards makes no difference, nor does it for a node. -/
theorem decodeNode_binding (levels : Nat) (type : TypeDesc) :
    Decode.node { c with binding } levels
        (fun enclosing type => (·.receivedOver binding) <$> read enclosing type) enclosing type
      = (·.receivedOver binding) <$> Decode.node c levels read enclosing type := by
  unfold Decode.node
  cases type.resolve with
  | null => rfl
  | typedef name underlying => rfl
  | scalar kind =>
    simp only [map_bind, map_pure]
    rfl
  | string =>
    simp only [map_bind, map_pure]
    rfl
  | wstring =>
    simp only [map_bind, map_pure]
    rfl
  | enum name enumerators =>
    simp only [map_bind, map_pure]
    rfl
  | objectRef interface =>
    simp only [decodeReference_binding, bind_map_left, map_bind, map_pure,
      Payload.receivedOver_objectRef]
  | any =>
    simp only [Decode.content, bind_map_left, map_bind, map_pure, Payload.receivedOver_any]
  | sequence element bound =>
    have helements := @decodeElements_map read enclosing (·.receivedOver binding) (fun _ => rfl)
      c.settings element bound
    simp only [helements, bind_map_left, map_bind, map_pure, Payload.receivedOver_sequence]
  | array element length =>
    simp only [Read.times_map, bind_map_left, map_bind, map_pure, Payload.receivedOver_array]
  | struct name members =>
    simp only [Read.each_map, bind_map_left, map_bind, map_pure, Payload.receivedOver_struct]
  | union name discriminant branches =>
    exact decodeAlternative_map enclosing _ (Payload.receivedOver_union binding) c.settings _
  | recursive name =>
    dsimp only
    cases TypeDesc.enclosing? name enclosing with
    | some target => rfl
    | none => rfl

end Parts

/-! ## Whole values -/

namespace Codec

/-- **Values.** Within any number of levels, another binding gives the same value with its
    references bound otherwise. -/
theorem decode_binding (levels : Nat) :
    ({ c with binding } : Codec).decode levels
      = fun enclosing type => (·.receivedOver binding) <$> c.decode levels enclosing type := by
  induction levels with
  | zero => rfl
  | succ levels ih =>
    funext enclosing type
    rw [decode, decode, ih]
    exact decodeNode_binding c binding enclosing levels type

theorem readValue_binding (type : TypeDesc) :
    ({ c with binding } : Codec).readValue type
      = (·.receivedOver binding) <$> c.readValue type := by
  simp only [readValue, decode_binding, bind_map_left, map_bind, map_pure, Dynamic.receivedOver]

/-- A value is read as it is received over the codec's own connection. -/
theorem receivedOver_of_readValue {c : Codec} {type : TypeDesc} {start stop : Cursor} {x : Dynamic}
    (h : c.readValue type start = .ok x stop) : x.receivedOver c.binding = x := by
  have hsame : c.readValue type = (·.receivedOver c.binding) <$> c.readValue type :=
    readValue_binding c c.binding type
  -- Reading gives both the value and the value as received, so they are one.
  have hboth := h.symm.trans ((congrFun hsame start).trans (Read.map_of_ok _ h))
  injection hboth with hx
  exact hx.symm

/-- Every reference that is read is bound to the codec's own connection, except that nil is bound to
    none. -/
theorem connection_of_readValue {c : Codec} {type : TypeDesc} {start stop : Cursor} {x : Dynamic}
    (h : c.readValue type start = .ok x stop) :
    ∀ r ∈ x.payload.references, r.connection = if r.isNil then none else c.binding := by
  rw [← receivedOver_of_readValue h]
  intro r hr
  rw [Dynamic.receivedOver, Payload.receivedOver, Payload.references_mapReferences] at hr
  obtain ⟨sent, -, rfl⟩ := List.mem_map.1 hr
  exact sent.connection_receivedOver c.binding

end Codec

/-! ## Two readers of one message -/

/-- The value with each reference to an object replaced by its copy bound to a connection. -/
def Dynamic.boundTo (id : ConnectionId) (x : Dynamic) : Dynamic :=
  { x with payload := x.payload.mapReferences fun r => if r.isNil then r else r.reboundTo id }

/-- Read from the same place under a codec and under the same codec bound to a connection, a value
    fails alike; or it is read up to the same place, with each reference to an object bound to that
    connection and each nil bound to none. -/
def Codec.ReadsAlike (c : Codec) (id : ConnectionId) (type : TypeDesc) (start : Reader) : Prop :=
  (∃ f stop, start.run (c.readValue type) = (.error f, stop) ∧
    start.run ((c.boundTo id).readValue type) = (.error f, stop)) ∨
  ∃ x stop, start.run (c.readValue type) = (.ok x, stop) ∧
    start.run ((c.boundTo id).readValue type) = (.ok (x.boundTo id), stop) ∧
    ∀ r ∈ (x.boundTo id).payload.references, r.isNil = true → r.connection = none

namespace Codec

/-- A value that was read is received as its copy bound to the connection it is received over. -/
theorem boundTo_of_readValue {c : Codec} {type : TypeDesc} {start stop : Cursor} {x : Dynamic}
    (h : c.readValue type start = .ok x stop) (id : ConnectionId) :
    x.receivedOver (some id) = x.boundTo id := by
  have hrefs := connection_of_readValue h
  rw [Dynamic.receivedOver, Dynamic.boundTo, Payload.receivedOver]
  congr 1
  refine Payload.mapReferences_congr fun r hr => ?_
  cases hnil : r.isNil with
  | true =>
    -- The nil that was read is bound to none, so it is the nil that would be received.
    have hfree := hrefs r hr
    rw [hnil, if_pos rfl] at hfree
    rw [ObjectRef.receivedOver, hnil, if_pos rfl, if_pos rfl, ObjectRef.eq_nil_of_isNil hnil hfree]
  | false => exact ObjectRef.receivedOver_some_of_not_isNil id hnil

theorem readsAlike (c : Codec) (id : ConnectionId) (type : TypeDesc) (start : Reader) :
    c.ReadsAlike id type start := by
  have hbound : (c.boundTo id).readValue type = (·.receivedOver (some id)) <$> c.readValue type :=
    readValue_binding c (some id) type
  cases hread : c.readValue type start.cursor with
  | error f stop =>
    have hread' := (congrFun hbound start.cursor).trans (Read.map_of_error _ hread)
    refine .inl ⟨f, { start with cursor := stop }, ?_, ?_⟩
    · simp only [Reader.run, hread]
    · simp only [Reader.run, hread']
  | ok x stop =>
    have hread' := (congrFun hbound start.cursor).trans (Read.map_of_ok _ hread)
    rw [boundTo_of_readValue hread] at hread'
    refine .inr ⟨x, { start with cursor := stop }, ?_, ?_, ?_⟩
    · simp only [Reader.run, hread]
    · simp only [Reader.run, hread']
    · intro r hr hnil
      rw [connection_of_readValue hread' r hr, hnil, if_pos rfl]

end Codec

end ObjectBroker
