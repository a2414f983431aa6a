import ObjectBroker.Proofs.Builder.Parts
import ObjectBroker.Proofs.Codec.Allowance
import ObjectBroker.Proofs.Codec.Atomic
import ObjectBroker.Proofs.Codec.Plain

/-!
# `ObjectBroker.Proofs.Builder.RoundTrip` — structs and unions written and read back

A struct or union is written by walking its parts, and so it takes no level of its own. It is read
back as a value, and a value does take a level. So what was written within a limit may be one level
too deep for a reader with the same limit. A reader with one level more gives the struct or union
back, and the same limit either is enough or is what the reader reports. It is enough for everything
that is written as a value, too.

The values here carry no others; what a reader asks of descriptions inside a value is another matter.
-/

namespace ObjectBroker

/-! ## Builders as their receiver sees them -/

/-- A struct as it arrives. -/
def StructValue.receivedOver (binding : Option ConnectionId) (s : StructValue) : StructValue :=
  { s with
    fields := s.fields.map (·.receivedOver binding)
    complete := by simpa using s.complete }

/-- A union as it arrives: with the same branch active. -/
def UnionValue.receivedOver (binding : Option ConnectionId) (u : UnionValue) : UnionValue :=
  { u with
    active := u.active.map fun held => { held with value := held.value.receivedOver binding } }

theorem StructValue.toDynamic_receivedOver (binding : Option ConnectionId) (s : StructValue) :
    (s.receivedOver binding).toDynamic = s.toDynamic.receivedOver binding := by
  simp only [receivedOver, toDynamic, Dynamic.receivedOver, Payload.receivedOver_struct]

theorem UnionValue.toDynamic_receivedOver (binding : Option ConnectionId) {u : UnionValue}
    {x : Dynamic} (h : u.toDynamic = .ok x) :
    (u.receivedOver binding).toDynamic = .ok (x.receivedOver binding) := by
  obtain ⟨type, shape, active, hshape⟩ := u
  cases active with
  | none => cases h
  | some held =>
    cases h
    rfl

/-! ## Unions as they are built -/

/-- A union as it is built by the operations on unions, from a type that passed its checks. -/
inductive UnionValue.Built : UnionValue → Prop
  | new {type : TypeDesc} {u : UnionValue} : type.wellFormed = true → UnionValue.new type = .ok u →
      Built u
  | ofDynamic {x : Dynamic} {u : UnionValue} : x.type.wellFormed = true →
      UnionValue.ofDynamic x = .ok u → Built u
  | setDiscriminant {u u' : UnionValue} {d : Int64} : Built u → u.setDiscriminant d = .ok u' →
      Built u'
  | set {u u' : UnionValue} {name : String} {x : Dynamic} : Built u → u.set name x = .ok u' →
      Built u'

namespace UnionValue

theorem type_of_ofDynamic {x : Dynamic} {u : UnionValue} (h : UnionValue.ofDynamic x = .ok u) :
    u.type = x.type := by
  obtain ⟨empty, position, d, value, hnew, -, rfl⟩ := exists_of_ofDynamic_eq_ok h
  exact (of_new_eq_ok hnew).1

/-- No operation changes the type. -/
theorem Built.wellFormed {u : UnionValue} (h : u.Built) : u.type.wellFormed = true := by
  induction h with
  | new hchecked hnew => rwa [(of_new_eq_ok hnew).1]
  | ofDynamic hchecked hu => rwa [type_of_ofDynamic hu]
  | setDiscriminant _ hset ih =>
    obtain ⟨position, value, -, rfl⟩ := exists_of_setDiscriminant_eq_ok hset
    exact ih
  | set _ hset ih =>
    obtain ⟨position, b, d, -, -, -, rfl⟩ := exists_of_set_eq_ok hset
    exact ih

/-- **Coherence.** However a union is built, its discriminant selects the branch that is held. By
    induction on the operations; only `set` needs the table to be checked. -/
theorem Built.coherent {u : UnionValue} (h : u.Built) : u.Coherent := by
  induction h with
  | new _ hnew => exact coherent_new hnew
  | ofDynamic _ hu => exact coherent_ofDynamic hu
  | setDiscriminant _ hset _ => exact coherent_setDiscriminant hset
  | @set u u' name x hbuilt hset ih =>
    have hchecked := TypeDesc.everyNode_resolve hbuilt.wellFormed
    rw [TypeDesc.union?_eq_some_iff.1 u.isUnion] at hchecked
    exact coherent_set (TypeDesc.wellFormed_union_iff.1 hchecked).1 ih hset

end UnionValue

/-! ## Structs and unions -/

variable {c : Codec} {before written : List UInt8}

/-- **Read back.** What becomes of a piece that was written within the limit of a codec and may be
    one level too deep for it, as the value that the piece is. -/
structure ReadBack {β : Type} (c : Codec) (read : Codec → Read β) (x : Dynamic)
    (before written : List UInt8) (b : β) : Prop where
  /-- A codec with one level more gives the value back and stops where the piece ends. -/
  deeper : ∀ after, Reader.readAt (before ++ written ++ after) before.length
    (read (c.limitedTo (c.maxDepth + 1))) = .ok (b, before.length + written.length)
  /-- The codec itself does the same, or it reports its limit. -/
  here : ∀ after,
    Reader.readAt (before ++ written ++ after) before.length (read c)
        = .ok (b, before.length + written.length) ∨
      Reader.readAt (before ++ written ++ after) before.length (read c)
        = .error (.depthExceeded c.maxDepth)
  /-- It does the same wherever it writes the value, level by level. -/
  asValue : ∀ written' after, c.writeValue x ⟨before⟩ = (.ok (), ⟨before ++ written'⟩) →
    Reader.readAt (before ++ written ++ after) before.length (read c)
      = .ok (b, before.length + written.length)

/-- A value that carries no others is recovered as whatever is made of it. -/
theorem recovers_taken {β : Type} {x : Dynamic} {take : Dynamic → Except Fault β} {b : β}
    (hfit : x.type.ordinalsFit = true) (hplain : x.payload.Plain)
    (htake : take (x.receivedOver c.binding) = .ok b) :
    Recovers (c.value x) (c.readValue x.type >>= fun y => TypeCode.checked (take y)) b := by
  have hpayload := recovers_encode_plain (c := c) c.maxDepth hfit hplain
  have hvalue : Recovers (c.value x) (c.readValue x.type) (x.receivedOver c.binding) :=
    hpayload.map (Dynamic.mk x.type)
  refine hvalue.finish ?_
  rw [htake]
  rfl

/-- A piece that a codec with one level more writes for a value is read back as that value. -/
theorem ReadBack.of_deeper {β : Type} {x : Dynamic} {take : Dynamic → Except Fault β} {b : β}
    (hfit : x.type.ordinalsFit = true) (hplain : x.payload.Plain)
    (htake : take (x.receivedOver c.binding) = .ok b)
    (hdeeper : (c.limitedTo (c.maxDepth + 1)).value x before.length = .ok written) :
    ReadBack c (fun c => c.readValue x.type >>= fun y => TypeCode.checked (take y)) x before written
      b := by
  have hread := fun after =>
    (recovers_taken (c := c.limitedTo (c.maxDepth + 1)) hfit hplain htake).readAt hdeeper after
  refine ⟨hread, ?here, ?asValue⟩
  case here =>
    intro after
    have hwithin := within_decode (c := c) c.maxDepth (c.maxDepth + 1) (Nat.le_succ c.maxDepth) []
      x.type
    have hboth := (hwithin.map (Dynamic.mk x.type)).bind fun y =>
      Read.Within.refl (TypeCode.checked (take y))
    rcases hboth.readAt (before ++ written ++ after) before.length with hsame | hfault
    · exact .inl (hsame.trans (hread after))
    · exact .inr hfault
  case asValue =>
    intro written' after hput
    have hhere := (wholeOrNothing_writeValue c x).eq_ok_iff.1 hput
    -- With one level more the codec writes the same, so both pieces are the same octets.
    have hextends := extends_encode (c := c) c.maxDepth (c.maxDepth + 1) (Nat.le_succ c.maxDepth) []
      x.type x.payload _ _ hhere
    obtain rfl : written = written' := Except.ok.inj (hdeeper.symm.trans hextends)
    exact (recovers_taken hfit hplain htake).readAt hhere after

/-- With one level more a codec writes a struct as a value, with the same octets. -/
theorem StructValue.extends_value (c : Codec) (s : StructValue) :
    ((c.limitedTo (c.maxDepth + 1)).value s.toDynamic).Extends (c.structValue s) := by
  have htype := TypeDesc.struct?_eq_some_iff.1 s.isStruct
  have hnode : (c.limitedTo (c.maxDepth + 1)).value s.toDynamic
      = Encode.fields ((c.limitedTo (c.maxDepth + 1)).encode c.maxDepth) [] s.shape s.fields := by
    simp only [Codec.value, toDynamic, Codec.maxDepth_limitedTo, Codec.encode, Encode.node, htype,
      StructType.desc]
  rw [hnode]
  refine Emit.Extends.congruence.fields s.shape s.fields fun p _ => ?_
  exact extends_encode (c := c) c.maxDepth (c.maxDepth + 1) (Nat.le_refl _) _ p.1.type p.2

/-- And so it does a union. -/
theorem UnionValue.extends_value (c : Codec) {u : UnionValue} {x : Dynamic}
    (h : u.toDynamic = .ok x) :
    ((c.limitedTo (c.maxDepth + 1)).value x).Extends (c.unionValue u) := by
  obtain ⟨type, shape, active, hshape⟩ := u
  cases active with
  | none => cases h
  | some held =>
    obtain rfl : ⟨type, .union held.discriminant held.value⟩ = x := Except.ok.inj h
    have htype := TypeDesc.union?_eq_some_iff.1 hshape
    simp only [Codec.value, Codec.maxDepth_limitedTo, Codec.encode, Encode.node, htype,
      UnionType.desc]
    refine Emit.Extends.congruence.alternative c.settings shape held.discriminant held.value
      fun b _ => ?_
    exact extends_encode (c := c) c.maxDepth (c.maxDepth + 1) (Nat.le_refl _) _ b.type held.value

/-- **Structs and unions read back.** A struct, or a union that holds a branch, without values of any
    type in it, is written behind some content. Then a reader of its type that is placed there gives
    it back as its receiver sees it, if it has one level more; and a reader with the same limit does
    so, too, or reports that limit, which it does not do for what is also written as a value. -/
theorem readBack_of_written (c : Codec) (before written : List UInt8) :
    (∀ s : StructValue, s.type.ordinalsFit = true → s.toDynamic.payload.Plain →
      c.writeStruct s ⟨before⟩ = (.ok (), ⟨before ++ written⟩) →
      ReadBack c (·.readStruct s.type) s.toDynamic before written (s.receivedOver c.binding)) ∧
    (∀ (u : UnionValue) (x : Dynamic), u.Built → u.toDynamic = .ok x → u.type.ordinalsFit = true →
      x.payload.Plain → c.writeUnion u ⟨before⟩ = (.ok (), ⟨before ++ written⟩) →
      ReadBack c (·.readUnion u.type) x before written (u.receivedOver c.binding)) := by
  constructor
  · intro s hfit hplain hwrite
    have hwritten := (wholeOrNothing_writeStruct c s).eq_ok_iff.1 hwrite
    refine ReadBack.of_deeper hfit hplain ?_ (s.extends_value c _ _ hwritten)
    rw [← StructValue.toDynamic_receivedOver]
    exact StructValue.ofDynamic_toDynamic _
  · intro u x hbuilt hx hfit hplain hwrite
    have hwritten := (wholeOrNothing_writeUnion c u).eq_ok_iff.1 hwrite
    have hcoherent : (u.receivedOver c.binding).Coherent := by
      intro held hheld
      obtain ⟨sent, hsent, rfl⟩ := Option.map_eq_some_iff.1 hheld
      exact hbuilt.coherent sent hsent
    obtain htype : u.type = x.type := UnionValue.type_of_toDynamic hx
    rw [htype] at hfit ⊢
    refine ReadBack.of_deeper hfit hplain ?_ (UnionValue.extends_value c hx _ _ hwritten)
    exact UnionValue.ofDynamic_of_toDynamic hcoherent
      (UnionValue.toDynamic_receivedOver c.binding hx)

/-- A ticket with a number and the office to call. -/
def ticket : StructValue :=
  let shape : StructType := ⟨"Ticket", [⟨"number", .scalar .long⟩, ⟨"office", .objectRef "Office"⟩]⟩
  ⟨shape.desc, shape, [.scalar (.long 5), .objectRef ⟨"O", [3], some ⟨7⟩⟩], rfl, rfl⟩

/-- A fee in whole units, or none. -/
def feeType : TypeDesc :=
  .union "Fee" (.scalar .boolean)
    [⟨[.value 1], "due", .scalar .long⟩, ⟨[.default], "free", .scalar .octet⟩]

/-- A fee that is due. -/
def fee : UnionValue :=
  ⟨feeType, ⟨"Fee", .scalar .boolean, _⟩, some ⟨1, 0, .scalar (.long 7)⟩, rfl⟩

/-- The fee is built by setting its branch. -/
theorem built_fee : fee.Built := by
  let unset : UnionValue := ⟨feeType, ⟨"Fee", .scalar .boolean, _⟩, none, rfl⟩
  have hchecked : feeType.wellFormed = true := by decide
  have hunset : unset.Built := .new hchecked rfl
  have hset : unset.set "due" ⟨.scalar .long, .scalar (.long 7)⟩ = .ok fee := rfl
  exact .set hunset hset

/-- A ticket and a fee behind three octets, read back with the office bound to another
    connection. -/
theorem readBack_of_written_ticket :
    let c : Codec := { binding := some ⟨9⟩ }
    (ticket.type.ordinalsFit = true ∧ ticket.toDynamic.payload.Plain ∧
      c.writeStruct ticket ⟨[1, 2, 3]⟩ =
        (.ok (), ⟨[1, 2, 3] ++
          [0, 5, 0, 0, 0, 2, 0, 0, 0, 79, 0, 0, 0, 1, 0, 0, 0, 3]⟩) ∧
      ReadBack c (·.readStruct ticket.type) ticket.toDynamic [1, 2, 3]
        [0, 5, 0, 0, 0, 2, 0, 0, 0, 79, 0, 0, 0, 1, 0, 0, 0, 3] (ticket.receivedOver (some ⟨9⟩))) ∧
    ∃ x, fee.Built ∧ fee.toDynamic = .ok x ∧ fee.type.ordinalsFit = true ∧ x.payload.Plain ∧
      c.writeUnion fee ⟨[1, 2, 3]⟩ = (.ok (), ⟨[1, 2, 3] ++ [1, 7, 0, 0, 0]⟩) ∧
      ReadBack c (·.readUnion fee.type) x [1, 2, 3] [1, 7, 0, 0, 0]
        (fee.receivedOver (some ⟨9⟩)) := by
  have hticket : ({ binding := some ⟨9⟩ } : Codec).writeStruct ticket ⟨[1, 2, 3]⟩ =
      (.ok (), ⟨[1, 2, 3] ++ [0, 5, 0, 0, 0, 2, 0, 0, 0, 79, 0, 0, 0, 1, 0, 0, 0, 3]⟩) := rfl
  have hfee : ({ binding := some ⟨9⟩ } : Codec).writeUnion fee ⟨[1, 2, 3]⟩ =
      (.ok (), ⟨[1, 2, 3] ++ [1, 7, 0, 0, 0]⟩) := rfl
  intro c
  obtain ⟨hstruct, -⟩ := readBack_of_written c [1, 2, 3]
    [0, 5, 0, 0, 0, 2, 0, 0, 0, 79, 0, 0, 0, 1, 0, 0, 0, 3]
  obtain ⟨-, hunion⟩ := readBack_of_written c [1, 2, 3] [1, 7, 0, 0, 0]
  exact ⟨⟨rfl, rfl, hticket, hstruct ticket rfl rfl hticket⟩,
    _, built_fee, rfl, rfl, rfl, hfee, hunion fee _ built_fee rfl rfl rfl hfee⟩

/-- A struct of one number, and a fee, are written within one level. They are not read within one,
    and as values they are not written within one either. -/
theorem written_one_level_too_deep :
    ∃ (s : StructValue) (c : Codec),
      (c.maxDepth = 1 ∧ s.toDynamic.payload.Plain ∧
        c.writeStruct s ⟨[]⟩ = (.ok (), ⟨[5, 0, 0, 0]⟩) ∧
        Reader.readAt [5, 0, 0, 0] 0 (c.readStruct s.type) = .error (.depthExceeded 1) ∧
        c.writeValue s.toDynamic ⟨[]⟩ = (.error (.depthExceeded 1), ⟨[]⟩)) ∧
      (fee.Built ∧ c.writeUnion fee ⟨[]⟩ = (.ok (), ⟨[1, 0, 0, 0, 7, 0, 0, 0]⟩) ∧
        Reader.readAt [1, 0, 0, 0, 7, 0, 0, 0] 0 (c.readUnion fee.type)
          = .error (.depthExceeded 1)) := by
  let shape : StructType := ⟨"Count", [⟨"n", .scalar .long⟩]⟩
  exact ⟨⟨shape.desc, shape, [.scalar (.long 5)], rfl, rfl⟩, { maxDepth := 1 },
    ⟨rfl, rfl, rfl, rfl, rfl⟩, built_fee, rfl, rfl⟩

end ObjectBroker
