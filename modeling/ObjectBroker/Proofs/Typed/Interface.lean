import ObjectBroker.Proofs.Typed.Mapping
import ObjectBroker.Proofs.Values.Substitution
import ObjectBroker.Typed.Catalog

/-!
# `ObjectBroker.Proofs.Typed.Interface` — interface types, and their values as payloads

The types that a value can be taken out as are built up: from scalars, texts, references and dynamic
values, by sequences with and without a bound, arrays, records and enumerations. A record can hold a
sequence of itself. It is described by a marker there, while its mapping goes on into the elements, and
comes to an end with the payload only.

For whatever is built that way, the mapping pairs off the values within their bounds with the payloads
that conform to its description and keep its bounds.
-/

namespace ObjectBroker

/-- A type with the description and the mapping of it that are meant. -/
structure InterfaceType where
  type : Type
  typed : Typed type

theorem WideChar.mk_eq_iff {char : Char} {c : WideChar} : (⟨char⟩ : WideChar) = c ↔ char = c.char := by
  cases c
  rw [WideChar.mk.injEq]

namespace InterfaceType

/-- A type with its instance. -/
@[reducible] def of (α : Type) [Typed α] : InterfaceType := ⟨α, inferInstance⟩

/-- The types of scalar values. -/
def scalars : List InterfaceType :=
  [of UInt8, of Bool, of Int16, of UInt16, of Int32, of UInt32, of Int64, of UInt64, of Binary32,
    of Binary64, of Char, of WideChar]

/-- The types that are not made of others. -/
def primitives : List InterfaceType :=
  scalars ++ [of String, of WideString, of ObjectRef, of Dynamic]

/-- A type that is described by a marker. The mapping is that of the type. -/
@[reducible] def marked {ρ : Type} (T : Typed ρ) (name : String) : Typed ρ :=
  { T with desc := .recursive name }

/-- Sequences of a record inside the record itself, which has this name. -/
@[reducible] def children {ρ : Type} (T : Typed ρ) (name : String) : InterfaceType :=
  let _ : Typed ρ := marked T name
  of (List ρ)

end InterfaceType

/-- The types of the fields of a layout, in order. -/
inductive Layout.Fields : {σ : Type} → Layout σ → List InterfaceType → Prop where
  | empty : Fields .empty []
  | field {σ : Type} {rest : Layout σ} {types : List InterfaceType} (name : String) (t : InterfaceType) :
      Fields rest types →
      Fields (let _ : Typed t.type := t.typed; .field name t.type rest) (t :: types)

namespace InterfaceType

/-- **Interface types.** The primitive ones, and what is made of interface types: sequences, sequences
    with a bound that is not zero, arrays whose length is a number of the description, records whose
    values are their fields, and enumerations that list every value once. A field of a record is of an
    interface type, or it is the sequence of the records inside it. -/
inductive Built : InterfaceType → Prop where
  | primitive {t : InterfaceType} : t ∈ primitives → Built t
  | sequence {α : Type} [Typed α] : Built (of α) → Built (of (List α))
  | bounded {α : Type} [Typed α] {N : UInt32} : N ≠ 0 → Built (of α) → Built (of (BoundedSeq α N))
  | array {α : Type} [Typed α] {n : Nat} : n < UInt32.size → Built (of α) → Built (of (Vector α n))
  | record {ρ σ : Type} {T : Typed ρ} {name : String} {layout : Layout σ} {split : ρ → σ}
      {join : σ → ρ} {types : List InterfaceType} :
      T = .ofLayout name layout split join → (∀ r, join (split r) = r) → (∀ s, split (join s) = s) →
      layout.Fields types → (∀ t ∈ types, t ≠ children T name → Built t) → Built ⟨ρ, T⟩
  | enumeration {ρ : Type} [BEq ρ] [LawfulBEq ρ] {name : String} {values : List (String × ρ)} :
      (values.map (·.2)).Nodup → (∀ r, r ∈ values.map (·.2)) → values.length ≤ UInt32.size →
      Built ⟨ρ, .ofEnumeration name values⟩

/-- Description and mapping of an interface type fit at a payload. -/
def MapsAt (t : InterfaceType) (enclosing : List TypeDesc) (p : Payload) : Prop :=
  @Typed.MapsAt t.type t.typed enclosing p

/-! ## Primitive types -/

theorem mapsAt_of_mem_scalars {t : InterfaceType} (h : t ∈ scalars) (enclosing : List TypeDesc)
    (p : Payload) : t.MapsAt enclosing p := by
  simp only [scalars, List.mem_cons, List.not_mem_nil, or_false] at h
  rcases h with rfl | rfl | rfl | rfl | rfl | rfl | rfl | rfl | rfl | rfl | rfl | rfl
  all_goals
    refine Typed.mapsAt_ofScalar ?_ ?_ enclosing p
    · intro v a
      cases v <;> simp [WideChar.mk_eq_iff]
    · intro v
      cases v <;> simp [ScalarValue.kind]

theorem mapsAt_of_mem_primitives {t : InterfaceType} (h : t ∈ primitives)
    (enclosing : List TypeDesc) (p : Payload) : t.MapsAt enclosing p := by
  simp only [primitives, List.mem_append, List.mem_cons, List.not_mem_nil, or_false] at h
  rcases h with h | rfl | rfl | rfl | rfl
  · exact mapsAt_of_mem_scalars h enclosing p
  · exact Typed.mapsAt_string enclosing p
  · exact Typed.mapsAt_wideString enclosing p
  · exact Typed.mapsAt_objectRef enclosing p
  · exact Typed.mapsAt_dynamic enclosing p

/-! ## Records -/

/-- A layout fits at payloads if the types of its fields fit at each of them. -/
theorem mapsAt_of_fields {σ : Type} {layout : Layout σ} {types : List InterfaceType}
    (hfields : layout.Fields types) {enclosing : List TypeDesc} {ps : List Payload}
    (h : ∀ t ∈ types, ∀ p ∈ ps, t.MapsAt enclosing p) : layout.MapsAt enclosing ps := by
  induction hfields generalizing ps with
  | empty => exact Layout.mapsAt_empty enclosing ps
  | field name t _ ih =>
    let _ : Typed t.type := t.typed
    refine Layout.mapsAt_field name fun p others hps => ?_
    subst hps
    refine ⟨h t List.mem_cons_self p List.mem_cons_self, ih ?_⟩
    exact fun t' ht' p' hp' => h t' (List.mem_cons_of_mem t ht') p' (List.mem_cons_of_mem p hp')

/-- Where a marker stands for the type, it makes no difference at a payload. -/
theorem mapsAt_marked {ρ : Type} {T : Typed ρ} {name : String} {enclosing : List TypeDesc}
    {p : Payload} (hfound : TypeDesc.enclosing? name enclosing = T.desc.shape? enclosing)
    (h : MapsAt ⟨ρ, T⟩ enclosing p) : MapsAt ⟨ρ, marked T name⟩ enclosing p := by
  have hshape : (TypeDesc.recursive name).shape? enclosing = T.desc.shape? enclosing := hfound
  refine @Typed.MapsAt.mk ρ (marked T name) enclosing p ?_ ?_
  · show p.conforms enclosing (.recursive name) = true ↔ _
    rw [Payload.conforms_congr hshape]
    exact h.conforms_iff
  · intro a
    show T.ofPayload p = .ok a ↔ _ ∧ p.withinBounds enclosing (.recursive name) = true
    rw [Payload.withinBounds_congr hshape]
    exact h.ofPayload_iff a

section Record

variable {ρ σ : Type} {T : Typed ρ} {name : String} {layout : Layout σ} {split : ρ → σ}
  {join : σ → ρ} {types : List InterfaceType}

/-- A record fits at every payload, and so does the sequence of the records inside it wherever the
    marker stands for the record. By induction on the payload: the record passes from a payload to its
    fields, and the sequence from a payload to its elements, where it is the record again. -/
theorem mapsAt_record (hmade : T = .ofLayout name layout split join)
    (hjoin : ∀ r, join (split r) = r) (hsplit : ∀ s, split (join s) = s)
    (hfields : layout.Fields types)
    (hothers : ∀ t ∈ types, t ≠ children T name → ∀ enclosing p, t.MapsAt enclosing p) (p : Payload) :
    (∀ enclosing, MapsAt ⟨ρ, T⟩ enclosing p) ∧
      ∀ enclosing, TypeDesc.enclosing? name enclosing = T.desc.shape? enclosing →
        (children T name).MapsAt enclosing p := by
  have hrecord : ∀ enclosing p, (∀ fields, p = .struct fields →
      layout.MapsAt (T.desc :: enclosing) fields) → MapsAt ⟨ρ, T⟩ enclosing p := by
    subst hmade
    exact fun enclosing p => Typed.mapsAt_ofLayout hjoin hsplit
  have hfound : ∀ enclosing, TypeDesc.enclosing? name (T.desc :: enclosing)
      = T.desc.shape? (T.desc :: enclosing) := by
    subst hmade
    exact fun enclosing => TypeDesc.enclosing?_cons_self rfl enclosing
  let _ : Typed ρ := marked T name
  induction p with
  | struct fields ih =>
    refine ⟨fun enclosing => hrecord enclosing _ ?_, fun _ _ => Typed.mapsAt_list (by rintro _ ⟨⟩)⟩
    rintro _ ⟨⟩
    refine mapsAt_of_fields hfields fun t ht p hp => ?_
    by_cases hself : t = children T name
    · rw [hself]
      exact (ih p hp).2 _ (hfound enclosing)
    · exact hothers t ht hself _ p
  | sequence elements ih =>
    refine ⟨fun enclosing => hrecord enclosing _ (by rintro _ ⟨⟩), fun enclosing hmarker => ?_⟩
    refine Typed.mapsAt_list ?_
    rintro _ ⟨⟩ e he
    exact mapsAt_marked hmarker ((ih e he).1 enclosing)
  | _ =>
    exact ⟨fun enclosing => hrecord enclosing _ (by rintro _ ⟨⟩),
      fun _ _ => Typed.mapsAt_list (by rintro _ ⟨⟩)⟩

end Record

/-- **Interface types fit.** At every payload, inside any enclosing types. -/
theorem Built.mapsAt {t : InterfaceType} (h : t.Built) (enclosing : List TypeDesc) (p : Payload) :
    t.MapsAt enclosing p := by
  induction h generalizing enclosing p with
  | primitive hprimitive => exact mapsAt_of_mem_primitives hprimitive enclosing p
  | sequence _ ih => exact Typed.mapsAt_list fun _ _ e _ => ih enclosing e
  | bounded hN _ ih => exact Typed.mapsAt_boundedSeq hN fun _ _ e _ => ih enclosing e
  | array hn _ ih => exact Typed.mapsAt_vector hn fun _ _ e _ => ih enclosing e
  | record hmade hjoin hsplit hfields _ ih =>
    exact (mapsAt_record hmade hjoin hsplit hfields ih p).1 enclosing
  | enumeration hnodup hall hfew => exact Typed.mapsAt_ofEnumeration hnodup hall hfew enclosing p

/-- A record without sequences of itself is an interface type if its fields are of interface types. -/
theorem Built.plain {ρ σ : Type} {name : String} {layout : Layout σ} {split : ρ → σ} {join : σ → ρ}
    {types : List InterfaceType} (hjoin : ∀ r, join (split r) = r) (hsplit : ∀ s, split (join s) = s)
    (hfields : layout.Fields types) (h : ∀ t ∈ types, t.Built) :
    Built ⟨ρ, .ofLayout name layout split join⟩ :=
  .record rfl hjoin hsplit hfields fun t ht _ => h t ht

end InterfaceType

/-! ## The catalogue -/

namespace Catalog

open InterfaceType

namespace Node

theorem toPayloads_eq_map (ns : List Node) : toPayloads ns = ns.map toPayload := by
  induction ns with
  | nil => rfl
  | cons n ns ih => rw [toPayloads, ih, List.map_cons]

theorem ofPayloads_eq_mapM (ps : List Payload) : ofPayloads ps = ps.mapM ofPayload := by
  induction ps with
  | nil => rfl
  | cons p ps ih =>
    rw [ofPayloads, ih, List.mapM_cons]

/-- The children of a tree are described by a marker. -/
@[reducible] def child : Typed Node := marked inferInstance "Node"

theorem ofSequence_eq (p : Payload) : ofSequence p = @Typed.ofSequence Node child p := by
  cases p with
  | sequence elements =>
    rw [ofSequence, ofPayloads_eq_mapM]
    rfl
  | _ => rfl

/-- The fields of a tree. -/
def layout : Layout (Int32 × List Node × Unit) :=
  let _ := child
  .field "value" Int32 <| .field "children" (List Node) .empty

/-- The tree as a record. -/
def split : Node → Int32 × List Node × Unit
  | .mk value children => (value, children, ())

/-- The record as a tree. -/
def join : Int32 × List Node × Unit → Node
  | (value, children, _) => .mk value children

theorem toPayload_eq (n : Node) : toPayload n = .struct (layout.toFields (split n)) := by
  obtain ⟨value, children⟩ := n
  rw [toPayload, toPayloads_eq_map]
  rfl

theorem ofPayload_eq (p : Payload) : ofPayload p = (do
    let fields ← p.fieldsOf "Node" layout.members.length
    return join (← layout.ofFields fields)) := by
  fun_cases ofPayload p with
  | case1 value children =>
    rw [ofSequence_eq]
    show _ = (do
      let s ← (do
        let value ← (Typed.ofPayload value : Except Fault Int32)
        return (value, ← (do
          let children ← @Typed.ofSequence Node child children
          return (children, ()))))
      return join s)
    simp only [bind_assoc, pure_bind]
    rfl
  | case2 p hother =>
    cases p with
    | struct fields =>
      match fields with
      | [value, children] => exact absurd rfl (hother value children)
      | [] | [_] | _ :: _ :: _ :: _ => rfl
    | _ => rfl

/-- **Trees.** The mapping of a tree, which goes on into the children by itself, is that of the record
    whose children are described by a marker. -/
theorem typed_eq : (inferInstance : Typed Node) = .ofLayout "Node" layout split join := by
  show Typed.mk _ toPayload ofPayload = Typed.mk _ _ _
  rw [funext toPayload_eq, funext ofPayload_eq]
  rfl

end Node

theorem built_color : (of Color).Built :=
  .enumeration (by decide) (by rintro (_ | _ | _) <;> decide) (by decide)

theorem built_point : (of Point).Built := by
  refine .plain (fun _ => rfl) (fun _ => rfl)
    (.field "x" (of Int32) <| .field "y" (of Int32) .empty) ?_
  simp only [List.forall_mem_cons]
  exact ⟨.primitive (by simp [primitives, scalars]), .primitive (by simp [primitives, scalars]), nofun⟩

/-- A tree is of an interface type: a number, and the sequence of the trees inside it. -/
theorem built_node : (of Node).Built := by
  refine .record Node.typed_eq (fun ⟨_, _⟩ => rfl) (fun _ => rfl)
    (.field "value" (of Int32) <| .field "children" (children inferInstance "Node") .empty) ?_
  simp only [List.forall_mem_cons]
  exact ⟨fun _ => .primitive (by simp [primitives, scalars]), fun h => absurd rfl h, nofun⟩

/-- The types of the catalogue. -/
def types : List InterfaceType :=
  [of Point, of Position, of Color, of Finish, of Caption, of Sample, of Registration, of Holder,
    of Node]

/-- Every type of the catalogue is an interface type. -/
theorem built : ∀ t ∈ types, t.Built := by
  have hprimitive : ∀ t ∈ primitives, t.Built := fun t => .primitive
  simp only [primitives, scalars, List.forall_mem_append, List.forall_mem_cons] at hprimitive
  simp only [types, List.forall_mem_cons]
  refine ⟨built_point, ?position, built_color, ?finish, ?caption, ?sample, ?registration, ?holder,
    built_node, nofun⟩
  case position =>
    refine .plain (fun _ => rfl) (fun _ => rfl)
      (.field "x" (of Int32) <| .field "y" (of Int32) .empty) ?_
    simp [hprimitive]
  case finish =>
    exact .enumeration (by decide) (by rintro ⟨⟩; decide) (by decide)
  case caption =>
    refine .plain (fun _ => rfl) (fun _ => rfl)
      (.field "text" (of WideString) <| .field "color" (of Color) .empty) ?_
    simp [hprimitive, built_color]
  case sample =>
    refine .plain (fun _ => rfl) (fun _ => rfl)
      (.field "id" (of UInt32) <| .field "name" (of String) <|
        .field "tags" (of (BoundedSeq WideString 4)) <| .field "blob" (of (List UInt8)) <|
        .field "origin" (of (Vector Int16 2)) <| .field "initial" (of WideChar) .empty) ?_
    have htags : (of (BoundedSeq WideString 4)).Built := .bounded (by decide) (by simp [hprimitive])
    have hblob : (of (List UInt8)).Built := .sequence (by simp [hprimitive])
    have horigin : (of (Vector Int16 2)).Built := .array (by decide) (by simp [hprimitive])
    simp [hprimitive, htags, hblob, horigin]
  case registration =>
    refine .plain (fun _ => rfl) (fun _ => rfl)
      (.field "id" (of UInt32) <| .field "callback" (of ObjectRef) .empty) ?_
    simp [hprimitive]
  case holder =>
    refine .plain (fun _ => rfl) (fun _ => rfl)
      (.field "extra" (of Dynamic) <| .field "points" (of (List Point)) <|
        .field "ratio" (of Binary64) .empty) ?_
    have hpoints : (of (List Point)).Built := .sequence built_point
    simp [hprimitive, hpoints]

end Catalog

/-! ## Values and payloads -/

/-- **Typed mapping.** For a value of an interface type and the payloads of its description, mapping
    is a bijection. A payload is taken out as a value if and only if it conforms to the description and
    keeps the bounds of every sequence in it, the content of dynamic values apart. The value it is
    taken out as has it for its content. And a value has a conforming payload for its content; if that
    keeps the bounds, it is taken out as the value again. -/
theorem typed_mapping_bijective {α : Type} [Typed α] (h : (InterfaceType.of α).Built) :
    (∀ p : Payload, (∃ a : α, Typed.ofPayload p = .ok a) ↔
      p.conforms [] (Typed.desc α) = true ∧ p.withinBounds [] (Typed.desc α) = true) ∧
    (∀ (p : Payload) (a : α), Typed.ofPayload p = .ok a → Typed.toPayload a = p) ∧
    (∀ a : α, (Typed.toPayload a).conforms [] (Typed.desc α) = true ∧
      ((Typed.toPayload a).withinBounds [] (Typed.desc α) = true →
        Typed.ofPayload (Typed.toPayload a) = .ok a)) := by
  have hfits : ∀ p, Typed.MapsAt α [] p := h.mapsAt []
  refine ⟨fun p => ⟨?taken, ?conforming⟩, ?content, fun a => ⟨?conforms, ?back⟩⟩
  case taken =>
    rintro ⟨a, ha⟩
    obtain ⟨hcontent, hbounds⟩ := ((hfits p).ofPayload_iff a).1 ha
    exact ⟨(hfits p).conforms_iff.2 ⟨a, hcontent⟩, hbounds⟩
  case conforming =>
    rintro ⟨hconforms, hbounds⟩
    obtain ⟨a, hcontent⟩ := (hfits p).conforms_iff.1 hconforms
    exact ⟨a, ((hfits p).ofPayload_iff a).2 ⟨hcontent, hbounds⟩⟩
  case content =>
    intro p a ha
    exact (((hfits p).ofPayload_iff a).1 ha).1
  case conforms => exact (hfits _).conforms_iff.2 ⟨a, rfl⟩
  case back =>
    intro hbounds
    exact ((hfits _).ofPayload_iff a).2 ⟨rfl, hbounds⟩

/-- At most two trees: a tree with a child and one without are taken out, and three are not, although
    they conform. -/
theorem typed_mapping_bijective_trees :
    let leaf : Payload := .struct [.scalar (.long 2), .sequence []]
    let tree : Payload := .struct [.scalar (.long 1), .sequence [leaf]]
    let trees (elements : List Payload) : Except Fault (BoundedSeq Catalog.Node 2) :=
      Typed.ofPayload (.sequence elements)
    (InterfaceType.of (BoundedSeq Catalog.Node 2)).Built ∧
    (∃ s, trees [tree, leaf] = .ok s ∧ Typed.toPayload s = .sequence [tree, leaf]) ∧
    (Payload.sequence [leaf, leaf, leaf]).conforms [] (Typed.desc (BoundedSeq Catalog.Node 2)) = true ∧
    ∀ s, trees [leaf, leaf, leaf] ≠ .ok s := by
  intro leaf tree trees
  have hbuilt : (InterfaceType.of (BoundedSeq Catalog.Node 2)).Built :=
    .bounded (by decide) Catalog.built_node
  obtain ⟨htaken, hcontent, -⟩ := typed_mapping_bijective hbuilt
  obtain ⟨s, hs⟩ := (htaken (.sequence [tree, leaf])).2 ⟨rfl, rfl⟩
  refine ⟨hbuilt, ⟨s, hs, hcontent _ s hs⟩, rfl, fun s hs => ?_⟩
  exact absurd ((htaken _).1 ⟨s, hs⟩).2 (by decide)

end ObjectBroker
