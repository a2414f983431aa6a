import ObjectBroker.Proofs.Codec.Atomic
import ObjectBroker.Proofs.Codec.Depth
import ObjectBroker.Proofs.Types.WellFormed
import ObjectBroker.Proofs.Values.Collapse

/-!
# `ObjectBroker.Proofs.Codec.Transparency` — values under a type and under its collapsed form

A `typedef` name is a name and nothing else: a value of the type has the same payload and the same
octets without it. Writer, reader and the check of a payload each look through the names, node by
node, for the type itself, for the discriminant of a union, for elements that may be octets, and for
what a marker stands for. Here the reader under a type is compared with the reader under the
collapsed type: at each node they do the same, if they do so for the parts. A union with a
discriminant type that cannot discriminate is reported under the name of that type, which is the one
difference; checked unions have none.
-/

namespace ObjectBroker

/-- Reads made for the items of a list are reads made for what the items were made from. -/
theorem Read.each_of_map {α β γ : Type} (r : β → Read γ) (f : α → β) (as : List α) :
    Read.each r (as.map f) = Read.each (fun a => r (f a)) as := by
  induction as with
  | nil => rfl
  | cons a as ih => rw [List.map_cons, Read.each, Read.each, ih]

theorem Read.each_congr {α β : Type} {r r' : α → Read β} {as : List α}
    (h : ∀ a ∈ as, r a = r' a) : Read.each r as = Read.each r' as := by
  induction as with
  | nil => rfl
  | cons a as ih =>
    have hothers := ih fun b hb => h b (List.mem_cons_of_mem a hb)
    rw [Read.each, Read.each, h a List.mem_cons_self, hothers]

/-! ## Enclosing types -/

/-- The enclosing types as a walk along a type with checked unions collects them. -/
structure CheckedStack (enclosing : List TypeDesc) : Prop where
  noTypedefs : NoTypedefs enclosing
  unionsChecked : ∀ t ∈ enclosing, t.unionsChecked = true

namespace CheckedStack

variable {enclosing : List TypeDesc}

theorem nil : CheckedStack [] := ⟨NoTypedefs.nil, fun _ h => nomatch h⟩

theorem struct (h : CheckedStack enclosing) (struct : StructType)
    (hchecked : struct.desc.unionsChecked = true) : CheckedStack (struct.desc :: enclosing) :=
  ⟨h.noTypedefs.struct struct, List.forall_mem_cons.2 ⟨hchecked, h.unionsChecked⟩⟩

theorem union (h : CheckedStack enclosing) (union : UnionType)
    (hchecked : union.desc.unionsChecked = true) : CheckedStack (union.desc :: enclosing) :=
  ⟨h.noTypedefs.union union, List.forall_mem_cons.2 ⟨hchecked, h.unionsChecked⟩⟩

end CheckedStack

/-! ## One node, given its parts -/

/-- The part of a value is read under the collapsed types as it is under the types as they are. -/
def PartReader.Collapses (read : PartReader) : Prop :=
  ∀ (enclosing : List TypeDesc) (type : TypeDesc), CheckedStack enclosing →
    type.unionsChecked = true →
    read (enclosing.map .collapse) type.collapse = read enclosing type

/-- A discriminant is read in the form of the shape of its type, if that can discriminate. -/
theorem decode_discriminant_collapse (s : Settings) {union : UnionType} {range : LabelRange}
    (h : union.labelRange? = some range) :
    Decode.discriminant s union.discriminant.collapse = Decode.discriminant s union.discriminant := by
  unfold UnionType.labelRange? at h
  unfold Decode.discriminant
  rw [TypeDesc.resolve_collapse]
  cases hresolve : union.discriminant.resolve with
  | scalar kind =>
    rw [hresolve] at h
    cases kind with
    | float => cases h
    | double => cases h
    | _ => rfl
  | enum name enumerators => rfl
  | _ =>
    rw [hresolve] at h
    cases h

section Parts

variable {read : PartReader} {enclosing : List TypeDesc}

theorem decode_alternative_collapse (hpart : read.Collapses) (henclosing : CheckedStack enclosing)
    (s : Settings) (union : UnionType) (hchecked : union.desc.unionsChecked = true) :
    Decode.alternative s read (enclosing.map .collapse) union.collapse
      = Decode.alternative s read enclosing union := by
  obtain ⟨hvalid, -, hbranches⟩ := TypeDesc.unionsChecked_union_iff.1 hchecked
  obtain ⟨range, hrange⟩ := UnionType.exists_labelRange hvalid
  have hdiscriminant : Decode.discriminant s union.collapse.discriminant
      = Decode.discriminant s union.discriminant := decode_discriminant_collapse s hrange
  unfold Decode.alternative
  rw [hdiscriminant]
  refine congrArg _ (funext fun d => ?_)
  rw [UnionType.selected?_collapse]
  cases hselected : union.selected? d with
  | none => rfl
  | some b =>
    have hbranch := hbranches b (UnionType.mem_of_selected? hselected)
    have hsame : read (union.collapse.desc :: enclosing.map .collapse) b.type.collapse
        = read (union.desc :: enclosing) b.type :=
      hpart _ b.type (henclosing.union union hchecked) hbranch
    simp only [Option.map_some, hsame]

/-- Elements are octets under the collapsed type if they are under the type. -/
theorem decode_elements_collapse (hpart : read.Collapses) (henclosing : CheckedStack enclosing)
    (s : Settings) {element : TypeDesc} (bound : Option UInt32)
    (hchecked : element.unionsChecked = true) :
    Decode.elements s read (enclosing.map .collapse) element.collapse bound
      = Decode.elements s read enclosing element bound := by
  have hoctet : element.collapse.resolve = .scalar .octet ↔ element.resolve = .scalar .octet := by
    rw [TypeDesc.resolve_collapse]
    cases hresolve : element.resolve with
    | typedef name underlying => exact absurd hresolve (element.resolve_ne_typedef _ _)
    | scalar kind => rfl
    | _ => simp [TypeDesc.collapse]
  unfold Decode.elements
  simp only [hoctet, hpart enclosing element henclosing hchecked]

/-- **One node.** A node is read under its collapsed type as it is under its type, if the parts of it
    are. The content of an `any` brings a description of its own. -/
theorem decode_node_collapse (c : Codec) (levels : Nat) (hpart : read.Collapses)
    (henclosing : CheckedStack enclosing) {type : TypeDesc} (hchecked : type.unionsChecked = true) :
    Decode.node c levels read (enclosing.map .collapse) type.collapse
      = Decode.node c levels read enclosing type := by
  have hresolved := TypeDesc.everyNode_resolve hchecked
  unfold Decode.node
  rw [TypeDesc.resolve_collapse]
  cases hresolve : type.resolve with
  | typedef name underlying => exact absurd hresolve (type.resolve_ne_typedef _ _)
  | sequence element bound =>
    rw [hresolve] at hresolved
    have helement := TypeDesc.unionsChecked_sequence_iff.1 hresolved
    simp only [TypeDesc.collapse, decode_elements_collapse hpart henclosing c.settings bound helement]
  | array element length =>
    rw [hresolve] at hresolved
    have helement := TypeDesc.unionsChecked_array_iff.1 hresolved
    simp only [TypeDesc.collapse, hpart enclosing element henclosing helement]
  | struct name members =>
    rw [hresolve] at hresolved
    have hinside := henclosing.struct ⟨name, members⟩ hresolved
    have hmembers := TypeDesc.unionsChecked_struct_iff.1 hresolved
    simp only [TypeDesc.collapse]
    have heach : Read.each (fun m => read
          (.struct name (TypeDesc.collapseMembers members) :: enclosing.map .collapse) m.type)
          (TypeDesc.collapseMembers members)
        = Read.each (fun m => read (.struct name members :: enclosing) m.type) members := by
      nth_rewrite 2 [TypeDesc.collapseMembers_eq_map]
      rw [Read.each_of_map]
      exact Read.each_congr fun m hm => hpart _ m.type hinside (hmembers m hm)
    rw [heach]
  | union name discriminant branches =>
    rw [hresolve] at hresolved
    exact decode_alternative_collapse hpart henclosing c.settings
      ⟨name, discriminant, branches⟩ hresolved
  | recursive name =>
    dsimp only [TypeDesc.collapse]
    rw [TypeDesc.enclosing?_map_collapse name henclosing.noTypedefs.name?_collapse]
    cases htarget : TypeDesc.enclosing? name enclosing with
    | some target =>
      have hmem := List.mem_of_find?_eq_some htarget
      exact hpart enclosing target henclosing (henclosing.unionsChecked target hmem)
    | none => rfl
  | _ => rfl

end Parts

/-! ## Whole values -/

/-- **Values.** Within any number of levels a value is read under its collapsed type as it is under
    its type. -/
theorem decode_collapse (c : Codec) (levels : Nat) : PartReader.Collapses (c.decode levels) := by
  induction levels with
  | zero =>
    intro enclosing type _ _
    rfl
  | succ levels ih =>
    intro enclosing type henclosing hchecked
    exact decode_node_collapse c levels ih henclosing hchecked

/-- A value of the collapsed type is read as one of the type, up to the description it is given. -/
theorem readValue_collapse (c : Codec) {t : TypeDesc} (hchecked : t.unionsChecked = true) :
    c.readValue t.collapse = (fun x : Dynamic => ⟨t.collapse, x.payload⟩) <$> c.readValue t := by
  have hsame : c.decode c.maxDepth [] t.collapse = c.decode c.maxDepth [] t :=
    decode_collapse c c.maxDepth [] t CheckedStack.nil hchecked
  simp only [Codec.readValue, hsame, map_bind, map_pure]

/-- Attempts to write pieces that agree leave the same message behind, or both fail and leave it as
    it was. -/
theorem WholeOrNothing.same_or_error {write write' : Writer → Except Fault Unit × Writer}
    {e e' : Emit} (hwrite : WholeOrNothing write e) (hwrite' : WholeOrNothing write' e')
    (h : e.Agrees e') (w : Writer) :
    (∃ w', write w = (.ok (), w') ∧ write' w = (.ok (), w')) ∨
      ∃ f f', write w = (.error f, w) ∧ write' w = (.error f', w) := by
  obtain ⟨before⟩ := w
  rcases hwrite before with ⟨written, hpiece, hrun⟩ | ⟨f, hfault, hrun⟩
  · exact .inl ⟨_, hrun, hwrite'.eq_ok_iff.2 ((h _ _).1 hpiece)⟩
  · rcases hwrite' before with ⟨written, hpiece, -⟩ | ⟨f', -, hrun'⟩
    · rw [(h _ _).2 hpiece] at hfault
      cases hfault
    · exact .inr ⟨f, f', hrun, hrun'⟩

/-- **Transparency.** Let the unions in a type have passed their checks. Then `typedef` names in it
    make no difference: the same payloads are accepted without them; what is written is the same, or
    is not written either; the same payload is read up to the same offset, or there is the same
    fault; and the same types may stand for it, as it may for the same types. -/
theorem typedef_transparent {t : TypeDesc} (hchecked : t.unionsChecked = true) :
    (∀ p : Payload,
      (∃ x, Dynamic.ofPayload t p = .ok x) ↔ ∃ x, Dynamic.ofPayload t.collapse p = .ok x) ∧
    (∀ (c : Codec) (p : Payload) (w : Writer),
      (∃ w', c.writeValue ⟨t, p⟩ w = (.ok (), w') ∧
        c.writeValue ⟨t.collapse, p⟩ w = (.ok (), w')) ∨
      ∃ f f', c.writeValue ⟨t, p⟩ w = (.error f, w) ∧
        c.writeValue ⟨t.collapse, p⟩ w = (.error f', w)) ∧
    (∀ (c : Codec) (message : List UInt8) (position : Nat),
      Reader.readAt message position (c.readValue t.collapse)
        = (Reader.readAt message position (c.readValue t)).map
            fun (x, stop) => (⟨t.collapse, x.payload⟩, stop)) ∧
    ∀ u : TypeDesc, t.assignableTo u = t.collapse.assignableTo u ∧
      u.assignableTo t = u.assignableTo t.collapse := by
  refine ⟨?accepted, ?written, ?read, ?assignable⟩
  case accepted =>
    intro p
    have hsame : p.conforms [] t.collapse = p.conforms [] t :=
      Payload.conforms_collapse NoTypedefs.nil t p
    simp only [Dynamic.ofPayload_eq_ok_iff, hsame, exists_and_left, exists_eq, and_true]
  case written =>
    intro c p w
    have hagrees : (c.value ⟨t, p⟩).Agrees (c.value ⟨t.collapse, p⟩) := by
      have hcollapsed := agrees_encode_underCollapsed (c := c) c.maxDepth [] t p
        NoTypedefs.nil.name?_collapse
      rwa [Payload.mapDescriptions_id] at hcollapsed
    exact (wholeOrNothing_writeValue c ⟨t, p⟩).same_or_error
      (wholeOrNothing_writeValue c ⟨t.collapse, p⟩) hagrees w
  case read =>
    intro c message position
    rw [readValue_collapse c hchecked, Reader.readAt_map]
  case assignable =>
    intro u
    exact ⟨(t.collapse_assignableTo u).symm, (u.assignableTo_collapse t).symm⟩

/-- A union with `typedef` names around it, on its discriminant, before its marker and on octets. -/
def aliasedChoice : TypeDesc :=
  .named "Choice" (.union "U" (.named "Flag" (.scalar .boolean))
    [⟨[.value 1], "more", .sequence (.named "Again" (.recursive "U")) none⟩,
      ⟨[.default], "octets", .sequence (.named "Octet" (.scalar .octet)) none⟩])

/-- A choice of one more choice, of two octets. -/
def choiceInChoice : Payload :=
  .union 1 (.sequence [.union 0 (.sequence [.scalar (.octet 7), .scalar (.octet 8)])])

/-- What is written for it. -/
def choiceInChoiceOctets : List UInt8 :=
  [1, 0, 0, 0, 1, 0, 0, 0, 0, 0, 0, 0, 2, 0, 0, 0, 7, 8]

/-- The choice is a value without the names as well, written with the same octets and read from
    them. -/
theorem typedef_transparent_aliasedChoice :
    aliasedChoice.unionsChecked = true ∧ aliasedChoice.collapse ≠ aliasedChoice ∧
    (∃ x, Dynamic.ofPayload aliasedChoice.collapse choiceInChoice = .ok x) ∧
    ({} : Codec).writeValue ⟨aliasedChoice.collapse, choiceInChoice⟩ ⟨[]⟩
      = (.ok (), ⟨choiceInChoiceOctets⟩) ∧
    Reader.readAt choiceInChoiceOctets 0 (({} : Codec).readValue aliasedChoice.collapse)
      = .ok (⟨aliasedChoice.collapse, choiceInChoice⟩, 18) ∧
    aliasedChoice.collapse.assignableTo aliasedChoice = true := by
  have hchecked : aliasedChoice.unionsChecked = true := by decide
  obtain ⟨haccepted, hwritten, hread, hassignable⟩ := typedef_transparent hchecked
  refine ⟨hchecked, by decide, (haccepted choiceInChoice).1 ⟨_, rfl⟩, ?_, ?_, ?_⟩
  · have haliased : ({} : Codec).writeValue ⟨aliasedChoice, choiceInChoice⟩ ⟨[]⟩
        = (.ok (), ⟨choiceInChoiceOctets⟩) := rfl
    rcases hwritten {} choiceInChoice ⟨[]⟩ with ⟨w', hw, hw'⟩ | ⟨f, f', hfault, -⟩
    · rw [haliased] at hw
      cases hw
      exact hw'
    · rw [haliased] at hfault
      cases hfault
  · have haliased : Reader.readAt choiceInChoiceOctets 0 (({} : Codec).readValue aliasedChoice)
        = .ok (⟨aliasedChoice, choiceInChoice⟩, 18) := by rfl
    rw [hread, haliased]
    rfl
  · rw [← (hassignable aliasedChoice).1]
    decide

end ObjectBroker
