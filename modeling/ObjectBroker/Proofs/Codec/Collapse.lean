import ObjectBroker.Proofs.Codec.Recovery
import ObjectBroker.Proofs.Types.Collapse

/-!
# `ObjectBroker.Proofs.Codec.Collapse` — what a codec that collapses `typedef` names sends

A codec that collapses `typedef` names writes the collapsed description of the content of an `any`,
but the value behind it under the description as it is. That is right because the names make no
difference to a value. The walk under a description and the walk under the collapsed one are
compared level by level: they look through the names at every node, push the same structs and
unions, one of them collapsed, and so meet the same targets behind markers and the same branches.

So what is sent is what a codec that keeps the names sends for the collapsed value, in which every
description carried is collapsed. Its receiver gets the collapsed value.
-/

namespace ObjectBroker

/-! ## Collapsed values -/

namespace Payload

mutual
/-- The payload with each description carried in it replaced, at any depth. -/
def mapDescriptions (f : TypeDesc → TypeDesc) : Payload → Payload
  | .any type value => .any (f type) (mapDescriptions f value)
  | .sequence elements => .sequence (mapAllDescriptions f elements)
  | .array elements => .array (mapAllDescriptions f elements)
  | .struct fields => .struct (mapAllDescriptions f fields)
  | .union discriminant value => .union discriminant (mapDescriptions f value)
  | .null => .null
  | .scalar v => .scalar v
  | .string text => .string text
  | .wstring text => .wstring text
  | .enum ordinal => .enum ordinal
  | .objectRef reference => .objectRef reference
/-- Payloads with each description carried in them replaced. -/
def mapAllDescriptions (f : TypeDesc → TypeDesc) : List Payload → List Payload
  | [] => []
  | p :: ps => mapDescriptions f p :: mapAllDescriptions f ps
end

theorem mapAllDescriptions_eq_map (f : TypeDesc → TypeDesc) (ps : List Payload) :
    mapAllDescriptions f ps = ps.map (mapDescriptions f) := by
  induction ps with
  | nil => rfl
  | cons p ps ih => rw [mapAllDescriptions, ih, List.map_cons]

end Payload

/-- The value under its collapsed description, with every description carried in it collapsed. -/
def Dynamic.collapse (x : Dynamic) : Dynamic :=
  ⟨x.type.collapse, x.payload.mapDescriptions TypeDesc.collapse⟩

/-! ## Composite values, given their parts -/

/-- Whatever is on the stack keeps its name when it is collapsed. -/
def KeepNames (enclosing : List TypeDesc) : Prop :=
  ∀ t ∈ enclosing, t.collapse.name? = t.name?

/-- A part is written under the collapsed types, with the descriptions in it replaced, as it is
    written under the types as they are. -/
def PartWriter.CollapsesTo (f : TypeDesc → TypeDesc) (write write' : PartWriter) : Prop :=
  ∀ (enclosing : List TypeDesc) (type : TypeDesc) (value : Payload), KeepNames enclosing →
    (write enclosing type value).Agrees
      (write' (enclosing.map .collapse) type.collapse (value.mapDescriptions f))

section Parts

variable {f : TypeDesc → TypeDesc} {write write' : PartWriter} {enclosing : List TypeDesc}

theorem agrees_fields (hpart : write.CollapsesTo f write') (henclosing : KeepNames enclosing)
    (struct : StructType) (values : List Payload) :
    (Encode.fields write enclosing struct values).Agrees
      (Encode.fields write' (enclosing.map .collapse) struct.collapse
        (values.map (·.mapDescriptions f))) := by
  have hmembers : struct.collapse.members
      = struct.members.map fun m => { m with type := m.type.collapse } :=
    TypeDesc.collapseMembers_eq_map struct.members
  unfold Encode.fields
  rw [hmembers, List.length_map, List.length_map, List.zip_map]
  by_cases hcount : struct.members.length ≠ values.length
  · rw [if_pos hcount, if_pos hcount]
    exact Emit.Agrees.fail _ _
  · rw [if_neg hcount, if_neg hcount]
    -- A struct keeps its name, so its own markers find it on either side.
    have hinside : KeepNames (struct.desc :: enclosing) :=
      List.forall_mem_cons.2 ⟨rfl, henclosing⟩
    exact Emit.Agrees.concat fun p _ => hpart _ p.1.type p.2 hinside

/-- A discriminant is written in the form of the shape of its type. -/
theorem agrees_discriminant (s : Settings) (type : TypeDesc) (d : Int64) :
    (Encode.discriminant s type d).Agrees (Encode.discriminant s type.collapse d) := by
  unfold Encode.discriminant
  rw [TypeDesc.resolve_collapse]
  cases hresolve : type.resolve with
  | scalar kind =>
    cases kind with
    | float => exact Emit.Agrees.fail _ _
    | double => exact Emit.Agrees.fail _ _
    | _ => exact Emit.Agrees.refl _
  | enum name enumerators => exact Emit.Agrees.refl _
  | typedef name underlying => exact absurd hresolve (type.resolve_ne_typedef name underlying)
  | _ => exact Emit.Agrees.fail _ _

theorem agrees_alternative (hpart : write.CollapsesTo f write') (henclosing : KeepNames enclosing)
    (s : Settings) (union : UnionType) (d : Int64) (value : Payload) :
    (Encode.alternative s write enclosing union d value).Agrees
      (Encode.alternative s write' (enclosing.map .collapse) union.collapse d
        (value.mapDescriptions f)) := by
  unfold Encode.alternative
  rw [UnionType.inRange_collapse, UnionType.selected?_collapse]
  cases union.inRange d with
  | false => exact Emit.Agrees.fail _ _
  | true =>
    cases union.selected? d with
    | none => exact Emit.Agrees.fail _ _
    | some b =>
      have hinside : KeepNames (union.desc :: enclosing) :=
        List.forall_mem_cons.2 ⟨rfl, henclosing⟩
      exact (agrees_discriminant s union.discriminant d).append (hpart _ b.type value hinside)

theorem agrees_elements (hpart : write.CollapsesTo f write') (henclosing : KeepNames enclosing)
    (s : Settings) (element : TypeDesc) (bound : Option UInt32) (values : List Payload) :
    (Encode.elements s write enclosing element bound values).Agrees
      (Encode.elements s write' (enclosing.map .collapse) element.collapse bound
        (values.map (·.mapDescriptions f))) := by
  unfold Encode.elements
  rw [List.length_map]
  cases bound.filter (·.toNat < values.length) with
  | some bound => exact Emit.Agrees.fail _ _
  | none =>
    refine (Emit.Agrees.refl _).append ?_
    exact Emit.Agrees.concat fun v _ => hpart enclosing element v henclosing

theorem agrees_fixedElements (hpart : write.CollapsesTo f write')
    (henclosing : KeepNames enclosing) (element : TypeDesc) (length : UInt32)
    (values : List Payload) :
    (Encode.fixedElements write enclosing element length values).Agrees
      (Encode.fixedElements write' (enclosing.map .collapse) element.collapse length
        (values.map (·.mapDescriptions f))) := by
  unfold Encode.fixedElements
  rw [List.length_map]
  by_cases hlength : values.length ≠ length.toNat
  · rw [if_pos hlength, if_pos hlength]
    exact Emit.Agrees.fail _ _
  · rw [if_neg hlength, if_neg hlength]
    exact Emit.Agrees.concat fun v _ => hpart enclosing element v henclosing

/-- **One node.** A node is written under its collapsed type as it is under its type, if the parts
    of it are. The content of an `any` brings a description of its own, so of it that has to be
    known by itself. -/
theorem agrees_node {c c' : Codec} (hsettings : c'.settings = c.settings)
    (hpart : write.CollapsesTo f write') (henclosing : KeepNames enclosing)
    (hcontent : ∀ type value, (Encode.content c write type value).Agrees
      (Encode.content c' write' (f type) (value.mapDescriptions f)))
    (type : TypeDesc) (value : Payload) :
    (Encode.node c write enclosing type value).Agrees
      (Encode.node c' write' (enclosing.map .collapse) type.collapse
        (value.mapDescriptions f)) := by
  unfold Encode.node
  rw [hsettings, TypeDesc.resolve_collapse]
  cases hresolve : type.resolve with
  | null =>
    cases value with
    | null => exact Emit.Agrees.refl _
    | _ => exact Emit.Agrees.fail _ _
  | scalar kind =>
    cases value with
    | scalar v => exact Emit.Agrees.refl _
    | _ => exact Emit.Agrees.fail _ _
  | string =>
    cases value with
    | string text => exact Emit.Agrees.refl _
    | _ => exact Emit.Agrees.fail _ _
  | wstring =>
    cases value with
    | wstring text => exact Emit.Agrees.refl _
    | _ => exact Emit.Agrees.fail _ _
  | enum name enumerators =>
    cases value with
    | enum ordinal => exact Emit.Agrees.refl _
    | _ => exact Emit.Agrees.fail _ _
  | objectRef interface =>
    cases value with
    | objectRef r => exact Emit.Agrees.refl _
    | _ => exact Emit.Agrees.fail _ _
  | any =>
    cases value with
    | any type value => exact hcontent type value
    | _ => exact Emit.Agrees.fail _ _
  | sequence element bound =>
    cases value with
    | sequence values =>
      rw [Payload.mapDescriptions, Payload.mapAllDescriptions_eq_map]
      exact agrees_elements hpart henclosing c.settings element bound values
    | _ => exact Emit.Agrees.fail _ _
  | array element length =>
    cases value with
    | array values =>
      rw [Payload.mapDescriptions, Payload.mapAllDescriptions_eq_map]
      exact agrees_fixedElements hpart henclosing element length values
    | _ => exact Emit.Agrees.fail _ _
  | struct name members =>
    cases value with
    | struct values =>
      rw [Payload.mapDescriptions, Payload.mapAllDescriptions_eq_map]
      exact agrees_fields hpart henclosing ⟨name, members⟩ values
    | _ => exact Emit.Agrees.fail _ _
  | union name discriminant branches =>
    cases value with
    | union d value =>
      exact agrees_alternative hpart henclosing c.settings ⟨name, discriminant, branches⟩ d value
    | _ => exact Emit.Agrees.fail _ _
  | recursive name =>
    -- The marker leads to a type on the stack, and to its collapsed form on the other one.
    dsimp only [TypeDesc.collapse]
    rw [TypeDesc.enclosing?_map_collapse name henclosing]
    cases TypeDesc.enclosing? name enclosing with
    | some target => exact hpart enclosing target value henclosing
    | none => exact Emit.Agrees.fail _ _
  | typedef name underlying => exact absurd hresolve (type.resolve_ne_typedef name underlying)

end Parts

/-! ## Whole values -/

namespace Codec

/-- The same codec, keeping `typedef` names. -/
def keepingAliases (c : Codec) : Codec := { c with aliases := .preserve }

@[simp] theorem settings_keepingAliases (c : Codec) : c.keepingAliases.settings = c.settings := rfl

end Codec

variable {c : Codec}

/-- The content of an `any` is sent under its collapsed description by either codec. -/
theorem agrees_content (hcollapse : c.aliases = .collapse) {write write' : PartWriter}
    (hpart : write.CollapsesTo TypeDesc.collapse write') (type : TypeDesc) (value : Payload) :
    (Encode.content c write type value).Agrees
      (Encode.content c.keepingAliases write' type.collapse
        (value.mapDescriptions TypeDesc.collapse)) := by
  unfold Encode.content
  rw [hcollapse]
  exact (Emit.Agrees.refl _).append (hpart [] type value (by simp [KeepNames]))

/-- **Values.** Within any number of levels, a codec that collapses `typedef` names writes what one
    that keeps them writes for the collapsed value under the collapsed type. -/
theorem agrees_encode_collapse (hcollapse : c.aliases = .collapse) (levels : Nat) :
    PartWriter.CollapsesTo TypeDesc.collapse (c.encode levels)
      (c.keepingAliases.encode levels) := by
  induction levels with
  | zero =>
    intro enclosing type value _
    exact Emit.Agrees.fail _ _
  | succ levels ih =>
    intro enclosing type value henclosing
    -- The description inside an `any` starts a walk of its own, within the levels left here.
    have hcontent := agrees_content hcollapse ih
    exact agrees_node c.settings_keepingAliases ih henclosing hcontent type value

/-- How `typedef` names are treated is of no concern to a reader. -/
theorem decode_keepingAliases (c : Codec) (levels : Nat) :
    c.keepingAliases.decode levels = c.decode levels := by
  induction levels with
  | zero => rfl
  | succ levels ih =>
    funext enclosing type
    rw [Codec.decode, Codec.decode, ih]
    rfl

/-- A message of one value behind its type code is read as its receiver sees it. -/
theorem decodeAny_of_encodeAny {x : Dynamic} {message : List UInt8} (hkept : c.aliases = .preserve)
    (hcontents : x.toAny.contentsFit c.maxDepth [] .any = true)
    (hencode : c.encodeAny x = .ok message) :
    c.decodeAny message = .ok (x.receivedOver c.binding) := by
  have hread := partsAgree_encode_decode hkept c.maxDepth [] .any x.toAny rfl (by simp) hcontents
    0 message [] hencode
  rw [List.append_nil] at hread
  simp only [Codec.decodeAny, Read.onMessage, Reader.run, Reader.ofOctets, Cursor.ofOctets, hread]
  rfl

/-- **Collapsing on the wire.** What a codec that collapses `typedef` names sends for a value is
    what it would send for the collapsed value if it kept them. Where the descriptions in the
    collapsed value can be read, the message is read as the collapsed value, as its receiver sees
    it: each reference bound to the receiver's connection, and nil to none. -/
theorem encodeAny_collapse {x : Dynamic} {message : List UInt8}
    (hcollapse : c.aliases = .collapse) :
    (c.encodeAny x = .ok message ↔ c.keepingAliases.encodeAny x.collapse = .ok message) ∧
      (c.encodeAny x = .ok message → x.collapse.toAny.contentsFit c.maxDepth [] .any = true →
        c.decodeAny message = .ok (x.collapse.receivedOver c.binding)) := by
  have hsame : c.encodeAny x = .ok message ↔ c.keepingAliases.encodeAny x.collapse = .ok message :=
    agrees_encode_collapse hcollapse c.maxDepth [] .any x.toAny (by simp [KeepNames]) 0 message
  refine ⟨hsame, fun hencode hcontents => ?_⟩
  -- Read back as what the other codec sends for the collapsed value, which it is.
  have hdecode : c.keepingAliases.decodeAny message = .ok (x.collapse.receivedOver c.binding) :=
    decodeAny_of_encodeAny rfl hcontents (hsame.1 hencode)
  rw [← hdecode]
  unfold Codec.decodeAny
  rw [decode_keepingAliases]
  rfl

/-- A codec that collapses `typedef` names, bound to a connection. -/
def collapsingCodec : Codec := { aliases := .collapse, binding := some ⟨9⟩ }

/-- A type under a `typedef` name. -/
def TypeDesc.named (name : String) (type : TypeDesc) : TypeDesc := .typedef name type

/-- A tree of values with a `typedef` name around it, before its marker, and inside each `any`. -/
def aliasedTree : Dynamic :=
  ⟨.named "Tree" (.struct "N" [⟨"v", .named "Value" .any⟩,
      ⟨"b", .sequence (.named "Child" (.recursive "N")) none⟩]),
    .struct [.any (.named "Small" (.scalar .octet)) (.scalar (.octet 3)),
      .sequence [.struct [.any (.named "Home" (.objectRef "S")) (.objectRef ⟨"S", [5], some ⟨7⟩⟩),
        .sequence []]]]⟩

/-- The message for the tree: no `typedef` name is in it. -/
def aliasedTreeMessage : List UInt8 :=
  [15, 0, 0, 0, 2, 0, 0, 0, 78, 0, 0, 0, 2, 0, 0, 0, 2, 0, 0, 0, 118, 0, 0, 0, 11, 0, 0, 0,
    2, 0, 0, 0, 98, 0, 0, 0, 19, 0, 0, 0, 255, 255, 255, 255, 2, 0, 0, 0, 78, 0, 0, 0, 0, 0, 0, 0,
    10, 0, 0, 0, 3, 0, 0, 0, 1, 0, 0, 0, 14, 0, 0, 0, 2, 0, 0, 0, 83, 0, 0, 0, 2, 0, 0, 0,
    83, 0, 0, 0, 1, 0, 0, 0, 5, 0, 0, 0, 0, 0, 0, 0]

/-- The tree is sent and comes back without the names, its reference on the receiver's
    connection. -/
theorem encodeAny_collapse_aliasedTree :
    (collapsingCodec.aliases = .collapse ∧
      collapsingCodec.encodeAny aliasedTree = .ok aliasedTreeMessage ∧
      aliasedTree.collapse.toAny.contentsFit collapsingCodec.maxDepth [] .any = true) ∧
    collapsingCodec.keepingAliases.encodeAny aliasedTree.collapse = .ok aliasedTreeMessage ∧
    collapsingCodec.decodeAny aliasedTreeMessage
      = .ok (aliasedTree.collapse.receivedOver (some ⟨9⟩)) := by
  have hcollapse : collapsingCodec.aliases = .collapse := rfl
  have hencode : collapsingCodec.encodeAny aliasedTree = .ok aliasedTreeMessage := by
    decide +kernel
  have hcontents :
      aliasedTree.collapse.toAny.contentsFit collapsingCodec.maxDepth [] .any = true := by
    decide +kernel
  obtain ⟨hsame, hback⟩ := encodeAny_collapse hcollapse
  exact ⟨⟨hcollapse, hencode, hcontents⟩, hsame.1 hencode, hback hencode hcontents⟩

/-- A nil reference under a `typedef` name. -/
def aliasedNil : Dynamic := ⟨.named "Home" (.objectRef "S"), .objectRef .nil⟩

/-- Nil designates nothing and is read as bound to none. So what comes back is not the collapsed
    value with every reference in it bound to the receiver's connection. -/
theorem collapsed_nil_arrives_unbound :
    (collapsingCodec.aliases = .collapse ∧
      aliasedNil.collapse.toAny.contentsFit collapsingCodec.maxDepth [] .any = true) ∧
    ∃ message received, collapsingCodec.encodeAny aliasedNil = .ok message ∧
      collapsingCodec.decodeAny message = .ok received ∧
      received ≠ { aliasedNil.collapse with
        payload := aliasedNil.collapse.payload.mapReferences fun r =>
          { r with connection := collapsingCodec.binding } } := by
  have hencode : collapsingCodec.encodeAny aliasedNil
      = .ok [14, 0, 0, 0, 2, 0, 0, 0, 83, 0, 0, 0, 1, 0, 0, 0, 0, 0, 0, 0, 0, 0, 0, 0] := rfl
  refine ⟨⟨rfl, rfl⟩, _, ⟨.objectRef "S", .objectRef .nil⟩, hencode, by rfl, ?_⟩
  intro h
  injection h with _ h
  injection h with h
  cases h

end ObjectBroker
