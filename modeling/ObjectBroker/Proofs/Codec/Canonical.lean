import ObjectBroker.Proofs.Codec.Depth
import ObjectBroker.Proofs.Codec.Locality
import ObjectBroker.Proofs.Codec.Soundness
import ObjectBroker.Proofs.Wire.Canonical

/-!
# `ObjectBroker.Proofs.Codec.Canonical` — values written as they were read

A peer that forwards a value it has read sends the octets it was sent. This is not a round trip the
other way about. A reader meets octets that no writer of its own would produce, and a value may be
readable in places where a writer gives up: the last level of nesting, or a discriminant whose type
cannot hold it. Where the writer does not give up, it writes what was read.

So the reader is compared with a writer that is more liberal than the one of the codec. It has a
level more, for the octets of a run, and it does not ask whether a discriminant is in range. It
writes every value that was read, and what the writer of the codec writes it writes, too. Since it
is a function of the value, no two inputs are read as one value, except for padding and for the two
forms of an empty narrow string.

A description that travels in an `any` is not written as it was read, since a peer may send it with
labels in another order. The types here have no `any` in them.

## Contents
- `Decode.nodeVia`, `Codec.decodeVia`: the reader, given how to read a narrow string;
  `Codec.readTerminated`.
- `Encode.anyAlternative`, `Codec.rewrite`: the liberal writer; `rewrite_extends_encode`.
- `TypeDesc.anyFree`.
- `canonical_discriminant`, `canonical_alternative`, `canonical_elements`, `canonical_reference`,
  `canonical_enumerator`, `canonical_node`, `canonical_decode`.
- `value_undoes_readValue`: the main result.
-/

namespace ObjectBroker

open Read

/-! ## The reader, given how to read a narrow string -/

namespace Decode

/-- A reference whose interface is read in a given way. -/
def referenceVia (text : Read String) (c : Codec) : Read ObjectRef := do
  let interface ← text
  let key ← Read.octetSequence c.settings
  let unbound : ObjectRef := ⟨interface, key, none⟩
  return if unbound.isNil then .nil else { unbound with connection := c.binding }

/-- One node of a value, with its narrow strings read in a given way. -/
def nodeVia (text : Read String) (c : Codec) (levels : Nat) (part : PartReader)
    (enclosing : List TypeDesc) (type : TypeDesc) : Read Payload :=
  match type.resolve with
  | .string => return .string (← text)
  | .objectRef _ => return .objectRef (← referenceVia text c)
  | _ => node c levels part enclosing type

end Decode

namespace Codec

/-- A value of at most `levels` levels, with its narrow strings read in a given way. -/
def decodeVia (text : Read String) (c : Codec) : (levels : Nat) → PartReader
  | 0, _, _ => throw (.depthExceeded c.maxDepth)
  | levels + 1, enclosing, type =>
    Decode.nodeVia text c levels (c.decodeVia text levels) enclosing type

/-- A value in which every narrow string comes with its terminator. -/
def readTerminated (c : Codec) (type : TypeDesc) : Read Dynamic := do
  return ⟨type, ← c.decodeVia (Read.terminated c.settings) c.maxDepth [] type⟩

/-- With narrow strings read as always, this is the reader of values. -/
theorem decodeVia_string (c : Codec) (levels : Nat) :
    c.decodeVia (Read.string c.settings) levels = c.decode levels := by
  induction levels with
  | zero => rfl
  | succ levels ih =>
    funext enclosing type
    rw [decodeVia, decode, ih]
    unfold Decode.nodeVia Decode.node
    cases type.resolve <;> rfl

end Codec

/-! ## The liberal writer -/

namespace Encode

/-- A union, whether or not its discriminant is in the range of the discriminant type. -/
def anyAlternative (s : Settings) (part : PartWriter) (enclosing : List TypeDesc)
    (union : UnionType) (d : Int64) (value : Payload) : Emit :=
  match union.selected? d with
  | none => .fail (.unknownDiscriminant d)
  | some b => discriminant s union.discriminant d ++ part (union.desc :: enclosing) b.type value

/-- One node of a value, without a look at the range of discriminants. -/
def anyNode (c : Codec) (part : PartWriter) (enclosing : List TypeDesc) (type : TypeDesc)
    (value : Payload) : Emit :=
  match type.resolve, value with
  | .union name discriminant branches, .union d value =>
    anyAlternative c.settings part enclosing ⟨name, discriminant, branches⟩ d value
  | _, value => node c part enclosing type value

end Encode

/-- A value of at most `levels` levels, without a look at the range of discriminants. -/
def Codec.rewrite (c : Codec) : (levels : Nat) → PartWriter
  | 0, _, _, _ => .fail (.depthExceeded c.maxDepth)
  | levels + 1, enclosing, type, value =>
    Encode.anyNode c (c.rewrite levels) enclosing type value

theorem extends_anyAlternative (s : Settings) (part : PartWriter) (enclosing : List TypeDesc)
    (union : UnionType) (d : Int64) (value : Payload) :
    (Encode.anyAlternative s part enclosing union d value).Extends
      (Encode.alternative s part enclosing union d value) := by
  unfold Encode.alternative
  split
  · exact Emit.Extends.fail _ _
  · exact Emit.Extends.refl _

theorem extends_anyNode (c : Codec) (part : PartWriter) (enclosing : List TypeDesc)
    (type : TypeDesc) (value : Payload) :
    (Encode.anyNode c part enclosing type value).Extends
      (Encode.node c part enclosing type value) := by
  unfold Encode.anyNode
  split
  · rename_i name discriminant branches d value hresolve
    simp only [Encode.node, hresolve]
    exact extends_anyAlternative _ _ _ _ _ _
  · exact Emit.Extends.refl _

/-- The liberal writer writes what the writer of the codec does, also with more levels. -/
theorem rewrite_extends_encode (c : Codec) {levels levels' : Nat} (hle : levels ≤ levels')
    (enclosing : List TypeDesc) (type : TypeDesc) (value : Payload) :
    (c.rewrite levels' enclosing type value).Extends (c.encode levels enclosing type value) := by
  induction levels generalizing levels' enclosing type value with
  | zero => exact Emit.Extends.fail _ _
  | succ levels ih =>
    obtain ⟨below, rfl⟩ := Nat.exists_eq_add_one_of_ne_zero (show levels' ≠ 0 by omega)
    intro position written hwritten
    have hparts := Emit.Extends.congruence.node (c := c) rfl rfl
      (fun enclosing type value => ih (show levels ≤ below by omega) enclosing type value)
      enclosing type value
    exact extends_anyNode c _ enclosing type value _ _ (hparts _ _ hwritten)

/-! ## Types without `any` -/

/-- Whether no `any` stands anywhere in the description. -/
def TypeDesc.anyFree (t : TypeDesc) : Bool :=
  t.everyNode fun
    | .any => false
    | _ => true

/-! ## Composite values, given their parts -/

/-- A strict reader of parts, a reader and a writer, of which the writer undoes the reader for types
    without `any`. -/
def PartsCanonical (strict read : PartReader) (write : PartWriter) : Prop :=
  ∀ (enclosing : List TypeDesc) (type : TypeDesc), type.anyFree = true →
    (∀ t ∈ enclosing, t.anyFree = true) →
    Canonical (strict enclosing type) (read enclosing type) (write enclosing type)

variable (s : Settings)

/-- A discriminant is written in the octets it was read from, whatever type it has. -/
theorem canonical_discriminant (type : TypeDesc) :
    Canonical (Decode.discriminant s type) (Decode.discriminant s type)
      (Encode.discriminant s type) := by
  unfold Decode.discriminant Encode.discriminant
  -- What is read is widened to eight octets, and narrowing undoes that for every type.
  cases type.resolve with
  | scalar kind =>
    cases kind with
    | octet =>
      refine canonical_octet.map fun {_ _ v} _ => ?_
      have hback : v.toUInt64.toInt64.toUInt64.toUInt8 = v := by simp
      simp only [hback]
      exact Emit.Extends.refl _
    | boolean =>
      refine canonical_boolean.map fun {_ _ v} _ => ?_
      cases v <;> exact Emit.Extends.refl _
    | short =>
      refine canonical_number s fun n hfit => ?_
      simp only [toUInt16_of_signed_sixteen, UInt16.toNat_ofNat_of_lt' hfit]
    | ushort =>
      refine canonical_number s fun n hfit => ?_
      have hback : (UInt16.ofNat n).toUInt64.toInt64.toUInt64.toUInt16 = UInt16.ofNat n := by simp
      simp only [hback, UInt16.toNat_ofNat_of_lt' hfit]
    | long =>
      refine canonical_number s fun n hfit => ?_
      simp only [toUInt32_of_signed_thirtyTwo, UInt32.toNat_ofNat_of_lt' hfit]
    | ulong =>
      refine (canonical_ulong s).map fun {_ _ v} _ => ?_
      have hback : v.toUInt64.toInt64.toUInt64.toUInt32 = v := by simp
      simp only [hback]
      exact Emit.Extends.refl _
    | longlong => exact canonical_longlong s
    | ulonglong => exact canonical_longlong s
    | float => exact Canonical.throw _ _ _
    | double => exact Canonical.throw _ _ _
    | char =>
      refine canonical_char.map fun {_ _ character} hread => ?_
      obtain ⟨v, -, rfl⟩ := map_eq_ok_iff.1 hread
      have hback : (Latin1.decode v).val.toUInt64.toInt64.toUInt64.toUInt8 = v := by
        show v.toUInt32.toUInt64.toInt64.toUInt64.toUInt8 = v
        simp
      simp only [hback]
      exact Emit.Extends.refl _
    | wchar =>
      refine (canonical_wchar s).map fun {_ _ v} _ => ?_
      have hback : v.val.toUInt64.toInt64.toUInt64.toUInt32 = v.val := by simp
      simp only [hback, charOfUnit?_val]
      exact Emit.Extends.refl _
  | enum name enumerators =>
    refine (canonical_ulong s).map fun {_ _ v} _ => ?_
    have hback : v.toUInt64.toInt64.toUInt64.toUInt32 = v := by simp
    simp only [hback]
    exact Emit.Extends.refl _
  | _ => exact Canonical.throw _ _ _

section Parts

variable {s} {strict read : PartReader} {write : PartWriter} {enclosing : List TypeDesc}

/-- What is written of a union behind its discriminant. -/
def afterDiscriminant (write : PartWriter) (enclosing : List TypeDesc) (union : UnionType)
    (b : Branch TypeDesc) : Payload → Emit
  | .union _ v => write (union.desc :: enclosing) b.type v
  | _ => .nothing

theorem canonical_alternative (union : UnionType) {whole : Payload → Emit}
    (hwhole : ∀ d v, whole (.union d v) = Encode.anyAlternative s write enclosing union d v)
    (hpart : ∀ b ∈ union.branches, Canonical (strict (union.desc :: enclosing) b.type)
      (read (union.desc :: enclosing) b.type) (write (union.desc :: enclosing) b.type)) :
    Canonical (Decode.alternative s strict enclosing union)
      (Decode.alternative s read enclosing union) whole := by
  refine (canonical_discriminant s union.discriminant).bind fun d => ?_
  cases hb : union.selected? d with
  | none => exact ⟨fun _ => .nothing, Canonical.throw _ _ _, fun _ h => by cases h⟩
  | some b =>
    refine ⟨afterDiscriminant write enclosing union b, ?_, ?_⟩
    · exact (hpart b (UnionType.mem_of_selected? hb)).map fun _ => Emit.Extends.refl _
    · intro c c' c'' value _ hvalue
      obtain ⟨v, -, rfl⟩ := map_eq_ok_iff.1 hvalue
      rw [hwhole]
      simp only [Encode.anyAlternative, hb]
      exact Emit.Extends.refl _

/-- Octets of a run, each written as itself, are written as the run. -/
theorem extends_run_of_octets {piece : Payload → Emit}
    (hoctet : ∀ v position, piece (.scalar (.octet v)) position = .ok [v]) (content : List UInt8) :
    (Emit.concat ((content.map fun v => Payload.scalar (.octet v)).map piece)).Extends
      (.octets content) := by
  intro position written hwritten
  cases hwritten
  induction content generalizing position with
  | nil => rfl
  | cons v content ih =>
    exact Emit.append_eq_ok_iff.2 ⟨[v], content, hoctet v position, ih _, rfl⟩

theorem canonical_elements {element : TypeDesc} (bound : Option UInt32)
    (hoctet : element.resolve = .scalar .octet →
      ∀ v position, write enclosing element (.scalar (.octet v)) position = .ok [v])
    (hpart : Canonical (strict enclosing element) (read enclosing element)
      (write enclosing element)) :
    Canonical (Decode.elements s strict enclosing element bound)
      (Decode.elements s read enclosing element bound)
      (Encode.elements s write enclosing element bound) := by
  refine (canonical_ulong s).bind fun count => ?_
  cases hbound : bound.filter (· < count) with
  | some b => exact ⟨fun _ => .nothing, Canonical.throw _ _ _, fun _ h => by cases h⟩
  | none =>
    -- The bound is held against the number of values, which is the count that was read.
    have hwhole : ∀ values : List Payload, values.length = count.toNat →
        Encode.elements s write enclosing element bound values
          = .ulong s count ++ .concat (values.map (write enclosing element)) := by
      intro values hlength
      have hnone : bound.filter (·.toNat < count.toNat) = none := by
        rw [← filter_lt_ofNat count.toNat_lt, UInt32.ofNat_toNat, hbound]
      rw [Encode.elements, hlength]
      simp only [hnone, Emit.count_of_lt s count.toNat_lt]
      rfl
    refine ⟨fun values => .concat (values.map (write enclosing element)), ?_, ?_⟩
    · by_cases helement : element.resolve = .scalar .octet
      · simp only [if_pos helement]
        exact (Canonical.take _).map fun _ => extends_run_of_octets (hoctet helement) _
      · simp only [if_neg helement]
        exact hpart.times _
    · intro c c' c'' values _ hvalues
      have hlength : values.length = count.toNat := by
        by_cases helement : element.resolve = .scalar .octet
        · simp only [if_pos helement] at hvalues
          obtain ⟨octets, htake, rfl⟩ := map_eq_ok_iff.1 hvalues
          rw [List.length_map, length_of_take htake]
        · simp only [if_neg helement] at hvalues
          exact length_of_times hvalues
      rw [hwhole values hlength]
      exact Emit.Extends.refl _

theorem canonical_fixedElements {element : TypeDesc} (length : UInt32)
    (hpart : Canonical (strict enclosing element) (read enclosing element)
      (write enclosing element)) :
    Canonical (Read.times length.toNat (strict enclosing element))
      (Read.times length.toNat (read enclosing element))
      (Encode.fixedElements write enclosing element length) := by
  refine (hpart.times length.toNat).mono ?_
  intro c c' values hvalues
  rw [Encode.fixedElements, if_neg (not_not.2 (length_of_times hvalues))]
  exact Emit.Extends.refl _

theorem canonical_fields (struct : StructType)
    (hpart : ∀ m ∈ struct.members, Canonical (strict (struct.desc :: enclosing) m.type)
      (read (struct.desc :: enclosing) m.type) (write (struct.desc :: enclosing) m.type)) :
    Canonical (Read.each (fun m => strict (struct.desc :: enclosing) m.type) struct.members)
      (Read.each (fun m => read (struct.desc :: enclosing) m.type) struct.members)
      (Encode.fields write enclosing struct) := by
  refine (Canonical.each hpart).mono ?_
  intro c c' values hvalues
  have hlength := (forall₂_of_each hvalues).length_eq
  rw [Encode.fields, if_neg (not_not.2 hlength)]
  exact Emit.Extends.refl _

end Parts

theorem canonical_enumerator (name : String) (enumerators : List String) :
    Canonical (Decode.enumerator s name enumerators) (Decode.enumerator s name enumerators)
      (Encode.enumerator s name enumerators) := by
  refine (canonical_ulong s).finish (fun ordinal => ?_) ?_
  · split
    · exact .inl ⟨_, rfl⟩
    · exact .inr ⟨_, rfl⟩
  · intro c c' ordinal value _ hlast
    split at hlast
    · rename_i hordinal
      obtain ⟨rfl, -⟩ := pure_eq_ok_iff.1 hlast
      rw [Encode.enumerator, if_pos hordinal]
      exact Emit.Extends.refl _
    · cases hlast

/-- A reference is written as it was read, the nil one too: it is the one of which both the
    interface and the key are empty. -/
theorem canonical_reference (c : Codec) :
    Canonical (Decode.referenceVia (terminated c.settings) c) (Decode.reference c)
      (Encode.reference c.settings) := by
  refine (canonical_string c.settings).bind fun interface =>
    ⟨fun r => .octetSequence c.settings r.key, ?_, ?_⟩
  · refine (canonical_octetSequence c.settings).map fun {_ _ key} _ => ?_
    have hkey := (ObjectRef.eq_of_receivedOver c.binding ⟨interface, key, none⟩).2
    rw [ObjectRef.receivedOver] at hkey
    rw [hkey]
    exact Emit.Extends.refl _
  · intro c₁ c₂ c₃ r _ hr
    obtain ⟨key, -, rfl⟩ := map_eq_ok_iff.1 hr
    have hinterface := (ObjectRef.eq_of_receivedOver c.binding ⟨interface, key, none⟩).1
    rw [ObjectRef.receivedOver] at hinterface
    rw [Encode.reference, hinterface]
    exact Emit.Extends.refl _

/-! ## Whole values -/

variable {c c' : Codec}

/-- An octet is written as itself wherever there is a level for it. -/
theorem rewrite_octet (c : Codec) (levels : Nat) (enclosing : List TypeDesc) {element : TypeDesc}
    (h : element.resolve = .scalar .octet) (v : UInt8) (position : Nat) :
    c.rewrite (levels + 1) enclosing element (.scalar (.octet v)) position = .ok [v] := by
  simp only [Codec.rewrite, Encode.anyNode, Encode.node, h]
  rfl

/-- **One node.** A node is canonical if every part of it is. Octets are not read as parts, so of
    them it has to be known what is written. -/
theorem canonical_node (hsettings : c'.settings = c.settings) {levels : Nat}
    {strict read : PartReader} {write : PartWriter}
    (hoctet : ∀ (enclosing : List TypeDesc) (element : TypeDesc),
      element.resolve = .scalar .octet →
        ∀ v position, write enclosing element (.scalar (.octet v)) position = .ok [v])
    (hpart : PartsCanonical strict read write) (enclosing : List TypeDesc) (type : TypeDesc)
    (hfree : type.anyFree = true) (henclosing : ∀ t ∈ enclosing, t.anyFree = true) :
    Canonical (Decode.nodeVia (terminated c.settings) c levels strict enclosing type)
      (Decode.node c levels read enclosing type) (Encode.anyNode c' write enclosing type) := by
  have hresolved : type.resolve.anyFree = true := TypeDesc.everyNode_resolve hfree
  unfold Decode.nodeVia Decode.node Encode.anyNode Encode.node
  rw [hsettings]
  cases hresolve : type.resolve with
  | null => exact Canonical.pure _ _ (Emit.Extends.refl _)
  | typedef name underlying => exact absurd hresolve (type.resolve_ne_typedef name underlying)
  | scalar kind =>
    refine (canonical_scalar c.settings kind).map fun {_ _ v} hread => ?_
    simp only [if_pos (Read.kind_of_scalar hread)]
    exact Emit.Extends.refl _
  | string => exact (canonical_string c.settings).map fun _ => Emit.Extends.refl _
  | wstring => exact (canonical_wstring c.settings).map fun _ => Emit.Extends.refl _
  | enum name enumerators =>
    exact (canonical_enumerator c.settings name enumerators).map fun _ => Emit.Extends.refl _
  | objectRef interface => exact (canonical_reference c).map fun _ => Emit.Extends.refl _
  | any =>
    rw [hresolve] at hresolved
    cases hresolved
  | sequence element bound =>
    rw [hresolve] at hresolved
    simp only [TypeDesc.anyFree, TypeDesc.everyNode, Bool.true_and] at hresolved
    exact (canonical_elements bound (hoctet enclosing element)
      (hpart enclosing element hresolved henclosing)).map fun _ => Emit.Extends.refl _
  | array element length =>
    rw [hresolve] at hresolved
    simp only [TypeDesc.anyFree, TypeDesc.everyNode, Bool.true_and] at hresolved
    exact (canonical_fixedElements length
      (hpart enclosing element hresolved henclosing)).map fun _ => Emit.Extends.refl _
  | struct name members =>
    rw [hresolve] at hresolved
    -- Inside the struct a marker may stand for it, so what is known of it goes on the stack.
    have hinside : ∀ t ∈ TypeDesc.struct name members :: enclosing, t.anyFree = true :=
      List.forall_mem_cons.2 ⟨hresolved, henclosing⟩
    have hmembers := (TypeDesc.everyNode_struct_iff.1 hresolved).2
    exact (canonical_fields ⟨name, members⟩ fun m hm =>
      hpart _ m.type (hmembers m hm) hinside).map fun _ => Emit.Extends.refl _
  | union name discriminant branches =>
    rw [hresolve] at hresolved
    have hinside : ∀ t ∈ TypeDesc.union name discriminant branches :: enclosing,
        t.anyFree = true := List.forall_mem_cons.2 ⟨hresolved, henclosing⟩
    have hbranches := (TypeDesc.everyNode_union_iff.1 hresolved).2.2
    exact canonical_alternative ⟨name, discriminant, branches⟩ (fun d v => rfl) fun b hb =>
      hpart _ b.type (hbranches b hb) hinside
  | recursive name =>
    dsimp only
    cases htarget : TypeDesc.enclosing? name enclosing with
    | some target =>
      have hmem : target ∈ enclosing := List.mem_of_find?_eq_some htarget
      exact hpart enclosing target (henclosing target hmem) henclosing
    | none => exact Canonical.throw _ _ _

/-- **Values.** A reader of values is undone by the liberal writer of every codec with its settings,
    given a level more for the octets of a run on the last one. -/
theorem canonical_decode (hsettings : c'.settings = c.settings) {levels levels' : Nat}
    (hlt : levels < levels') :
    PartsCanonical (c.decodeVia (terminated c.settings) levels) (c.decode levels)
      (c'.rewrite levels') := by
  induction levels generalizing levels' with
  | zero =>
    intro enclosing type _ _
    exact Canonical.throw _ _ _
  | succ levels ih =>
    obtain ⟨below, rfl⟩ := Nat.exists_eq_add_one_of_ne_zero (show levels' ≠ 0 by omega)
    -- The writer has one level left where the reader is on its last.
    obtain ⟨last, rfl⟩ := Nat.exists_eq_add_one_of_ne_zero (show below ≠ 0 by omega)
    intro enclosing type hfree henclosing
    exact canonical_node hsettings (fun enclosing element => rewrite_octet c' last enclosing)
      (ih (by omega)) enclosing type hfree henclosing

theorem canonical_readValue (hsettings : c'.settings = c.settings) {type : TypeDesc}
    (hfree : type.anyFree = true) {levels : Nat} (hlt : c.maxDepth < levels) :
    Canonical (c.readTerminated type) (c.readValue type)
      fun x => c'.rewrite levels [] type x.payload :=
  (canonical_decode hsettings hlt [] type hfree (by simp)).map fun _ => Emit.Extends.refl _

/-- **Encoding undoes decoding.** Let no `any` occur in a type. The reader of its values makes its
    requests by a script. Where it gives a value between two offsets of a message, and no narrow
    string in it comes with a length of zero, then every codec of the same settings that can write
    the value at that offset writes as many octets: those that were read, with zeros in place of the
    padding that the script skips. And whether or not there is such a codec, a second message that
    is read as the same value in the same way has the same padding and, outside of it, the same
    octets.

    The script is no choice. The octets it takes are decided by the value, and those it skips decide
    nothing, since nobody looks at them. -/
theorem value_undoes_readValue (c c' : Codec) (hsettings : c'.settings = c.settings)
    (type : TypeDesc) (hfree : type.anyFree = true) :
    ∃ script : Script Dynamic, script.run = c.readValue type ∧
      ∀ (message : List UInt8) (start stop : Nat) (x : Dynamic),
        Reader.readAt message start (c.readValue type) = .ok (x, stop) →
        (Reader.readAt message start (c.readTerminated type)).isOk = true →
          (∀ before written : List UInt8, before.length = start →
            (Writer.mk before).put (c'.value x) = (.ok (), ⟨before ++ written⟩) →
              start + written.length = stop ∧
              ∀ i, start ≤ i → i < stop → written[i - start]? =
                if i ∈ script.skipped ⟨start, message.drop start⟩ then some 0 else message[i]?) ∧
          ∀ (message' : List UInt8) (stop' : Nat),
            Reader.readAt message' start (c.readValue type) = .ok (x, stop') →
            (Reader.readAt message' start (c.readTerminated type)).isOk = true →
              stop' = stop ∧
              script.skipped ⟨start, message'.drop start⟩
                = script.skipped ⟨start, message.drop start⟩ ∧
              ∀ i, start ≤ i → i < stop → i ∉ script.skipped ⟨start, message.drop start⟩ →
                message'[i]? = message[i]? := by
  obtain ⟨script, hscript, hcanonical⟩ := (canonical_readValue hsettings hfree
    (show c.maxDepth < max (c.maxDepth + 1) c'.maxDepth by omega)).readAt
  refine ⟨script, hscript, ?_⟩
  intro message start stop x hread hterminated
  obtain ⟨⟨octets, hoctets, hlength, hsame⟩, hother⟩ :=
    hcanonical message start stop x hread hterminated
  refine ⟨?_, hother⟩
  rintro before written rfl hput
  -- The codec that writes the value writes it as the liberal writer does.
  have htype : x.type = type := by
    obtain ⟨-, back, hrun⟩ := Reader.readAt_eq_ok_iff.1 hread
    obtain ⟨payload, -, rfl⟩ := map_eq_ok_iff.1 hrun
    rfl
  have hwritten : c'.encode c'.maxDepth [] x.type x.payload before.length = .ok written :=
    Writer.put_eq_ok_iff.1 hput
  rw [htype] at hwritten
  have hextended := rewrite_extends_encode c' (Nat.le_max_right (c.maxDepth + 1) c'.maxDepth)
    [] type x.payload _ _ hwritten
  obtain rfl := Except.ok.inj (hextended.symm.trans hoctets)
  exact ⟨hlength, hsame⟩

/-- A truth value, a number behind padding, and two texts. -/
def looseRecord : Dynamic :=
  ⟨.struct "R" [⟨"flag", .scalar .boolean⟩, ⟨"count", .scalar .long⟩, ⟨"name", .string⟩,
      ⟨"title", .wstring⟩],
    .struct [.scalar (.boolean true), .scalar (.long 5), .string "A", .wstring "B"]⟩

/-- The record as a peer sends it that leaves old octets in its padding. -/
def looseOctets : List UInt8 :=
  [9, 1, 7, 7, 5, 0, 0, 0, 2, 0, 0, 0, 65, 0, 7, 7, 1, 0, 0, 0, 66, 0]

/-- The record is read behind one octet, under a limit on nesting, and written under another. -/
theorem value_undoes_readValue_looseRecord :
    let c : Codec := { maxDepth := 2, binding := some ⟨3⟩ }
    let written : List UInt8 := [1, 0, 0, 5, 0, 0, 0, 2, 0, 0, 0, 65, 0, 0, 0, 1, 0, 0, 0, 66, 0]
    (looseRecord.type.anyFree = true ∧
      Reader.readAt looseOctets 1 (c.readValue looseRecord.type) = .ok (looseRecord, 22) ∧
      (Reader.readAt looseOctets 1 (c.readTerminated looseRecord.type)).isOk = true ∧
      (Writer.mk [9]).put (({} : Codec).value looseRecord) = (.ok (), ⟨[9] ++ written⟩)) ∧
    ∃ script : Script Dynamic, script.run = c.readValue looseRecord.type ∧
      ∀ i, 1 ≤ i → i < 22 → written[i - 1]? =
        if i ∈ script.skipped ⟨1, looseOctets.drop 1⟩ then some 0 else looseOctets[i]? := by
  have hread : Reader.readAt looseOctets 1
      (({ maxDepth := 2, binding := some ⟨3⟩ } : Codec).readValue looseRecord.type)
      = .ok (looseRecord, 22) := rfl
  have hterminated : (Reader.readAt looseOctets 1
      (({ maxDepth := 2, binding := some ⟨3⟩ } : Codec).readTerminated looseRecord.type)).isOk
      = true := rfl
  intro c written
  have hput : (Writer.mk [9]).put (({} : Codec).value looseRecord)
      = (.ok (), ⟨[9] ++ written⟩) := rfl
  refine ⟨⟨rfl, hread, hterminated, hput⟩, ?_⟩
  obtain ⟨script, hscript, hundoes⟩ := value_undoes_readValue c {} rfl looseRecord.type rfl
  exact ⟨script, hscript, ((hundoes _ _ _ _ hread hterminated).1 [9] written rfl hput).2⟩

end ObjectBroker
