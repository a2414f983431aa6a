import ObjectBroker.Proofs.Codec.Discriminant
import ObjectBroker.Proofs.TypeCode.Recovery
import ObjectBroker.Proofs.Types.BranchTable
import ObjectBroker.Proofs.Values.Received

/-!
# `ObjectBroker.Proofs.Codec.Recovery` — values read back under their own types

A value is written and read by two walks. The one follows the value and the other the type, but they
count levels and stack enclosing types in step, so the induction is on the levels: a composite value
is recovered if its parts are, with one level less.

What the two walks do not share is the description inside an `any`. The writer writes any
description, while the reader accepts only one that is well formed, closed, and no deeper than the
levels left. `Payload.contentsFit` follows the walk to the places where that matters.
-/

namespace ObjectBroker

/-- Whether each description that is the content of an `any` in the value is well formed, closed,
    and nested no deeper than the levels left where it is written. -/
def Payload.contentsFit : (levels : Nat) → List TypeDesc → TypeDesc → Payload → Bool
  | 0, _, _, _ => true
  | levels + 1, enclosing, type, value =>
    match type.resolve, value with
    | .any, .any type value =>
      type.wellFormed && type.closed && decide (type.nesting ≤ levels) &&
        contentsFit levels [] type value
    | .sequence element _, .sequence values => values.all (contentsFit levels enclosing element)
    | .array element _, .array values => values.all (contentsFit levels enclosing element)
    | .struct name members, .struct values =>
      (members.zip values).all fun (m, v) =>
        contentsFit levels (.struct name members :: enclosing) m.type v
    | .union name discriminant branches, .union d value =>
      (UnionType.selected? ⟨name, discriminant, branches⟩ d).all fun b =>
        contentsFit levels (.union name discriminant branches :: enclosing) b.type value
    | .recursive name, value =>
      (TypeDesc.enclosing? name enclosing).all fun target =>
        contentsFit levels enclosing target value
    | _, _ => true

section Parts

variable {write : PartWriter} {read : PartReader} {binding : Option ConnectionId}
  {enclosing : List TypeDesc}

/-! ## Composite values, given their parts -/

/-- The fields of a struct are recovered if each is under the type of its member. -/
theorem recovers_fields (struct : StructType) (values : List Payload)
    (hpart : ∀ p ∈ struct.members.zip values,
      Recovers (write (struct.desc :: enclosing) p.1.type p.2)
        (read (struct.desc :: enclosing) p.1.type) (p.2.receivedOver binding)) :
    Recovers (Encode.fields write enclosing struct values)
      (Read.each (fun m => read (struct.desc :: enclosing) m.type) struct.members)
      (values.map (·.receivedOver binding)) := by
  unfold Encode.fields
  split
  · exact Recovers.fail _ _ _
  · rename_i hlength
    have hlength : struct.members.length = values.length := not_not.1 hlength
    exact Recovers.each (fun m v => write (struct.desc :: enclosing) m.type v)
      (fun m => read (struct.desc :: enclosing) m.type) (·.receivedOver binding) hlength hpart

/-- A union is recovered if its value is under the type of the branch selected. -/
theorem recovers_alternative (s : Settings) {union : UnionType} {d : Int64} {value : Payload}
    (hfit : union.ordinalsFit = true)
    (hpart : ∀ b, union.selected? d = some b →
      Recovers (write (union.desc :: enclosing) b.type value)
        (read (union.desc :: enclosing) b.type) (value.receivedOver binding)) :
    Recovers (Encode.alternative s write enclosing union d value)
      (Decode.alternative s read enclosing union) (.union d (value.receivedOver binding)) := by
  unfold Encode.alternative
  split
  · exact Recovers.fail _ _ _
  · rename_i hrange
    have hrange : union.inRange d = true := by simpa using hrange
    cases hselected : union.selected? d with
    | none => exact Recovers.fail _ _ _
    | some b =>
      refine (recovers_discriminant s hfit hrange).bind ?_
      simp only [hselected]
      exact (hpart b hselected).map (Payload.union d)

/-- Octets written one by one are recovered as one run. -/
theorem recovers_run_of_octets {values : List Payload} {piece : Payload → Emit}
    (h : ∀ v ∈ values, ∀ position written, piece v position = .ok written →
      ∃ octet, v = .scalar (.octet octet) ∧ written = [octet]) :
    Recovers (.concat (values.map piece))
      (Read.take values.length >>= fun octets =>
        pure (octets.map fun octet => Payload.scalar (.octet octet)))
      (values.map (·.receivedOver binding)) := by
  -- Where all the pieces can be written, the values are octets and the pieces those octets.
  have hrun : ∀ position written, Emit.concat (values.map piece) position = .ok written →
      values = written.map fun octet => Payload.scalar (.octet octet) := by
    induction values with
    | nil =>
      intro position written hw
      cases hw
      rfl
    | cons v values ih =>
      intro position written hw
      obtain ⟨front, back, hfront, hback, rfl⟩ := Emit.append_eq_ok_iff.1 hw
      obtain ⟨octet, rfl, rfl⟩ := h v List.mem_cons_self position front hfront
      have hothers := ih (fun v hv => h v (List.mem_cons_of_mem _ hv)) _ back hback
      rw [List.singleton_append, List.map_cons, ← hothers]
  intro position written rest hw
  have hvalues := hrun position written hw
  have hlength : values.length = written.length := by
    rw [hvalues, List.length_map]
  have hreceived : values.map (·.receivedOver binding)
      = written.map fun octet => Payload.scalar (.octet octet) := by
    rw [hvalues, List.map_map]
    rfl
  rw [hlength, Read.bind_of_ok (Read.take_append position written rest), hreceived]
  rfl

/-- The bound is held against the number of elements on both sides, there as a 32-bit number. -/
theorem filter_lt_ofNat {n : Nat} (hfit : n < UInt32.size) (bound : Option UInt32) :
    bound.filter (· < UInt32.ofNat n) = bound.filter (·.toNat < n) := by
  have hcount : (UInt32.ofNat n).toNat = n := UInt32.toNat_ofNat_of_lt' hfit
  simp only [UInt32.lt_iff_toNat_lt, hcount]

/-- A sequence is recovered if its elements are. Octets are written one by one and read as one run,
    so of them it has to be known what is written. -/
theorem recovers_elements (s : Settings) {element : TypeDesc} {bound : Option UInt32}
    {values : List Payload}
    (hoctet : element.resolve = .scalar .octet → ∀ v ∈ values, ∀ position written,
      write enclosing element v position = .ok written →
        ∃ octet, v = .scalar (.octet octet) ∧ written = [octet])
    (hpart : ∀ v ∈ values, Recovers (write enclosing element v) (read enclosing element)
      (v.receivedOver binding)) :
    Recovers (Encode.elements s write enclosing element bound values)
      (Decode.elements s read enclosing element bound)
      (values.map (·.receivedOver binding)) := by
  unfold Encode.elements
  split
  · exact Recovers.fail _ _ _
  · rename_i hbound
    refine recovers_count_ulong s fun hfit => ?_
    -- The reader holds the same bound against the same number.
    rw [filter_lt_ofNat hfit, hbound]
    have hcount : (UInt32.ofNat values.length).toNat = values.length :=
      UInt32.toNat_ofNat_of_lt' hfit
    simp only [hcount]
    split
    · rename_i hresolve
      exact recovers_run_of_octets (hoctet hresolve)
    · exact Recovers.times values hpart

/-- The number of elements is announced in front of them, in 32 bits. -/
theorem announced_of_elements {s : Settings} {element : TypeDesc} {bound : Option UInt32}
    {values : List Payload} {position : Nat} {written : List UInt8}
    (hw : Encode.elements s write enclosing element bound values position = .ok written)
    (rest : List UInt8) :
    values.length < UInt32.size ∧ ∃ stop, Read.ulong s ⟨position, written ++ rest⟩
      = .ok (UInt32.ofNat values.length) stop := by
  cases hbound : bound.filter (·.toNat < values.length) with
  | some b =>
    simp only [Encode.elements, hbound] at hw
    cases hw
  | none =>
    simp only [Encode.elements, hbound] at hw
    have hfit := (Emit.Writable.parts ⟨position, written, hw⟩).1.lt_of_count
    obtain ⟨front, back, hfront, -, rfl⟩ := Emit.append_eq_ok_iff.1 hw
    have hread := (recovers_count s values.length).map UInt32.ofNat position front (back ++ rest)
      hfront
    rw [List.append_assoc]
    exact ⟨hfit, _, hread⟩

/-- Under a bound that the written elements keep, a reader does what it does without one. -/
theorem elements_within_bound {s : Settings} {element : TypeDesc} {bound bound' : Option UInt32}
    {values : List Payload} {position : Nat} {written : List UInt8}
    (hw : Encode.elements s write enclosing element bound values position = .ok written)
    (hkept : ∀ b, bound' = some b → values.length ≤ b.toNat) (rest : List UInt8) :
    Decode.elements s read enclosing element bound' ⟨position, written ++ rest⟩
      = Decode.elements s read enclosing element none ⟨position, written ++ rest⟩ := by
  obtain ⟨hfit, stop, hcount⟩ := announced_of_elements hw rest
  have hnone : bound'.filter (·.toNat < values.length) = none := by
    rw [Option.filter_eq_none_iff]
    intro b hb
    rw [decide_eq_true_eq]
    exact Nat.not_lt.2 (hkept b hb)
  unfold Decode.elements
  rw [Read.bind_of_ok hcount, Read.bind_of_ok hcount, filter_lt_ofNat hfit, hnone]
  rfl

/-- Under a bound that they exceed it refuses them, with the bound and their number. -/
theorem elements_beyond_bound {s : Settings} {element : TypeDesc} {bound : Option UInt32}
    {b : UInt32} {values : List Payload} {position : Nat} {written : List UInt8}
    (hw : Encode.elements s write enclosing element bound values position = .ok written)
    (hover : b.toNat < values.length) (rest : List UInt8) :
    ∃ stop, Decode.elements s read enclosing element (some b) ⟨position, written ++ rest⟩
      = .error (.boundViolation b values.length) stop := by
  obtain ⟨hfit, stop, hcount⟩ := announced_of_elements hw rest
  refine ⟨stop, ?_⟩
  unfold Decode.elements
  rw [Read.bind_of_ok hcount, filter_lt_ofNat hfit, Option.filter_some, decide_eq_true hover]
  simp only [if_true, UInt32.toNat_ofNat_of_lt' hfit]
  rfl

/-- The elements of an array are recovered if each is; their number is part of the type. -/
theorem recovers_fixedElements {element : TypeDesc} {length : UInt32} {values : List Payload}
    (hpart : ∀ v ∈ values, Recovers (write enclosing element v) (read enclosing element)
      (v.receivedOver binding)) :
    Recovers (Encode.fixedElements write enclosing element length values)
      (Read.times length.toNat (read enclosing element))
      (values.map (·.receivedOver binding)) := by
  unfold Encode.fixedElements
  split
  · exact Recovers.fail _ _ _
  · rename_i hlength
    have hlength : values.length = length.toNat := not_not.1 hlength
    rw [← hlength]
    exact Recovers.times values hpart

end Parts

variable {c : Codec}

/-- A reference is recovered as its receiver sees it: unless it is nil, bound to the connection of
    the codec that reads it. -/
theorem recovers_reference (r : ObjectRef) :
    Recovers (Encode.reference c.settings r) (Decode.reference c) (r.receivedOver c.binding) := by
  refine (recovers_string c.settings r.interface).bind ?_
  exact (recovers_octetSequence c.settings r.key).finish rfl

theorem recovers_enumerator (s : Settings) (name : String) (enumerators : List String)
    (ordinal : UInt32) :
    Recovers (Encode.enumerator s name enumerators ordinal)
      (Decode.enumerator s name enumerators) ordinal := by
  unfold Encode.enumerator
  split
  · rename_i hordinal
    refine (recovers_ulong s ordinal).finish ?_
    rw [if_pos hordinal]
  · exact Recovers.fail _ _ _

/-- The content of an `any` is recovered if its description can be read where it is written and the
    value is recovered under it. -/
theorem recovers_content (hkept : c.aliases = .preserve) {levels : Nat} {write : PartWriter}
    {read : PartReader} {type : TypeDesc} {value : Payload} (hwf : type.wellFormed = true)
    (hclosed : type.closed = true) (hlevels : type.nesting ≤ levels)
    (hpart : type.ordinalsFit = true →
      Recovers (write [] type value) (read [] type) (value.receivedOver c.binding)) :
    Recovers (Encode.content c write type value) (Decode.content c levels read)
      (.any type (value.receivedOver c.binding)) := by
  unfold Encode.content
  rw [hkept]
  intro position written rest hw
  -- Where the type code was written, no enum in it has more ordinals than a discriminant holds.
  obtain ⟨front, back, hfront, -, -⟩ := Emit.append_eq_ok_iff.1 hw
  have hfit : type.ordinalsFit = true :=
    TypeDesc.ordinalsFit_of_writable ⟨position, front, hfront⟩
  have htype := TypeCode.recovers_code c.settings c.maxDepth hwf hclosed hlevels
  exact (htype.bind ((hpart hfit).map (Payload.any type))) position written rest hw

/-! ## Whole values -/

/-- A value written under a type that is an octet is an octet, written as itself. -/
theorem octet_of_encode_eq_ok {levels : Nat} {enclosing : List TypeDesc} {type : TypeDesc}
    (htype : type.resolve = .scalar .octet) {value : Payload} {position : Nat}
    {written : List UInt8} (hw : c.encode levels enclosing type value position = .ok written) :
    ∃ octet, value = .scalar (.octet octet) ∧ written = [octet] := by
  cases levels with
  | zero => cases hw
  | succ levels =>
    simp only [Codec.encode, Encode.node, htype] at hw
    cases value with
    | scalar v =>
      cases v with
      | octet v =>
        cases hw
        exact ⟨v, rfl, rfl⟩
      | _ => cases hw
    | _ => cases hw

/-- A writer and a reader of parts agree within so many levels: a part is recovered where it can be
    read at all. -/
def Codec.PartsAgree (c : Codec) (levels : Nat) (write : PartWriter) (read : PartReader) : Prop :=
  ∀ (enclosing : List TypeDesc) (type : TypeDesc) (value : Payload),
    type.ordinalsFit = true → (∀ t ∈ enclosing, t.ordinalsFit = true) →
    value.contentsFit levels enclosing type = true →
    Recovers (write enclosing type value) (read enclosing type) (value.receivedOver c.binding)

/-- Where the parts are of one type, all of them are recovered. -/
theorem Codec.PartsAgree.all {levels : Nat} {write : PartWriter} {read : PartReader}
    {enclosing : List TypeDesc} {type : TypeDesc} {values : List Payload}
    (h : c.PartsAgree levels write read) (hfit : type.ordinalsFit = true)
    (henclosing : ∀ t ∈ enclosing, t.ordinalsFit = true)
    (hcontents : ∀ v ∈ values, v.contentsFit levels enclosing type = true) :
    ∀ v ∈ values, Recovers (write enclosing type v) (read enclosing type)
      (v.receivedOver c.binding) := by
  intro v hv
  exact h enclosing type v hfit henclosing (hcontents v hv)

/-- **One node.** A node is recovered if every part of it is, with one level less. -/
theorem recovers_node (hkept : c.aliases = .preserve) {levels : Nat} {write : PartWriter}
    {read : PartReader} {enclosing : List TypeDesc} {type : TypeDesc} {value : Payload}
    (hoctet : ∀ element, element.resolve = .scalar .octet → ∀ v position written,
      write enclosing element v position = .ok written →
        ∃ octet, v = .scalar (.octet octet) ∧ written = [octet])
    (hpart : c.PartsAgree levels write read)
    (hfit : type.ordinalsFit = true) (henclosing : ∀ t ∈ enclosing, t.ordinalsFit = true)
    (hcontents : value.contentsFit (levels + 1) enclosing type = true) :
    Recovers (Encode.node c write enclosing type value) (Decode.node c levels read enclosing type)
      (value.receivedOver c.binding) := by
  have hresolved : type.resolve.ordinalsFit = true := TypeDesc.everyNode_resolve hfit
  unfold Payload.contentsFit at hcontents
  unfold Encode.node Decode.node
  cases hresolve : type.resolve with
  | null =>
    cases value with
    | null => exact Recovers.pure Payload.null
    | _ => exact Recovers.fail _ _ _
  | scalar kind =>
    cases value with
    | scalar v =>
      dsimp only
      split
      · rename_i hkind
        subst hkind
        exact (recovers_scalar c.settings v).map Payload.scalar
      · exact Recovers.fail _ _ _
    | _ => exact Recovers.fail _ _ _
  | string =>
    cases value with
    | string text => exact (recovers_string c.settings text).map Payload.string
    | _ => exact Recovers.fail _ _ _
  | wstring =>
    cases value with
    | wstring text => exact (recovers_wstring c.settings text).map Payload.wstring
    | _ => exact Recovers.fail _ _ _
  | enum name enumerators =>
    cases value with
    | enum ordinal =>
      exact (recovers_enumerator c.settings name enumerators ordinal).map Payload.enum
    | _ => exact Recovers.fail _ _ _
  | objectRef interface =>
    cases value with
    | objectRef r => exact (recovers_reference r).map Payload.objectRef
    | _ => exact Recovers.fail _ _ _
  | any =>
    cases value with
    | any type value =>
      simp only [hresolve, Bool.and_eq_true, decide_eq_true_eq] at hcontents
      obtain ⟨⟨⟨hwf, hclosed⟩, hlevels⟩, hinner⟩ := hcontents
      refine recovers_content hkept hwf hclosed hlevels fun hfit => ?_
      exact hpart [] type value hfit (by simp) hinner
    | _ => exact Recovers.fail _ _ _
  | sequence element bound =>
    cases value with
    | sequence values =>
      simp only [hresolve, List.all_eq_true] at hcontents
      simp only [TypeDesc.ordinalsFit, hresolve, TypeDesc.everyNode, Bool.true_and] at hresolved
      have hvalue := hpart.all hresolved henclosing hcontents
      have hoctets := fun h v (_ : v ∈ values) => hoctet element h v
      rw [Payload.receivedOver_sequence]
      exact (recovers_elements c.settings hoctets hvalue).map Payload.sequence
    | _ => exact Recovers.fail _ _ _
  | array element length =>
    cases value with
    | array values =>
      simp only [hresolve, List.all_eq_true] at hcontents
      simp only [TypeDesc.ordinalsFit, hresolve, TypeDesc.everyNode, Bool.true_and] at hresolved
      have hvalue := hpart.all hresolved henclosing hcontents
      rw [Payload.receivedOver_array]
      exact (recovers_fixedElements hvalue).map Payload.array
    | _ => exact Recovers.fail _ _ _
  | struct name members =>
    cases value with
    | struct values =>
      simp only [hresolve, List.all_eq_true] at hcontents
      rw [hresolve] at hresolved
      -- Inside the struct a marker may stand for it, so what is known of it goes on the stack.
      have hinside : ∀ t ∈ TypeDesc.struct name members :: enclosing, t.ordinalsFit = true :=
        List.forall_mem_cons.2 ⟨hresolved, henclosing⟩
      have hmembers := TypeDesc.ordinalsFit_struct_iff.1 hresolved
      have hfields := recovers_fields ⟨name, members⟩ values fun p hp =>
        hpart _ p.1.type p.2 (hmembers p.1 (List.of_mem_zip hp).1) hinside (hcontents p hp)
      rw [Payload.receivedOver_struct]
      exact hfields.map Payload.struct
    | _ => exact Recovers.fail _ _ _
  | union name discriminant branches =>
    cases value with
    | union d value =>
      simp only [hresolve, Option.all_eq_true] at hcontents
      rw [hresolve] at hresolved
      have hinside : ∀ t ∈ TypeDesc.union name discriminant branches :: enclosing,
          t.ordinalsFit = true := List.forall_mem_cons.2 ⟨hresolved, henclosing⟩
      obtain ⟨hunion, -, hbranches⟩ := TypeDesc.ordinalsFit_union_iff.1 hresolved
      exact recovers_alternative c.settings hunion fun b hb =>
        hpart _ b.type value (hbranches b (UnionType.mem_of_selected? hb)) hinside
          (hcontents b hb)
    | _ => exact Recovers.fail _ _ _
  | recursive name =>
    simp only [hresolve, Option.all_eq_true] at hcontents
    dsimp only
    cases htarget : TypeDesc.enclosing? name enclosing with
    | some target =>
      -- The marker is followed to a type on the stack, at the cost of a level.
      have hmem : target ∈ enclosing := List.mem_of_find?_eq_some htarget
      exact hpart enclosing target value (henclosing target hmem) henclosing
        (hcontents target htarget)
    | none => exact Recovers.fail _ _ _
  | typedef name underlying => exact Recovers.fail _ _ _

/-- **Values.** Within any number of levels, the writer and the reader of values agree. -/
theorem partsAgree_encode_decode (hkept : c.aliases = .preserve) (levels : Nat) :
    c.PartsAgree levels (c.encode levels) (c.decode levels) := by
  induction levels with
  | zero =>
    intro enclosing type value _ _ _
    exact Recovers.fail _ _ _
  | succ levels ih =>
    intro enclosing type value hfit henclosing hcontents
    exact recovers_node hkept (fun element h v position written => octet_of_encode_eq_ok h) ih hfit
      henclosing hcontents

end ObjectBroker
