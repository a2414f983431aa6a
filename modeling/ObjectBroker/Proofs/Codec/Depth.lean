import ObjectBroker.Proofs.Codec.Collapse
import ObjectBroker.Proofs.Codec.Congruence
import ObjectBroker.Proofs.TypeCode.RoundTrip
import ObjectBroker.Proofs.Values.Soundness
import ObjectBroker.Proofs.Wire.Limits
import ObjectBroker.Proofs.Wire.Locality

/-!
# `ObjectBroker.Proofs.Codec.Depth` — the nesting limit on both sides

The writer and the reader of values count levels each for itself. A value that was written under one
limit is read under another: a walk that writes within `n` levels is compared with one that writes
and one that reads within `m`. They go down in step, so at each node the piece is decided if the
parts are.

Two places are not in step. A reader takes the type code of an `any` from the levels left for its
content, and a writer does not count it, so the description inside has to fit there
(`Payload.contentsFit`). And a reader takes a sequence of octets as one run, where a writer goes
down to each octet, so on the last level the two differ (`Payload.runsFit`).
-/

namespace ObjectBroker

/-! ## Fewer levels and more -/

namespace Codec

/-- The same codec under another nesting limit. -/
def limitedTo (c : Codec) (limit : Nat) : Codec := { c with maxDepth := limit }

@[simp] theorem settings_limitedTo (c : Codec) (limit : Nat) :
    (c.limitedTo limit).settings = c.settings := rfl

@[simp] theorem maxDepth_limitedTo (c : Codec) (limit : Nat) :
    (c.limitedTo limit).maxDepth = limit := rfl

@[simp] theorem aliases_limitedTo (c : Codec) (limit : Nat) :
    (c.limitedTo limit).aliases = c.aliases := rfl

end Codec

variable {c : Codec}

/-- **Fewer levels.** Within fewer levels a value is written as it is within more, or the writer
    reports its limit. -/
theorem within_encode (limit limit' : Nat) {levels levels' : Nat} (hle : levels ≤ levels')
    (enclosing : List TypeDesc) (type : TypeDesc) (value : Payload) :
    ((c.limitedTo limit).encode levels enclosing type value).Within (.depthExceeded limit)
      ((c.limitedTo limit').encode levels' enclosing type value) := by
  induction levels generalizing levels' enclosing type value with
  | zero => exact Emit.Within.fail _ _
  | succ levels ih =>
    obtain ⟨below, rfl⟩ := Nat.exists_eq_add_one_of_ne_zero (show levels' ≠ 0 by omega)
    exact (Emit.Within.congruence _).node rfl rfl
      (fun enclosing type value => ih (by omega) enclosing type value) enclosing type value

/-- **More levels.** A writer with more levels writes whatever one with fewer does, and the same. -/
theorem extends_encode (limit limit' : Nat) {levels levels' : Nat} (hle : levels ≤ levels')
    (enclosing : List TypeDesc) (type : TypeDesc) (value : Payload) :
    ((c.limitedTo limit').encode levels' enclosing type value).Extends
      ((c.limitedTo limit).encode levels enclosing type value) :=
  (within_encode limit limit' hle enclosing type value).extended

/-! ## Composite values, given their parts -/

/-- Whether no sequence of octets in the value stands on the last level, where there is none left
    for the octets. -/
def Payload.runsFit : (levels : Nat) → List TypeDesc → TypeDesc → Payload → Bool
  | 0, _, _, _ => true
  | levels + 1, enclosing, type, value =>
    match type.resolve, value with
    | .any, .any type value => runsFit levels [] type value
    | .sequence element _, .sequence values =>
      if element.resolve = .scalar .octet then values.isEmpty || decide (levels ≠ 0)
      else values.all (runsFit levels enclosing element)
    | .array element _, .array values => values.all (runsFit levels enclosing element)
    | .struct name members, .struct values =>
      (members.zip values).all fun (m, v) =>
        runsFit levels (.struct name members :: enclosing) m.type v
    | .union name discriminant branches, .union d value =>
      (UnionType.selected? ⟨name, discriminant, branches⟩ d).all fun b =>
        runsFit levels (.union name discriminant branches :: enclosing) b.type value
    | .recursive name, value =>
      (TypeDesc.enclosing? name enclosing).all fun target => runsFit levels enclosing target value
    | _, _ => true

section Parts

variable {write write' : PartWriter} {read : PartReader} {enclosing : List TypeDesc} {f : Fault}

theorem decided_fields (struct : StructType) (values : List Payload)
    {enough : Member TypeDesc × Payload → Bool}
    (hpart : ∀ p ∈ struct.members.zip values,
      Decided (write (struct.desc :: enclosing) p.1.type p.2)
        (write' (struct.desc :: enclosing) p.1.type p.2)
        (read (struct.desc :: enclosing) p.1.type) (enough p) f) :
    Decided (Encode.fields write enclosing struct values)
      (Encode.fields write' enclosing struct values)
      (Read.each (fun m => read (struct.desc :: enclosing) m.type) struct.members)
      ((struct.members.zip values).all enough) f := by
  unfold Encode.fields
  split
  · exact Decided.fail _
  · rename_i hlength
    have hlength : struct.members.length = values.length := not_not.1 hlength
    exact Decided.each (fun m => read (struct.desc :: enclosing) m.type) hlength hpart

theorem decided_alternative (s : Settings) {union : UnionType} {d : Int64} {value : Payload}
    {enough : Branch TypeDesc → Bool} (hfit : union.ordinalsFit = true)
    (hpart : ∀ b, union.selected? d = some b →
      Decided (write (union.desc :: enclosing) b.type value)
        (write' (union.desc :: enclosing) b.type value)
        (read (union.desc :: enclosing) b.type) (enough b) f) :
    Decided (Encode.alternative s write enclosing union d value)
      (Encode.alternative s write' enclosing union d value)
      (Decode.alternative s read enclosing union) ((union.selected? d).all enough) f := by
  unfold Encode.alternative
  split
  · exact Decided.fail _
  · rename_i hrange
    have hrange : union.inRange d = true := by simpa using hrange
    cases hselected : union.selected? d with
    | none => exact Decided.fail _
    | some b =>
      refine Decided.later (recovers_discriminant s hfit hrange) ?_
      simp only [hselected]
      exact (hpart b hselected).map (Payload.union d)

/-- Octets are written one by one and read as one run, so they are decided if there is a level for
    each of them or none of them. -/
theorem decided_elements (s : Settings) {element : TypeDesc} {bound : Option UInt32}
    {values : List Payload} {enough : Payload → Bool}
    (hoctet : element.resolve = .scalar .octet → ∀ v ∈ values, enough v = true ∧
      (write' enclosing element v).Extends (write enclosing element v) ∧
      ∀ position written, write enclosing element v position = .ok written →
        ∃ octet, v = .scalar (.octet octet) ∧ written = [octet])
    (hpart : element.resolve ≠ .scalar .octet → ∀ v ∈ values,
      Decided (write enclosing element v) (write' enclosing element v) (read enclosing element)
        (enough v) f) :
    Decided (Encode.elements s write enclosing element bound values)
      (Encode.elements s write' enclosing element bound values)
      (Decode.elements s read enclosing element bound) (values.all enough) f := by
  unfold Encode.elements
  split
  · exact Decided.fail _
  · rename_i hbound
    refine decided_count_ulong s fun hfit => ?_
    rw [filter_lt_ofNat hfit, hbound]
    have hcount : (UInt32.ofNat values.length).toNat = values.length :=
      UInt32.toNat_ofNat_of_lt' hfit
    simp only [hcount]
    split
    · rename_i hresolve
      have hoctets := hoctet hresolve
      refine .inl ⟨List.all_eq_true.2 fun v hv => (hoctets v hv).1,
        Emit.Extends.congruence.concat fun v hv => (hoctets v hv).2.1,
        values.map (·.receivedOver none), ?_⟩
      exact recovers_run_of_octets fun v hv => (hoctets v hv).2.2
    · rename_i hresolve
      exact Decided.times (hpart hresolve)

theorem decided_fixedElements {element : TypeDesc} {length : UInt32} {values : List Payload}
    {enough : Payload → Bool}
    (hpart : ∀ v ∈ values, Decided (write enclosing element v) (write' enclosing element v)
      (read enclosing element) (enough v) f) :
    Decided (Encode.fixedElements write enclosing element length values)
      (Encode.fixedElements write' enclosing element length values)
      (Read.times length.toNat (read enclosing element)) (values.all enough) f := by
  unfold Encode.fixedElements
  split
  · exact Decided.fail _
  · rename_i hlength
    have hlength : values.length = length.toNat := not_not.1 hlength
    rw [← hlength]
    exact Decided.times hpart

/-- The content of an `any` is decided by its description, which has to fit in the levels left, and
    by the value under it. -/
theorem decided_content (hkept : c.aliases = .preserve) (limit limit' : Nat) {levels : Nat}
    {type : TypeDesc} {value : Payload} {enough : Bool} (hwf : type.wellFormed = true)
    (hclosed : type.closed = true)
    (hpart : type.ordinalsFit = true →
      Decided (write [] type value) (write' [] type value) (read [] type) enough
        (.depthExceeded limit')) :
    Decided (Encode.content (c.limitedTo limit) write type value)
      (Encode.content (c.limitedTo limit') write' type value)
      (Decode.content (c.limitedTo limit') levels read)
      (decide (type.nesting ≤ levels) && enough) (.depthExceeded limit') := by
  unfold Encode.content
  simp only [Codec.aliases_limitedTo, hkept]
  by_cases hwritable : (type.code c.settings).Writable
  · have hvalue := hpart (TypeDesc.ordinalsFit_of_writable hwritable)
    by_cases hlevels : type.nesting ≤ levels
    · have htype := TypeCode.recovers_code c.settings limit' hwf hclosed hlevels
      rw [decide_eq_true hlevels, Bool.true_and]
      exact Decided.later htype (hvalue.map (Payload.any type))
    · have htype := TypeCode.refuses_code c.settings limit' hwf hclosed
        (show levels + 1 ≤ type.nesting by omega)
      exact .inr (htype.first _ _)
  · exact Decided.of_not_writable fun hw => hwritable hw.parts.1

end Parts

/-! ## Whole values -/

/-- Whether the description of each value carried in the payload is well formed and closed. -/
def Payload.ContentsChecked (p : Payload) : Prop :=
  ∀ y ∈ p.contents, y.type.wellFormed = true ∧ y.type.closed = true

theorem Payload.contentsChecked_of_mem {ps : List Payload} {p : Payload}
    (h : ∀ y ∈ allContents ps, y.type.wellFormed = true ∧ y.type.closed = true) (hp : p ∈ ps) :
    p.ContentsChecked :=
  fun y hy => h y (mem_allContents.2 ⟨p, hp, hy⟩)

/-- A value of a scalar type carries no description. -/
theorem Payload.contentsFit_of_scalar (levels : Nat) (enclosing : List TypeDesc) {type : TypeDesc}
    {kind : Scalar} (h : type.resolve = .scalar kind) (value : Payload) :
    value.contentsFit levels enclosing type = true := by
  cases levels with
  | zero => rfl
  | succ levels =>
    unfold contentsFit
    simp only [h]

/-- Each part is decided whose descriptions are checked and in which no octets stand on the last
    level. -/
def PartsDecided (limit levels : Nat) (write write' : PartWriter) (read : PartReader) : Prop :=
  ∀ (enclosing : List TypeDesc) (type : TypeDesc) (value : Payload),
    type.ordinalsFit = true → (∀ t ∈ enclosing, t.ordinalsFit = true) → value.ContentsChecked →
    value.runsFit levels enclosing type = true →
    Decided (write enclosing type value) (write' enclosing type value) (read enclosing type)
      (value.contentsFit levels enclosing type) (.depthExceeded limit)

/-- **One node.** A node is decided if every part of it is, with one level less. Octets are not read
    as parts, so of them it has to be known what is written. -/
theorem decided_node (hkept : c.aliases = .preserve) (limit limit' : Nat) {levels : Nat}
    {write write' : PartWriter} {read : PartReader} {enclosing : List TypeDesc} {type : TypeDesc}
    {value : Payload}
    (hoctet : ∀ element, element.resolve = .scalar .octet → ∀ v position written,
      write enclosing element v position = .ok written →
        ∃ octet, v = .scalar (.octet octet) ∧ written = [octet])
    (hlevel : levels ≠ 0 → ∀ element, element.resolve = .scalar .octet → ∀ v,
      (write' enclosing element v).Extends (write enclosing element v))
    (hpart : PartsDecided limit' levels write write' read)
    (hfit : type.ordinalsFit = true) (henclosing : ∀ t ∈ enclosing, t.ordinalsFit = true)
    (hchecked : value.ContentsChecked) (hruns : value.runsFit (levels + 1) enclosing type = true) :
    Decided (Encode.node (c.limitedTo limit) write enclosing type value)
      (Encode.node (c.limitedTo limit') write' enclosing type value)
      (Decode.node (c.limitedTo limit') levels read enclosing type)
      (value.contentsFit (levels + 1) enclosing type) (.depthExceeded limit') := by
  have hresolved : type.resolve.ordinalsFit = true := TypeDesc.everyNode_resolve hfit
  unfold Payload.runsFit at hruns
  unfold Payload.contentsFit Encode.node Decode.node
  cases hresolve : type.resolve with
  | null =>
    cases value with
    | null => exact Decided.same (Recovers.pure Payload.null) _
    | _ => exact Decided.fail _
  | scalar kind =>
    cases value with
    | scalar v =>
      dsimp only
      split
      · rename_i hkind
        subst hkind
        exact Decided.same ((recovers_scalar c.settings v).map Payload.scalar) _
      · exact Decided.fail _
    | _ => exact Decided.fail _
  | string =>
    cases value with
    | string text => exact Decided.same ((recovers_string c.settings text).map Payload.string) _
    | _ => exact Decided.fail _
  | wstring =>
    cases value with
    | wstring text => exact Decided.same ((recovers_wstring c.settings text).map Payload.wstring) _
    | _ => exact Decided.fail _
  | enum name enumerators =>
    cases value with
    | enum ordinal =>
      have hordinal := recovers_enumerator c.settings name enumerators ordinal
      exact Decided.same (hordinal.map Payload.enum) _
    | _ => exact Decided.fail _
  | objectRef interface =>
    cases value with
    | objectRef r =>
      have hreference := recovers_reference (c := c.limitedTo limit') r
      exact Decided.same (hreference.map Payload.objectRef) _
    | _ => exact Decided.fail _
  | any =>
    cases value with
    | any type value =>
      obtain ⟨⟨hwf, hclosed⟩, hinner⟩ := List.forall_mem_cons.1 hchecked
      simp only [hresolve] at hruns
      simp only [hwf, hclosed, Bool.true_and]
      refine decided_content hkept limit limit' hwf hclosed fun hfit => ?_
      exact hpart [] type value hfit (by simp) hinner hruns
    | _ => exact Decided.fail _
  | sequence element bound =>
    cases value with
    | sequence values =>
      simp only [TypeDesc.ordinalsFit, hresolve, TypeDesc.everyNode, Bool.true_and] at hresolved
      simp only [hresolve] at hruns
      refine Decided.map (decided_elements c.settings ?_ ?_) Payload.sequence
      · intro helement v hv
        rw [if_pos helement, Bool.or_eq_true, List.isEmpty_iff, decide_eq_true_eq] at hruns
        have hleft : levels ≠ 0 := hruns.resolve_left (List.ne_nil_of_mem hv)
        exact ⟨Payload.contentsFit_of_scalar levels enclosing helement v,
          hlevel hleft element helement v, hoctet element helement v⟩
      · intro helement v hv
        rw [if_neg helement, List.all_eq_true] at hruns
        exact hpart enclosing element v hresolved henclosing
          (Payload.contentsChecked_of_mem hchecked hv) (hruns v hv)
    | _ => exact Decided.fail _
  | array element length =>
    cases value with
    | array values =>
      simp only [TypeDesc.ordinalsFit, hresolve, TypeDesc.everyNode, Bool.true_and] at hresolved
      simp only [hresolve, List.all_eq_true] at hruns
      refine Decided.map (decided_fixedElements fun v hv => ?_) Payload.array
      exact hpart enclosing element v hresolved henclosing
        (Payload.contentsChecked_of_mem hchecked hv) (hruns v hv)
    | _ => exact Decided.fail _
  | struct name members =>
    cases value with
    | struct values =>
      simp only [hresolve, List.all_eq_true] at hruns
      rw [hresolve] at hresolved
      have hinside : ∀ t ∈ TypeDesc.struct name members :: enclosing, t.ordinalsFit = true :=
        List.forall_mem_cons.2 ⟨hresolved, henclosing⟩
      have hmembers := TypeDesc.ordinalsFit_struct_iff.1 hresolved
      refine Decided.map (decided_fields ⟨name, members⟩ values fun p hp => ?_) Payload.struct
      obtain ⟨hm, hv⟩ := List.of_mem_zip hp
      exact hpart _ p.1.type p.2 (hmembers p.1 hm) hinside
        (Payload.contentsChecked_of_mem hchecked hv) (hruns p hp)
    | _ => exact Decided.fail _
  | union name discriminant branches =>
    cases value with
    | union d value =>
      simp only [hresolve, Option.all_eq_true] at hruns
      rw [hresolve] at hresolved
      have hinside : ∀ t ∈ TypeDesc.union name discriminant branches :: enclosing,
          t.ordinalsFit = true := List.forall_mem_cons.2 ⟨hresolved, henclosing⟩
      obtain ⟨hunion, -, hbranches⟩ := TypeDesc.ordinalsFit_union_iff.1 hresolved
      exact decided_alternative c.settings hunion fun b hb =>
        hpart _ b.type value (hbranches b (UnionType.mem_of_selected? hb)) hinside hchecked
          (hruns b hb)
    | _ => exact Decided.fail _
  | recursive name =>
    simp only [hresolve, Option.all_eq_true] at hruns
    dsimp only
    cases htarget : TypeDesc.enclosing? name enclosing with
    | some target =>
      have hmem : target ∈ enclosing := List.mem_of_find?_eq_some htarget
      exact hpart enclosing target value (henclosing target hmem) henclosing hchecked
        (hruns target htarget)
    | none => exact Decided.fail _
  | typedef name underlying => exact absurd hresolve (type.resolve_ne_typedef name underlying)

/-- An octet has no parts, so one level is as good as many. -/
theorem extends_encode_octet (limit limit' : Nat) {levels levels' : Nat} (h : levels' ≠ 0)
    (enclosing : List TypeDesc) {type : TypeDesc} (htype : type.resolve = .scalar .octet)
    (value : Payload) :
    ((c.limitedTo limit').encode levels' enclosing type value).Extends
      ((c.limitedTo limit).encode levels enclosing type value) := by
  obtain ⟨below, rfl⟩ := Nat.exists_eq_add_one_of_ne_zero h
  cases levels with
  | zero => exact Emit.Extends.fail _ _
  | succ levels =>
    simp only [Codec.encode, Encode.node, htype]
    exact Emit.Extends.refl _

/-- **Values.** What is written under one limit is decided under any other. -/
theorem decided_encode (hkept : c.aliases = .preserve) (limit limit' levels levels' : Nat) :
    PartsDecided limit' levels' ((c.limitedTo limit).encode levels)
      ((c.limitedTo limit').encode levels') ((c.limitedTo limit').decode levels') := by
  induction levels' generalizing levels with
  | zero =>
    intro enclosing type value _ _ _ _
    exact .inr (Refuses.throw _ _)
  | succ levels' ih =>
    intro enclosing type value hfit henclosing hchecked hruns
    cases levels with
    | zero => exact Decided.fail _
    | succ levels =>
      exact decided_node hkept limit limit' (fun _ h _ _ _ => octet_of_encode_eq_ok h)
        (fun h _ hoctet v => extends_encode_octet limit limit' h enclosing hoctet v)
        (ih levels) hfit henclosing hchecked hruns

/-! ## The descriptions that travel -/

/-- The payload as it travels: a codec that collapses `typedef` names does so in the description of
    each value carried. -/
def Codec.sent (c : Codec) (p : Payload) : Payload :=
  match c.aliases with
  | .preserve => p
  | .collapse => p.mapDescriptions .collapse

/-- The elements of a sequence travel one by one. -/
theorem Codec.sent_sequence (c : Codec) (ps : List Payload) :
    c.sent (.sequence ps) = .sequence (ps.map c.sent) := by
  unfold Codec.sent
  cases c.aliases with
  | preserve => rw [List.map_id']
  | collapse => rw [Payload.mapDescriptions, Payload.mapAllDescriptions_eq_map]

theorem Payload.mapDescriptions_id (p : Payload) : p.mapDescriptions id = p := by
  have hall : ∀ ps : List Payload, (∀ p ∈ ps, p.mapDescriptions id = p) →
      mapAllDescriptions id ps = ps := by
    intro ps h
    rw [mapAllDescriptions_eq_map, List.map_congr_left h, List.map_id']
  induction p with
  | sequence ps ih => rw [mapDescriptions, hall ps ih]
  | array ps ih => rw [mapDescriptions, hall ps ih]
  | struct ps ih => rw [mapDescriptions, hall ps ih]
  | union d value ih => rw [mapDescriptions, ih]
  | any type value ih => rw [mapDescriptions, ih, id]
  | _ => rfl

/-- A value is written under its collapsed type as it is under its type, with the descriptions in it
    as they are. -/
theorem agrees_encode_underCollapsed (levels : Nat) :
    PartWriter.CollapsesTo id (c.encode levels) (c.encode levels) := by
  induction levels with
  | zero =>
    intro enclosing type value _
    exact Emit.Agrees.fail _ _
  | succ levels ih =>
    intro enclosing type value henclosing
    refine agrees_node rfl ih henclosing (fun type value => ?_) type value
    rw [Payload.mapDescriptions_id]
    exact Emit.Agrees.refl _

/-- Under either codec, a value is written as the payload that travels is by a codec that keeps
    `typedef` names. -/
theorem agrees_encode_sent (levels : Nat) (type : TypeDesc) (value : Payload) :
    (c.encode levels [] type value).Agrees
      (c.keepingAliases.encode levels [] type (c.sent value)) := by
  unfold Codec.sent
  cases haliases : c.aliases with
  | preserve =>
    have hsame : c.keepingAliases = c := by rw [Codec.keepingAliases, ← haliases]
    rw [hsame]
    exact Emit.Agrees.refl _
  | collapse =>
    have hcollapsed := agrees_encode_collapse haliases levels [] type value (by simp [KeepNames])
    have hkeeping := agrees_encode_underCollapsed (c := c.keepingAliases) levels [] type
      (value.mapDescriptions .collapse) (by simp [KeepNames])
    rw [Payload.mapDescriptions_id] at hkeeping
    exact fun position written =>
      (hcollapsed position written).trans (hkeeping position written).symm

/-- **Values that travel.** Whatever a codec does about `typedef` names, it reads back the payload
    that travelled, if every description in that fits where it is written. -/
theorem recovers_encode_sent (levels : Nat) {type : TypeDesc} {p : Payload}
    (hfit : type.ordinalsFit = true) (hcontents : (c.sent p).contentsFit levels [] type = true) :
    Recovers (c.encode levels [] type p) (c.decode levels [] type)
      ((c.sent p).receivedOver c.binding) := by
  intro position written rest hw
  have hsent := (agrees_encode_sent levels type p position written).1 hw
  have hkept := partsAgree_encode_decode (c := c.keepingAliases) rfl levels [] type (c.sent p) hfit
    (by simp) hcontents position written rest hsent
  rwa [decode_keepingAliases] at hkept

/-! ## Limits for writing and for reading -/

/-- **Two limits.** Let a value be written within some limit, with the descriptions in it checked. A
    reader with any limit reads it back if and only if a writer with that limit would have written
    it and each description fits in the levels left where it stands. Of limits at which octets stand
    on the last level this says nothing. -/
theorem readValue_iff_value {type : TypeDesc} {value : Payload} {before written : List UInt8}
    {accepted limit : Nat} (hfit : type.ordinalsFit = true)
    (hchecked : (c.sent value).ContentsChecked)
    (hput : (Writer.mk before).put ((c.limitedTo accepted).value ⟨type, value⟩)
      = (.ok (), ⟨before ++ written⟩))
    (hruns : (c.sent value).runsFit limit [] type = true) (after : List UInt8) :
    (∃ y stop, Reader.readAt (before ++ written ++ after) before.length
        ((c.limitedTo limit).readValue type) = .ok (y, stop)) ↔
      (∃ written', (Writer.mk before).put ((c.limitedTo limit).value ⟨type, value⟩)
        = (.ok (), ⟨before ++ written'⟩)) ∧
      (c.sent value).contentsFit limit [] type = true := by
  -- Both sides are about the payload that travels, under the codec that keeps `typedef` names.
  have hsent := fun levels => agrees_encode_sent (c := c.limitedTo levels) levels type value
  have hread : (c.limitedTo limit).decode limit = (c.keepingAliases.limitedTo limit).decode limit :=
    (decode_keepingAliases (c.limitedTo limit) limit).symm
  have hwritten : (c.keepingAliases.limitedTo accepted).encode accepted [] type (c.sent value)
      before.length = .ok written :=
    (hsent accepted _ _).1 (Writer.put_eq_ok_iff.1 hput)
  have hstart : (before ++ written ++ after).drop before.length = written ++ after := by
    rw [List.append_assoc, List.drop_left]
  constructor
  · rintro ⟨y, stop, hrun⟩
    obtain ⟨-, back, hrun⟩ := Reader.readAt_eq_ok_iff.1 hrun
    obtain ⟨p, hdecode, -⟩ := Read.map_eq_ok_iff.1 hrun
    rw [Codec.maxDepth_limitedTo, hread, hstart] at hdecode
    rcases decided_encode (c := c.keepingAliases) rfl accepted limit accepted limit [] type
      (c.sent value) hfit (by simp) hchecked hruns with ⟨hcontents, hextends, -⟩ | hrefuses
    · have hwritten' := (hsent limit _ _).2 (hextends _ _ hwritten)
      exact ⟨⟨written, Writer.put_eq_ok_iff.2 hwritten'⟩, hcontents⟩
    · obtain ⟨stop', hfails⟩ := hrefuses _ _ after hwritten
      rw [hfails] at hdecode
      cases hdecode
  · rintro ⟨⟨written', hput'⟩, hcontents⟩
    have hwritten' := (hsent limit _ _).1 (Writer.put_eq_ok_iff.1 hput')
    -- The greater of the two limits extends the other, so the octets are the same.
    have hsame : written' = written := by
      rcases Nat.le_total accepted limit with hle | hle
      · have := extends_encode (c := c.keepingAliases) accepted limit hle _ _ _ _ _ hwritten
        exact Except.ok.inj (hwritten'.symm.trans this)
      · have := extends_encode (c := c.keepingAliases) limit accepted hle _ _ _ _ _ hwritten'
        exact Except.ok.inj (this.symm.trans hwritten)
    rw [hsame] at hwritten'
    have hdecode := partsAgree_encode_decode (c := c.keepingAliases.limitedTo limit) rfl limit []
      type (c.sent value) hfit (by simp) hcontents _ _ after hwritten'
    rw [← hread, ← hstart] at hdecode
    refine ⟨_, _, Reader.readAt_eq_ok_iff.2 ⟨?_, _, Read.map_eq_ok_iff.2 ⟨_, hdecode, rfl⟩⟩⟩
    simp only [List.length_append]
    omega

/-- A number under two `typedef` names, in an `any`. -/
def twiceAliased : Payload :=
  .any (.named "A" (.named "B" (.scalar .long))) (.scalar (.long 5))

/-- Its message: the description in three levels, and the number. -/
def twiceAliasedOctets : List UInt8 :=
  [21, 0, 0, 0, 2, 0, 0, 0, 65, 0, 0, 0, 21, 0, 0, 0, 2, 0, 0, 0, 66, 0, 0, 0, 3, 0, 0, 0,
    5, 0, 0, 0]

/-- Written within two levels, the number is read within three and not within two. -/
theorem readValue_iff_value_twiceAliased :
    let c : Codec := {}
    (TypeDesc.any.ordinalsFit = true ∧ (c.sent twiceAliased).ContentsChecked ∧
      (Writer.mk []).put ((c.limitedTo 2).value ⟨.any, twiceAliased⟩)
        = (.ok (), ⟨[] ++ twiceAliasedOctets⟩) ∧
      (c.sent twiceAliased).runsFit 2 [] .any = true ∧
      (c.sent twiceAliased).runsFit 3 [] .any = true) ∧
    (∃ y stop, Reader.readAt ([] ++ twiceAliasedOctets ++ [9]) 0
      ((c.limitedTo 3).readValue .any) = .ok (y, stop)) ∧
    ¬∃ y stop, Reader.readAt ([] ++ twiceAliasedOctets ++ [9]) 0
      ((c.limitedTo 2).readValue .any) = .ok (y, stop) := by
  have hput : (Writer.mk []).put ((({} : Codec).limitedTo 2).value ⟨.any, twiceAliased⟩)
      = (.ok (), ⟨[] ++ twiceAliasedOctets⟩) := rfl
  have hput' : (Writer.mk []).put ((({} : Codec).limitedTo 3).value ⟨.any, twiceAliased⟩)
      = (.ok (), ⟨[] ++ twiceAliasedOctets⟩) := rfl
  intro c
  have hchecked : (c.sent twiceAliased).ContentsChecked := by
    intro y hy
    obtain rfl := List.mem_singleton.1 hy
    exact ⟨rfl, rfl⟩
  refine ⟨⟨rfl, hchecked, hput, rfl, rfl⟩, ?_, ?_⟩
  · exact (readValue_iff_value rfl hchecked hput rfl [9]).2 ⟨⟨_, hput'⟩, rfl⟩
  · intro hread
    have hcontents := ((readValue_iff_value rfl hchecked hput rfl [9]).1 hread).2
    revert hcontents
    decide

/-- The same two levels are enough for writing the number and not for reading it. A description with
    a marker that stands for nothing is written within any number of levels, but not read. And an
    octet in a sequence is read within one level, but not written. -/
theorem written_and_not_read :
    ((Writer.mk []).put (({ maxDepth := 2 } : Codec).value ⟨.any, twiceAliased⟩)
        = (.ok (), ⟨twiceAliasedOctets⟩) ∧
      Reader.readAt twiceAliasedOctets 0 (({ maxDepth := 2 } : Codec).readValue .any)
        = .error (.depthExceeded 2)) ∧
    ((Writer.mk []).put (({ maxDepth := 3 } : Codec).value
        ⟨.any, .any (.sequence (.recursive "N") none) (.sequence [])⟩)
        = (.ok (),
          ⟨[19, 0, 0, 0, 255, 255, 255, 255, 2, 0, 0, 0, 78, 0, 0, 0, 0, 0, 0, 0, 0, 0, 0, 0]⟩) ∧
      Reader.readAt
          [19, 0, 0, 0, 255, 255, 255, 255, 2, 0, 0, 0, 78, 0, 0, 0, 0, 0, 0, 0, 0, 0, 0, 0] 0
          (({ maxDepth := 3 } : Codec).readValue .any)
        = .error (.invalidDescriptor (.danglingMarker "N"))) ∧
    ((Writer.mk []).put (({ maxDepth := 2 } : Codec).value
        ⟨.sequence (.scalar .octet) none, .sequence [.scalar (.octet 7)]⟩)
        = (.ok (), ⟨[1, 0, 0, 0, 7]⟩) ∧
      (Writer.mk []).put (({ maxDepth := 1 } : Codec).value
        ⟨.sequence (.scalar .octet) none, .sequence [.scalar (.octet 7)]⟩)
        = (.error (.depthExceeded 1), ⟨[]⟩) ∧
      ∃ y, Reader.readAt [1, 0, 0, 0, 7] 0
        (({ maxDepth := 1 } : Codec).readValue (.sequence (.scalar .octet) none)) = .ok (y, 5)) := by
  exact ⟨⟨rfl, rfl⟩, ⟨rfl, rfl⟩, rfl, rfl, ⟨_, rfl⟩⟩

end ObjectBroker
