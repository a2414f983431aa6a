import ObjectBroker.Proofs.TypeCode.Recovery

/-!
# `ObjectBroker.Proofs.Wire.Faults` — the faults of a write and of a read

Which faults a composite piece can end with is decided by its parts: a piece after a piece has the
faults of both. Numbers always can be written, and texts, counts and type codes fail only where some
datum has no form on the wire. So it is enough to look at the places where a walk fails by itself.
-/

namespace ObjectBroker

/-- Two pieces in a row fail where the first does, or where the second does after it. -/
theorem Emit.append_eq_error_iff {a b : Emit} {position : Nat} {f : Fault} :
    (a ++ b) position = .error f ↔
      a position = .error f ∨
        ∃ front, a position = .ok front ∧ b (position + front.length) = .error f := by
  rw [append_apply]
  cases ha : a position with
  | error f' => simp
  | ok front => cases hb : b (position + front.length) <;> simp [hb]

/-- Where the piece cannot be written, the fault is one of these. -/
def Emit.FailsWith (e : Emit) (P : Fault → Prop) : Prop :=
  ∀ (position : Nat) (f : Fault), e position = .error f → P f

namespace Emit.FailsWith

variable {P Q : Fault → Prop} {e e' : Emit}

/-! ## Laws of composition -/

theorem mono (h : e.FailsWith P) (himp : ∀ f, P f → Q f) : e.FailsWith Q :=
  fun position f hf => himp f (h position f hf)

theorem fail {f : Fault} (h : P f) : (Emit.fail f).FailsWith P := by
  intro position f' hf
  cases hf
  exact h

theorem octets (content : List UInt8) : (Emit.octets content).FailsWith P := by
  intro position f hf
  cases hf

theorem nothing : Emit.nothing.FailsWith P := octets []

theorem append (h : e.FailsWith P) (h' : e'.FailsWith P) : (e ++ e').FailsWith P := by
  intro position f hf
  rcases append_eq_error_iff.1 hf with hfirst | ⟨front, -, hsecond⟩
  · exact h position f hfirst
  · exact h' _ f hsecond

theorem concat {α : Type} {xs : List α} {piece : α → Emit} (h : ∀ x ∈ xs, (piece x).FailsWith P) :
    (Emit.concat (xs.map piece)).FailsWith P := by
  induction xs with
  | nil => exact nothing
  | cons x xs ih =>
    have hothers := ih fun y hy => h y (List.mem_cons_of_mem x hy)
    exact (h x List.mem_cons_self).append hothers

/-- A piece made from a result fails like the result or like the piece. -/
theorem ofExcept {α : Type} {r : Except Fault α} {piece : α → Emit}
    (hresult : ∀ f, r = .error f → P f) (h : ∀ a, (piece a).FailsWith P) :
    (Emit.ofExcept r piece).FailsWith P := by
  cases r with
  | ok a => exact h a
  | error f => exact fail (hresult f rfl)

/-- A number can always be written. -/
theorem word (s : Settings) (width value : Nat) : (Emit.word s width value).FailsWith P := by
  refine append ?_ (octets _)
  intro position f hf
  cases hf

end Emit.FailsWith

/-! ## Data without a form on the wire -/

/-- The fault is about a datum that has no form on the wire. -/
def Fault.IsData (f : Fault) : Prop := ∃ cause, f = .invalidData cause

open Emit

variable (s : Settings)

theorem failsWith_count (n : Nat) : (count s n).FailsWith Fault.IsData := by
  unfold count
  split
  · exact FailsWith.word s 4 n
  · exact FailsWith.fail ⟨_, rfl⟩

theorem Latin1.isData_of_encode {c : Char} {f : Fault} (h : encode c = .error f) : f.IsData := by
  unfold encode at h
  split at h
  · cases h
  · cases h
    exact ⟨_, rfl⟩

theorem Latin1.isData_of_encodeAll {text : String} {f : Fault} (h : encodeAll text = .error f) :
    f.IsData := by
  unfold encodeAll at h
  generalize text.toList = cs at h
  induction cs with
  | nil => cases h
  | cons c cs ih =>
    rw [List.mapM_cons] at h
    cases hc : encode c with
    | error f' =>
      rw [hc] at h
      cases h
      exact isData_of_encode hc
    | ok octet =>
      cases hcs : cs.mapM encode with
      | error f' =>
        rw [hc, hcs] at h
        cases h
        exact ih hcs
      | ok octets =>
        rw [hc, hcs] at h
        cases h

theorem failsWith_char (c : Char) : (char c).FailsWith Fault.IsData :=
  FailsWith.ofExcept (fun _ => Latin1.isData_of_encode) fun octet => FailsWith.octets [octet]

theorem failsWith_wchar (c : Char) : (wchar s c).FailsWith Fault.IsData := by
  unfold wchar
  split
  · split
    · exact FailsWith.word s 2 _
    · exact FailsWith.fail ⟨_, rfl⟩
  · exact FailsWith.word s 4 _

theorem failsWith_scalar (v : ScalarValue) : (scalar s v).FailsWith Fault.IsData := by
  cases v with
  | octet v => exact FailsWith.octets [v]
  | boolean v => exact FailsWith.octets _
  | char c => exact failsWith_char c
  | wchar c => exact failsWith_wchar s c
  | _ => exact FailsWith.word s _ _

theorem failsWith_string (text : String) : (string s text).FailsWith Fault.IsData := by
  refine FailsWith.ofExcept (fun _ => Latin1.isData_of_encodeAll) fun content => ?_
  split
  · exact (FailsWith.word s 4 _).append (FailsWith.octets _)
  · exact FailsWith.fail ⟨_, rfl⟩

theorem failsWith_wstring (text : String) : (wstring s text).FailsWith Fault.IsData := by
  unfold wstring
  split
  · exact (failsWith_count s _).append (FailsWith.concat fun _ _ => FailsWith.word s 2 _)
  · exact (failsWith_count s _).append (FailsWith.concat fun _ _ => FailsWith.word s 4 _)

theorem failsWith_octetSequence (content : List UInt8) :
    (octetSequence s content).FailsWith Fault.IsData :=
  (failsWith_count s _).append (FailsWith.octets content)

theorem failsWith_labels (ls : List Label) : (TypeCode.labels s ls).FailsWith Fault.IsData := by
  refine (failsWith_count s _).append (FailsWith.concat fun l _ => ?_)
  cases l with
  | value d => exact (FailsWith.octets _).append (FailsWith.word s 8 _)
  | default => exact (FailsWith.octets _).append (FailsWith.word s 8 _)

/-- A description fails to be written only for a name or a count in it. -/
theorem failsWith_code (t : TypeDesc) : (t.code s).FailsWith Fault.IsData := by
  have hkind : ∀ k, (TypeCode.kind s k).FailsWith Fault.IsData := fun k => FailsWith.word s 4 _
  induction t with
  | struct name members ih =>
    simp only [TypeDesc.code, TypeDesc.codeMembers_eq_concat]
    refine (((hkind _).append (failsWith_string s name)).append (failsWith_count s _)).append ?_
    exact FailsWith.concat fun m hm => (failsWith_string s m.name).append (ih m hm)
  | union name discriminant branches ihd ihb =>
    simp only [TypeDesc.code, TypeDesc.codeBranches_eq_concat]
    refine ((((hkind _).append (failsWith_string s name)).append ihd).append
      (failsWith_count s _)).append ?_
    exact FailsWith.concat fun b hb =>
      ((failsWith_labels s b.labels).append (failsWith_string s b.name)).append (ihb b hb)
  | enum name enumerators =>
    refine (((hkind _).append (failsWith_string s name)).append (failsWith_count s _)).append ?_
    exact FailsWith.concat fun e _ => failsWith_string s e
  | sequence element bound ih => exact ((hkind _).append ih).append (FailsWith.word s 4 _)
  | array element length ih => exact ((hkind _).append ih).append (FailsWith.word s 4 _)
  | typedef name underlying ih => exact ((hkind _).append (failsWith_string s name)).append ih
  | objectRef interface => exact (hkind _).append (failsWith_string s interface)
  | recursive name => exact (hkind _).append (failsWith_string s name)
  | string => exact (hkind _).append (FailsWith.word s 4 _)
  | wstring => exact (hkind _).append (FailsWith.word s 4 _)
  | _ => exact hkind _

/-! ## The faults of a read -/

/-- Where the read fails, the fault is one of these. -/
def Read.FailsWith {α : Type} (r : Read α) (P : Fault → Prop) : Prop :=
  ∀ (c c' : Cursor) (f : Fault), r c = .error f c' → P f

/-- The fault is about what a message holds, and not about how it is to be taken: octets are missing,
    or are no legal value. -/
def Fault.IsContent (f : Fault) : Prop := (∃ needed left, f = .unexpectedEnd needed left) ∨ f.IsData

namespace Read.FailsWith

variable {α β : Type} {P : Fault → Prop} {r : Read α}

theorem pure (a : α) : (Pure.pure a : Read α).FailsWith P := by
  intro c c' f h
  cases h

theorem mono {Q : Fault → Prop} (h : r.FailsWith P) (himp : ∀ f, P f → Q f) : r.FailsWith Q :=
  fun c c' f hf => himp f (h c c' f hf)

theorem throw {f : Fault} (h : P f) : (MonadExcept.throw f : Read α).FailsWith P := by
  intro c c' f' hf
  cases hf
  exact h

theorem bind {k : α → Read β} (h : r.FailsWith P) (hk : ∀ a, (k a).FailsWith P) :
    (r >>= k).FailsWith P := by
  intro c c'' f hf
  cases hr : r c with
  | ok a c' =>
    rw [bind_of_ok hr] at hf
    exact hk a _ _ _ hf
  | error f' c' =>
    rw [bind_of_error hr] at hf
    cases hf
    exact h _ _ _ hr

theorem map (h : r.FailsWith P) (g : α → β) : (r >>= fun a => Pure.pure (g a)).FailsWith P :=
  h.bind fun a => pure (g a)

theorem take (n : Nat) : (Read.take n).FailsWith Fault.IsContent := by
  intro c c' f hf
  unfold Read.take at hf
  split at hf
  · cases hf
  · cases hf
    exact .inl ⟨_, _, rfl⟩

theorem require (n : Nat) : (Read.require n).FailsWith Fault.IsContent := by
  intro c c' f hf
  unfold Read.require at hf
  split at hf
  · cases hf
  · cases hf
    exact .inl ⟨_, _, rfl⟩

theorem align (alignment : Nat) : (Read.align alignment).FailsWith Fault.IsContent := by
  intro c c' f hf
  unfold Read.align at hf
  split at hf
  · cases hf
  · rename_i htake
    cases hf
    exact take _ _ _ _ htake

theorem word (s : Settings) (width : Nat) : (Read.word s width).FailsWith Fault.IsContent :=
  (align width).bind fun _ => (take width).map _

theorem boolean : Read.boolean.FailsWith Fault.IsContent := by
  refine ((take 1).map _).bind fun v => ?_
  split
  · exact pure _
  · exact pure _
  · exact throw (.inr ⟨_, rfl⟩)

theorem ulong (s : Settings) : (Read.ulong s).FailsWith Fault.IsContent :=
  (word s 4).map _

theorem longlong (s : Settings) : (Read.longlong s).FailsWith Fault.IsContent :=
  (word s 8).map _

theorem char : Read.char.FailsWith Fault.IsContent :=
  ((take 1).map _).map _

theorem wchar (s : Settings) : (Read.wchar s).FailsWith Fault.IsContent := by
  refine (word s _).bind fun unit => ?_
  dsimp only
  split
  · exact pure _
  · exact throw (.inr ⟨_, rfl⟩)

theorem scalar (s : Settings) (kind : Scalar) : (Read.scalar s kind).FailsWith Fault.IsContent := by
  cases kind with
  | octet => exact ((take 1).map _).map _
  | boolean => exact boolean.map _
  | ulong => exact (ulong s).map _
  | longlong => exact (longlong s).map _
  | char => exact char.map _
  | wchar => exact (wchar s).map _
  | _ => exact (word s _).map _

theorem times (h : r.FailsWith P) (n : Nat) : (Read.times n r).FailsWith P := by
  induction n with
  | zero => exact pure []
  | succ n ih => exact h.bind fun first => ih.map (first :: ·)

theorem octetSequence (s : Settings) : (Read.octetSequence s).FailsWith Fault.IsContent :=
  (word s 4).bind fun length => take length

theorem string (s : Settings) : (Read.string s).FailsWith Fault.IsContent := by
  refine (word s 4).bind fun length => ?_
  split
  · exact pure _
  · refine (take length).bind fun content => ?_
    split
    · exact pure _
    · exact pure _
    · exact throw (.inr ⟨_, rfl⟩)

theorem wstring (s : Settings) : (Read.wstring s).FailsWith Fault.IsContent := by
  refine (word s 4).bind fun length => (require _).bind fun _ => ?_
  split
  · refine (((word s 2).map _).times length).bind fun units => ?_
    split
    · exact pure _
    · exact throw (.inr ⟨_, rfl⟩)
  · refine (times ?_ length).map _
    refine (ulong s).bind fun unit => ?_
    split
    · exact pure _
    · exact throw (.inr ⟨_, rfl⟩)

end Read.FailsWith

/-! ## Faults under another name

Where a fault comes from cannot be seen in the fault. It can be seen by calling the faults of one
part otherwise: if the whole then does the same as when its own faults are called otherwise, it has
no others. -/

/-- Whether the fault is a complaint about a description. -/
def Fault.blamesDescription : Fault → Bool
  | .invalidDescriptor _ => true
  | _ => false

theorem Fault.not_blamesDescription_of_isContent {f : Fault} (h : f.IsContent) :
    f.blamesDescription = false := by
  rcases h with ⟨needed, left, rfl⟩ | ⟨cause, rfl⟩
  · rfl
  · rfl

/-- The same fault, with a complaint about a description called otherwise. -/
def Fault.called (g : DescriptorFault → Fault) : Fault → Fault
  | .invalidDescriptor cause => g cause
  | f => f

namespace Read

variable {α β : Type} (g : DescriptorFault → Cursor → Fault) {r : Read α} {c c' : Cursor}

/-- The same read, with its complaints about descriptions called otherwise, by their cause and by
    the place they were met at. -/
def reporting (r : Read α) : Read α := fun c =>
  match r c with
  | .ok a c' => .ok a c'
  | .error f c' => .error (f.called (g · c')) c'

theorem reporting_of_ok {a : α} (h : r c = .ok a c') : r.reporting g c = .ok a c' := by
  rw [reporting, h]

theorem reporting_of_error {f : Fault} (h : r c = .error f c') :
    r.reporting g c = .error (f.called (g · c')) c' := by
  rw [reporting, h]

/-- Names that change nothing where the read complains change nothing at all. -/
theorem reporting_eq_self
    (h : ∀ c c' cause, r c = .error (.invalidDescriptor cause) c' →
      g cause c' = .invalidDescriptor cause) : r.reporting g = r := by
  funext c
  cases hr : r c with
  | ok a c' => exact reporting_of_ok g hr
  | error f c' =>
    rw [reporting_of_error g hr]
    cases f with
    | invalidDescriptor cause => rw [Fault.called, h c c' cause hr]
    | _ => rfl

/-- A read that never complains about a description is the same under any names. -/
theorem reporting_of_failsWith (h : r.FailsWith (·.blamesDescription = false)) :
    r.reporting g = r := by
  refine reporting_eq_self g fun c c' cause hr => ?_
  cases h c c' _ hr

/-- So is one that fails only over what the message holds. -/
theorem reporting_of_content (h : r.FailsWith Fault.IsContent) : r.reporting g = r :=
  reporting_of_failsWith g (h.mono fun _ => Fault.not_blamesDescription_of_isContent)

theorem reporting_throw {f : Fault} (h : f.blamesDescription = false) :
    (throw f : Read α).reporting g = throw f :=
  reporting_of_failsWith g (FailsWith.throw h)

/-- A sequence complains where its first step does, or where the rest does after a result that the
    first step can give. -/
theorem reporting_bind {k k' : α → Read β}
    (h : ∀ a c c', r c = .ok a c' → (k a).reporting g = k' a) :
    (r >>= k).reporting g = r.reporting g >>= k' := by
  funext c
  cases hr : r c with
  | ok a c' =>
    rw [bind_of_ok (reporting_of_ok g hr), ← h a c c' hr, reporting, reporting, bind_of_ok hr]
  | error f c' =>
    rw [bind_of_error (reporting_of_error g hr), reporting, bind_of_error hr]

/-- Behind a step that fails only over what the message holds, the rest complains. -/
theorem reporting_content_bind {k k' : α → Read β} (hr : r.FailsWith Fault.IsContent)
    (h : ∀ a, (k a).reporting g = k' a) : (r >>= k).reporting g = r >>= k' := by
  rw [reporting_bind g fun a _ _ _ => h a, reporting_of_content g hr]

/-- To reshape a result adds no complaint. -/
theorem reporting_map (r : Read α) (f : α → β) :
    (r >>= fun a => pure (f a)).reporting g = r.reporting g >>= fun a => pure (f a) :=
  reporting_bind g fun _ _ _ _ => rfl

theorem reporting_times (n : Nat) (r : Read α) :
    (times n r).reporting g = times n (r.reporting g) := by
  induction n with
  | zero => rfl
  | succ n ih =>
    refine reporting_bind g fun first _ _ _ => ?_
    rw [reporting_map, ih]

theorem reporting_each {r r' : α → Read β} {as : List α}
    (h : ∀ a ∈ as, (r a).reporting g = r' a) : (each r as).reporting g = each r' as := by
  induction as with
  | nil => rfl
  | cons a as ih =>
    have hothers := ih fun a' ha' => h a' (List.mem_cons_of_mem a ha')
    rw [each, each, ← h a List.mem_cons_self]
    refine reporting_bind g fun first _ _ _ => ?_
    rw [reporting_map, hothers]

end Read

end ObjectBroker
