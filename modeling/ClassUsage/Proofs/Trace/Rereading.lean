import ClassUsage.Proofs.Trace.Versions

/-!
What is read from two versions of a document. Where they have the same values, the look-ups have the
same results, and so have the readers of every form of object; lists are checked entry by entry, and the
first fault is the same.
-/
namespace ClassUsage

section Lookups

variable {L α β : Type} {m m' : Members} {keys parts : List String} {key : String}

namespace Members

/-- The same values are found under the given keys, where null counts as none. -/
def SameAt (keys : List String) (m m' : Members) : Prop :=
  ∀ key ∈ keys, m.get? key = m'.get? key

namespace SameAt

variable (h : m.SameAt keys m') (hkey : key ∈ keys) {kind : Kind α}

include h hkey

theorem optional : m.optional kind key = m'.optional kind key := by
  unfold Members.optional
  rw [h key hkey]

theorem required : m.required kind key = m'.required kind key := by
  unfold Members.required
  rw [h.optional hkey]

theorem orElse {default : α} : m.orElse kind key default = m'.orElse kind key default := by
  unfold Members.orElse
  rw [h.optional hkey]

theorem optionalEntries : m.optionalEntries kind key = m'.optionalEntries kind key := by
  unfold Members.optionalEntries
  rw [h.optional hkey]

theorem entries : m.entries kind key = m'.entries kind key := by
  unfold Members.entries
  rw [h.optionalEntries hkey]

theorem requiredEntries : m.requiredEntries kind key = m'.requiredEntries kind key := by
  unfold Members.requiredEntries
  rw [h.required hkey]

omit kind in
theorem requiredValue : m.requiredValue key = m'.requiredValue key := by
  unfold Members.requiredValue
  rw [h key hkey]

end SameAt

theorem sameAt_singleton (h : m.get? key = m'.get? key) : m.SameAt [key] m' := by
  intro k hk
  rw [List.mem_singleton.mp hk]
  exact h

theorem get?_of_find? {v : Json} (h : m.find? key = some v) (hv : v ≠ .null) : m.get? key = some v := by
  unfold get?
  rw [h]
  split
  · next hnull => exact absurd (Option.some.inj hnull) hv
  · rfl

theorem hasKey_of_find? {v : Json} (h : m.find? key = some v) : m.hasKey key = true := by
  simp [hasKey, h]

theorem optional_of_read? {kind : Kind α} {v : Json} {a : α} (h : m.get? key = some v)
    (hv : kind.read? v = some a) : m.optional kind key = .ok (some a) := by
  simp only [optional, h, hv]

theorem required_of_find? {kind : Kind α} {v : Json} {a : α} (h : m.find? key = some v)
    (hv : v ≠ .null) (hread : kind.read? v = some a) : m.required kind key = .ok a := by
  simp only [required, optional_of_read? (get?_of_find? h hv) hread]

theorem orElse_of_read? {kind : Kind α} {v : Json} {a default : α} (h : m.get? key = some v)
    (hv : kind.read? v = some a) : m.orElse kind key default = .ok a := by
  rw [orElse, optional_of_read? h hv]
  rfl

/-- The entries of a list that is there. -/
theorem entries_of_list {kind : Kind α} {items : List Json} (h : m.get? key = some (.list items)) :
    m.entries kind key = readEntries kind key items := by
  simp only [entries, optionalEntries, optional, h, Kind.list]
  cases readEntries kind key items <;> rfl

end Members

namespace Leeway

variable {w : Leeway L} {form : Form}

theorem Keeps.get? (h : w.Keeps form key (m.find? key) (m'.find? key)) : m.get? key = m'.get? key := by
  rcases h with h | ⟨-, -, hnull, hnone⟩
  · simp only [Members.get?, h]
  · simp only [Members.get?, hnull, hnone]

theorem SameBut.sameAt (h : w.SameBut form parts m m') (hkeys : ∀ key ∈ keys, key ∉ parts) :
    m.SameAt keys m' :=
  fun key hkey => (h key (hkeys key hkey)).get?

/-- What is no known key of the form is there in both versions or in none. -/
theorem SameBut.find? (h : w.SameBut form parts m m') (hkey : key ∉ parts) (hform : key ∉ form.keys) :
    m.find? key = m'.find? key := by
  rcases h key hkey with h | ⟨-, hknown, -⟩
  · exact h
  · exact absurd hknown hform

theorem SameBut.hasKey (h : w.SameBut form parts m m') (hkey : key ∉ parts)
    (hform : key ∉ form.keys) : m.hasKey key = m'.hasKey key := by
  unfold Members.hasKey
  rw [h.find? hkey hform]

end Leeway

namespace Leeway.Part

variable {w : Leeway L} {form : Form}

/-- The same value is found, or objects that are related. -/
theorem get?_object {R : Members → Members → Prop} (h : w.Part form key (Json.Item R) m m') :
    m.get? key = m'.get? key ∨ ∃ o o' : Members, m.get? key = some (.object o) ∧
      m'.get? key = some (.object o') ∧ R o o' := by
  cases h with
  | kept h => exact .inl h.get?
  | revised hm hm' h =>
    cases h with
    | same v => exact .inl (by simp only [Members.get?, hm, hm'])
    | object h =>
      exact .inr ⟨_, _, Members.get?_of_find? hm (by simp), Members.get?_of_find? hm' (by simp), h⟩

theorem get?_list {R : Json → Json → Prop} (h : w.Part form key (Json.Lists R) m m') :
    m.get? key = m'.get? key ∨ ∃ items items', m.get? key = some (.list items) ∧
      m'.get? key = some (.list items') ∧ List.Forall₂ R items items' := by
  cases h with
  | kept h => exact .inl h.get?
  | revised hm hm' h =>
    cases h with
    | list h =>
      exact .inr ⟨_, _, Members.get?_of_find? hm (by simp), Members.get?_of_find? hm' (by simp), h⟩

theorem mono {S T : Json → Json → Prop} (h : w.Part form key S m m')
    (hST : ∀ v v', S v v' → T v v') : w.Part form key T m m' := by
  cases h with
  | kept h => exact .kept h
  | revised hm hm' h => exact .revised hm hm' (hST _ _ h)

end Leeway.Part

/-- Both readers fail with the same fault, or both succeed with related results. -/
inductive Coincide (R : α → β → Prop) : Except Fault α → Except Fault β → Prop
  | ok {a : α} {b : β} (h : R a b) : Coincide R (.ok a) (.ok b)
  | error (f : Fault) : Coincide R (.error f) (.error f)

theorem coincide_of_eq {R : α → α → Prop} {r s : Except Fault α} (h : r = s) (hR : ∀ a, R a a) :
    Coincide R r s := by
  subst h
  cases r with
  | ok a => exact .ok (hR a)
  | error f => exact .error f

theorem Coincide.mono {R S : α → β → Prop} {r : Except Fault α} {s : Except Fault β}
    (h : Coincide R r s) (hRS : ∀ a b, R a b → S a b) : Coincide S r s := by
  cases h with
  | ok h => exact .ok (hRS _ _ h)
  | error f => exact .error f

theorem Coincide.bind_eq {γ : Type} {R : α → β → Prop} {r : Except Fault α} {s : Except Fault β}
    {f : α → Except Fault γ} {g : β → Except Fault γ} (h : Coincide R r s)
    (hfg : ∀ a b, R a b → f a = g b) : (r >>= f) = (s >>= g) := by
  cases h with
  | ok h => exact hfg _ _ h
  | error f => rfl

theorem Coincide.akin {wanted : Event L → Bool} {hidden : Traversal L → Traversal L → Prop}
    {R : α → β → Prop} {r : Except Fault α} {s : Except Fault β} {f : α → Traversal L}
    {g : β → Traversal L} (h : Coincide R r s)
    (hfg : ∀ a b, r = .ok a → R a b → (f a).Akin wanted hidden (g b)) :
    (Traversal.check r f).Akin wanted hidden (Traversal.check s g) := by
  cases h with
  | ok h => exact hfg _ _ rfl h
  | error f => exact .fail (.refl f)

section Entries

variable {R : Members → Members → Prop} {S T : List Members → List Members → Prop}
  {items items' : List Json} {w : Leeway L} {form : Form}

theorem readEntries_object (o : Members) : readEntries .object key (.object o :: items) =
    (readEntries .object key items).map (o :: ·) := by
  rw [readEntries]
  cases readEntries .object key items <;> rfl

/-- An entry that is no object is the same in both versions, and so is the fault. -/
theorem coincide_cons {v v' : Json} (hv : Json.Item R v v')
    (hrest : Coincide S (readEntries .object key items) (readEntries .object key items'))
    (hcons : ∀ {o o' os os'}, (o = o' ∨ R o o') → S os os' → T (o :: os) (o' :: os')) :
    Coincide T (readEntries .object key (v :: items)) (readEntries .object key (v' :: items')) := by
  have hstep : ∀ o o', (o = o' ∨ R o o') →
      Coincide T (readEntries .object key (.object o :: items))
        (readEntries .object key (.object o' :: items')) := by
    intro o o' ho
    rw [readEntries_object, readEntries_object]
    generalize readEntries .object key items = r at hrest
    generalize readEntries .object key items' = r' at hrest
    cases hrest with
    | ok hos => exact .ok (hcons ho hos)
    | error f => exact .error f
  cases hv with
  | object ho => exact hstep _ _ (.inr ho)
  | same v =>
    cases v with
    | object o => exact hstep o o (.inl rfl)
    | _ => exact .error _

theorem coincide_readEntries (h : List.Forall₂ (Json.Item R) items items') :
    Coincide (List.Forall₂ fun o o' => o = o' ∨ R o o') (readEntries .object key items)
      (readEntries .object key items') := by
  induction h with
  | nil => exact .ok .nil
  | cons hv _ ih => exact coincide_cons hv ih fun ho hos => .cons ho hos

theorem coincide_readEntries_zipIdx {R : Nat → Members → Members → Prop} {k : Nat}
    (h : List.Forall₂ (fun p q => Json.Item (R p.2) p.1 q.1) (items.zipIdx k) (items'.zipIdx k)) :
    Coincide (fun os os' => List.Forall₂ (fun p q => p.2 = q.2 ∧ (p.1 = q.1 ∨ R p.2 p.1 q.1))
      (os.zipIdx k) (os'.zipIdx k)) (readEntries .object key items)
      (readEntries .object key items') := by
  -- the places are counted from any start, so that the rest of a list is covered
  induction items generalizing items' k with
  | nil =>
    cases items' with
    | nil => exact .ok .nil
    | cons v' items' => cases h
  | cons v items ih =>
    cases items' with
    | nil => cases h
    | cons v' items' =>
      cases h with
      | cons hv hrest => exact coincide_cons hv (ih hrest) fun ho hos => .cons ⟨rfl, ho⟩ hos

/-- The entries of lists that are kept or revised. -/
theorem Leeway.Part.entries (h : w.Part form key (Json.Lists (Json.Item R)) m m') :
    Coincide (List.Forall₂ fun o o' => o = o' ∨ R o o') (m.entries .object key)
      (m'.entries .object key) := by
  rcases h.get?_list with hsame | ⟨items, items', hm, hm', h⟩
  · refine coincide_of_eq ((Members.sameAt_singleton hsame).entries List.mem_cons_self) fun os => ?_
    exact List.forall₂_same.mpr fun o _ => .inl rfl
  · rw [Members.entries_of_list hm, Members.entries_of_list hm']
    exact coincide_readEntries h

/-- The entries of lists that are kept or revised at their places. -/
theorem Leeway.Part.numberedEntries {R : Nat → Members → Members → Prop}
    (h : w.Part form key (Json.Numbered R) m m') :
    Coincide (fun os os' => List.Forall₂ (fun p q => p.2 = q.2 ∧ (p.1 = q.1 ∨ R p.2 p.1 q.1))
      os.zipIdx os'.zipIdx) (m.entries .object key) (m'.entries .object key) := by
  cases h with
  | kept h =>
    refine coincide_of_eq ((Members.sameAt_singleton h.get?).entries List.mem_cons_self) fun os => ?_
    exact List.forall₂_same.mpr fun p _ => ⟨rfl, .inl rfl⟩
  | revised hm hm' h =>
    cases h with
    | list h =>
      rw [Members.entries_of_list (Members.get?_of_find? hm (by simp)),
        Members.entries_of_list (Members.get?_of_find? hm' (by simp))]
      exact coincide_readEntries_zipIdx h

end Entries

end Lookups

section Objects

variable {L : Type} {w : Leeway L} {form : Form} {m m' : Members} {key : String}
  {R : Members → Members → Prop}

/-- An object that may be absent, kept or revised. -/
theorem Leeway.Part.optional (h : w.Part form key (Json.Item R) m m') :
    Coincide (Option.Rel fun o o' => o = o' ∨ R o o') (m.optional .object key)
      (m'.optional .object key) := by
  rcases h.get?_object with hsame | ⟨o, o', hm, hm', h⟩
  · refine coincide_of_eq ((Members.sameAt_singleton hsame).optional List.mem_cons_self) fun o => ?_
    cases o with
    | none => exact .none
    | some o => exact .some (.inl rfl)
  · rw [Members.optional_of_read? hm rfl, Members.optional_of_read? hm' rfl]
    exact .ok (.some (.inr h))

end Objects

section Constants

variable {L : Type} {w : Leeway L} {form : Form} {m m' : Members} {key : String} {v v' : Json}

theorem readHandle_of_sameAt (h : m.SameAt ["tag", "owner", "name", "desc", "itf"] m') :
    readHandle m = readHandle m' := by
  simp (disch := decide) only [readHandle, h.required, h.orElse]

theorem readTagged_of_handle {o o' : Members} (hrest : w.SameBut .tagged ["handle"] m m')
    (hm : m.find? "handle" = some (.object o)) (hm' : m'.find? "handle" = some (.object o'))
    (h : w.SameBut .handle [] o o') : readTagged m = readTagged m' := by
  have htype : m.hasKey "type" = m'.hasKey "type" := hrest.hasKey (by decide) (by decide)
  have hmethod : m.hasKey "method_type" = m'.hasKey "method_type" :=
    hrest.hasKey (by decide) (by decide)
  have hsame : m.SameAt ["type", "method_type"] m' := hrest.sameAt (by simp)
  have hhandle : readHandle o = readHandle o' := readHandle_of_sameAt (h.sameAt (by simp))
  unfold readTagged
  rw [htype, hmethod, Members.hasKey_of_find? hm, Members.hasKey_of_find? hm',
    Members.required_of_find? hm (by simp) rfl,
    Members.required_of_find? hm' (by simp) rfl,
    hsame.required (by decide), hsame.required (by decide)]
  simp only [bind, Except.bind, hhandle, if_true]

/-- Constants that are objects in both versions are read alike. -/
theorem Leeway.Constant.item (h : w.Constant v v') :
    Json.Item (fun o o' => readTagged o = readTagged o') v v' := by
  cases h with
  | same v => exact .same v
  | handle hrest hm hm' h => exact .object (readTagged_of_handle hrest hm hm' h)

theorem Leeway.Constant.read (h : w.Constant v v') : readConstant v = readConstant v' := by
  cases h.item with
  | same v => rfl
  | object hread => exact hread

theorem readConstants_of_versions {vs vs' : List Json} (h : List.Forall₂ w.Constant vs vs') :
    readConstants vs = readConstants vs' := by
  induction h with
  | nil => rfl
  | cons hv _ ih => simp only [readConstants, hv.read, ih]

/-- A constant for which null stands if it is absent. -/
theorem Leeway.Part.constant (h : w.Part form key w.Constant m m') :
    readConstant ((m.find? key).getD .null) = readConstant ((m'.find? key).getD .null) := by
  cases h with
  | kept h =>
    rcases h with h | ⟨-, -, hnull, hnone⟩
    · rw [h]
    · rw [hnull, hnone]
      rfl
  | revised hm hm' h =>
    rw [hm, hm']
    exact h.read

theorem Leeway.Part.requiredConstant (h : w.Part form key w.Constant m m') :
    Coincide (fun v v' => readConstant v = readConstant v') (m.requiredValue key)
      (m'.requiredValue key) := by
  rcases (h.mono fun _ _ => Leeway.Constant.item).get?_object with hsame | ⟨o, o', hm, hm', hread⟩
  · exact coincide_of_eq ((Members.sameAt_singleton hsame).requiredValue List.mem_cons_self) fun _ => rfl
  · simp only [Members.requiredValue, hm, hm']
    exact .ok hread

theorem Leeway.Part.bootstrap (h : w.Part form key w.Constant m m') :
    Coincide (fun o o' => readBootstrap o = readBootstrap o') (m.optional .object key)
      (m'.optional .object key) := by
  refine (h.mono fun _ _ => Leeway.Constant.item).optional.mono fun o o' ho => ?_
  cases ho with
  | none => rfl
  | some ho =>
    rcases ho with rfl | hread
    · rfl
    · simp only [readBootstrap, hread]

theorem Leeway.Part.constants (h : w.Part form key (Json.Lists w.Constant) m m') :
    Coincide (fun vs vs' => readConstants vs = readConstants vs') (m.orElse .list key [])
      (m'.orElse .list key []) := by
  rcases h.get?_list with hsame | ⟨items, items', hm, hm', h⟩
  · exact coincide_of_eq ((Members.sameAt_singleton hsame).orElse List.mem_cons_self) fun _ => rfl
  · rw [Members.orElse_of_read? hm rfl, Members.orElse_of_read? hm' rfl]
    exact .ok (readConstants_of_versions h)

end Constants

section Elements

variable {L : Type} {w : Leeway L} {m m' : Members}

theorem readEnumConstant_of_sameAt (h : m.SameAt ["enum", "value"] m') (name : Option String) :
    readEnumConstant name m = readEnumConstant name m' := by
  simp (disch := decide) only [readEnumConstant, h.required]

/-- The keys of an annotation apart from its values. -/
def annotationHeadKeys : List String := ["desc", "visible", "type_ref", "type_path", "parameter"]

theorem readAnnotationHead_of_sameAt (h : m.SameAt annotationHeadKeys m') :
    readAnnotationHead m = readAnnotationHead m' := by
  simp (disch := decide) only [readAnnotationHead, h.required, h.orElse]

theorem readTypeAnnotationHead_of_sameAt (h : m.SameAt annotationHeadKeys m') :
    readTypeAnnotationHead m = readTypeAnnotationHead m' := by
  simp (disch := decide) only [readTypeAnnotationHead, h.required, h.optional, h.orElse]

theorem readParameterAnnotation_of_sameAt (h : m.SameAt annotationHeadKeys m') :
    readParameterAnnotation m = readParameterAnnotation m' := by
  unfold readParameterAnnotation
  simp (disch := decide) only [readAnnotationHead_of_sameAt h, h.required]

theorem readField_of_sameAt (h : m.SameAt ["access", "desc", "signature"] m')
    (hvalue : w.Part .field "value" w.Constant m m') (name : String) :
    readField name m = readField name m' := by
  simp (disch := decide) only [readField, h.required, h.optional, h.orElse, hvalue.constant]

theorem readMethod_of_sameAt (h : m.SameAt ["access", "desc", "signature", "exceptions"] m')
    (name : String) : readMethod name m = readMethod name m' := by
  simp (disch := decide) only [readMethod, h.required, h.optional, h.orElse, h.optionalEntries]

theorem readParameter_of_sameAt (h : m.SameAt ["name", "access"] m') :
    readParameter m = readParameter m' := by
  simp (disch := decide) only [readParameter, h.optional, h.orElse]

theorem readHandler_of_sameAt (h : m.SameAt ["start", "end", "handler", "type"] m') :
    readHandler m = readHandler m' := by
  simp (disch := decide) only [readHandler, h.required, h.optional]

theorem readLocalVariable_of_sameAt
    (h : m.SameAt ["start", "end", "index", "name", "desc", "signature"] m') :
    readLocalVariable m = readLocalVariable m' := by
  simp (disch := decide) only [readLocalVariable, h.required, h.optional, h.orElse]

theorem readRecordComponent_of_sameAt (h : m.SameAt ["name", "desc", "signature"] m') :
    readRecordComponent m = readRecordComponent m' := by
  simp (disch := decide) only [readRecordComponent, h.required, h.optional]

theorem readInnerClass_of_sameAt (h : m.SameAt ["name", "outer_name", "inner_name", "access"] m') :
    readInnerClass m = readInnerClass m' := by
  simp (disch := decide) only [readInnerClass, h.required, h.optional, h.orElse]

theorem readOuterClass_of_sameAt (h : m.SameAt ["owner", "name", "desc"] m') :
    readOuterClass m = readOuterClass m' := by
  simp (disch := decide) only [readOuterClass, h.required, h.optional]

theorem readHeader_of_sameAt
    (h : m.SameAt ["version", "access", "signature", "super", "interfaces"] m') (name : String) :
    readHeader ⟨name, m⟩ = readHeader ⟨name, m'⟩ := by
  simp (disch := decide) only [readHeader, h.optional, h.orElse, h.optionalEntries]

theorem readLimits_of_versions
    (h : w.Part .method "maxs" (Json.Item (w.SameBut .limits [])) m m') :
    readLimits m = readLimits m' := by
  unfold readLimits
  rcases h.get?_object with hsame | ⟨o, o', hm, hm', ho⟩
  · rw [(Members.sameAt_singleton hsame).orElse List.mem_cons_self]
  · rw [Members.orElse_of_read? hm rfl, Members.orElse_of_read? hm' rfl]
    have hsame : o.SameAt ["max_stack", "max_locals"] o' := ho.sameAt (by simp)
    simp (disch := decide) only [bind, Except.bind, hsame.orElse]

end Elements

section KnownKeys

variable {L : Type} {w : Leeway L} {m m' : Members} {parts : List String} {form : Form}

theorem mem_keys_iff {key : String} : key ∈ m.map Prod.fst ↔ m.hasKey key = true := by
  induction m with
  | nil => simp [Members.hasKey, Members.find?]
  | cons p m ih =>
    rw [List.map_cons, List.mem_cons, ih, Members.hasKey, Members.hasKey, Members.find?_cons]
    by_cases h : key = p.1 <;> simp [h]

/-- Both versions have the same keys that are not known. -/
theorem unknownKeys_of_sameBut (h : w.SameBut form parts m m') (hparts : parts ⊆ form.keys) :
    unknownKeys form.keys m = unknownKeys form.keys m' := by
  unfold unknownKeys
  congr 1
  apply NameSet.ext
  intro key
  simp only [NameSet.mem_ofList, List.mem_filter, mem_keys_iff]
  by_cases hkey : key ∈ form.keys
  · simp [hkey]
  · rw [h.hasKey (fun hmem => hkey (hparts hmem)) hkey]

theorem warnUnknown_of_sameBut (h : w.SameBut form parts m m') (hparts : parts ⊆ form.keys)
    (element : String) :
    (warnUnknown form.keys element m : Traversal L) = warnUnknown form.keys element m' := by
  unfold warnUnknown
  rw [unknownKeys_of_sameBut h hparts]

end KnownKeys

section Instructions

variable {w : Leeway String} {m m' : Members}

/-- The keys of an entry of the code whose values are no constants. -/
def operandKeys : List String :=
  ["op", "operand", "var", "type", "owner", "name", "desc", "itf", "label", "increment", "labels",
   "min", "max", "default", "keys", "dims", "line", "frame", "local", "stack"]

theorem Leeway.CodeEntry.sameAt (h : w.CodeEntry m m') : m.SameAt operandKeys m' :=
  h.rest.sameAt (by simp [operandKeys])

theorem readOperands_of_versions (h : w.CodeEntry m m') (op : Opcode) :
    readOperands m op = readOperands m' op := by
  have hsame := h.sameAt
  unfold readOperands
  -- only constants are objects, and can differ inside
  cases op.operands
  case constant => exact h.value.requiredConstant.bind_eq fun v v' hread => by rw [hread]
  case dynamicCall =>
    refine h.bootstrap.bootstrap.bind_eq fun o o' ho => ?_
    refine h.arguments.constants.bind_eq fun vs vs' hvs => ?_
    simp (disch := decide) only [hsame.required, ho, hvs]
  all_goals simp (disch := decide) only [hsame.required, hsame.orElse, hsame.requiredEntries]

theorem readInstruction_of_versions (h : w.CodeEntry m m') :
    readInstruction m = readInstruction m' := by
  have hsame := h.sameAt
  have hop : readOpcode m = readOpcode m' := by
    simp (disch := decide) only [readOpcode, hsame.required]
  simp only [readInstruction, hop, readOperands_of_versions h]

end Instructions

end ClassUsage
