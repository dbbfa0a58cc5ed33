import ClassUsage.Proofs.Trace.Rereading

/-!
The ways through two versions of a document are the same to a listener, with one lemma for each part of a
document: values by induction over the first version, then annotations, code, members and the class. The
labels of a method occur in the same places, whatever is inside scopes that are not opened.
-/
namespace ClassUsage

open Traversal

section Labels

variable {L : Type} {t : Traversal L}

theorem labels_of_every (h : t.Every Event.Aside fun _ => True) : t.labels = [] := by
  induction h with
  | done => rfl
  | fail _ => rfl
  | warn _ ih => exact ih
  | visit he _ _ ihBody ihNext => simp only [labels, he.unlabelled, ihBody, ihNext, List.append_nil]

theorem labels_annotationBody (m : Members) : (annotationBody m : Traversal L).labels = [] :=
  labels_of_every (((formed_values fun _ h => h).2 m).every Event.aside_finish)

theorem formed_value (name : Option String) (v : Json) :
    (valueEvents name v : Traversal L).Formed Event.Aside .values :=
  (formed_values fun _ h => h).1 v name

/-- The scope of values has no labels. -/
theorem labels_of_formed (h : t.Formed Event.Aside .values) :
    (t ++ event (.value .finish)).labels = [] :=
  labels_of_every (h.closed.every Event.aside_finish)

theorem formed_items (items : List Json) :
    (itemEvents items : Traversal L).Formed Event.Aside .values := by
  rw [itemEvents_eq]
  exact Formed.each fun v _ => formed_value none v

end Labels

section Values

variable {L : Type} {w : Leeway L} {hidden : Traversal L → Traversal L → Prop}
  {m m' : Members} {name : Option String} {v v' : Json} {parts : List String}

theorem hidden_of_unlabelled (hh : Lenient hidden) {t u : Traversal L} (ht : t.labels = [])
    (hu : u.labels = []) : hidden t u :=
  hh t u (ht.trans hu.symm)

/-- Objects that are enum constants in both versions, or in none. -/
theorem akin_unless_enum (hh : Lenient hidden) (hrest : w.SameBut .tagged parts m m')
    (hparts : ∀ key ∈ ["enum", "value"], key ∉ parts)
    (helse : m.hasKey "enum" = false → m'.hasKey "enum" = false →
      (valueEvents name (.object m)).Akin w.wanted hidden (valueEvents name (.object m'))) :
    (valueEvents name (.object m)).Akin w.wanted hidden (valueEvents name (.object m')) := by
  have hkey : m.hasKey "enum" = m'.hasKey "enum" :=
    hrest.hasKey (hparts _ (by decide)) (by decide)
  cases he : m.hasKey "enum" with
  | true =>
    rw [valueEvents_enum he, valueEvents_enum (hkey ▸ he),
      readEnumConstant_of_sameAt (hrest.sameAt hparts)]
    exact akin_refl hh _
  | false => exact helse he (hkey ▸ he)

/-- Objects that are enum constants or nested annotations in both versions, or in none. -/
theorem akin_unless_nested (hh : Lenient hidden) (hrest : w.SameBut .tagged parts m m')
    (hparts : ∀ key ∈ ["enum", "value", "annotation"], key ∉ parts)
    (helse : m.hasKey "enum" = false → m'.hasKey "enum" = false → m.hasKey "annotation" = false →
      m'.hasKey "annotation" = false →
      (valueEvents name (.object m)).Akin w.wanted hidden (valueEvents name (.object m'))) :
    (valueEvents name (.object m)).Akin w.wanted hidden (valueEvents name (.object m')) := by
  have hkey : m.hasKey "annotation" = m'.hasKey "annotation" :=
    hrest.hasKey (hparts _ (by decide)) (by decide)
  have hsame : m.SameAt ["annotation"] m' := hrest.sameAt (by simpa using hparts "annotation")
  refine akin_unless_enum hh hrest (fun key hmem => hparts key ?_) fun he he' => ?_
  · simp only [List.mem_cons] at hmem ⊢
    tauto
  cases ha : m.hasKey "annotation" with
  | true =>
    rw [valueEvents_nested he ha, valueEvents_nested he' (hkey ▸ ha), hsame.required (by decide)]
    exact akin_refl hh _
  | false => exact helse he he' ha (hkey ▸ ha)

theorem akin_handle {o o' : Members} (hh : Lenient hidden) (hrest : w.SameBut .tagged ["handle"] m m')
    (hm : m.find? "handle" = some (.object o)) (hm' : m'.find? "handle" = some (.object o'))
    (h : w.SameBut .handle [] o o') :
    (valueEvents name (.object m)).Akin w.wanted hidden (valueEvents name (.object m')) := by
  have hkey : m.hasKey "array" = m'.hasKey "array" := hrest.hasKey (by decide) (by decide)
  have hsame : m.SameAt ["array"] m' := hrest.sameAt (by simp)
  refine akin_unless_nested hh hrest (by simp) fun he he' ha ha' => ?_
  cases hl : m.hasKey "array" with
  | true =>
    rw [valueEvents_array he ha hl, valueEvents_array he' ha' (hkey ▸ hl), hsame.required (by decide)]
    exact akin_refl hh _
  | false =>
    rw [valueEvents_tagged he ha hl, valueEvents_tagged he' ha' (hkey ▸ hl),
      readTagged_of_handle hrest hm hm' h]
    exact akin_refl hh _

/-- The annotations, or else whatever a listener hears of them, are the same. -/
theorem akin_nested {a a' : Members} (hh : Lenient hidden)
    (hrest : w.SameBut .tagged ["annotation"] m m')
    (hm : m.find? "annotation" = some (.object a)) (hm' : m'.find? "annotation" = some (.object a'))
    (hdesc : a.SameAt ["desc"] a')
    (hbody : ∀ desc, a.value? .text "desc" = some desc → w.wanted (.value (.nested name desc)) = true →
      (annotationBody a).Akin w.wanted hidden (annotationBody a')) :
    (valueEvents name (.object m)).Akin w.wanted hidden (valueEvents name (.object m')) := by
  refine akin_unless_enum hh hrest (by simp) fun he he' => ?_
  rw [valueEvents_nested he (Members.hasKey_of_find? hm),
    valueEvents_nested he' (Members.hasKey_of_find? hm'), Members.required_of_find? hm (by simp) rfl,
    Members.required_of_find? hm' (by simp) rfl, check_ok, check_ok]
  refine akin_check (hdesc.required (by decide)) fun desc hread => ?_
  refine akin_scope (hbody desc (Members.value?_of_required hread)) fun _ => ?_
  exact hidden_of_unlabelled hh (labels_annotationBody a) (labels_annotationBody a')

theorem akin_array {items items' : List Json} (hh : Lenient hidden)
    (hrest : w.SameBut .tagged ["array"] m m')
    (hm : m.find? "array" = some (.list items)) (hm' : m'.find? "array" = some (.list items'))
    (hitems : w.wanted (.value (.array name)) = true →
      (itemEvents items).Akin w.wanted hidden (itemEvents items')) :
    (valueEvents name (.object m)).Akin w.wanted hidden (valueEvents name (.object m')) := by
  refine akin_unless_nested hh hrest (by simp) fun he he' ha ha' => ?_
  rw [valueEvents_array he ha (Members.hasKey_of_find? hm),
    valueEvents_array he' ha' (Members.hasKey_of_find? hm'), Members.required_of_find? hm (by simp) rfl,
    Members.required_of_find? hm' (by simp) rfl, check_ok, check_ok]
  refine akin_scope (fun hw => (hitems hw).append (akin_refl hh _)) fun _ => ?_
  exact hidden_of_unlabelled hh (labels_of_formed (formed_items items))
    (labels_of_formed (formed_items items'))

/-- A value is null in both versions or in none. -/
theorem Leeway.Value.eq_null_iff (h : w.Value name v v') : v = .null ↔ v' = .null := by
  cases h with
  | constant h =>
    cases h with
    | same v => exact Iff.rfl
    | handle => simp
  | _ => simp

/-- The same value is found, or values that are related. -/
theorem Leeway.Part.get?_value {form : Form} {key : String} (h : w.Part form key (w.Value name) m m') :
    m.get? key = m'.get? key ∨
      ∃ v v', m.get? key = some v ∧ m'.get? key = some v' ∧ w.Value name v v' := by
  cases h with
  | kept h => exact .inl h.get?
  | @revised v v' hm hm' h =>
    by_cases hv : v = .null
    · have hv' := h.eq_null_iff.mp hv
      subst hv hv'
      exact .inl (by simp only [Members.get?, hm, hm'])
    · have hv' := mt h.eq_null_iff.mpr hv
      exact .inr ⟨v, v', Members.get?_of_find? hm hv, Members.get?_of_find? hm' hv', h⟩

theorem Leeway.Entry.sameName (h : w.Entry m m') : m.SameAt ["name"] m' := by
  cases h with
  | kept h => exact h.sameAt (by simp)
  | value hrest => exact hrest.sameAt (by simp)

theorem Leeway.Entry.part (h : w.Entry m m') :
    w.Part .entry "value" (w.Value (m.value? .text "name")) m m' := by
  cases h with
  | kept h => exact .kept (h "value" (by simp))
  | value _ hm hm' h => exact .revised hm hm' h

theorem akin_entryValue (hh : Lenient hidden) (h : w.Entry m m')
    (hvalue : ∀ v name v', m.requiredValue "value" = .ok v → w.Value name v v' →
      (valueEvents name v).Akin w.wanted hidden (valueEvents name v')) :
    (entryValue m).Akin w.wanted hidden (entryValue m') := by
  refine akin_check (h.sameName.optional (by decide)) fun name hname => ?_
  have hpart := h.part
  rw [Members.value?_of_optional hname] at hpart
  rcases hpart.get?_value with hsame | ⟨v, v', hm, hm', h⟩
  · rw [(Members.sameAt_singleton hsame).requiredValue (by decide)]
    exact akin_refl hh _
  · have hread : m.requiredValue "value" = .ok v := by simp only [Members.requiredValue, hm]
    have hread' : m'.requiredValue "value" = .ok v' := by simp only [Members.requiredValue, hm']
    rw [hread, hread', check_ok, check_ok]
    exact hvalue v name v' hread h

theorem Leeway.Annotated.head {declined : Prop} (h : w.Annotated declined m m') :
    m.SameAt annotationHeadKeys m' := by
  cases h with
  | kept h => exact h.sameAt (by simp)
  | values hrest => exact hrest.sameAt (by simp [annotationHeadKeys])
  | unopened _ hrest => exact hrest.sameAt (by simp [annotationHeadKeys])

theorem akin_annotationBody {declined : Prop} (hh : Lenient hidden) (h : w.Annotated declined m m')
    (hopened : ¬declined)
    (hvalues : ∀ es, m.entries .object "values" = .ok es → ∀ e ∈ es, ∀ v,
      e.requiredValue "value" = .ok v → ∀ name v', w.Value name v v' →
        (valueEvents name v).Akin w.wanted hidden (valueEvents name v')) :
    (annotationBody m).Akin w.wanted hidden (annotationBody m') := by
  rw [annotationBody_eq, annotationBody_eq]
  cases h with
  | kept h =>
    have hsame : m.SameAt ["values"] m' := h.sameAt (by simp)
    rw [hsame.entries (by decide)]
    exact akin_refl hh _
  | values _ hm hm' h =>
    have hpart : w.Part .annotated "values" (Json.Lists (Json.Item w.Entry)) m m' :=
      .revised hm hm' (.list h)
    refine hpart.entries.akin fun es es' hread hes => ?_
    rw [entryEvents_eq, entryEvents_eq]
    have hmem := (List.forall₂_and_left _ _).mpr ⟨fun e he => he, hes⟩
    refine (Akin.each hmem ?_).append (akin_refl hh _)
    rintro e e' ⟨he, rfl | hentry⟩
    · exact akin_refl hh _
    · exact akin_entryValue hh hentry fun v name v' hv => hvalues es hread e he v hv name v'
  | unopened hdeclined => exact absurd hdeclined hopened

/-- Values, and annotations whose scopes are opened, are the same to the listener. -/
theorem akin_values (hh : Lenient hidden) :
    (∀ v name v', w.Value name v v' →
      (valueEvents name v).Akin w.wanted hidden (valueEvents name v')) ∧
    ∀ a declined a', w.Annotated declined a a' → ¬declined →
      (annotationBody a).Akin w.wanted hidden (annotationBody a') := by
  -- the induction is on the first version; the second has the parts that the relation gives it
  apply value_induction
  · intro v hplain name v' h
    cases h with
    | constant h =>
      cases h with
      | same v => exact akin_refl hh _
      | handle => exact absurd rfl (hplain _)
    | _ => exact absurd rfl (hplain _)
  · intro m hnested hitems name v' h
    cases h with
    | constant h =>
      cases h with
      | same v => exact akin_refl hh _
      | handle hrest hm hm' h => exact akin_handle hh hrest hm hm' h
    | enumConstant hkey h =>
      refine akin_unless_enum hh h (by simp) fun he => ?_
      rw [hkey] at he
      contradiction
    | @nested _ _ _ a a' hrest hm hm' h =>
      have hread : m.required .object "annotation" = .ok a :=
        Members.required_of_find? hm (by simp) rfl
      refine akin_nested hh hrest hm hm' (fun key hkey => h.head key ?_) fun desc hdesc hw => ?_
      · rw [List.mem_singleton.mp hkey]
        decide
      · refine hnested a hread _ a' h ?_
        rintro ⟨desc', hdesc', hdeclined⟩
        rw [hdesc, Option.some.injEq] at hdesc'
        rw [← hdesc', hw] at hdeclined
        contradiction
    | @array _ _ _ items items' hrest hm hm' h =>
      have hread : m.required .list "array" = .ok items :=
        Members.required_of_find? hm (by simp) rfl
      refine akin_array hh hrest hm hm' fun _ => ?_
      rw [itemEvents_eq, itemEvents_eq]
      refine Akin.each ((List.forall₂_and_left _ _).mpr ⟨fun v hv => hv, h⟩) ?_
      rintro v v' ⟨hv, h⟩
      exact hitems items hread v hv none v' h
    | unopenedArray hdeclined hrest hm hm' =>
      refine akin_array hh hrest hm hm' fun hw => ?_
      rw [hdeclined] at hw
      contradiction
  · intro m hvalues declined m' h hopened
    exact akin_annotationBody hh h hopened hvalues

end Values

section Parts

variable {L : Type} {w : Leeway L} {hidden : Traversal L → Traversal L → Prop} {form : Form}
  {m m' : Members} {key : String}

/-- Objects listed under a key that are gone through one after the other. -/
theorem Leeway.Part.akin_entries {R : Members → Members → Prop} {f : Members → Traversal L}
    (h : w.Part form key (Json.Lists (Json.Item R)) m m') (hh : Lenient hidden)
    (hf : ∀ o o', R o o' → (f o).Akin w.wanted hidden (f o')) :
    (check (m.entries .object key) (each · f)).Akin w.wanted hidden
      (check (m'.entries .object key) (each · f)) := by
  refine h.entries.akin fun os os' _ hos => Akin.each hos ?_
  rintro o o' (rfl | ho)
  · exact akin_refl hh _
  · exact hf o o' ho

/-- A list is there in both versions or in none. -/
theorem Leeway.Part.akin_list {R : Json → Json → Prop} {f g : Option (List Json) → Traversal L}
    (h : w.Part form key (Json.Lists R) m m') (hnone : (f none).Akin w.wanted hidden (g none))
    (hsome : ∀ items items', (f (some items)).Akin w.wanted hidden (g (some items'))) :
    (check (m.optional .list key) f).Akin w.wanted hidden (check (m'.optional .list key) g) := by
  rcases h.get?_list with hsame | ⟨items, items', hm, hm', -⟩
  · refine akin_check ((Members.sameAt_singleton hsame).optional List.mem_cons_self) fun o _ => ?_
    cases o with
    | none => exact hnone
    | some items => exact hsome items items
  · rw [Members.optional_of_read? hm rfl, Members.optional_of_read? hm' rfl]
    exact hsome items items'

end Parts

section Annotations

variable {L α : Type} {w : Leeway L} {hidden : Traversal L → Traversal L → Prop} {form : Form}
  {m m' a : Members} {key : String} {read : Members → Except Fault α} {toEvent : α → Event L}

theorem Leeway.DeclinesAnnotated.unwanted {head : α} (h : w.DeclinesAnnotated read toEvent a)
    (hread : read a = .ok head) : w.wanted (toEvent head) = false := by
  obtain ⟨head', hread', hdeclined⟩ := h
  rw [hread, Except.ok.injEq] at hread'
  rw [hread']
  exact hdeclined

theorem akin_annotationEvents {declined : Members → Prop} (hh : Lenient hidden)
    (hread : ∀ {a a' : Members}, a.SameAt annotationHeadKeys a' → read a = read a')
    (hdeclined : ∀ a head, read a = .ok head → declined a → w.wanted (toEvent head) = false)
    (h : w.Annotations form key declined m m') :
    (annotationEvents m key read toEvent).Akin w.wanted hidden
      (annotationEvents m' key read toEvent) := by
  refine Leeway.Part.akin_entries h hh fun a a' ha => ?_
  refine akin_check (hread ha.head) fun head hhead => akin_scope (fun hw => ?_) fun _ => ?_
  · refine (akin_values hh).2 a _ a' ha fun hdecl => ?_
    rw [hdeclined a head hhead hdecl] at hw
    contradiction
  · exact hidden_of_unlabelled hh (labels_annotationBody a) (labels_annotationBody a')

theorem akin_declarationAnnotations {annotated : AnnotationHead → Event L}
    {typeAnnotated : TypeAnnotationHead → Event L} (hh : Lenient hidden)
    (h : w.Declaration form annotated typeAnnotated m m') :
    (declarationAnnotations m annotated typeAnnotated).Akin w.wanted hidden
      (declarationAnnotations m' annotated typeAnnotated) :=
  (akin_annotationEvents hh readAnnotationHead_of_sameAt (fun _ _ hread hd => hd.unwanted hread)
    h.annotations).append
    (akin_annotationEvents hh readTypeAnnotationHead_of_sameAt (fun _ _ hread hd => hd.unwanted hread)
      h.typeAnnotations)

end Annotations

section Code

variable {w : Leeway String} {hidden : Traversal String → Traversal String → Prop} {m m' : Members}

theorem akin_handlerEvents (hh : Lenient hidden) (h : w.Handler m m') :
    (handlerEvents m).Akin w.wanted hidden (handlerEvents m') := by
  refine akin_check (readHandler_of_sameAt (h.rest.sameAt (by simp))) fun e _ => ?_
  exact (akin_refl hh _).append (akin_annotationEvents hh readTypeAnnotationHead_of_sameAt
    (fun _ _ hread hd => hd.unwanted hread) h.annotations)

theorem akin_localVariableEvents (hh : Lenient hidden) (h : w.Variable m m') :
    (localVariableEvents m).Akin w.wanted hidden (localVariableEvents m') := by
  refine akin_check (readLocalVariable_of_sameAt (h.rest.sameAt (by simp))) fun v hv => ?_
  refine (akin_refl hh _).append
    (akin_annotationEvents hh readTypeAnnotationHead_of_sameAt ?_ h.annotations)
  rintro a head hread ⟨v', hv', hd⟩
  rw [hv, Except.ok.injEq] at hv'
  rw [hv']
  exact hd.unwanted hread

/-- Marks are read alike, but what is no mark is named in the fault as it is. -/
theorem readPosition_of_versions (h : w.CodeEntry m m') :
    readPosition m = readPosition m' ∨
      ∃ e e', readPosition m = .error (.trace e) ∧ readPosition m' = .error (.trace e') := by
  have hsame := h.sameAt
  have hline : m.hasKey "line" = m'.hasKey "line" := h.rest.hasKey (by decide) (by decide)
  have hlabel : m.hasKey "label" = m'.hasKey "label" := h.rest.hasKey (by decide) (by decide)
  have hframe : m.hasKey "frame" = m'.hasKey "frame" := h.rest.hasKey (by decide) (by decide)
  unfold readPosition
  rw [hline, hlabel, hframe]
  split
  · left
    simp (disch := decide) only [hsame.required]
  · split
    · left
      simp (disch := decide) only [hsame.required]
    · split
      · left
        simp (disch := decide) only [readFrameKind, hsame.required, hsame.orElse]
      · exact .inr ⟨_, _, rfl, rfl⟩

theorem akin_codeEntryEvents (hh : Lenient hidden) (h : w.CodeEntry m m') :
    (codeEntryEvents m).Akin w.wanted hidden (codeEntryEvents m') := by
  have hop : m.hasKey "op" = m'.hasKey "op" := h.rest.hasKey (by decide) (by decide)
  unfold codeEntryEvents
  rw [hop]
  split
  · refine akin_check (readInstruction_of_versions h) fun e _ => ?_
    exact (akin_refl hh _).append (akin_annotationEvents hh readTypeAnnotationHead_of_sameAt
      (fun _ _ hread hd => hd.unwanted hread) h.annotations)
  · rcases readPosition_of_versions h with hsame | ⟨e, e', hm, hm'⟩
    · exact akin_check hsame fun e _ => akin_refl hh _
    · rw [hm, hm']
      exact .fail (.trace e e')

theorem akin_codeEvents (hh : Lenient hidden) (h : w.MethodInside m m') :
    (codeEvents m).Akin w.wanted hidden (codeEvents m') := by
  refine Akin.append (Akin.append (Akin.append (Akin.append ?_ ?_) ?_) ?_) ?_
  · exact akin_refl hh _
  · exact h.handlers.akin_entries hh fun _ _ => akin_handlerEvents hh
  · exact h.code.akin_entries hh fun _ _ => akin_codeEntryEvents hh
  · exact h.localVariables.akin_entries hh fun _ _ => akin_localVariableEvents hh
  · exact akin_check (readLimits_of_versions h.limits) fun e _ => akin_refl hh _

theorem akin_defaultValueEvents (hh : Lenient hidden) (h : w.DefaultValue m m') :
    (defaultValueEvents m).Akin w.wanted hidden (defaultValueEvents m') := by
  have hhidden : ∀ v v', hidden (valueEvents none v ++ event (.value .finish))
      (valueEvents none v' ++ event (.value .finish)) := fun v v' =>
    hidden_of_unlabelled hh (labels_of_formed (formed_value none v)) (labels_of_formed (formed_value none v'))
  unfold defaultValueEvents
  cases h with
  | part h =>
    rcases h.get?_value with hsame | ⟨v, v', hm, hm', hv⟩
    · rw [hsame]
      exact akin_refl hh _
    · rw [hm, hm']
      refine akin_scope (fun _ => ?_) fun _ => hhidden v v'
      exact ((akin_values hh).1 v none v' hv).append (akin_refl hh _)
  | unopened hdeclined hm hm' =>
    rw [hm, hm']
    refine akin_scope (fun hw => ?_) fun _ => hhidden _ _
    rw [hdeclined] at hw
    contradiction

theorem akin_methodBody (hh : Lenient hidden) (h : w.MethodInside m m') :
    (methodBody m).Akin w.wanted hidden (methodBody m') := by
  refine Akin.append (Akin.append (Akin.append (Akin.append (Akin.append ?_ ?_) ?_) ?_) ?_) ?_
  · refine h.parameters.akin_entries hh fun p p' hp => ?_
    exact akin_check (readParameter_of_sameAt (hp.sameAt (by simp))) fun e _ => akin_refl hh _
  · exact h.code.akin_list .done fun _ _ => akin_codeEvents hh h
  · exact akin_defaultValueEvents hh h.defaultValue
  · exact akin_declarationAnnotations hh h.declaration
  · exact akin_annotationEvents hh readParameterAnnotation_of_sameAt
      (fun _ _ hread hd => hd.unwanted hread) h.parameterAnnotations
  · exact akin_refl hh _

end Code

section Class

variable {w : Leeway Label} {m m' : Members}

theorem Leeway.DeclinesMember.unwanted {read : String → Members → Except Fault ClassEvent}
    {name : String} {e : ClassEvent} (h : w.DeclinesMember read m)
    (hname : m.required .text "name" = .ok name) (hread : read name m = .ok e) :
    w.wanted (.classFile e) = false := by
  obtain ⟨name', e', hname', hread', hdeclined⟩ := h
  rw [hname, Except.ok.injEq] at hname'
  rw [← hname', hread, Except.ok.injEq] at hread'
  rw [hread']
  exact hdeclined

/-- Inside a method the labels occur in the same places, so they stand for the same positions. -/
theorem akin_bindLabels {index : Nat} (h : (w.within index m).MethodInside m m') :
    (bindLabels index (methodBody m)).Akin w.wanted (fun _ _ => True)
      (bindLabels index (methodBody m')) := by
  -- a label is numbered by its place among all labels, also those in scopes that are not opened
  have hbody := akin_methodBody lenient_sameLabels h
  have hposition : positionOf index m' = positionOf index m := by
    funext name
    simp only [positionOf, hbody.labels]
  change ((methodBody m).map (positionOf index m)).Akin w.wanted (fun _ _ => True)
    ((methodBody m').map (positionOf index m'))
  rw [hposition]
  exact hbody.map

theorem akin_methodEvents {index : Nat} (h : w.Method index m m') :
    (methodEvents index m).Akin w.wanted (fun _ _ => True) (methodEvents index m') := by
  have hsame : m.SameAt ["name"] m' := h.rest.sameAt (by simp [methodInsideKeys])
  refine akin_check (hsame.required (by decide)) fun name hname => ?_
  have hwarn := warnUnknown_of_sameBut h.rest (by simp [methodInsideKeys, Form.keys, methodKeys])
    ("method " ++ name)
  refine (akin_of_eq lenient_true hwarn).append ?_
  have hread := readMethod_of_sameAt (h.rest.sameAt (by simp [methodInsideKeys])) name
  refine akin_check hread fun e he => ?_
  refine akin_scope (fun hw => ?_) fun _ => trivial
  rcases h.inside with hdeclined | hinside
  · rw [hdeclined.unwanted hname he] at hw
    contradiction
  · exact akin_bindLabels hinside

theorem akin_fieldEvents (h : w.Field m m') :
    (fieldEvents m).Akin w.wanted (fun _ _ => True) (fieldEvents m') := by
  have hsame : m.SameAt ["name"] m' := h.rest.sameAt (by simp)
  refine akin_check (hsame.required (by decide)) fun name hname => ?_
  have hwarn := warnUnknown_of_sameBut h.rest (by simp [Form.keys, fieldKeys]) ("field " ++ name)
  refine (akin_of_eq lenient_true hwarn).append ?_
  refine akin_check (readField_of_sameAt (h.rest.sameAt (by simp)) h.value name) fun e he => ?_
  refine akin_scope (fun hw => ?_) fun _ => trivial
  rcases h.inside with hdeclined | hinside
  · rw [hdeclined.unwanted hname he] at hw
    contradiction
  · exact (akin_declarationAnnotations lenient_true hinside).append (akin_refl lenient_true _)

theorem akin_objectEvents {form : Form} {key : String} {R : Members → Members → Prop}
    {read : Members → Except Fault ClassEvent}
    (h : w.Part form key (Json.Lists (Json.Item R)) m m') (hread : ∀ o o', R o o' → read o = read o') :
    (objectEvents m key read).Akin w.wanted (fun _ _ => True) (objectEvents m' key read) :=
  h.akin_entries lenient_true fun o o' ho => akin_check (hread o o' ho) fun _ _ => akin_refl lenient_true _

theorem akin_methods (h : w.Part .classFile "methods" (Json.Numbered w.Method) m m') :
    (check (m.entries .object "methods") fun ms => each ms.zipIdx fun p => methodEvents p.2 p.1).Akin
      w.wanted (fun _ _ => True)
      (check (m'.entries .object "methods") fun ms => each ms.zipIdx fun p => methodEvents p.2 p.1) := by
  refine h.numberedEntries.akin fun ms ms' _ hms => Akin.each hms ?_
  rintro ⟨o, i⟩ ⟨o', j⟩ ⟨rfl, rfl | ho⟩
  · exact akin_refl lenient_true _
  · exact akin_methodEvents ho

theorem akin_outerClassEvents
    (h : w.Part .classFile "outer_class" (Json.Item (w.SameBut .outerClass [])) m m') :
    (outerClassEvents m).Akin w.wanted (fun _ _ => True) (outerClassEvents m') := by
  refine h.optional.akin fun o o' _ ho => ?_
  cases ho with
  | none => exact .done
  | some ho =>
    rcases ho with rfl | ho
    · exact akin_refl lenient_true _
    · exact akin_check (readOuterClass_of_sameAt (ho.sameAt (by simp))) fun _ _ =>
        akin_refl lenient_true _

theorem textEvent_of_sameAt {key : String} (h : m.SameAt [key] m') (toEvent : String → ClassEvent) :
    (textEvent m key toEvent : Traversal Label) = textEvent m' key toEvent := by
  unfold textEvent
  rw [h.optional List.mem_cons_self]

theorem textEvents_of_sameAt {key : String} (h : m.SameAt [key] m') (toEvent : String → ClassEvent) :
    (textEvents m key toEvent : Traversal Label) = textEvents m' key toEvent := by
  unfold textEvents
  rw [h.entries List.mem_cons_self]

/-- The ways through both versions of a class are the same to the listener. -/
theorem akin_traversal (h : w.Class m m') (name : String) :
    (Trace.traversal ⟨name, m⟩).Akin w.wanted (fun _ _ => True) (Trace.traversal ⟨name, m'⟩) := by
  have htrue := lenient_true (L := Label)
  have hwarn := warnUnknown_of_sameBut h.rest (by simp [Form.keys, classKeys]) name
  have hheader : readHeader ⟨name, m⟩ = readHeader ⟨name, m'⟩ :=
    readHeader_of_sameAt (h.rest.sameAt (by simp)) name
  refine Akin.append (Akin.append (Akin.append (Akin.append (Akin.append (Akin.append (Akin.append
    (Akin.append (Akin.append (Akin.append (Akin.append (Akin.append ?_ ?_) ?_) ?_) ?_) ?_) ?_) ?_) ?_)
    ?_) ?_) ?_) ?_
  · exact akin_of_eq htrue hwarn
  · exact akin_check hheader fun _ _ => akin_refl htrue _
  · exact akin_declarationAnnotations htrue h.declaration
  · exact akin_objectEvents h.components fun o o' ho =>
      readRecordComponent_of_sameAt (ho.sameAt (by simp))
  · exact h.fields.akin_entries htrue fun _ _ => akin_fieldEvents
  · exact akin_methods h.methods
  · exact akin_of_eq htrue (textEvent_of_sameAt (h.rest.sameAt (by simp)) _)
  · exact akin_of_eq htrue (textEvents_of_sameAt (h.rest.sameAt (by simp)) _)
  · exact akin_of_eq htrue (textEvents_of_sameAt (h.rest.sameAt (by simp)) _)
  · exact akin_objectEvents h.innerClasses fun o o' ho => readInnerClass_of_sameAt (ho.sameAt (by simp))
  · exact akin_outerClassEvents h.outerClass
  · exact akin_of_eq htrue (textEvent_of_sameAt (h.rest.sameAt (by simp)) _)
  · exact akin_refl htrue _

end Class

end ClassUsage
