import ClassUsage.Proofs.Trace.Collected
import ClassUsage.Proofs.Trace.Blame

/-!
What can go wrong with a document, whatever it is: it does not have the form of a trace, or a text
that occurs in it cannot be decoded. A type constant never lacks a sort, as each was checked when it
was read.
-/
namespace ClassUsage

open Traversal

section Annotations

variable {L : Type} {m : Members}

theorem sound_object (m : Members)
    (hnested : ∀ n, m.required .object "annotation" = .ok n →
      (annotationBody n : Traversal L).Sound n.HasText)
    (hitems : ∀ items, m.required .list "array" = .ok items → ∀ v ∈ items, ∀ name,
      (valueEvents name v : Traversal L).Sound v.HasText) (name : Option String) :
    (valueEvents name (.object m) : Traversal L).Sound m.HasText := by
  cases he : m.hasKey "enum" with
  | true =>
    rw [valueEvents_enum he]
    refine Every.check (by simp [readEnumConstant]) ?_
    intro e hread
    simp only [readEnumConstant, bind_eq_ok, pure_eq_ok] at hread
    obtain ⟨desc, hdesc, value, -, rfl⟩ := hread
    exact every_event
      (Event.sound_of_one rfl (Members.hasText_value (Members.value?_of_required hdesc)))
  | false =>
    cases ha : m.hasKey "annotation" with
    | true =>
      rw [valueEvents_nested he ha]
      refine Every.check faultsIn_required ?_
      intro n hn
      have hinside : ∀ s, n.HasText s → m.HasText s := fun s =>
        Members.hasText_object (Members.value?_of_required hn)
      refine Every.check faultsIn_required ?_
      intro desc hdesc
      refine every_scope (Event.sound_of_one rfl ?_) ((hnested n hn).mono hinside)
      exact hinside desc (Members.hasText_value (Members.value?_of_required hdesc))
    | false =>
      cases hl : m.hasKey "array" with
      | true =>
        rw [valueEvents_array he ha hl]
        refine Every.check faultsIn_required ?_
        intro items hlist
        have hinside : ∀ v ∈ items, ∀ s, v.HasText s → m.HasText s := fun v hv s =>
          Members.hasText_list (Members.value?_of_required hlist) hv
        have hbody : (itemEvents items : Traversal L).Sound m.HasText := by
          rw [itemEvents_eq]
          exact Every.each fun v hv => (hitems items hlist v hv none).mono (hinside v hv)
        exact every_scope (Event.sound_of_silent rfl) (hbody.append (sound_silent rfl))
      | false =>
        rw [valueEvents_tagged he ha hl]
        refine Every.check (faultsIn_readTagged fun _ h => h) ?_
        intro c hc
        exact every_event (Event.sound_of_one rfl (checked_of_readTagged hc))

theorem sound_entries (m : Members)
    (hvalues : ∀ es, m.entries .object "values" = .ok es → ∀ e ∈ es, ∀ v,
      e.requiredValue "value" = .ok v → ∀ name,
        (valueEvents name v : Traversal L).Sound v.HasText) :
    (annotationBody m : Traversal L).Sound m.HasText := by
  rw [annotationBody_eq]
  refine Every.check faultsIn_entries ?_
  intro es hes
  rw [entryEvents_eq]
  refine Every.append (Every.each ?_) (sound_silent rfl)
  intro e he
  have hitem : e ∈ m.items .object "values" := by
    rw [Members.items_of_entries hes]
    exact he
  refine Every.check faultsIn_optional ?_
  intro name _
  refine Every.check faultsIn_requiredValue ?_
  intro v hv
  refine (hvalues es hes e he v hv name).mono fun s hs => ?_
  exact Members.hasText_item hitem (Members.hasText_of_get? (Members.get?_of_requiredValue hv) hs)

theorem sound_values : (∀ v name, (valueEvents name v : Traversal L).Sound v.HasText) ∧
    ∀ m, (annotationBody m : Traversal L).Sound m.HasText := by
  apply value_induction
  · intro v hplain name
    rw [valueEvents_plain hplain]
    exact every_event (Event.sound_of_one rfl trivial)
  · exact sound_object
  · exact sound_entries

/-- Each of the objects listed under a key is part of the object that holds the list. -/
theorem sound_entriesEach (m : Members) (key : String) {f : Members → Traversal L}
    (h : ∀ a, (f a).Sound a.HasText) :
    (check (m.entries .object key) (each · f)).Sound m.HasText := by
  refine Every.check faultsIn_entries ?_
  intro as has
  apply Every.each
  intro a ha
  have hitem : a ∈ m.items .object key := by
    rw [Members.items_of_entries has]
    exact ha
  exact (h a).mono fun s => Members.hasText_item hitem

/-- The descriptor of an annotation stands in it, however its head is read. -/
theorem sound_annotationEvents {α : Type} (key : String) {read : Members → Except Fault α}
    {toEvent : α → Event L} (desc : α → String)
    (hfaults : ∀ a : Members, FaultsIn (Fault.Within a.HasText) (read a))
    (hread : ∀ a head, read a = .ok head → a.value? .text "desc" = some (desc head))
    (hevent : ∀ head, (toEvent head).mentions = [.descriptor (desc head)]) :
    (annotationEvents m key read toEvent).Sound m.HasText := by
  apply sound_entriesEach
  intro a
  refine Every.check (hfaults a) ?_
  intro head hhead
  refine every_scope ?_ (sound_values.2 a)
  exact Event.sound_of_one (hevent head) (Members.hasText_value (hread a head hhead))

theorem sound_typeAnnotations (key : String) {toEvent : TypeAnnotationHead → Event L}
    (hevent : ∀ head, (toEvent head).mentions = [.descriptor head.desc]) :
    (annotationEvents m key readTypeAnnotationHead toEvent).Sound m.HasText :=
  sound_annotationEvents key (·.desc) (fun _ => by simp [readTypeAnnotationHead])
    (fun _ _ h => (recordsTypeAnnotated_of_read h).1) hevent

theorem sound_declarationAnnotations {annotated : AnnotationHead → Event L}
    {typeAnnotated : TypeAnnotationHead → Event L}
    (hannotated : ∀ head, (annotated head).mentions = [.descriptor head.desc])
    (htypeAnnotated : ∀ head, (typeAnnotated head).mentions = [.descriptor head.desc]) :
    (declarationAnnotations m annotated typeAnnotated).Sound m.HasText :=
  Every.append (sound_annotationEvents "annotations" (·.desc)
      (fun _ => by simp [readAnnotationHead]) (fun _ _ h => (recordsAnnotated_of_read h).1) hannotated)
    (sound_typeAnnotations "type_annotations" htypeAnnotated)

end Annotations

section Code

variable {m : Members}

theorem sound_ownerMention {texts : String → Prop} {name : String} (h : texts name) :
    (ownerMention name).Sound texts := by
  unfold ownerMention
  split
  · exact h
  · trivial

theorem faultsIn_readBootstrap {bootstrap : Option Members}
    (h : m.value? .object "bootstrap" = bootstrap) :
    FaultsIn (Fault.Within m.HasText) (readBootstrap bootstrap) := by
  cases bootstrap with
  | none => simp [readBootstrap]
  | some b =>
    rw [readBootstrap, faultsIn_map]
    exact faultsIn_readTagged fun s => Members.hasText_object h

theorem faultsIn_readArguments {given : List Json}
    (h : (m.value? .list "bootstrap_args").getD [] = given) :
    FaultsIn (Fault.Within m.HasText) (readConstants given) := by
  apply faultsIn_readConstants
  intro v hv s
  cases hl : m.value? .list "bootstrap_args" with
  | none => simp [← h, hl] at hv
  | some items =>
    rw [← h, hl] at hv
    exact Members.hasText_list hl hv

theorem faultsIn_readOperands (m : Members) (op : Opcode) :
    FaultsIn (Fault.Within m.HasText) (readOperands m op) := by
  unfold readOperands
  cases op.operands
  case constant =>
    simp only [faultsIn_bind, faultsIn_requiredValue, true_and, faultsIn_pure, implies_true, and_true]
    intro v hv
    exact faultsIn_readConstant fun s hs =>
      Members.hasText_of_get? (Members.get?_of_requiredValue hv) hs
  case dynamicCall =>
    simp only [faultsIn_bind, faultsIn_optional, faultsIn_orElse, faultsIn_required, true_and,
      faultsIn_pure, implies_true, and_true]
    intro bootstrap hbootstrap given hgiven
    refine ⟨faultsIn_readArguments (Members.orElse_eq_ok hgiven), ?_⟩
    intro arguments _ name _ desc _
    exact faultsIn_readBootstrap (Members.value?_of_optional hbootstrap)
  all_goals simp

/-- The operand that an instruction names classes with stands in its entry. -/
theorem sound_of_recordsOperands {op : Opcode} {e : MethodEvent String}
    (h : m.RecordsOperands op e) : (Event.method e).Sound m.HasText := by
  unfold Members.RecordsOperands at h
  cases hk : op.operands <;> rw [hk] at h
  case number | slot | label | lookup =>
    obtain ⟨_, _, rfl⟩ := h
    exact Event.sound_of_silent rfl
  case type =>
    obtain ⟨name, hname, rfl⟩ := h
    exact Event.sound_of_one rfl (sound_ownerMention (Members.hasText_value hname))
  case field =>
    obtain ⟨owner, name, desc, -, -, -, rfl⟩ := h
    exact Event.sound_of_one rfl trivial
  case method =>
    obtain ⟨owner, name, desc, howner, -, -, rfl⟩ := h
    exact Event.sound_of_one rfl (sound_ownerMention (Members.hasText_value howner))
  case constant =>
    obtain ⟨v, c, -, hc, rfl⟩ := h
    exact Event.sound_of_one rfl (checked_of_readConstant hc)
  case increment =>
    obtain ⟨index, amount, -, -, rfl⟩ := h
    exact Event.sound_of_silent rfl
  case table =>
    obtain ⟨low, high, default, -, -, -, rfl⟩ := h
    exact Event.sound_of_silent rfl
  case dynamicCall =>
    obtain ⟨name, desc, bootstrap, arguments, -, -, -, -, rfl⟩ := h
    exact Event.sound_of_silent rfl
  case arrayType =>
    obtain ⟨desc, dimensions, hdesc, -, rfl⟩ := h
    exact Event.sound_of_one rfl (Members.hasText_value hdesc)
  case nothing =>
    subst h
    exact Event.sound_of_silent rfl

theorem faultsIn_readInstruction (m : Members) :
    FaultsIn (Fault.Within m.HasText) (readInstruction m) := by
  have hopcode : FaultsIn (Fault.Within m.HasText) (readOpcode m) := by
    simp only [readOpcode, faultsIn_bind, faultsIn_required, true_and]
    intro name _
    split <;> simp [unknownInstruction]
  simpa [readInstruction, hopcode] using fun op _ => faultsIn_readOperands m op

theorem faultsIn_readPosition (m : Members) :
    FaultsIn (Fault.Within m.HasText) (readPosition m) := by
  have hkind : FaultsIn (Fault.Within m.HasText) (readFrameKind m) := by
    simp only [readFrameKind, faultsIn_bind, faultsIn_required, true_and]
    intro name _
    split <;> simp
  unfold readPosition
  split
  · simp
  · split
    · simp
    · split <;> simp [hkind]

theorem sound_codeEntryEvents (m : Members) : (codeEntryEvents m).Sound m.HasText := by
  unfold codeEntryEvents
  split
  · refine Every.check (faultsIn_readInstruction m) ?_
    intro e he
    obtain ⟨name, op, told, -, -, htold, hsame⟩ := recordsInstruction_of_read he
    cases hsame
    exact (every_event (sound_of_recordsOperands htold)).append
      (sound_typeAnnotations "annotations" fun _ => rfl)
  · refine Every.check (faultsIn_readPosition m) ?_
    intro e he
    exact sound_silent (mentions_of_recordsMark (recordsMark_of_read he))

theorem sound_handlerEvents (m : Members) : (handlerEvents m).Sound m.HasText := by
  refine Every.check (by simp [readHandler]) ?_
  intro e he
  refine Every.append (every_event ?_) (sound_typeAnnotations "annotations" fun _ => rfl)
  obtain ⟨start, stop, target, -, -, -, hsame⟩ := recordsHandler_of_read he
  cases hsame
  exact sound_internals _

theorem sound_typeMention {desc : String} (hdesc : m.value? .text "desc" = some desc) :
    (typeMention (m.value? .text "signature") desc).Sound m.HasText := by
  cases hs : m.value? .text "signature" with
  | none => exact Members.hasText_value hdesc
  | some s => exact Members.hasText_value hs

theorem sound_localVariableEvents (m : Members) : (localVariableEvents m).Sound m.HasText := by
  refine Every.check (by simp [readLocalVariable]) ?_
  intro v hv
  obtain ⟨-, -, -, -, hdesc, hsignature⟩ := recordsLocalVariable_of_read hv
  refine Every.append (every_event ?_) (sound_typeAnnotations "annotations" fun _ => rfl)
  rw [hsignature]
  exact Event.sound_of_one rfl (sound_typeMention hdesc)

theorem sound_codeEvents (m : Members) : (codeEvents m).Sound m.HasText := by
  have hcode : (event (.method .code) : Traversal String).Sound m.HasText := sound_silent rfl
  have hhandlers := sound_entriesEach m "try_catch" sound_handlerEvents
  have hentries := sound_entriesEach m "code" sound_codeEntryEvents
  have hvariables := sound_entriesEach m "local_variables" sound_localVariableEvents
  have hlimits : (check (readLimits m) fun e => event (.method e)).Sound m.HasText := by
    refine Every.check (by simp [readLimits]) ?_
    intro e he
    obtain ⟨limits, -, hsame⟩ := recordsLimits_of_read he
    rw [hsame]
    exact sound_silent rfl
  exact (((hcode.append hhandlers).append hentries).append hvariables).append hlimits

end Code

section Declarations

variable {L : Type} {texts : String → Prop} {m : Members}

theorem sound_warnUnknown (known : List String) (element : String) (m : Members) :
    (warnUnknown known element m : Traversal L).Sound texts := by
  unfold warnUnknown
  split
  · exact .done
  · exact .warn .done

/-- The value of a field is looked up as it stands. -/
theorem faultsIn_fieldValue (m : Members) :
    FaultsIn (Fault.Within m.HasText) (readConstant ((m.find? "value").getD .null)) := by
  apply faultsIn_readConstant
  intro s hs
  cases hv : m.find? "value" with
  | none =>
    rw [hv] at hs
    cases hs
  | some v =>
    rw [hv] at hs
    exact .member hv hs

theorem sound_fieldEvents (m : Members) : (fieldEvents m : Traversal L).Sound m.HasText := by
  refine Every.check faultsIn_required ?_
  intro name hname
  refine Every.append (sound_warnUnknown _ _ m) (Every.check ?_ ?_)
  · simp [readField, faultsIn_fieldValue]
  · intro e he
    have hbody : (fieldBody m : Traversal L).Sound m.HasText :=
      (sound_declarationAnnotations (fun _ => rfl) fun _ => rfl).append (sound_silent rfl)
    refine every_scope ?_ hbody
    obtain ⟨_, desc, value, -, hdesc, hvalue, hsame⟩ := recordsField_of_read (L := L) hname he
    rw [hsame]
    exact List.forall_mem_cons.mpr ⟨sound_typeMention hdesc,
      List.forall_mem_singleton.mpr (checked_of_readConstant hvalue)⟩

theorem sound_defaultValueEvents (m : Members) :
    (defaultValueEvents m : Traversal L).Sound m.HasText := by
  unfold defaultValueEvents
  split
  · next v hv =>
    have hvalue : (valueEvents none v : Traversal L).Sound m.HasText :=
      (sound_values.1 v none).mono fun s => Members.hasText_of_get? hv
    exact every_scope (Event.sound_of_silent rfl) (hvalue.append (sound_silent rfl))
  · exact .done

theorem sound_code (m : Members) : (check (m.optional .list "code") fun
      | some _ => codeEvents m
      | none => .done).Sound m.HasText := by
  refine Every.check faultsIn_optional ?_
  intro o _
  cases o with
  | none => exact .done
  | some items => exact sound_codeEvents m

theorem sound_parameter (p : Members) :
    (check (readParameter p) fun e => event (.method e)).Sound p.HasText := by
  refine Every.check (by simp [readParameter]) ?_
  intro e he
  have hsame := recordsParameter_of_read he
  unfold Members.RecordsParameter at hsame
  rw [hsame]
  exact sound_silent rfl

theorem sound_methodBody (m : Members) : (methodBody m).Sound m.HasText := by
  have hparameters := sound_entriesEach m "parameters" sound_parameter
  have hannotations : (declarationAnnotations m (fun a => .method (.annotated a))
      (fun a => .method (.typeAnnotated a)) : Traversal String).Sound m.HasText :=
    sound_declarationAnnotations (fun _ => rfl) fun _ => rfl
  have hparameterAnnotations : (annotationEvents m "parameter_annotations" readParameterAnnotation
      (fun p => .method (.parameterAnnotated p.1 p.2)) : Traversal String).Sound m.HasText :=
    sound_annotationEvents "parameter_annotations" (·.2.desc)
      (fun _ => by simp [ readParameterAnnotation, readAnnotationHead])
      (fun _ _ => desc_of_readParameterAnnotation) fun _ => rfl
  exact (((((hparameters.append (sound_code m)).append (sound_defaultValueEvents m)).append
    hannotations).append hparameterAnnotations).append (sound_silent rfl))

theorem sound_methodEvents (index : Nat) (m : Members) :
    (methodEvents index m).Sound m.HasText := by
  refine Every.check faultsIn_required ?_
  intro name hname
  refine Every.append (sound_warnUnknown _ _ m) (Every.check (by simp [readMethod]) ?_)
  intro e he
  have hbody : (bindLabels index (methodBody m)).Sound m.HasText :=
    (sound_methodBody m).map fun e he => he.of_mentions (Event.mentions_map _ e)
  refine every_scope ?_ hbody
  obtain ⟨_, desc, exceptions, -, hdesc, -, hsame⟩ := recordsMethod_of_read (L := Label) hname he
  rw [hsame]
  have hexceptions : ∀ n ∈ (exceptions.getD []).map Mention.internal, n.Sound m.HasText :=
    sound_internals _
  cases hs : m.value? .text "signature" with
  | none => exact List.forall_mem_cons.mpr ⟨Members.hasText_value hdesc, hexceptions⟩
  | some s => exact List.forall_mem_cons.mpr ⟨Members.hasText_value hs, hexceptions⟩

end Declarations

section Classes

variable {L : Type}

theorem sound_header (t : Trace) : (check (readHeader t) fun e => event (.classFile e) :
    Traversal L).Sound t.members.HasText := by
  refine Every.check (by simp [readHeader]) ?_
  intro e he
  obtain ⟨interfaces, -, hsame⟩ := recordsHeader_of_read (L := L) he
  rw [hsame]
  apply every_event
  cases hs : t.members.value? .text "signature" with
  | none => exact sound_internals _
  | some s => exact Event.sound_of_one rfl (Members.hasText_value hs)

theorem sound_objectEvents (m : Members) (key : String) {read : Members → Except Fault ClassEvent}
    (hfaults : ∀ o : Members, FaultsIn (Fault.Within o.HasText) (read o))
    (hread : ∀ o e, read o = .ok e → e.mentions = []) :
    (objectEvents m key read : Traversal L).Sound m.HasText := by
  apply sound_entriesEach
  intro o
  exact Every.check (hfaults o) fun e he => sound_silent (hread o e he)

theorem sound_textEvents (m : Members) (key : String) {toEvent : String → ClassEvent}
    (hevent : ∀ s, (toEvent s).mentions = []) :
    (textEvents m key toEvent : Traversal L).Sound m.HasText :=
  Every.check faultsIn_entries fun _ _ => Every.each fun s _ => sound_silent (hevent s)

theorem sound_textEvent (m : Members) (key : String) {toEvent : String → ClassEvent}
    (hevent : ∀ s, (toEvent s).mentions = []) :
    (textEvent m key toEvent : Traversal L).Sound m.HasText := by
  refine Every.check faultsIn_optional ?_
  intro o _
  cases o with
  | none => exact .done
  | some s =>
    by_cases hs : s = ""
    · simp only [hs, if_true]
      exact .done
    · simp only [hs, if_false]
      exact sound_silent (hevent s)

theorem sound_outerClassEvents (m : Members) :
    (outerClassEvents m : Traversal L).Sound m.HasText := by
  refine Every.check faultsIn_optional ?_
  intro o _
  cases o with
  | none => exact .done
  | some outer =>
    refine Every.check (by simp [readOuterClass]) ?_
    intro e he
    obtain ⟨owner, -, hsame⟩ := recordsOuterClass_of_read (L := L) he
    rw [hsame]
    exact sound_silent rfl

theorem sound_methods (m : Members) : (check (m.entries .object "methods") fun ms =>
    each ms.zipIdx fun (o, i) => methodEvents i o).Sound m.HasText := by
  refine Every.check faultsIn_entries ?_
  intro ms hms
  apply Every.each
  rintro ⟨o, i⟩ ho
  have hitem : o ∈ m.items .object "methods" := by
    rw [Members.items_of_entries hms]
    exact List.fst_mem_of_mem_zipIdx ho
  exact (sound_methodEvents i o).mono fun s => Members.hasText_item hitem

/-- Whatever goes wrong on the way through a recorded class is the form of the document, or a text that
occurs in it. -/
theorem sound_traversal (t : Trace) : t.traversal.Sound t.members.HasText := by
  have hannotations : (declarationAnnotations t.members (fun a => .classFile (.annotated a))
      (fun a => .classFile (.typeAnnotated a)) : Traversal Label).Sound t.members.HasText :=
    sound_declarationAnnotations (fun _ => rfl) fun _ => rfl
  have hcomponents : (objectEvents t.members "record_components" readRecordComponent :
      Traversal Label).Sound t.members.HasText :=
    sound_objectEvents _ _ (fun _ => by simp [readRecordComponent])
      fun _ _ => mentions_readRecordComponent
  have hfields := sound_entriesEach (L := Label) t.members "fields" sound_fieldEvents
  have hinner : (objectEvents t.members "inner_classes" readInnerClass :
      Traversal Label).Sound t.members.HasText :=
    sound_objectEvents _ _ (fun _ => by simp [readInnerClass]) fun _ _ => mentions_readInnerClass
  have hhost : (textEvent t.members "nest_host" .nestHost : Traversal Label).Sound
      t.members.HasText := sound_textEvent _ _ fun _ => rfl
  have hmembers : (textEvents t.members "nest_members" .nestMember : Traversal Label).Sound
      t.members.HasText := sound_textEvents _ _ fun _ => rfl
  have hpermitted : (textEvents t.members "permitted_subclasses" .permittedSubclass :
      Traversal Label).Sound t.members.HasText := sound_textEvents _ _ fun _ => rfl
  have hsource : (textEvent t.members "source" (fun s => .source (some s) none) :
      Traversal Label).Sound t.members.HasText := sound_textEvent _ _ fun _ => rfl
  have hdeclared := (((((sound_warnUnknown classKeys t.name t.members).append
    (sound_header t)).append hannotations).append hcomponents).append hfields).append
    (sound_methods t.members)
  have hnested := ((hdeclared.append hhost).append hmembers).append hpermitted
  have hall := ((hnested.append hinner).append (sound_outerClassEvents t.members)).append hsource
  exact hall.append (sound_silent rfl)

end Classes

end ClassUsage
