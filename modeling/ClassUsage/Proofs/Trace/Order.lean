import ClassUsage.Proofs.Trace.Outline

/-!
Events come in the order that the document asks for, whatever scopes the listener wants and whether or
not a fault ends them. The main statement says this of a whole class, and that the events are well
bracketed.
-/
namespace ClassUsage

open Traversal

variable {L : Type} {m : Members}

section Values

variable {wanted : Event L → Bool}

theorem entryPatterns_eq (es : List Members) :
    (entryPatterns es : Pattern wanted .values) = .each es fun e =>
      match e.requiredValue "value" with
      | .ok v => valuePattern (e.value? .text "name") v
      | .error _ => .never := by
  induction es with
  | nil => rw [entryPatterns, Pattern.each]
  | cons e es ih =>
    rw [entryPatterns, Pattern.each, ih]
    congr 1
    split <;> simp_all

theorem itemPatterns_eq (items : List Json) :
    (itemPatterns items : Pattern wanted .values) = .each items (valuePattern none) := by
  induction items with
  | nil => rw [itemPatterns, Pattern.each]
  | cons v items ih => rw [itemPatterns, Pattern.each, ih]

theorem follows_object (m : Members)
    (hnested : ∀ n, m.required .object "annotation" = .ok n →
      (annotationBody n).Fills (annotationPattern n : Pattern wanted .values))
    (hitems : ∀ items, m.required .list "array" = .ok items → ∀ v ∈ items, ∀ name,
      (valueEvents name v).Follows (valuePattern name v : Pattern wanted .values))
    (name : Option String) :
    (valueEvents name (.object m)).Follows
      (valuePattern name (.object m) : Pattern wanted .values) := by
  rw [valuePattern]
  cases he : m.hasKey "enum" with
  | true =>
    rw [valueEvents_enum he, if_pos rfl]
    apply Follows.check
    intro e hread
    simp only [readEnumConstant, bind_eq_ok, pure_eq_ok] at hread
    obtain ⟨desc, hdesc, value, hvalue, rfl⟩ := hread
    exact follows_event
      ⟨desc, value, Members.value?_of_required hdesc, Members.value?_of_required hvalue, rfl⟩
  | false =>
    cases ha : m.hasKey "annotation" with
    | true =>
      rw [valueEvents_nested he ha]
      apply Follows.check
      intro n hn
      apply Follows.check
      intro desc hdesc
      simp only [Bool.false_eq_true, if_false, if_true]
      split
      · next n' hn' =>
        cases hn.symm.trans hn'
        exact Follows.scope ⟨desc, Members.value?_of_required hdesc, rfl⟩ (hnested n hn)
      · next hn' => cases hn.symm.trans hn'
    | false =>
      cases hl : m.hasKey "array" with
      | true =>
        rw [valueEvents_array he ha hl]
        apply Follows.check
        intro items hlist
        simp only [Bool.false_eq_true, if_false, if_true]
        split
        · next items' hlist' =>
          cases hlist.symm.trans hlist'
          rw [itemEvents_eq, itemPatterns_eq]
          exact Follows.scope rfl ⟨_, rfl, Follows.each fun v hv => hitems items hlist v hv none⟩
        · next hlist' => cases hlist.symm.trans hlist'
      | false =>
        rw [valueEvents_tagged he ha hl]
        simp only [Bool.false_eq_true, if_false]
        apply Follows.check
        intro c hc
        exact follows_event ⟨c, hc, rfl⟩

theorem fills_annotationBody (m : Members)
    (hvalues : ∀ es, m.entries .object "values" = .ok es → ∀ e ∈ es, ∀ v,
      e.requiredValue "value" = .ok v → ∀ name,
        (valueEvents name v).Follows (valuePattern name v : Pattern wanted .values)) :
    (annotationBody m).Fills (annotationPattern m : Pattern wanted .values) := by
  refine ⟨check (m.entries .object "values") entryEvents, ?_, ?_⟩
  · rw [annotationBody_eq, check_append]
    rfl
  · rw [annotationPattern]
    apply Follows.check
    intro es hes
    split
    · next es' hes' =>
      cases hes.symm.trans hes'
      rw [entryEvents_eq, entryPatterns_eq]
      apply Follows.each
      intro e he
      apply Follows.check
      intro name hname
      apply Follows.check
      intro v hv
      rw [hv, Members.value?_of_optional hname]
      exact hvalues es hes e he v hv name
    · next hes' => cases hes.symm.trans hes'

theorem follows_values :
    (∀ v name, (valueEvents name v).Follows (valuePattern name v : Pattern wanted .values)) ∧
      ∀ m, (annotationBody m).Fills (annotationPattern m : Pattern wanted .values) := by
  apply value_induction
  · intro v hplain name
    rw [valueEvents_plain hplain, valuePattern]
    · exact follows_just
    · exact hplain
  · exact follows_object
  · exact fills_annotationBody

end Values

section Annotations

variable {wanted : Event L → Bool} {s : Scope}

theorem follows_annotationEvents {α : Type} {key : String} {read : Members → Except Fault α}
    {toEvent : α → Event L} {P : Members → Event L → Prop}
    {h : ∀ a e, P a e → e.Opens s .values}
    (hread : ∀ a head, read a = .ok head → P a (toEvent head)) :
    (annotationEvents m key read toEvent).Follows
      (annotatedPattern m key P h : Pattern wanted s) := by
  apply Follows.listed
  intro a
  apply Follows.check
  intro head hhead
  exact Follows.scope (hread a head hhead) (follows_values.2 a)

theorem follows_typeAnnotations {key : String} {toEvent : TypeAnnotationHead → Event L}
    {h : ∀ head, (toEvent head).Opens s .values} :
    (annotationEvents m key readTypeAnnotationHead toEvent).Follows
      (typeAnnotatedPattern m key toEvent h : Pattern wanted s) :=
  follows_annotationEvents fun _ head hhead => ⟨head, recordsTypeAnnotated_of_read hhead, rfl⟩

theorem follows_declarationAnnotations {annotated : AnnotationHead → Event L}
    {typeAnnotated : TypeAnnotationHead → Event L}
    {ha : ∀ head, (annotated head).Opens s .values}
    {ht : ∀ head, (typeAnnotated head).Opens s .values} :
    (declarationAnnotations m annotated typeAnnotated).Follows
      (declarationPattern m annotated typeAnnotated ha ht : Pattern wanted s) :=
  (follows_annotationEvents fun _ head hhead => ⟨head, recordsAnnotated_of_read hhead, rfl⟩).append
    follows_typeAnnotations

/-- Warnings that come first change nothing. -/
theorem follows_warnUnknown {known : List String} {element : String} {t : Traversal L}
    {p : Pattern wanted s} (ht : t.Follows p) : (warnUnknown known element m ++ t).Follows p := by
  unfold warnUnknown
  split
  · exact ht
  · exact ht.warn

theorem follows_fieldEvents (o : Members) :
    (fieldEvents o).Follows (fieldPattern o : Pattern wanted .classFile) := by
  apply Follows.check
  intro name hname
  apply follows_warnUnknown
  apply Follows.check
  intro e he
  exact Follows.scope (recordsField_of_read hname he) ⟨_, rfl, follows_declarationAnnotations⟩

end Annotations

section Methods

variable {wanted : Event String → Bool}

theorem follows_handlerEvents (o : Members) :
    (handlerEvents o).Follows (handlerPattern o : Pattern wanted .method) := by
  apply Follows.check
  intro e he
  exact (follows_event (recordsHandler_of_read he)).append follows_typeAnnotations

theorem follows_codeEntryEvents (o : Members) :
    (codeEntryEvents o).Follows (codeEntryPattern o : Pattern wanted .method) := by
  unfold codeEntryEvents codeEntryPattern
  by_cases hop : o.hasKey "op" = true
  · rw [if_pos hop, if_pos hop]
    apply Follows.check
    intro e he
    exact (follows_event (recordsInstruction_of_read he)).append follows_typeAnnotations
  · rw [if_neg hop, if_neg hop]
    apply Follows.check
    intro e he
    exact follows_event (recordsMark_of_read he)

theorem follows_localVariableEvents (o : Members) :
    (localVariableEvents o).Follows (localVariablePattern o : Pattern wanted .method) := by
  apply Follows.check
  intro v hv
  have hrecords := recordsLocalVariable_of_read hv
  refine (follows_event ⟨v, hrecords, rfl⟩).append (follows_annotationEvents ?_)
  intro a head hhead
  exact ⟨v, head, hrecords, recordsTypeAnnotated_of_read hhead, rfl⟩

theorem follows_codeEvents (m : Members) :
    (codeEvents m).Follows (codePattern m : Pattern wanted .method) := by
  have hlimits : (check (readLimits m) fun e => event (.method e)).Follows
      (.one m.RecordsLimits (by rintro _ ⟨_, _, rfl⟩; exact ⟨rfl, rfl, rfl⟩) :
        Pattern wanted .method) :=
    Follows.check fun e he => follows_event (recordsLimits_of_read he)
  exact (((follows_just.append (Follows.listed follows_handlerEvents)).append
    (Follows.listed follows_codeEntryEvents)).append
    (Follows.listed follows_localVariableEvents)).append hlimits

theorem follows_code (m : Members) : (check (m.optional .list "code") fun
      | some _ => codeEvents m
      | none => .done).Follows
    (.given (m.value? .list "code") fun _ => codePattern m : Pattern wanted .method) := by
  apply Follows.check
  intro o ho
  rw [Members.value?_of_optional ho]
  cases o with
  | none => exact follows_done
  | some items => exact follows_codeEvents m

theorem follows_defaultValueEvents (m : Members) : (defaultValueEvents m).Follows
    (.given (m.get? "annotation_default") defaultValuePattern : Pattern wanted .method) := by
  unfold defaultValueEvents
  cases m.get? "annotation_default" with
  | none => exact follows_done
  | some v =>
    have hscope : (scope (.method .defaultValue) (valueEvents none v ++ event (.value .finish))).Follows
        (defaultValuePattern v : Pattern wanted .method) :=
      Follows.scope rfl ⟨_, rfl, follows_values.1 v none⟩
    exact hscope

theorem fills_methodBody (m : Members) :
    (methodBody m).Fills (methodPattern m : Pattern wanted .method) := by
  refine ⟨_, rfl, ?_⟩
  refine (((Follows.append (Follows.listed fun p => ?_) (follows_code m)).append
    (follows_defaultValueEvents m)).append follows_declarationAnnotations).append
    (follows_annotationEvents ?_)
  · apply Follows.check
    intro e he
    exact follows_event (recordsParameter_of_read he)
  · intro a head hhead
    exact recordsParameterAnnotated_of_read hhead

end Methods

section Classes

variable {wanted : Event Label → Bool}

theorem follows_methodEvents (index : Nat) (o : Members) :
    (methodEvents index o).Follows (methodScopePattern o : Pattern wanted .classFile) := by
  apply Follows.check
  intro name hname
  apply follows_warnUnknown
  apply Follows.check
  intro e he
  have hbody : (bindLabels index (methodBody o)).Fills
      (.relabelled KeepsNames fun _ => methodPattern o : Pattern wanted .method) :=
    Fills.map (fun _ => rfl) (fills_methodBody o)
  exact Follows.scope (recordsMethod_of_read hname he) hbody

theorem follows_methods (m : Members) : (check (m.entries .object "methods") fun ms =>
    each ms.zipIdx fun (o, i) => methodEvents i o).Follows
      (.listed m .object "methods" methodScopePattern : Pattern wanted .classFile) := by
  have hnumbered : ∀ (ms : List Members) (start : Nat),
      (each (ms.zipIdx start) fun (o, i) => methodEvents i o).Follows
        (.each ms methodScopePattern : Pattern wanted .classFile) := by
    intro ms
    induction ms with
    | nil => exact fun _ => follows_done
    | cons o ms ih => exact fun start => (follows_methodEvents start o).append (ih (start + 1))
  apply Follows.check
  intro ms hms
  unfold Pattern.listed
  rw [hms]
  exact hnumbered ms 0

theorem follows_textEvent {key : String} {toEvent : String → ClassEvent}
    {h : ∀ text, (Event.classFile (toEvent text) : Event Label).Plain .classFile} :
    (textEvent m key toEvent).Follows
      (textPattern m key (fun s => .classFile (toEvent s)) h : Pattern wanted .classFile) := by
  unfold textPattern
  apply Follows.check
  intro o ho
  rw [Members.value?_of_optional ho]
  cases o with
  | none => exact follows_done
  | some text =>
    by_cases hempty : text = ""
    · simp only [hempty, if_true]
      exact follows_done
    · have hkept : (some text).filter (· ≠ "") = some text := by simp [hempty]
      simp only [hempty, if_false]
      rw [hkept]
      exact follows_just (h := h text)

theorem follows_textEvents {key : String} {toEvent : String → ClassEvent}
    {h : ∀ text, (Event.classFile (toEvent text) : Event Label).Plain .classFile} :
    (textEvents m key toEvent).Follows
      (textsPattern m key (fun s => .classFile (toEvent s)) h : Pattern wanted .classFile) :=
  Follows.listed fun _ => follows_just

theorem follows_objectEvents {key : String} {read : Members → Except Fault ClassEvent}
    {P : Members → Event Label → Prop} {h : ∀ o e, P o e → e.Plain .classFile}
    (hread : ∀ o e, read o = .ok e → P o (.classFile e)) :
    (objectEvents m key read).Follows
      (.listed m .object key fun o => .one (P o) (h o) : Pattern wanted .classFile) := by
  apply Follows.listed
  intro o
  apply Follows.check
  intro e he
  exact follows_event (hread o e he)

theorem follows_outerClassEvents (m : Members) : (outerClassEvents m).Follows
    (.given (m.value? .object "outer_class") outerClassPattern : Pattern wanted .classFile) := by
  apply Follows.check
  intro o ho
  rw [Members.value?_of_optional ho]
  cases o with
  | none => exact follows_done
  | some outer =>
    have hevent : (check (readOuterClass outer) fun e => event (.classFile e)).Follows
        (outerClassPattern outer : Pattern wanted .classFile) :=
      Follows.check fun e he => follows_event (recordsOuterClass_of_read he)
    exact hevent

theorem follows_header (t : Trace) : (warnUnknown classKeys t.name t.members ++
    check (readHeader t) fun e => event (.classFile e)).Follows
      (headerPattern t : Pattern wanted .classFile) := by
  apply follows_warnUnknown
  apply Follows.check
  intro e he
  exact follows_event (recordsHeader_of_read he)

theorem fills_traversal (t : Trace) :
    t.traversal.Fills (classPattern t : Pattern wanted .classFile) := by
  refine ⟨_, rfl, ?_⟩
  have hcomponents : (objectEvents t.members "record_components" readRecordComponent).Follows
      (.listed t.members .object "record_components" componentPattern :
        Pattern wanted .classFile) := follows_objectEvents fun _ _ => recordsComponent_of_read
  have hinner : (objectEvents t.members "inner_classes" readInnerClass).Follows
      (.listed t.members .object "inner_classes" innerClassPattern : Pattern wanted .classFile) :=
    follows_objectEvents fun _ _ => recordsInnerClass_of_read
  -- the class is taken apart from its end, so that each part is met with its pattern known
  refine Follows.append ?_ follows_textEvent
  refine Follows.append ?_ (follows_outerClassEvents t.members)
  refine Follows.append ?_ hinner
  refine Follows.append ?_ follows_textEvents
  refine Follows.append ?_ follows_textEvents
  refine Follows.append ?_ follows_textEvent
  refine Follows.append ?_ (follows_methods t.members)
  refine Follows.append ?_ (Follows.listed follows_fieldEvents)
  refine Follows.append ?_ hcomponents
  refine Follows.append ?_ follows_declarationAnnotations
  exact follows_header t

/-- Whatever scopes a listener wants, it notices the events of a class in class-file order, scope
within scope: all of them up to the last event of the class, which leaves no scope open, or those
before a fault, which leave open at least the scope of the class. -/
theorem events_in_classFile_order (t : Trace) (wanted : Event Label → Bool) :
    ((t.traversal.play wanted).fault = none →
      (∃ inside, (classPattern t : Pattern wanted .classFile).whole inside ∧
        (t.traversal.play wanted).events = inside ++ [.classFile .finish]) ∧
      openScopes wanted [.classFile] (t.traversal.play wanted).events = some []) ∧
    ∀ f, (t.traversal.play wanted).fault = some f →
      (classPattern t : Pattern wanted .classFile).broken (t.traversal.play wanted).events ∧
      ∃ inner, openScopes wanted [.classFile] (t.traversal.play wanted).events =
        some (inner ++ [.classFile]) := by
  have hfills : t.traversal.Fills (classPattern t : Pattern wanted .classFile) := fills_traversal t
  exact ⟨fun hf => hfills.whole_of_play hf, fun f hf => hfills.broken_of_play hf⟩

/-- A class with a method that has an annotation without a descriptor. -/
def gappedMethod : Trace where
  name := "app/Gap"
  members :=
    [("name", .string "app/Gap"),
     ("methods", .list [.object
       [("name", .string "run"), ("desc", .string "()V"), ("code", .list []),
        ("annotations", .list [.object []])]]),
     ("source", .string "Gap.java")]

/-- A listener that wants all scopes meets the fault in the middle of the method, and one that does not
want methods gets to the end. -/
theorem events_in_classFile_order_gap :
    ((classPattern gappedMethod : Pattern (fun _ => true) .classFile).broken
        (gappedMethod.traversal.play fun _ => true).events ∧
      openScopes (fun _ => true) [.classFile] (gappedMethod.traversal.play fun _ => true).events =
        some [.method, .classFile]) ∧
    ∃ inside, (classPattern gappedMethod :
        Pattern (fun e => e.opens != some .method) .classFile).whole inside ∧
      (gappedMethod.traversal.play fun e => e.opens != some .method).events =
        inside ++ [.classFile .finish] := by
  have hfault : (gappedMethod.traversal.play fun _ => true).fault.isSome = true := by decide +kernel
  have hnone : (gappedMethod.traversal.play fun e => e.opens != some .method).fault.isNone = true := by
    decide +kernel
  obtain ⟨f, hf⟩ := Option.isSome_iff_exists.mp hfault
  have hbroken := (events_in_classFile_order gappedMethod fun _ => true).2 f hf
  have hwhole := (events_in_classFile_order gappedMethod fun e => e.opens != some .method).1
    (Option.isNone_iff_eq_none.mp hnone)
  exact ⟨⟨hbroken.1, by decide +kernel⟩, hwhole.1⟩

end Classes

end ClassUsage
