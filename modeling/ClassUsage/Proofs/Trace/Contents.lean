import ClassUsage.Proofs.Event.Parameters
import ClassUsage.Proofs.Trace.Formation
import ClassUsage.Proofs.Trace.Naming
import ClassUsage.Proofs.Trace.Outline

/-!
What the way through a class is made of: all its events are proper, only those of methods have labels,
and an event with labels records an entry of the code of its method. There is one lemma for each part
of a document. The main statement is that listeners are given only operands of the declared shapes.
-/
namespace ClassUsage

open Traversal

section Constants

variable {m : Members} {c : Value}

theorem decodes_of_ofDescriptor {desc : String} {t : TypeConstant}
    (h : TypeConstant.ofDescriptor desc = .ok t) : (decodeDescriptor t.descriptor).isOk = true := by
  unfold TypeConstant.ofDescriptor at h
  cases hd : Descriptor.parse desc with
  | error e =>
    rw [hd] at h
    contradiction
  | ok d =>
    rw [hd] at h
    cases h
    rw [decodeDescriptor_of_parse hd]
    rfl

theorem reference_of_readTagged (h : readTagged m = .ok c) : Shape.reference.admits c = true := by
  rcases readTagged_eq_ok h with ⟨desc, t, ht, rfl⟩ | ⟨handle, rfl⟩
  · exact Shape.admits_either.mpr (.inl (decodes_of_ofDescriptor ht))
  · exact Shape.admits_either.mpr (.inr (Shape.admits_handle handle))

theorem constant_of_reference (h : Shape.reference.admits c = true) :
    Shape.constant.admits c = true := Shape.admits_either.mpr (.inl h)

theorem constant_of_plain {v : Json} (h : ∀ m, v ≠ .object m) :
    Shape.constant.admits (.plain v) = true := by
  refine Shape.admits_either.mpr (.inr ?_)
  cases v with
  | object m => exact absurd rfl (h m)
  | _ => rfl

theorem constant_of_readConstant {v : Json} (h : readConstant v = .ok c) :
    Shape.constant.admits c = true := by
  unfold readConstant at h
  split at h
  · exact constant_of_reference (reference_of_readTagged h)
  · next hplain =>
    cases h
    exact constant_of_plain hplain

theorem constants_of_readConstants {vs : List Json} {cs : List Value}
    (h : readConstants vs = .ok cs) : ∀ c ∈ cs, Shape.constant.admits c = true := by
  induction vs generalizing cs with
  | nil =>
    cases h
    simp
  | cons v vs ih =>
    obtain ⟨c, hc, hrest⟩ := bind_eq_ok.mp h
    obtain ⟨rest, hread, hcs⟩ := bind_eq_ok.mp hrest
    rw [← pure_eq_ok.mp hcs]
    exact List.forall_mem_cons.mpr ⟨constant_of_readConstant hc, ih hread⟩

theorem reference_of_readBootstrap {o : Option Members} {bootstrap : Option Value}
    (h : readBootstrap o = .ok bootstrap) : ∀ b ∈ bootstrap, Shape.reference.admits b = true := by
  cases o with
  | none =>
    cases h
    simp
  | some m =>
    cases hread : readTagged m with
    | error f =>
      rw [readBootstrap, hread] at h
      contradiction
    | ok c =>
      rw [readBootstrap, hread] at h
      cases h
      intro b hb
      cases hb
      exact reference_of_readTagged hread

end Constants

section Records

variable {o : Members}

/-- An instruction has the operands of its kind. -/
theorem proper_of_recordsOperands {op : Opcode} {e : MethodEvent String}
    (h : o.RecordsOperands op e) : (Event.method e).Proper := by
  unfold Members.RecordsOperands at h
  cases hk : op.operands <;> rw [hk] at h
  case number | slot | type | label =>
    obtain ⟨_, _, rfl⟩ := h
    exact takes_opcode hk
  case field | method =>
    obtain ⟨_, _, _, _, _, _, rfl⟩ := h
    exact takes_opcode hk
  case nothing =>
    cases h
    exact takes_opcode hk
  case constant =>
    obtain ⟨v, c, -, hc, rfl⟩ := h
    exact constant_of_readConstant hc
  case dynamicCall =>
    obtain ⟨name, desc, bootstrap, arguments, -, -, hbootstrap, harguments, rfl⟩ := h
    exact ⟨reference_of_readBootstrap hbootstrap, constants_of_readConstants harguments⟩
  case increment | arrayType =>
    obtain ⟨_, _, _, _, rfl⟩ := h
    trivial
  case table =>
    obtain ⟨_, _, _, _, _, _, rfl⟩ := h
    trivial
  case lookup =>
    obtain ⟨_, _, rfl⟩ := h
    trivial

theorem proper_of_recordsMark {e : Event String} (h : o.RecordsMark e) : e.Proper := by
  rcases h with ⟨_, _, _, _, rfl⟩ | ⟨_, _, _, rfl⟩ | ⟨_, _, _, _, _, _, locals, stack, _, _, rfl⟩
  · trivial
  · trivial
  · refine ⟨rfl, ?_, ?_, ?_, ?_⟩ <;> simp [Shape.admits, Integer.value]

theorem plain_of_recordsMark {e : Event String} (h : o.RecordsMark e) : e.Plain .method := by
  rcases h with ⟨_, _, _, _, rfl⟩ | ⟨_, _, _, rfl⟩ | ⟨_, _, _, _, _, _, _, _, _, _, rfl⟩ <;>
    exact ⟨rfl, rfl, rfl⟩

/-- The event records an instruction, or else a mark. -/
def Members.RecordsCodeEntry (o : Members) (e : Event String) : Prop :=
  if o.hasKey "op" then o.RecordsInstruction e else o.RecordsMark e

/-- The event records a local variable, or an annotation of its type. -/
def Members.RecordsVariable (o : Members) (e : Event String) : Prop :=
  ∃ v, o.RecordsLocalVariable v ∧
    (e = .method (.localVariable v.name v.desc v.signature v.start v.stop v.index) ∨
      ∃ a ∈ o.items .object "annotations", ∃ head, a.RecordsTypeAnnotated head ∧
        e = .method (.localVariableAnnotated head [v.start] [v.stop] [v.index]))

/-- The event records an entry of the code of a method: a handler, an instruction or a mark, or a local
variable. -/
def Members.RecordsPosition (m : Members) (e : Event String) : Prop :=
  (∃ o ∈ m.items .object "try_catch", o.RecordsHandler e) ∨
    (∃ o ∈ m.items .object "code", o.RecordsCodeEntry e) ∨
    ∃ o ∈ m.items .object "local_variables", o.RecordsVariable e

end Records

section Events

variable {L : Type}

namespace Event

def startsMethod : Event L → Bool
  | .classFile (.method ..) => true
  | _ => false

/-- A proper event without labels that is not that of a method. -/
structure Aside (e : Event L) : Prop where
  proper : e.Proper
  startsNone : e.startsMethod = false
  unlabelled : e.labels = []

theorem aside_finish (s : Scope) : (finish s : Event L).Aside := by
  cases s <;> exact ⟨trivial, rfl, rfl⟩

end Event

/-- A proper event inside a method. If it has labels, the document has an entry for it. -/
structure Members.Tells (m : Members) (e : Event String) : Prop where
  proper : e.Proper
  startsNone : e.startsMethod = false
  recorded : e.labels = [] ∨ m.RecordsPosition e

theorem Event.Aside.tells {e : Event String} (h : e.Aside) (m : Members) : m.Tells e :=
  ⟨h.proper, h.startsNone, .inl h.unlabelled⟩

end Events

section Values

variable {L : Type} {E : Event L → Prop} (hE : ∀ e, e.Aside → E e)
include hE

theorem formed_object (m : Members)
    (hnested : ∀ n, m.required .object "annotation" = .ok n → (annotationBody n).Closed E .values)
    (hitems : ∀ items, m.required .list "array" = .ok items → ∀ v ∈ items, ∀ name,
      (valueEvents name v).Formed E .values)
    (name : Option String) : (valueEvents name (.object m)).Formed E .values := by
  cases he : m.hasKey "enum" with
  | true =>
    rw [valueEvents_enum he]
    apply Formed.check
    intro e hread
    simp only [readEnumConstant, bind_eq_ok, pure_eq_ok] at hread
    obtain ⟨desc, -, value, -, rfl⟩ := hread
    exact formed_event (hE _ ⟨trivial, rfl, rfl⟩) ⟨rfl, rfl, rfl⟩
  | false =>
    cases ha : m.hasKey "annotation" with
    | true =>
      rw [valueEvents_nested he ha]
      apply Formed.check
      intro n hn
      apply Formed.check
      intro desc _
      exact formed_scope (hE _ ⟨trivial, rfl, rfl⟩) ⟨rfl, rfl⟩ (hnested n hn)
    | false =>
      cases hl : m.hasKey "array" with
      | true =>
        rw [valueEvents_array he ha hl]
        apply Formed.check
        intro items hlist
        have hinside : (itemEvents items).Formed E .values := by
          rw [itemEvents_eq]
          exact Formed.each fun v hv => hitems items hlist v hv none
        exact formed_scope (hE _ ⟨trivial, rfl, rfl⟩) ⟨rfl, rfl⟩ hinside.closed
      | false =>
        rw [valueEvents_tagged he ha hl]
        apply Formed.check
        intro c hc
        have hproper := constant_of_reference (reference_of_readTagged hc)
        exact formed_event (hE _ ⟨hproper, rfl, rfl⟩) ⟨rfl, rfl, rfl⟩

omit hE in
theorem closed_annotationBody (m : Members)
    (hvalues : ∀ es, m.entries .object "values" = .ok es → ∀ e ∈ es, ∀ v,
      e.requiredValue "value" = .ok v → ∀ name, (valueEvents name v).Formed E .values) :
    (annotationBody m).Closed E .values := by
  refine ⟨check (m.entries .object "values") entryEvents, ?_, ?_⟩
  · rw [annotationBody_eq, check_append]
    rfl
  · apply Formed.check
    intro es hes
    rw [entryEvents_eq]
    apply Formed.each
    intro e he
    apply Formed.check
    intro name _
    apply Formed.check
    intro v hv
    exact hvalues es hes e he v hv name

theorem formed_values :
    (∀ v name, (valueEvents name v).Formed E .values) ∧ ∀ m, (annotationBody m).Closed E .values := by
  apply value_induction
  · intro v hplain name
    rw [valueEvents_plain hplain]
    exact formed_event (hE _ ⟨constant_of_plain hplain, rfl, rfl⟩) ⟨rfl, rfl, rfl⟩
  · exact formed_object hE
  · exact closed_annotationBody

theorem formed_annotationEvents {α : Type} {m : Members} {key : String} {s : Scope}
    {read : Members → Except Fault α} {toEvent : α → Event L}
    (hopens : ∀ head, (toEvent head).Opens s .values)
    (hread : ∀ a ∈ m.items .object key, ∀ head, read a = .ok head → E (toEvent head)) :
    (annotationEvents m key read toEvent).Formed E s := by
  apply Formed.entries
  intro a ha
  apply Formed.check
  intro head hhead
  exact formed_scope (hread a ha head hhead) (hopens head) ((formed_values hE).2 a)

theorem formed_declarationAnnotations {m : Members} {s : Scope} {annotated : AnnotationHead → Event L}
    {typeAnnotated : TypeAnnotationHead → Event L}
    (ha : ∀ head, (annotated head).Opens s .values ∧ (annotated head).Aside)
    (ht : ∀ head, (typeAnnotated head).Opens s .values ∧ (typeAnnotated head).Aside) :
    (declarationAnnotations m annotated typeAnnotated).Formed E s := by
  have hannotated : (annotationEvents m "annotations" readAnnotationHead annotated).Formed E s :=
    formed_annotationEvents hE (fun head => (ha head).1) fun _ _ head _ => hE _ (ha head).2
  have htypes :
      (annotationEvents m "type_annotations" readTypeAnnotationHead typeAnnotated).Formed E s :=
    formed_annotationEvents hE (fun head => (ht head).1) fun _ _ head _ => hE _ (ht head).2
  exact hannotated.append htypes

end Values

section Declarations

variable {L : Type} {m : Members}

theorem formed_warnUnknown {E : Event L → Prop} {s : Scope} {known : List String} {element : String} :
    (warnUnknown known element m).Formed E s := by
  unfold warnUnknown
  split
  · exact .done
  · exact .warn .done

theorem closed_fieldBody : (fieldBody m : Traversal L).Closed Event.Aside .field := by
  have hannotations : (declarationAnnotations m (fun a => .field (.annotated a))
      (fun a => .field (.typeAnnotated a)) : Traversal L).Formed Event.Aside .field :=
    formed_declarationAnnotations (fun _ h => h) (fun _ => ⟨⟨rfl, rfl⟩, trivial, rfl, rfl⟩)
      fun _ => ⟨⟨rfl, rfl⟩, trivial, rfl, rfl⟩
  exact hannotations.closed

theorem formed_fieldEvents : (fieldEvents m : Traversal L).Formed Event.Aside .classFile := by
  apply Formed.check
  intro name hname
  refine formed_warnUnknown.append (Formed.check ?_)
  intro e he
  obtain ⟨name, desc, value, -, -, hvalue, hsame⟩ := recordsField_of_read (L := L) hname he
  rw [hsame]
  exact formed_scope ⟨constant_of_readConstant hvalue, rfl, rfl⟩ ⟨rfl, rfl⟩ closed_fieldBody

theorem formed_objectEvents {key : String} {read : Members → Except Fault ClassEvent}
    (hread : ∀ o e, read o = .ok e →
      (Event.classFile e : Event L).Aside ∧ (Event.classFile e : Event L).Plain .classFile) :
    (objectEvents m key read : Traversal L).Formed Event.Aside .classFile := by
  apply Formed.entries
  intro o _
  apply Formed.check
  intro e he
  obtain ⟨haside, hplain⟩ := hread o e he
  exact formed_event haside hplain

theorem formed_textEvent {key : String} {toEvent : String → ClassEvent}
    (h : ∀ s, (Event.classFile (toEvent s) : Event L).Aside ∧
      (Event.classFile (toEvent s) : Event L).Plain .classFile) :
    (textEvent m key toEvent : Traversal L).Formed Event.Aside .classFile := by
  apply Formed.check
  intro o _
  cases o with
  | none => exact .done
  | some s =>
    by_cases hempty : s = ""
    · simp only [hempty, if_true]
      exact .done
    · simp only [hempty, if_false]
      exact formed_event (h s).1 (h s).2

theorem formed_textEvents {key : String} {toEvent : String → ClassEvent}
    (h : ∀ s, (Event.classFile (toEvent s) : Event L).Aside ∧
      (Event.classFile (toEvent s) : Event L).Plain .classFile) :
    (textEvents m key toEvent : Traversal L).Formed Event.Aside .classFile :=
  Formed.entries fun s _ => formed_event (h s).1 (h s).2

theorem formed_outerClassEvents : (outerClassEvents m : Traversal L).Formed Event.Aside .classFile := by
  apply Formed.check
  intro o _
  cases o with
  | none => exact .done
  | some outer =>
    apply Formed.check
    intro e he
    obtain ⟨owner, -, hsame⟩ := recordsOuterClass_of_read (L := L) he
    rw [hsame]
    exact formed_event ⟨trivial, rfl, rfl⟩ ⟨rfl, rfl, rfl⟩

theorem formed_header (t : Trace) : (check (readHeader t) fun e => event (.classFile e) :
    Traversal L).Formed Event.Aside .classFile := by
  apply Formed.check
  intro e he
  obtain ⟨interfaces, -, hsame⟩ := recordsHeader_of_read (L := L) he
  rw [hsame]
  exact formed_event ⟨trivial, rfl, rfl⟩ ⟨rfl, rfl, rfl⟩

end Declarations

section Methods

variable {m : Members}

theorem formed_typeAnnotations {o : Members} {toEvent : TypeAnnotationHead → Event String}
    (h : ∀ head, (toEvent head).Opens .method .values ∧ (toEvent head).Aside) :
    (annotationEvents o "annotations" readTypeAnnotationHead toEvent).Formed m.Tells .method :=
  formed_annotationEvents (fun _ haside => haside.tells m) (fun head => (h head).1)
    fun _ _ head _ => (h head).2.tells m

theorem formed_handlerEvents {o : Members} (ho : o ∈ m.items .object "try_catch") :
    (handlerEvents o).Formed m.Tells .method := by
  apply Formed.check
  intro e he
  have hrecords : m.RecordsPosition (.method e) := .inl ⟨o, ho, recordsHandler_of_read he⟩
  have hhandler : (event (.method e)).Formed m.Tells .method := by
    obtain ⟨start, stop, target, -, -, -, hsame⟩ := recordsHandler_of_read he
    cases hsame
    exact formed_event ⟨trivial, rfl, .inr hrecords⟩ ⟨rfl, rfl, rfl⟩
  exact hhandler.append (formed_typeAnnotations fun _ => ⟨⟨rfl, rfl⟩, trivial, rfl, rfl⟩)

theorem formed_codeEntryEvents {o : Members} (ho : o ∈ m.items .object "code") :
    (codeEntryEvents o).Formed m.Tells .method := by
  unfold codeEntryEvents
  by_cases hop : o.hasKey "op" = true
  · rw [if_pos hop]
    apply Formed.check
    intro e he
    have hentry : o.RecordsCodeEntry (.method e) := by
      rw [Members.RecordsCodeEntry, if_pos hop]
      exact recordsInstruction_of_read he
    have hinstruction : (event (.method e)).Formed m.Tells .method := by
      obtain ⟨name, op, told, -, -, htold, hsame⟩ := recordsInstruction_of_read he
      cases hsame
      exact formed_event ⟨proper_of_recordsOperands htold, rfl, .inr (.inr (.inl ⟨o, ho, hentry⟩))⟩
        (plain_of_recordsOperands htold)
    exact hinstruction.append (formed_typeAnnotations fun _ => ⟨⟨rfl, rfl⟩, trivial, rfl, rfl⟩)
  · rw [if_neg hop]
    apply Formed.check
    intro e he
    have hrecords := recordsMark_of_read he
    have hentry : o.RecordsCodeEntry (.method e) := by
      rw [Members.RecordsCodeEntry, if_neg hop]
      exact hrecords
    exact formed_event ⟨proper_of_recordsMark hrecords, rfl, .inr (.inr (.inl ⟨o, ho, hentry⟩))⟩
      (plain_of_recordsMark hrecords)

theorem formed_localVariableEvents {o : Members} (ho : o ∈ m.items .object "local_variables") :
    (localVariableEvents o).Formed m.Tells .method := by
  apply Formed.check
  intro v hv
  have hrecords := recordsLocalVariable_of_read hv
  have hvariable : (event (.method (.localVariable v.name v.desc v.signature v.start v.stop
      v.index))).Formed m.Tells .method :=
    formed_event ⟨trivial, rfl, .inr (.inr (.inr ⟨o, ho, v, hrecords, .inl rfl⟩))⟩ ⟨rfl, rfl, rfl⟩
  refine hvariable.append ?_
  apply formed_annotationEvents fun _ haside => haside.tells m
  · intro head
    exact ⟨rfl, rfl⟩
  · intro a ha head hhead
    have hannotated := recordsTypeAnnotated_of_read hhead
    exact ⟨trivial, rfl, .inr (.inr (.inr ⟨o, ho, v, hrecords, .inr ⟨a, ha, head, hannotated, rfl⟩⟩))⟩

theorem formed_codeEvents (m : Members) : (codeEvents m).Formed m.Tells .method := by
  have hstart : (event (.method .code)).Formed m.Tells .method :=
    formed_event ⟨trivial, rfl, .inl rfl⟩ ⟨rfl, rfl, rfl⟩
  have hlimits : (check (readLimits m) fun e => event (.method e)).Formed m.Tells .method := by
    apply Formed.check
    intro e he
    obtain ⟨limits, -, hsame⟩ := recordsLimits_of_read he
    rw [hsame]
    exact formed_event ⟨trivial, rfl, .inl rfl⟩ ⟨rfl, rfl, rfl⟩
  exact (((hstart.append (Formed.entries fun _ => formed_handlerEvents)).append
    (Formed.entries fun _ => formed_codeEntryEvents)).append
    (Formed.entries fun _ => formed_localVariableEvents)).append hlimits

theorem formed_code (m : Members) : (check (m.optional .list "code") fun
      | some _ => codeEvents m
      | none => .done).Formed m.Tells .method := by
  apply Formed.check
  intro o _
  cases o with
  | none => exact .done
  | some items => exact formed_codeEvents m

theorem formed_defaultValueEvents (m : Members) : (defaultValueEvents m).Formed m.Tells .method := by
  unfold defaultValueEvents
  cases m.get? "annotation_default" with
  | none => exact .done
  | some v =>
    have hvalue : (valueEvents none v).Formed m.Tells .values :=
      (formed_values fun _ haside => haside.tells m).1 v none
    exact formed_scope ⟨trivial, rfl, .inl rfl⟩ ⟨rfl, rfl⟩ hvalue.closed

theorem closed_methodBody (m : Members) : (methodBody m).Closed m.Tells .method := by
  have hparameters : (check (m.entries .object "parameters")
      (each · fun p => check (readParameter p) fun e => event (.method e))).Formed m.Tells .method := by
    apply Formed.entries
    intro p _
    apply Formed.check
    intro e he
    have hsame := recordsParameter_of_read he
    unfold Members.RecordsParameter at hsame
    rw [hsame]
    exact formed_event ⟨trivial, rfl, .inl rfl⟩ ⟨rfl, rfl, rfl⟩
  have hannotations : (declarationAnnotations m (fun a => .method (.annotated a))
      (fun a => .method (.typeAnnotated a))).Formed m.Tells .method :=
    formed_declarationAnnotations (fun _ haside => haside.tells m)
      (fun _ => ⟨⟨rfl, rfl⟩, trivial, rfl, rfl⟩) fun _ => ⟨⟨rfl, rfl⟩, trivial, rfl, rfl⟩
  have hparameterAnnotations : (annotationEvents m "parameter_annotations" readParameterAnnotation
      fun p => .method (.parameterAnnotated p.1 p.2)).Formed m.Tells .method :=
    formed_annotationEvents (fun _ haside => haside.tells m) (fun _ => ⟨rfl, rfl⟩)
      fun _ _ _ _ => ⟨trivial, rfl, .inl rfl⟩
  exact ((((hparameters.append (formed_code m)).append (formed_defaultValueEvents m)).append
    hannotations).append hparameterAnnotations).closed

end Methods

section Classes

namespace Trace

/-- The way through a class up to its methods. -/
def beforeMethods (t : Trace) : Traversal Label :=
  warnUnknown classKeys t.name t.members ++
    check (readHeader t) (fun e => event (.classFile e)) ++
    declarationAnnotations t.members (fun a => .classFile (.annotated a))
      (fun a => .classFile (.typeAnnotated a)) ++
    objectEvents t.members "record_components" readRecordComponent ++
    check (t.members.entries .object "fields") (each · fieldEvents)

/-- The way through the methods of a class. -/
def throughMethods (t : Trace) : Traversal Label :=
  check (t.members.entries .object "methods") fun ms =>
    each ms.zipIdx fun (o, i) => methodEvents i o

/-- The way through a class from its methods to its last event. -/
def afterMethods (t : Trace) : Traversal Label :=
  textEvent t.members "nest_host" .nestHost ++
    textEvents t.members "nest_members" .nestMember ++
    textEvents t.members "permitted_subclasses" .permittedSubclass ++
    objectEvents t.members "inner_classes" readInnerClass ++
    outerClassEvents t.members ++
    textEvent t.members "source" (fun s => .source (some s) none)

theorem traversal_eq (t : Trace) :
    t.traversal =
      t.beforeMethods ++ t.throughMethods ++ t.afterMethods ++ event (.finish .classFile) := by
  simp only [traversal, beforeMethods, throughMethods, afterMethods, append_assoc]
  rfl

end Trace

theorem formed_beforeMethods (t : Trace) : t.beforeMethods.Formed Event.Aside .classFile := by
  have hunknown : (warnUnknown classKeys t.name t.members :
      Traversal Label).Formed Event.Aside .classFile := formed_warnUnknown
  have hannotations : (declarationAnnotations t.members (fun a => .classFile (.annotated a))
      (fun a => .classFile (.typeAnnotated a)) : Traversal Label).Formed Event.Aside .classFile :=
    formed_declarationAnnotations (fun _ h => h) (fun _ => ⟨⟨rfl, rfl⟩, trivial, rfl, rfl⟩)
      fun _ => ⟨⟨rfl, rfl⟩, trivial, rfl, rfl⟩
  have hcomponents : (objectEvents t.members "record_components" readRecordComponent :
      Traversal Label).Formed Event.Aside .classFile := by
    apply formed_objectEvents
    intro o e he
    obtain ⟨name, desc, -, -, hsame⟩ := recordsComponent_of_read (L := Label) he
    rw [hsame]
    exact ⟨⟨trivial, rfl, rfl⟩, rfl, rfl, rfl⟩
  exact (((hunknown.append (formed_header t)).append hannotations).append hcomponents).append
    (Formed.entries fun _ _ => formed_fieldEvents)

theorem formed_afterMethods (t : Trace) : t.afterMethods.Formed Event.Aside .classFile := by
  have hinner : (objectEvents t.members "inner_classes" readInnerClass :
      Traversal Label).Formed Event.Aside .classFile := by
    apply formed_objectEvents
    intro o e he
    obtain ⟨name, -, hsame⟩ := recordsInnerClass_of_read (L := Label) he
    rw [hsame]
    exact ⟨⟨trivial, rfl, rfl⟩, rfl, rfl, rfl⟩
  refine Formed.append ?_ (formed_textEvent fun _ => ⟨⟨trivial, rfl, rfl⟩, rfl, rfl, rfl⟩)
  refine Formed.append (Formed.append ?_ hinner) formed_outerClassEvents
  refine Formed.append ?_ (formed_textEvents fun _ => ⟨⟨trivial, rfl, rfl⟩, rfl, rfl, rfl⟩)
  refine Formed.append ?_ (formed_textEvents fun _ => ⟨⟨trivial, rfl, rfl⟩, rfl, rfl, rfl⟩)
  exact formed_textEvent fun _ => ⟨⟨trivial, rfl, rfl⟩, rfl, rfl, rfl⟩

theorem formed_methodEvents (index : Nat) (o : Members) :
    (methodEvents index o).Formed Event.Proper .classFile := by
  apply Formed.check
  intro name hname
  refine formed_warnUnknown.append (Formed.check ?_)
  intro e he
  obtain ⟨name, desc, exceptions, -, -, -, hsame⟩ := recordsMethod_of_read (L := Label) hname he
  have hbody : (bindLabels index (methodBody o)).Closed Event.Proper .method :=
    (closed_methodBody o).map fun e he => (Event.proper_map _ e).mpr he.proper
  rw [hsame]
  exact formed_scope trivial ⟨rfl, rfl⟩ hbody

/-- All events of a class are proper, scope within scope. -/
theorem closed_traversal (t : Trace) : t.traversal.Closed Event.Proper .classFile := by
  have hbefore := (formed_beforeMethods t).mono fun _ h => h.proper
  have hafter := (formed_afterMethods t).mono fun _ h => h.proper
  have hmethods : t.throughMethods.Formed Event.Proper .classFile :=
    Formed.check fun ms _ => Formed.each fun p _ => formed_methodEvents p.2 p.1
  rw [Trace.traversal_eq]
  exact ((hbefore.append hmethods).append hafter).closed

/-- Whatever scopes a listener wants and whether or not a fault comes later, the operands of every event
it notices have the shapes that the event declares, and a frame gives the lengths of its lists. -/
theorem operands_as_declared (t : Trace) (wanted : Event Label → Bool) (e : Event Label)
    (he : e ∈ (t.traversal.play wanted).events) :
    e.parameters.admit e.operands = true ∧ e.CountsEntries := by
  have hevery : t.traversal.Every Event.Proper fun _ => True :=
    (closed_traversal t).every fun s => (Event.aside_finish s).proper
  have hproper : e.Proper := (hevery.play wanted).events e he
  exact ⟨Event.admit_of_proper hproper, Event.countsEntries_of_proper hproper⟩

/-- A class whose method makes a dynamic call, has a frame, and then an instruction that does not
exist. -/
def brokenCall : Trace where
  name := "app/Call"
  members :=
    [("name", .string "app/Call"),
     ("methods", .list [.object
       [("name", .string "run"), ("desc", .string "()V"), ("code", .list [
         .object [("op", .string "invokedynamic"), ("name", .string "get"), ("desc", .string "()V"),
           ("bootstrap", .object [("handle", .object [("tag", .int 6), ("owner", .string "app/Boot"),
             ("name", .string "link"), ("desc", .string "()V")])]),
           ("bootstrap_args", .list [.object [("type", .string "[J")], .null])],
         .object [("frame", .string "F_FULL"), ("local", .list [.string "app/Call", .int 1])],
         .object [("op", .string "leap")]])]])]

/-- The event of the dynamic call: bootstrap method and arguments are as declared. -/
def linkedCall : Event Label :=
  .method (.dynamicCall "get" "()V" (some (.handle ⟨.number 6, "app/Boot", "link", "()V", false⟩))
    [.type ⟨"[J"⟩, .plain .null])

def fullFrame : Event Label :=
  .method (.frame (.kind .full) (.number 2) [.plain (.string "app/Call"), .plain (.int 1)] (.number 0)
    [])

theorem operands_as_declared_brokenCall :
    (brokenCall.traversal.play fun _ => true).fault.isSome = true ∧
    linkedCall ∈ (brokenCall.traversal.play fun _ => true).events ∧
    linkedCall.parameters.admit linkedCall.operands = true ∧
    fullFrame ∈ (brokenCall.traversal.play fun _ => true).events ∧ fullFrame.CountsEntries := by
  have hcall : linkedCall ∈ (brokenCall.traversal.play fun _ => true).events :=
    List.mem_of_getElem? (i := 3) rfl
  have hframe : fullFrame ∈ (brokenCall.traversal.play fun _ => true).events :=
    List.mem_of_getElem? (i := 4) rfl
  exact ⟨by decide +kernel, hcall, (operands_as_declared brokenCall _ _ hcall).1, hframe,
    (operands_as_declared brokenCall _ _ hframe).2⟩

end Classes

end ClassUsage
