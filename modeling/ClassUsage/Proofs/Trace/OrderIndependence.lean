import ClassUsage.Proofs.Trace.Playback
import ClassUsage.Proofs.Trace.Reordering

/-!
The order of list entries in a document has no part in its analysis: for reordered documents it
succeeds or fails alike, and gives the same names. Every reader agrees on reordered elements, up to
what its event names, and so every part of the way through a class has the same outcome.
-/
namespace ClassUsage

open Traversal Kind

variable {L : Type} {m m' : Members}

section Constants

/-- The constants name the same classes. -/
def Value.SameNames (c c' : Value) : Prop :=
  (Mention.constant c).resolve.toOption = (Mention.constant c').resolve.toOption

theorem agree_readHandle (h : m.Reordered m') : Agree (· = ·) (readHandle m) (readHandle m') :=
  (h.required keeps_integer "tag").bind_eq fun _ =>
    (h.required keeps_text "owner").bind_eq fun _ =>
      (h.required keeps_text "name").bind_eq fun _ =>
        (h.required keeps_text "desc").bind_eq fun _ =>
          (h.orElse keeps_truth "itf" rfl).bind_eq fun _ => .ok rfl

theorem sameNames_refl (r : Except Fault Value) : Agree Value.SameNames r r :=
  (Agree.refl r).of_eq fun _ => rfl

theorem agree_readTagged (h : m.Reordered m') :
    Agree Value.SameNames (readTagged m) (readTagged m') := by
  unfold readTagged
  rw [h.hasKey "type", h.hasKey "method_type", h.hasKey "handle"]
  split
  · exact (h.required keeps_text "type").bind_eq fun _ => sameNames_refl _
  · split
    · exact (h.required keeps_text "method_type").bind_eq fun _ => sameNames_refl _
    · split
      · refine (h.required keeps_object "handle").bind fun o o' ho => ?_
        exact (agree_readHandle ho).bind_eq fun _ => .ok rfl
      · exact .error _ _

theorem agree_readConstant {v w : Json} (h : v.Reordered w) :
    Agree Value.SameNames (readConstant v) (readConstant w) := by
  cases h with
  | same v => exact sameNames_refl _
  | list => exact .ok rfl
  | object hmembers => exact agree_readTagged hmembers

theorem readConstants_ok_iff (vs : List Json) :
    (∃ cs, readConstants vs = .ok cs) ↔ ∀ v ∈ vs, ∃ c, readConstant v = .ok c := by
  induction vs with
  | nil => simp [readConstants]
  | cons v vs ih =>
    rw [List.forall_mem_cons, ← ih]
    simp only [readConstants, bind_eq_ok, pure_eq_ok]
    constructor
    · rintro ⟨_, c, hc, cs, hcs, -⟩
      exact ⟨⟨c, hc⟩, cs, hcs⟩
    · rintro ⟨⟨c, hc⟩, cs, hcs⟩
      exact ⟨_, c, hc, cs, hcs, rfl⟩

/-- Constants in a list are all readable, or are not, in any order. -/
theorem agree_readConstants {vs vs' : List Json} (h : Permuted Json.Reordered vs vs') :
    Agree (fun _ _ => True) (readConstants vs) (readConstants vs') := by
  have hsame := h.forall_mem_iff fun v w hvw => (agree_readConstant hvw).exists_ok_iff
  rw [← readConstants_ok_iff, ← readConstants_ok_iff] at hsame
  exact Agree.of_exists_ok_iff hsame

theorem agree_readBootstrap {o o' : Option Members} (h : Option.Rel Members.Reordered o o') :
    Agree (fun _ _ => True) (readBootstrap o) (readBootstrap o') := by
  cases h with
  | none => exact .ok trivial
  | some hm => exact (agree_readTagged hm).map fun _ _ _ => trivial

end Constants

section Events

variable {α : Type} {toEvent : α → Event L}

/-- What was read leads to events that name the same classes. -/
def Alike (toEvent : α → Event L) (a b : α) : Prop := (toEvent a).outcome = (toEvent b).outcome

theorem agree_alike {r s : Except Fault α} (h : Agree (· = ·) r s) : Agree (Alike toEvent) r s :=
  h.of_eq fun _ => rfl

theorem Agree.event {r s : Except Fault α} (h : Agree (Alike toEvent) r s) :
    (Traversal.check r fun a => Traversal.event (toEvent a)).outcome =
      (Traversal.check s fun a => Traversal.event (toEvent a)).outcome := by
  apply h.check
  intro a b _ hab
  rw [outcome_event, outcome_event, hab]

theorem outcome_entriesEach (h : m.Reordered m') (key : String) {f : Members → Traversal L}
    (hf : ∀ a b : Members, a.Reordered b → (f a).outcome = (f b).outcome) :
    (check (m.entries .object key) (each · f)).outcome =
      (check (m'.entries .object key) (each · f)).outcome := by
  apply (h.entries keeps_object key).check
  intro as bs _ hperm
  exact outcome_each_permuted hperm fun a _ b hab => hf a b hab

end Events

section Annotations

theorem agree_readEnumConstant (h : m.Reordered m') (name : Option String) :
    Agree (· = ·) (readEnumConstant name m) (readEnumConstant name m') :=
  (h.required keeps_text "enum").bind_eq fun _ =>
    (h.required keeps_text "value").bind_eq fun _ => .ok rfl

/-- In another order the value has the same outcome. -/
def Json.KeepsOutcome (L : Type) (v : Json) : Prop :=
  ∀ w, v.Reordered w → ∀ name,
    (valueEvents name v : Traversal L).outcome = (valueEvents name w : Traversal L).outcome

/-- In another order the annotation has the same outcome. -/
def Members.KeepsOutcome (L : Type) (m : Members) : Prop :=
  ∀ m', m.Reordered m' →
    (annotationBody m : Traversal L).outcome = (annotationBody m' : Traversal L).outcome

theorem keepsOutcome_plain (v : Json) (hplain : ∀ m, v ≠ .object m) : v.KeepsOutcome L := by
  intro w h name
  cases h with
  | same v => rfl
  | list =>
    rw [valueEvents_plain (by simp), valueEvents_plain (by simp)]
    rfl
  | object => exact absurd rfl (hplain _)

theorem keepsOutcome_object (m : Members)
    (hnested : ∀ n, m.required .object "annotation" = .ok n → n.KeepsOutcome L)
    (hitems : ∀ items, m.required .list "array" = .ok items → ∀ v ∈ items, v.KeepsOutcome L) :
    (Json.object m).KeepsOutcome L := by
  intro w hw name
  obtain ⟨m', rfl, h⟩ := hw.of_object
  -- Which kind of value it is depends on the keys alone, and both have the same.
  cases he : m.hasKey "enum" with
  | true =>
    rw [valueEvents_enum he, valueEvents_enum (h.hasKey _ ▸ he)]
    exact (agree_alike (agree_readEnumConstant h name)).event
  | false =>
    have he' : m'.hasKey "enum" = false := h.hasKey _ ▸ he
    cases ha : m.hasKey "annotation" with
    | true =>
      rw [valueEvents_nested he ha, valueEvents_nested he' (h.hasKey _ ▸ ha)]
      refine (h.required keeps_object "annotation").check fun n n' hn hnn' => ?_
      refine (hnn'.required keeps_text "desc").check_eq ?_
      intro desc
      exact outcome_scope_congr rfl (hnested n hn n' hnn')
    | false =>
      have ha' : m'.hasKey "annotation" = false := h.hasKey _ ▸ ha
      cases hl : m.hasKey "array" with
      | true =>
        rw [valueEvents_array he ha hl, valueEvents_array he' ha' (h.hasKey _ ▸ hl)]
        refine (h.required keeps_list "array").check fun items items' hread hperm => ?_
        refine outcome_scope_congr rfl (outcome_append_congr ?_ rfl)
        rw [itemEvents_eq, itemEvents_eq]
        exact outcome_each_permuted hperm fun v hv w hvw => hitems items hread v hv w hvw none
      | false =>
        rw [valueEvents_tagged he ha hl, valueEvents_tagged he' ha' (h.hasKey _ ▸ hl)]
        refine ((agree_readTagged h).mono fun c c' hc => ?_).event
        exact congrArg (together · _) hc

theorem keepsOutcome_body (m : Members)
    (hvalues : ∀ es, m.entries .object "values" = .ok es → ∀ e ∈ es, ∀ v,
      e.requiredValue "value" = .ok v → v.KeepsOutcome L) : m.KeepsOutcome L := by
  intro m' h
  rw [annotationBody_eq, annotationBody_eq]
  refine (h.entries keeps_object "values").check fun es es' hes hperm => ?_
  refine outcome_append_congr ?_ rfl
  rw [entryEvents_eq, entryEvents_eq]
  refine outcome_each_permuted hperm fun e he e' hee' => ?_
  refine (hee'.optional_eq keeps_text "name").check_eq ?_
  intro name
  refine (hee'.requiredValue "value").check fun v w hv hvw => ?_
  exact hvalues es hes e he v hv w hvw name

theorem keepsOutcome : (∀ v : Json, v.KeepsOutcome L) ∧ ∀ m : Members, m.KeepsOutcome L :=
  value_induction keepsOutcome_plain keepsOutcome_object keepsOutcome_body

theorem agree_readAnnotationHead (h : m.Reordered m') :
    Agree (· = ·) (readAnnotationHead m) (readAnnotationHead m') :=
  (h.required keeps_text "desc").bind_eq fun _ =>
    (h.orElse keeps_truth "visible" rfl).bind_eq fun _ => .ok rfl

theorem agree_readTypeAnnotationHead (h : m.Reordered m') :
    Agree (· = ·) (readTypeAnnotationHead m) (readTypeAnnotationHead m') :=
  (h.orElse keeps_integer "type_ref" rfl).bind_eq fun _ =>
    (h.optional_eq keeps_text "type_path").bind_eq fun _ =>
      (h.required keeps_text "desc").bind_eq fun _ =>
        (h.orElse keeps_truth "visible" rfl).bind_eq fun _ => .ok rfl

theorem agree_readParameterAnnotation (h : m.Reordered m') :
    Agree (· = ·) ( readParameterAnnotation m) ( readParameterAnnotation m') :=
  (h.required keeps_integer "parameter").bind_eq fun _ =>
    (agree_readAnnotationHead h).bind_eq fun _ => .ok rfl

theorem outcome_annotationEvents {α : Type} (h : m.Reordered m') (key : String)
    {read : Members → Except Fault α} (toEvent : α → Event L)
    (hread : ∀ a b : Members, a.Reordered b → Agree (· = ·) (read a) (read b)) :
    (annotationEvents m key read toEvent).outcome =
      (annotationEvents m' key read toEvent).outcome := by
  apply outcome_entriesEach h
  intro a b hab
  refine (hread a b hab).check_eq ?_
  intro head
  exact outcome_scope_congr rfl (keepsOutcome.2 a b hab)

theorem outcome_typeAnnotations (h : m.Reordered m') (key : String)
    (toEvent : TypeAnnotationHead → Event L) :
    (annotationEvents m key readTypeAnnotationHead toEvent).outcome =
      (annotationEvents m' key readTypeAnnotationHead toEvent).outcome :=
  outcome_annotationEvents h key toEvent fun _ _ => agree_readTypeAnnotationHead

theorem outcome_declarationAnnotations (h : m.Reordered m') (annotated : AnnotationHead → Event L)
    (typeAnnotated : TypeAnnotationHead → Event L) :
    (declarationAnnotations m annotated typeAnnotated).outcome =
      (declarationAnnotations m' annotated typeAnnotated).outcome :=
  outcome_append_congr
    (outcome_annotationEvents h "annotations" annotated fun _ _ => agree_readAnnotationHead)
    (outcome_typeAnnotations h "type_annotations" typeAnnotated)

end Annotations

section Code

theorem agree_readOpcode (h : m.Reordered m') : Agree (· = ·) (readOpcode m) (readOpcode m') :=
  (h.required keeps_text "op").bind_eq fun _ => .refl _

theorem agree_readFrameKind (h : m.Reordered m') :
    Agree (· = ·) (readFrameKind m) (readFrameKind m') :=
  (h.required keeps_text "frame").bind_eq fun _ => .refl _

/-- Instructions with the same operands name the same classes; of lists among the operands, none
names any. -/
theorem agree_readOperands (h : m.Reordered m') (op : Opcode) :
    Agree (Alike Event.method) (readOperands m op) (readOperands m' op) := by
  unfold readOperands
  cases op.operands
  case number => exact (h.required keeps_integer "operand").bind_eq fun _ => .ok rfl
  case slot => exact (h.required keeps_integer "var").bind_eq fun _ => .ok rfl
  case type => exact (h.required keeps_text "type").bind_eq fun _ => .ok rfl
  case field =>
    exact (h.required keeps_text "owner").bind_eq fun _ =>
      (h.required keeps_text "name").bind_eq fun _ =>
        (h.required keeps_text "desc").bind_eq fun _ => .ok rfl
  case method =>
    exact (h.orElse keeps_truth "itf" rfl).bind_eq fun _ =>
      (h.required keeps_text "owner").bind_eq fun _ =>
        (h.required keeps_text "name").bind_eq fun _ =>
          (h.required keeps_text "desc").bind_eq fun _ => .ok rfl
  case label => exact (h.required keeps_text "label").bind_eq fun _ => .ok rfl
  case constant =>
    refine (h.requiredValue "value").bind fun v w hvw => ?_
    exact (agree_readConstant hvw).bind fun c c' hc => .ok (congrArg (together · _) hc)
  case increment =>
    exact (h.required keeps_integer "var").bind_eq fun _ =>
      (h.required keeps_integer "increment").bind_eq fun _ => .ok rfl
  case table =>
    exact (h.requiredEntries keeps_text "labels").bind fun _ _ _ =>
      (h.required keeps_integer "min").bind_eq fun _ =>
        (h.required keeps_integer "max").bind_eq fun _ =>
          (h.required keeps_text "default").bind_eq fun _ => .ok rfl
  case lookup =>
    exact (h.requiredEntries keeps_text "labels").bind fun _ _ _ =>
      (h.required keeps_text "default").bind_eq fun _ =>
        (h.requiredEntries keeps_integer "keys").bind fun _ _ _ => .ok rfl
  case dynamicCall =>
    exact (h.optional keeps_object "bootstrap").bind fun _ _ hbootstrap =>
      (h.orElse keeps_list "bootstrap_args" permuted_nil).bind fun _ _ hgiven =>
        (agree_readConstants hgiven).bind fun _ _ _ =>
          (h.required keeps_text "name").bind_eq fun _ =>
            (h.required keeps_text "desc").bind_eq fun _ =>
              (agree_readBootstrap hbootstrap).bind fun _ _ _ => .ok rfl
  case arrayType =>
    exact (h.required keeps_text "desc").bind_eq fun _ =>
      (h.required keeps_integer "dims").bind_eq fun _ => .ok rfl
  case nothing => exact .ok rfl

theorem agree_readPosition (h : m.Reordered m') :
    Agree (Alike Event.method) (readPosition m) (readPosition m') := by
  unfold readPosition
  rw [h.hasKey "line", h.hasKey "label", h.hasKey "frame"]
  split
  · exact (h.required keeps_integer "line").bind_eq fun _ =>
      (h.required keeps_text "label").bind_eq fun _ => .ok rfl
  · split
    · exact (h.required keeps_text "label").bind_eq fun _ => .ok rfl
    · split
      · exact (h.orElse keeps_list "local" permuted_nil).bind fun _ _ _ =>
          (h.orElse keeps_list "stack" permuted_nil).bind fun _ _ _ =>
            (agree_readFrameKind h).bind_eq fun _ => .ok rfl
      · exact .error _ _

theorem outcome_codeEntryEvents (m m' : Members) (h : m.Reordered m') :
    (codeEntryEvents m).outcome = (codeEntryEvents m').outcome := by
  unfold codeEntryEvents
  rw [h.hasKey "op"]
  split
  · have hread : Agree (Alike Event.method) (readInstruction m) (readInstruction m') :=
      (agree_readOpcode h).bind_eq fun op => agree_readOperands h op
    refine hread.check fun e e' _ he => outcome_append_congr ?_ (outcome_typeAnnotations h _ _)
    rw [outcome_event, outcome_event, he]
  · exact (agree_readPosition h).event

theorem agree_readHandler (h : m.Reordered m') : Agree (· = ·) (readHandler m) (readHandler m') :=
  (h.required keeps_text "start").bind_eq fun _ =>
    (h.required keeps_text "end").bind_eq fun _ =>
      (h.required keeps_text "handler").bind_eq fun _ =>
        (h.optional_eq keeps_text "type").bind_eq fun _ => .ok rfl

theorem outcome_handlerEvents (m m' : Members) (h : m.Reordered m') :
    (handlerEvents m).outcome = (handlerEvents m').outcome := by
  refine (agree_readHandler h).check_eq ?_
  intro e
  exact outcome_append_congr rfl (outcome_typeAnnotations h _ _)

theorem agree_readLocalVariable (h : m.Reordered m') :
    Agree (· = ·) (readLocalVariable m) (readLocalVariable m') :=
  (h.required keeps_text "start").bind_eq fun _ =>
    (h.required keeps_text "end").bind_eq fun _ =>
      (h.orElse keeps_integer "index" rfl).bind_eq fun _ =>
        (h.required keeps_text "name").bind_eq fun _ =>
          (h.required keeps_text "desc").bind_eq fun _ =>
            (h.optional_eq keeps_text "signature").bind_eq fun _ => .ok rfl

theorem outcome_localVariableEvents (m m' : Members) (h : m.Reordered m') :
    (localVariableEvents m).outcome = (localVariableEvents m').outcome := by
  refine (agree_readLocalVariable h).check_eq ?_
  intro v
  exact outcome_append_congr rfl (outcome_typeAnnotations h _ _)

theorem agree_readLimits (h : m.Reordered m') : Agree (· = ·) (readLimits m) (readLimits m') :=
  (h.orElse keeps_object "maxs" (.refl [])).bind fun _ _ hlimits =>
    (hlimits.orElse keeps_integer "max_stack" rfl).bind_eq fun _ =>
      (hlimits.orElse keeps_integer "max_locals" rfl).bind_eq fun _ => .ok rfl

theorem outcome_codeEvents (h : m.Reordered m') : (codeEvents m).outcome = (codeEvents m').outcome := by
  have hhandlers := outcome_entriesEach h "try_catch" outcome_handlerEvents
  have hentries := outcome_entriesEach h "code" outcome_codeEntryEvents
  have hvariables := outcome_entriesEach h "local_variables" outcome_localVariableEvents
  have hlimits : (check (readLimits m) fun e => event (.method e)).outcome =
      (check (readLimits m') fun e => event (.method e)).outcome :=
    (agree_alike (agree_readLimits h)).event
  simp only [codeEvents, outcome_append, hhandlers, hentries, hvariables, hlimits]

end Code

section Declarations

/-- Unknown keys are warned about, and that is all. -/
theorem outcome_warnUnknown (known : List String) (element : String) (m : Members) :
    (warnUnknown known element m : Traversal L).outcome = some ∅ := by
  unfold warnUnknown
  split <;> rfl

theorem agree_fieldValue (h : m.Reordered m') :
    Agree Value.SameNames (readConstant ((m.find? "value").getD .null))
      (readConstant ((m'.find? "value").getD .null)) := by
  rcases rel_cases (h.find? "value") with ⟨hm, hm'⟩ | ⟨v, w, hm, hm', hvw⟩
  · rw [hm, hm']
    exact sameNames_refl _
  · rw [hm, hm']
    exact agree_readConstant hvw

theorem agree_readField (h : m.Reordered m') (name : String) :
    Agree (Alike (Event.classFile (L := L))) (readField name m) (readField name m') :=
  (h.orElse keeps_integer "access" rfl).bind_eq fun _ =>
    (h.required keeps_text "desc").bind_eq fun _ =>
      (h.optional_eq keeps_text "signature").bind_eq fun _ =>
        (agree_fieldValue h).bind fun _ _ hvalue =>
          .ok (congrArg (fun names => together _ (together names _)) hvalue)

theorem outcome_fieldEvents (m m' : Members) (h : m.Reordered m') :
    (fieldEvents m : Traversal L).outcome = (fieldEvents m' : Traversal L).outcome := by
  refine (h.required keeps_text "name").check_eq ?_
  intro name
  rw [outcome_append, outcome_append, outcome_warnUnknown, outcome_warnUnknown]
  congr 1
  refine (agree_readField (L := L) h name).check fun e e' _ he => ?_
  exact outcome_scope_congr he (outcome_append_congr (outcome_declarationAnnotations h _ _) rfl)

/-- Names in another order are the same names. -/
theorem mentionsOutcome_internal {names names' : Option (List String)}
    (h : Option.Rel (Permuted (· = ·)) names names') :
    mentionsOutcome ((names.getD []).map .internal) =
      mentionsOutcome ((names'.getD []).map .internal) := by
  cases h with
  | none => rfl
  | some hperm => exact mentionsOutcome_perm (hperm.perm.map _)

theorem agree_readMethod (h : m.Reordered m') (name : String) :
    Agree (Alike (Event.classFile (L := L))) (readMethod name m) (readMethod name m') := by
  refine (h.orElse keeps_integer "access" rfl).bind_eq fun _ => ?_
  refine (h.required keeps_text "desc").bind_eq fun desc => ?_
  refine (h.optional_eq keeps_text "signature").bind_eq fun signature => ?_
  refine (h.optionalEntries keeps_text "exceptions").bind fun _ _ hexceptions => .ok ?_
  have hnames := mentionsOutcome_internal hexceptions
  cases signature with
  | none => exact congrArg (together _ ·) hnames
  | some s => exact congrArg (together _ ·) hnames

theorem agree_readParameter (h : m.Reordered m') :
    Agree (· = ·) (readParameter m) (readParameter m') :=
  (h.optional_eq keeps_text "name").bind_eq fun _ =>
    (h.orElse keeps_integer "access" rfl).bind_eq fun _ => .ok rfl

theorem outcome_defaultValueEvents (h : m.Reordered m') :
    (defaultValueEvents m : Traversal L).outcome = (defaultValueEvents m' : Traversal L).outcome := by
  unfold defaultValueEvents
  rcases rel_cases (h.get? "annotation_default") with ⟨hm, hm'⟩ | ⟨v, w, hm, hm', hvw⟩
  · rw [hm, hm']
  · rw [hm, hm']
    exact outcome_scope_congr rfl (outcome_append_congr (keepsOutcome.1 v w hvw none) rfl)

theorem outcome_code (h : m.Reordered m') : (check (m.optional .list "code") fun
      | some _ => codeEvents m
      | none => .done).outcome =
    (check (m'.optional .list "code") fun
      | some _ => codeEvents m'
      | none => .done).outcome := by
  refine (h.optional keeps_list "code").check fun o o' _ ho => ?_
  cases ho with
  | none => rfl
  | some => exact outcome_codeEvents h

theorem outcome_methodBody (h : m.Reordered m') :
    (methodBody m).outcome = (methodBody m').outcome := by
  have hparameters := outcome_entriesEach h "parameters"
    (f := fun p => check (readParameter p) fun e => event (Event.method e))
    fun p q hpq => (agree_alike (agree_readParameter hpq)).event
  have hdefault := outcome_defaultValueEvents (L := String) h
  have hannotations := outcome_declarationAnnotations (L := String) h
    (fun a => .method (.annotated a)) (fun a => .method (.typeAnnotated a))
  have hparameterAnnotations := outcome_annotationEvents (L := String) h "parameter_annotations"
    (fun p => .method (.parameterAnnotated p.1 p.2))
    fun _ _ => agree_readParameterAnnotation
  have hbefore := outcome_append_congr (outcome_append_congr hparameters (outcome_code h)) hdefault
  have hall := outcome_append_congr (outcome_append_congr hbefore hannotations) hparameterAnnotations
  exact outcome_append_congr hall rfl

/-- Neither the place of a method in its class nor the numbers of its labels matter. -/
theorem outcome_methodEvents (h : m.Reordered m') (i j : Nat) :
    (methodEvents i m).outcome = (methodEvents j m').outcome := by
  refine (h.required keeps_text "name").check_eq ?_
  intro name
  rw [outcome_append, outcome_append, outcome_warnUnknown, outcome_warnUnknown]
  congr 1
  refine (agree_readMethod (L := Label) h name).check fun e e' _ he => outcome_scope_congr he ?_
  rw [bindLabels, bindLabels, outcome_map, outcome_map]
  exact outcome_methodBody h

theorem outcome_methods (h : m.Reordered m') :
    (check (m.entries .object "methods")
        fun ms => each ms.zipIdx fun (o, i) => methodEvents i o).outcome =
      (check (m'.entries .object "methods")
        fun ms => each ms.zipIdx fun (o, i) => methodEvents i o).outcome := by
  refine (h.entries keeps_object "methods").check fun ms ms' _ hperm => ?_
  have hplace : ∀ ms : List Members,
      (each ms.zipIdx fun (o, i) => methodEvents i o).outcome =
        (each ms (methodEvents 0)).outcome := fun ms =>
    outcome_each_zipIdx (fun o i => outcome_methodEvents (.refl o) i 0) ms 0
  rw [hplace, hplace]
  exact outcome_each_permuted hperm fun o _ o' ho => outcome_methodEvents ho 0 0

end Declarations

section Classes

theorem agree_readHeader {t t' : Trace} (h : t.members.Reordered t'.members) (hname : t.name = t'.name) :
    Agree (Alike (Event.classFile (L := L))) (readHeader t) (readHeader t') := by
  unfold readHeader
  rw [hname]
  refine (h.orElse keeps_integer "version" rfl).bind_eq fun _ => ?_
  refine (h.orElse keeps_integer "access" rfl).bind_eq fun _ => ?_
  refine (h.optional_eq keeps_text "signature").bind_eq fun signature => ?_
  refine (h.optional_eq keeps_text "super").bind_eq fun superName => ?_
  refine (h.optionalEntries keeps_text "interfaces").bind fun _ _ hinterfaces => .ok ?_
  have hnames := mentionsOutcome_internal hinterfaces
  cases signature with
  | some s => rfl
  | none =>
    cases superName with
    | none => exact hnames
    | some s => exact congrArg (together (Mention.internal s).resolve.toOption) hnames

theorem agree_readRecordComponent (h : m.Reordered m') :
    Agree (· = ·) (readRecordComponent m) (readRecordComponent m') :=
  (h.required keeps_text "name").bind_eq fun _ =>
    (h.required keeps_text "desc").bind_eq fun _ =>
      (h.optional_eq keeps_text "signature").bind_eq fun _ => .ok rfl

theorem agree_readInnerClass (h : m.Reordered m') :
    Agree (· = ·) (readInnerClass m) (readInnerClass m') :=
  (h.required keeps_text "name").bind_eq fun _ =>
    (h.optional_eq keeps_text "outer_name").bind_eq fun _ =>
      (h.optional_eq keeps_text "inner_name").bind_eq fun _ =>
        (h.orElse keeps_integer "access" rfl).bind_eq fun _ => .ok rfl

theorem agree_readOuterClass (h : m.Reordered m') :
    Agree (· = ·) (readOuterClass m) (readOuterClass m') :=
  (h.required keeps_text "owner").bind_eq fun _ =>
    (h.optional_eq keeps_text "name").bind_eq fun _ =>
      (h.optional_eq keeps_text "desc").bind_eq fun _ => .ok rfl

theorem outcome_textEvent (h : m.Reordered m') (key : String) (toEvent : String → ClassEvent) :
    (textEvent m key toEvent : Traversal L).outcome =
      (textEvent m' key toEvent : Traversal L).outcome := by
  refine (h.optional_eq keeps_text key).check_eq ?_
  intro o
  rfl

theorem outcome_textEvents (h : m.Reordered m') (key : String) (toEvent : String → ClassEvent) :
    (textEvents m key toEvent : Traversal L).outcome =
      (textEvents m' key toEvent : Traversal L).outcome := by
  refine (h.entries keeps_text key).check fun texts texts' _ hperm => ?_
  apply outcome_each_permuted hperm
  rintro s - _ rfl
  rfl

theorem outcome_objectEvents (h : m.Reordered m') (key : String)
    {read : Members → Except Fault ClassEvent}
    (hread : ∀ o o' : Members, o.Reordered o' → Agree (· = ·) (read o) (read o')) :
    (objectEvents m key read : Traversal L).outcome =
      (objectEvents m' key read : Traversal L).outcome :=
  outcome_entriesEach h key fun o o' ho => (agree_alike (hread o o' ho)).event

theorem outcome_outerClassEvents (h : m.Reordered m') :
    (outerClassEvents m : Traversal L).outcome = (outerClassEvents m' : Traversal L).outcome := by
  refine (h.optional keeps_object "outer_class").check fun o o' _ ho => ?_
  cases ho with
  | none => rfl
  | some ho => exact (agree_alike (agree_readOuterClass ho)).event

/-- Recorded classes that differ in the order of list entries only have the same outcome. -/
theorem outcome_traversal {t t' : Trace} (h : t.members.Reordered t'.members)
    (hname : t.name = t'.name) : t.traversal.outcome = t'.traversal.outcome := by
  have hheader := (agree_readHeader (L := Label) h hname).event
  have hannotations := outcome_declarationAnnotations (L := Label) h
    (fun a => .classFile (.annotated a)) (fun a => .classFile (.typeAnnotated a))
  have hcomponents := outcome_objectEvents (L := Label) h "record_components"
    fun _ _ => agree_readRecordComponent
  have hfields := outcome_entriesEach h "fields" (outcome_fieldEvents (L := Label))
  have hinner := outcome_objectEvents (L := Label) h "inner_classes" fun _ _ => agree_readInnerClass
  simp only [Trace.traversal, outcome_append, outcome_warnUnknown, hheader, hannotations, hcomponents,
    hfields, outcome_methods h, outcome_textEvent h, outcome_textEvents h, hinner,
    outcome_outerClassEvents h]

theorem agree_ofJson {doc doc' : Json} (h : doc.Reordered doc') (origin : String) :
    Agree (fun t t' : Trace => t.members.Reordered t'.members ∧ t.name = t'.name)
      (Trace.ofJson origin doc) (Trace.ofJson origin doc') := by
  cases h with
  | same => exact (Agree.refl _).of_eq fun t => ⟨.refl t.members, rfl⟩
  | list => exact .error _ _
  | @object m m' hmembers =>
    have hm : Members.Reordered m m' := hmembers
    rcases rel_cases (hm.find? "name") with ⟨hv, hw⟩ | ⟨v, w, hv, hw, hvw⟩
    · simp only [Trace.ofJson, hv, hw]
      exact .error _ _
    · simp only [Trace.ofJson, hv, hw]
      cases hvw with
      | same =>
        cases v with
        | string name =>
          by_cases hempty : name = ""
          · simp only [hempty, if_true]
            exact .error _ _
          · simp only [hempty, if_false]
            exact .ok ⟨hm, rfl⟩
        | _ => exact .error _ _
      | list => exact .error _ _
      | object => exact .error _ _

theorem Trace.analyze_reordered {t t' : Trace} (h : t.members.Reordered t'.members)
    (hname : t.name = t'.name) : t.analyze.result.toOption = t'.analyze.result.toOption := by
  rw [analyze_eq_outcome, analyze_eq_outcome, outcome_traversal h hname]

/-- Documents that differ only in the order of list entries, at any places, are analysed alike: one
gives a set of names exactly if the other does, and then it is the same set. -/
theorem analysis_order_independent {doc doc' : Json} (h : doc.Reordered doc') (origin : String)
    (names : NameSet) :
    (∃ t, Trace.ofJson origin doc = .ok t ∧ t.analyze.result = .ok names) ↔
      ∃ t, Trace.ofJson origin doc' = .ok t ∧ t.analyze.result = .ok names := by
  rcases agree_cases (agree_ofJson h origin) with
    ⟨e, e', hdoc, hdoc'⟩ | ⟨t, t', hdoc, hdoc', ht, hname⟩
  · simp [hdoc, hdoc']
  · have hsame := Trace.analyze_reordered ht hname
    simp only [hdoc, hdoc', Except.ok.injEq, exists_eq_left']
    rw [← toOption_eq_some_iff, ← toOption_eq_some_iff, hsame]

namespace Pump

def jump : Json := .object [("op", .string "GOTO"), ("label", .string "end")]

def create : Json := .object [("op", .string "NEW"), ("type", .string "app/Motor")]

def mark : Json := .object [("label", .string "end")]

def start (thrown code : List Json) : Json :=
  .object [("name", .string "start"), ("desc", .string "()V"), ("signature", .string "()V"),
    ("exceptions", .list thrown), ("code", .list code)]

def rate : Json := .object [("name", .string "rate"), ("desc", .string "(I)I"),
  ("signature", .string "(TT;)Lapp/Rate<TT;>;")]

def document (methods : List Json) : Json :=
  .object [("name", .string "app/Pump"), ("methods", .list methods)]

end Pump

open Pump in
/-- The methods are in another order, and so are the exceptions and the code of one of them. -/
theorem analysis_order_independent_pump :
    (document [start [.string "io/Busy", .string "io/Closed"] [jump, create, mark], rate]).Reordered
        (document [rate, start [.string "io/Closed", .string "io/Busy"] [mark, create, jump]]) ∧
      ∃ t, Trace.ofJson noOrigin
          (document [rate, start [.string "io/Closed", .string "io/Busy"] [mark, create, jump]]) =
            .ok t ∧
        t.analyze.result = .ok (.ofList ["app.Motor", "app.Rate", "io.Busy", "io.Closed"]) := by
  have hthrown : (Json.list [.string "io/Busy", .string "io/Closed"]).Reordered
      (.list [.string "io/Closed", .string "io/Busy"]) :=
    .list (.swap ..) (.cons (.same _) (.cons (.same _) .nil))
  have hcode : (Json.list [jump, create, mark]).Reordered (.list [mark, create, jump]) :=
    .list (List.reverse_perm _).symm (.cons (.same _) (.cons (.same _) (.cons (.same _) .nil)))
  have hstart : (start [.string "io/Busy", .string "io/Closed"] [jump, create, mark]).Reordered
      (start [.string "io/Closed", .string "io/Busy"] [mark, create, jump]) :=
    .object (.cons (.value (.same _)) (.cons (.value (.same _)) (.cons (.value (.same _))
      (.cons (.value hthrown) (.cons (.value hcode) .nil)))))
  have hdocument :
      (document [start [.string "io/Busy", .string "io/Closed"] [jump, create, mark], rate]).Reordered
        (document [rate, start [.string "io/Closed", .string "io/Busy"] [mark, create, jump]]) :=
    .object (.cons (.value (.same _)) (.cons (.value (.list (.swap ..)
      (.cons (.same _) (.cons hstart .nil)))) .nil))
  exact ⟨hdocument, (analysis_order_independent hdocument noOrigin _).mp ⟨_, rfl, rfl⟩⟩

end Classes

end ClassUsage
