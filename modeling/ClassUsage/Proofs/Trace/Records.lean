import ClassUsage.Proofs.Trace.Lookup

/-!
Which event records an element of a document, with all its operands. A reader that succeeds gives that
event; there is one lemma for each reader.
-/
namespace ClassUsage

variable {L : Type}

namespace Members

section Class

def RecordsAnnotated (a : Members) (head : AnnotationHead) : Prop :=
  a.value? .text "desc" = some head.desc ∧ head.visible = (a.value? .truth "visible").getD true

def RecordsTypeAnnotated (a : Members) (head : TypeAnnotationHead) : Prop :=
  a.value? .text "desc" = some head.desc ∧ head.visible = (a.value? .truth "visible").getD true ∧
    head.typeRef = (a.value? .integer "type_ref").getD (.number 0) ∧
    head.path = (a.value? .text "type_path").map .mk

def RecordsHeader (m : Members) (name : String) (e : Event L) : Prop :=
  ∃ interfaces, m.optionalEntries .text "interfaces" = .ok interfaces ∧
    e = .classFile (.header ((m.value? .integer "version").getD (.number 52))
      ((m.value? .integer "access").getD (.number 0)) name (m.value? .text "signature")
      (m.value? .text "super") interfaces)

def RecordsComponent (o : Members) (e : Event L) : Prop :=
  ∃ name desc, o.value? .text "name" = some name ∧ o.value? .text "desc" = some desc ∧
    e = .classFile (.recordComponent name desc (o.value? .text "signature"))

def RecordsField (o : Members) (e : Event L) : Prop :=
  ∃ name desc value, o.value? .text "name" = some name ∧ o.value? .text "desc" = some desc ∧
    readConstant ((o.find? "value").getD .null) = .ok value ∧
    e = .classFile (.field ((o.value? .integer "access").getD (.number 0)) name desc
      (o.value? .text "signature") value)

def RecordsMethod (o : Members) (e : Event L) : Prop :=
  ∃ name desc exceptions, o.value? .text "name" = some name ∧ o.value? .text "desc" = some desc ∧
    o.optionalEntries .text "exceptions" = .ok exceptions ∧
    e = .classFile (.method ((o.value? .integer "access").getD (.number 0)) name desc
      (o.value? .text "signature") exceptions)

def RecordsInnerClass (o : Members) (e : Event L) : Prop :=
  ∃ name, o.value? .text "name" = some name ∧
    e = .classFile (.innerClass name (o.value? .text "outer_name") (o.value? .text "inner_name")
      ((o.value? .integer "access").getD (.number 0)))

def RecordsOuterClass (o : Members) (e : Event L) : Prop :=
  ∃ owner, o.value? .text "owner" = some owner ∧
    e = .classFile (.outerClass owner (o.value? .text "name") (o.value? .text "desc"))

end Class

section Method

def RecordsParameter (p : Members) (e : Event L) : Prop :=
  e = .method (.parameter (p.value? .text "name") ((p.value? .integer "access").getD (.number 0)))

def RecordsParameterAnnotated (a : Members) (e : Event L) : Prop :=
  ∃ parameter head, a.value? .integer "parameter" = some parameter ∧ a.RecordsAnnotated head ∧
    e = .method (.parameterAnnotated parameter head)

def RecordsHandler (o : Members) (e : Event String) : Prop :=
  ∃ start stop target, o.value? .text "start" = some start ∧ o.value? .text "end" = some stop ∧
    o.value? .text "handler" = some target ∧
    e = .method (.handler start stop target (o.value? .text "type"))

def RecordsLocalVariable (o : Members) (v : LocalVariable) : Prop :=
  o.value? .text "start" = some v.start ∧ o.value? .text "end" = some v.stop ∧
    v.index = (o.value? .integer "index").getD (.number 0) ∧ o.value? .text "name" = some v.name ∧
    o.value? .text "desc" = some v.desc ∧ v.signature = o.value? .text "signature"

def RecordsLimits (o : Members) (e : Event String) : Prop :=
  ∃ limits, limits = (o.value? .object "maxs").getD [] ∧
    e = .method (.limits ((limits.value? .integer "max_stack").getD (.number 0))
      ((limits.value? .integer "max_locals").getD (.number 0)))

end Method

section Code

/-- The event of an instruction depends on the kind of its operands. -/
def RecordsOperands (o : Members) (op : Opcode) (e : MethodEvent String) : Prop :=
  match op.operands with
  | .number => ∃ n, o.value? .integer "operand" = some n ∧ e = .number (.opcode op) n
  | .slot => ∃ index, o.value? .integer "var" = some index ∧ e = .slot (.opcode op) index
  | .type => ∃ name, o.value? .text "type" = some name ∧ e = .type (.opcode op) name
  | .field =>
    ∃ owner name desc, o.value? .text "owner" = some owner ∧ o.value? .text "name" = some name ∧
      o.value? .text "desc" = some desc ∧ e = .field (.opcode op) owner name desc
  | .method =>
    ∃ owner name desc, o.value? .text "owner" = some owner ∧ o.value? .text "name" = some name ∧
      o.value? .text "desc" = some desc ∧
      e = .method (.opcode op) owner name desc
        ((o.value? .truth "itf").getD (decide (op = .invokeinterface)))
  | .label => ∃ target, o.value? .text "label" = some target ∧ e = .jump (.opcode op) target
  | .constant => ∃ v c, o.get? "value" = some v ∧ readConstant v = .ok c ∧ e = .constant c
  | .increment =>
    ∃ index amount, o.value? .integer "var" = some index ∧
      o.value? .integer "increment" = some amount ∧ e = .increment index amount
  | .table =>
    ∃ low high default, o.value? .integer "min" = some low ∧ o.value? .integer "max" = some high ∧
      o.value? .text "default" = some default ∧
      e = .table low high default (o.items .text "labels")
  | .lookup =>
    ∃ default, o.value? .text "default" = some default ∧
      e = .lookup default (o.items .integer "keys") (o.items .text "labels")
  | .dynamicCall =>
    ∃ name desc bootstrap arguments, o.value? .text "name" = some name ∧
      o.value? .text "desc" = some desc ∧
      readBootstrap (o.value? .object "bootstrap") = .ok bootstrap ∧
      readConstants ((o.value? .list "bootstrap_args").getD []) = .ok arguments ∧
      e = .dynamicCall name desc bootstrap arguments
  | .arrayType =>
    ∃ desc dimensions, o.value? .text "desc" = some desc ∧
      o.value? .integer "dims" = some dimensions ∧ e = .arrayType desc dimensions
  | .nothing => e = .plain (.opcode op)

def RecordsInstruction (o : Members) (e : Event String) : Prop :=
  ∃ name op told, o.value? .text "op" = some name ∧ Opcode.ofName? name = some op ∧
    o.RecordsOperands op told ∧ e = .method told

/-- A mark between instructions: a line number goes before a label, and that before a frame. -/
def RecordsMark (o : Members) (e : Event String) : Prop :=
  (∃ line start, o.value? .integer "line" = some line ∧ o.value? .text "label" = some start ∧
      e = .method (.line line start)) ∨
    (o.hasKey "line" = false ∧ ∃ name, o.value? .text "label" = some name ∧
      e = .method (.label name)) ∨
    (o.hasKey "line" = false ∧ o.hasKey "label" = false ∧ ∃ name kind,
      o.value? .text "frame" = some name ∧ FrameKind.ofMnemonic? name = some kind ∧
      ∃ locals stack, locals = (o.value? .list "local").getD [] ∧
        stack = (o.value? .list "stack").getD [] ∧
        e = .method (.frame (.kind kind) (.number locals.length) (locals.map .plain)
          (.number stack.length) (stack.map .plain)))

end Code

end Members

section Readers

variable {m : Members}

theorem recordsAnnotated_of_read {head : AnnotationHead} (h : readAnnotationHead m = .ok head) :
    m.RecordsAnnotated head := by
  simp only [readAnnotationHead, bind_eq_ok, pure_eq_ok] at h
  obtain ⟨desc, hdesc, visible, hvisible, rfl⟩ := h
  exact ⟨Members.value?_of_required hdesc, (Members.orElse_eq_ok hvisible).symm⟩

theorem recordsTypeAnnotated_of_read {head : TypeAnnotationHead}
    (h : readTypeAnnotationHead m = .ok head) : m.RecordsTypeAnnotated head := by
  simp only [readTypeAnnotationHead, bind_eq_ok, pure_eq_ok] at h
  obtain ⟨typeRef, htypeRef, path, hpath, desc, hdesc, visible, hvisible, rfl⟩ := h
  refine ⟨Members.value?_of_required hdesc, (Members.orElse_eq_ok hvisible).symm,
    (Members.orElse_eq_ok htypeRef).symm, ?_⟩
  rw [Members.value?_of_optional hpath]

theorem recordsParameterAnnotated_of_read {p : Integer × AnnotationHead}
    (h : readParameterAnnotation m = .ok p) :
    m.RecordsParameterAnnotated (.method (.parameterAnnotated p.1 p.2) : Event L) := by
  simp only [ readParameterAnnotation, bind_eq_ok, pure_eq_ok] at h
  obtain ⟨parameter, hparameter, head, hhead, rfl⟩ := h
  exact ⟨parameter, head, Members.value?_of_required hparameter, recordsAnnotated_of_read hhead, rfl⟩

theorem recordsHeader_of_read {t : Trace} {e : ClassEvent} (h : readHeader t = .ok e) :
    t.members.RecordsHeader t.name (.classFile e : Event L) := by
  simp only [readHeader, bind_eq_ok, pure_eq_ok] at h
  obtain ⟨version, hversion, access, haccess, signature, hsignature, superName, hsuper, interfaces,
    hinterfaces, rfl⟩ := h
  refine ⟨interfaces, hinterfaces, ?_⟩
  rw [Members.orElse_eq_ok hversion, Members.orElse_eq_ok haccess,
    Members.value?_of_optional hsignature, Members.value?_of_optional hsuper]

theorem recordsComponent_of_read {e : ClassEvent} (h : readRecordComponent m = .ok e) :
    m.RecordsComponent (.classFile e : Event L) := by
  simp only [readRecordComponent, bind_eq_ok, pure_eq_ok] at h
  obtain ⟨name, hname, desc, hdesc, signature, hsignature, rfl⟩ := h
  refine ⟨name, desc, Members.value?_of_required hname, Members.value?_of_required hdesc, ?_⟩
  rw [Members.value?_of_optional hsignature]

theorem recordsField_of_read {name : String} {e : ClassEvent} (hname : m.required .text "name" = .ok name)
    (h : readField name m = .ok e) : m.RecordsField (.classFile e : Event L) := by
  simp only [readField, bind_eq_ok, pure_eq_ok] at h
  obtain ⟨access, haccess, desc, hdesc, signature, hsignature, value, hvalue, rfl⟩ := h
  refine ⟨name, desc, value, Members.value?_of_required hname, Members.value?_of_required hdesc,
    hvalue, ?_⟩
  rw [Members.orElse_eq_ok haccess, Members.value?_of_optional hsignature]

theorem recordsMethod_of_read {name : String} {e : ClassEvent}
    (hname : m.required .text "name" = .ok name) (h : readMethod name m = .ok e) :
    m.RecordsMethod (.classFile e : Event L) := by
  simp only [readMethod, bind_eq_ok, pure_eq_ok] at h
  obtain ⟨access, haccess, desc, hdesc, signature, hsignature, exceptions, hexceptions, rfl⟩ := h
  refine ⟨name, desc, exceptions, Members.value?_of_required hname, Members.value?_of_required hdesc,
    hexceptions, ?_⟩
  rw [Members.orElse_eq_ok haccess, Members.value?_of_optional hsignature]

theorem recordsInnerClass_of_read {e : ClassEvent} (h : readInnerClass m = .ok e) :
    m.RecordsInnerClass (.classFile e : Event L) := by
  simp only [readInnerClass, bind_eq_ok, pure_eq_ok] at h
  obtain ⟨name, hname, outer, houter, inner, hinner, access, haccess, rfl⟩ := h
  refine ⟨name, Members.value?_of_required hname, ?_⟩
  rw [Members.value?_of_optional houter, Members.value?_of_optional hinner,
    Members.orElse_eq_ok haccess]

theorem recordsOuterClass_of_read {e : ClassEvent} (h : readOuterClass m = .ok e) :
    m.RecordsOuterClass (.classFile e : Event L) := by
  simp only [readOuterClass, bind_eq_ok, pure_eq_ok] at h
  obtain ⟨owner, howner, name, hname, desc, hdesc, rfl⟩ := h
  refine ⟨owner, Members.value?_of_required howner, ?_⟩
  rw [Members.value?_of_optional hname, Members.value?_of_optional hdesc]

theorem recordsParameter_of_read {e : MethodEvent String} (h : readParameter m = .ok e) :
    m.RecordsParameter (.method e) := by
  simp only [readParameter, bind_eq_ok, pure_eq_ok] at h
  obtain ⟨name, hname, access, haccess, rfl⟩ := h
  rw [Members.RecordsParameter, Members.value?_of_optional hname, Members.orElse_eq_ok haccess]

theorem recordsHandler_of_read {e : MethodEvent String} (h : readHandler m = .ok e) :
    m.RecordsHandler (.method e) := by
  simp only [readHandler, bind_eq_ok, pure_eq_ok] at h
  obtain ⟨start, hstart, stop, hstop, target, htarget, caught, hcaught, rfl⟩ := h
  refine ⟨start, stop, target, Members.value?_of_required hstart, Members.value?_of_required hstop,
    Members.value?_of_required htarget, ?_⟩
  rw [Members.value?_of_optional hcaught]

theorem recordsLocalVariable_of_read {v : LocalVariable} (h : readLocalVariable m = .ok v) :
    m.RecordsLocalVariable v := by
  simp only [readLocalVariable, bind_eq_ok, pure_eq_ok] at h
  obtain ⟨start, hstart, stop, hstop, index, hindex, name, hname, desc, hdesc, signature, hsignature,
    rfl⟩ := h
  exact ⟨Members.value?_of_required hstart, Members.value?_of_required hstop,
    (Members.orElse_eq_ok hindex).symm, Members.value?_of_required hname,
    Members.value?_of_required hdesc, (Members.value?_of_optional hsignature).symm⟩

theorem recordsLimits_of_read {e : MethodEvent String} (h : readLimits m = .ok e) :
    m.RecordsLimits (.method e) := by
  simp only [readLimits, bind_eq_ok, pure_eq_ok] at h
  obtain ⟨limits, hlimits, stack, hstack, locals, hlocals, rfl⟩ := h
  refine ⟨limits, (Members.orElse_eq_ok hlimits).symm, ?_⟩
  rw [Members.orElse_eq_ok hstack, Members.orElse_eq_ok hlocals]

theorem recordsOperands_of_read {op : Opcode} {e : MethodEvent String}
    (h : readOperands m op = .ok e) : m.RecordsOperands op e := by
  unfold readOperands at h
  unfold Members.RecordsOperands
  cases hk : op.operands <;> rw [hk] at h <;> simp only [bind_eq_ok, pure_eq_ok] at h
  case number | slot | type | label =>
    obtain ⟨a, ha, rfl⟩ := h
    exact ⟨a, Members.value?_of_required ha, rfl⟩
  case field =>
    obtain ⟨owner, howner, name, hname, desc, hdesc, rfl⟩ := h
    exact ⟨owner, name, desc, Members.value?_of_required howner, Members.value?_of_required hname,
      Members.value?_of_required hdesc, rfl⟩
  case method =>
    obtain ⟨isInterface, hinterface, owner, howner, name, hname, desc, hdesc, rfl⟩ := h
    refine ⟨owner, name, desc, Members.value?_of_required howner, Members.value?_of_required hname,
      Members.value?_of_required hdesc, ?_⟩
    rw [Members.orElse_eq_ok hinterface]
  case constant =>
    obtain ⟨v, hv, c, hc, rfl⟩ := h
    exact ⟨v, c, Members.get?_of_requiredValue hv, hc, rfl⟩
  case increment =>
    obtain ⟨index, hindex, amount, hamount, rfl⟩ := h
    exact ⟨index, amount, Members.value?_of_required hindex, Members.value?_of_required hamount, rfl⟩
  case table =>
    obtain ⟨targets, htargets, low, hlow, high, hhigh, default, hdefault, rfl⟩ := h
    refine ⟨low, high, default, Members.value?_of_required hlow, Members.value?_of_required hhigh,
      Members.value?_of_required hdefault, ?_⟩
    rw [Members.items_of_requiredEntries htargets]
  case lookup =>
    obtain ⟨targets, htargets, default, hdefault, keys, hkeys, rfl⟩ := h
    refine ⟨default, Members.value?_of_required hdefault, ?_⟩
    rw [Members.items_of_requiredEntries htargets, Members.items_of_requiredEntries hkeys]
  case dynamicCall =>
    obtain ⟨method, hmethod, given, hgiven, arguments, harguments, name, hname, desc, hdesc,
      bootstrap, hbootstrap, rfl⟩ := h
    rw [Members.value?_of_optional hmethod, Members.orElse_eq_ok hgiven]
    exact ⟨name, desc, bootstrap, arguments, Members.value?_of_required hname,
      Members.value?_of_required hdesc, hbootstrap, harguments, rfl⟩
  case arrayType =>
    obtain ⟨desc, hdesc, dimensions, hdimensions, rfl⟩ := h
    exact ⟨desc, dimensions, Members.value?_of_required hdesc,
      Members.value?_of_required hdimensions, rfl⟩
  case nothing =>
    cases h
    rfl

theorem recordsInstruction_of_read {e : MethodEvent String} (h : readInstruction m = .ok e) :
    m.RecordsInstruction (.method e) := by
  obtain ⟨op, hop, he⟩ := bind_eq_ok.mp h
  obtain ⟨name, hname, hfound⟩ := bind_eq_ok.mp hop
  split at hfound
  · next op' hname' =>
    cases pure_eq_ok.mp hfound
    exact ⟨name, op, e, Members.value?_of_required hname, hname', recordsOperands_of_read he, rfl⟩
  · contradiction

theorem readFrameKind_eq_ok {kind : FrameKind} (h : readFrameKind m = .ok kind) :
    ∃ name, m.value? .text "frame" = some name ∧ FrameKind.ofMnemonic? name = some kind := by
  obtain ⟨name, hname, hfound⟩ := bind_eq_ok.mp h
  split at hfound
  · next kind' hname' =>
    cases pure_eq_ok.mp hfound
    exact ⟨name, Members.value?_of_required hname, hname'⟩
  · contradiction

theorem recordsMark_of_read {e : MethodEvent String} (h : readPosition m = .ok e) :
    m.RecordsMark (.method e) := by
  unfold readPosition at h
  split at h
  · simp only [bind_eq_ok, pure_eq_ok] at h
    obtain ⟨line, hline, start, hstart, rfl⟩ := h
    exact .inl ⟨line, start, Members.value?_of_required hline, Members.value?_of_required hstart, rfl⟩
  · next hl =>
    have hline : m.hasKey "line" = false := by simpa using hl
    split at h
    · simp only [bind_eq_ok, pure_eq_ok] at h
      obtain ⟨name, hname, rfl⟩ := h
      exact .inr (.inl ⟨hline, name, Members.value?_of_required hname, rfl⟩)
    · next hn =>
      have hlabel : m.hasKey "label" = false := by simpa using hn
      split at h
      · simp only [bind_eq_ok, pure_eq_ok] at h
        obtain ⟨locals, hlocals, stack, hstack, kind, hkind, rfl⟩ := h
        obtain ⟨name, hname, hfound⟩ := readFrameKind_eq_ok hkind
        exact .inr (.inr ⟨hline, hlabel, name, kind, hname, hfound, locals, stack,
          (Members.orElse_eq_ok hlocals).symm, (Members.orElse_eq_ok hstack).symm, rfl⟩)
      · contradiction

end Readers

end ClassUsage
