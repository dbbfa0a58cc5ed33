import ClassUsage.Trace.Constants
import ClassUsage.Traversal

/-!
Annotations in a trace. A value is a constant, an enum constant, a nested annotation or an array of
values; the values of an annotation are gone through in order, at any depth.
-/
namespace ClassUsage

section Size

variable {m : Members} {key : String}

theorem Members.sizeOf_find? {v : Json} (h : m.find? key = some v) : sizeOf v < sizeOf m := by
  unfold Members.find? at h
  induction m with
  | nil => simp at h
  | cons p m ih =>
    obtain ⟨k, w⟩ := p
    simp only [List.lookup_cons] at h
    split at h
    · cases h
      simp only [List.cons.sizeOf_spec, Prod.mk.sizeOf_spec]
      omega
    · have := ih h
      simp only [List.cons.sizeOf_spec]
      omega

theorem Members.sizeOf_get? {v : Json} (h : m.get? key = some v) : sizeOf v < sizeOf m := by
  unfold Members.get? at h
  split at h
  · contradiction
  · exact sizeOf_find? h

theorem Members.sizeOf_requiredValue {v : Json} (h : m.requiredValue key = .ok v) :
    sizeOf v < sizeOf m := by
  unfold Members.requiredValue at h
  split at h
  · next hg => cases h; exact sizeOf_get? hg
  · contradiction

theorem Members.optional_eq_some {α : Type} {kind : Kind α} {a : α}
    (h : m.optional kind key = .ok (some a)) : ∃ v, m.get? key = some v ∧ kind.read? v = some a := by
  unfold Members.optional at h
  split at h
  · simp at h
  · next v hg =>
    split at h
    · next hr => cases h; exact ⟨v, hg, hr⟩
    · contradiction

theorem Members.required_eq_ok {α : Type} {kind : Kind α} {a : α}
    (h : m.required kind key = .ok a) : ∃ v, m.get? key = some v ∧ kind.read? v = some a := by
  unfold Members.required at h
  split at h
  · next ho => cases h; exact optional_eq_some ho
  · contradiction
  · contradiction

theorem Members.sizeOf_required_object {n : Members} (h : m.required .object key = .ok n) :
    sizeOf n < sizeOf m := by
  obtain ⟨v, hg, hr⟩ := required_eq_ok h
  have := sizeOf_get? hg
  unfold Kind.object at hr
  cases v <;> simp at hr
  subst hr
  simp only [Json.object.sizeOf_spec] at this
  omega

theorem Members.sizeOf_list {items : List Json} {v : Json} (hg : m.get? key = some v)
    (hr : Kind.list.read? v = some items) : sizeOf items < sizeOf m := by
  have := sizeOf_get? hg
  unfold Kind.list at hr
  cases v <;> simp at hr
  subst hr
  simp only [Json.list.sizeOf_spec] at this
  omega

theorem Members.sizeOf_required_list {items : List Json} (h : m.required .list key = .ok items) :
    sizeOf items < sizeOf m := by
  obtain ⟨v, hg, hr⟩ := required_eq_ok h
  exact sizeOf_list hg hr

theorem sizeOf_readEntries_object {items : List Json} {es : List Members}
    (h : readEntries .object key items = .ok es) : sizeOf es ≤ sizeOf items := by
  induction items generalizing es with
  | nil => cases h; simp
  | cons v items ih =>
    unfold readEntries at h
    split at h
    · next e hv =>
      split at h
      · next hr =>
        cases h
        have := ih hr
        unfold Kind.object at hv
        cases v <;> simp at hv
        subst hv
        simp only [List.cons.sizeOf_spec, Json.object.sizeOf_spec]
        omega
      · contradiction
    · contradiction

theorem Members.one_le_sizeOf : 1 ≤ sizeOf m := by
  cases m with
  | nil => simp
  | cons p m =>
    simp only [List.cons.sizeOf_spec]
    omega

theorem Members.sizeOf_entries {es : List Members} (h : m.entries .object key = .ok es) :
    sizeOf es ≤ sizeOf m := by
  unfold Members.entries Members.optionalEntries at h
  split at h
  · cases h
    simpa using one_le_sizeOf
  · next items ho =>
    obtain ⟨v, hg, hr⟩ := optional_eq_some ho
    have hl := sizeOf_list hg hr
    cases he : readEntries .object key items with
    | error f => simp [he, Except.map] at h
    | ok l =>
      simp [he, Except.map] at h
      subst h
      have := sizeOf_readEntries_object he
      omega
  · simp [Except.map] at h

end Size

open Traversal

variable {L : Type}

def readEnumConstant (name : Option String) (m : Members) : Except Fault ValueEvent := do
  let desc ← m.required .text "enum"
  let value ← m.required .text "value"
  return .enumConstant name desc value

mutual

/-- The way through a value of an annotation. -/
def valueEvents (name : Option String) (v : Json) : Traversal L :=
  match v with
  | .object m =>
    if Members.hasKey m "enum" then check (readEnumConstant name m) fun e => event (.value e)
    else if Members.hasKey m "annotation" then
      match _h : Members.required m .object "annotation" with
      | .ok nested =>
        check (nested.required .text "desc") fun desc =>
          scope (.value (.nested name desc)) (annotationBody nested)
      | .error f => .fail f
    else if Members.hasKey m "array" then
      match _h : Members.required m .list "array" with
      | .ok items => scope (.value (.array name)) (itemEvents items ++ event (.value .finish))
      | .error f => .fail f
    else check (readTagged m) fun c => event (.value (.constant name c))
  | v => event (.value (.constant name (.plain v)))
termination_by sizeOf v
decreasing_by
  · have := Members.sizeOf_required_object _h
    simp only [Json.object.sizeOf_spec]
    omega
  · have := Members.sizeOf_required_list _h
    simp only [Json.object.sizeOf_spec]
    omega

/-- The way through the values of an annotation. -/
def annotationBody (m : Members) : Traversal L :=
  match _h : m.entries .object "values" with
  | .ok es => entryEvents es ++ event (.value .finish)
  | .error f => .fail f
termination_by sizeOf m + 1
decreasing_by
  have := Members.sizeOf_entries _h
  omega

def entryEvents (es : List Members) : Traversal L :=
  match es with
  | [] => .done
  | e :: es =>
    check (e.optional .text "name") fun name =>
      match _h : e.requiredValue "value" with
      | .ok v => valueEvents name v ++ entryEvents es
      | .error f => .fail f
termination_by sizeOf es
decreasing_by
  · have := Members.sizeOf_requiredValue _h
    simp only [List.cons.sizeOf_spec]
    omega
  · simp only [List.cons.sizeOf_spec]
    omega

def itemEvents (items : List Json) : Traversal L :=
  match items with
  | [] => .done
  | v :: items => valueEvents none v ++ itemEvents items
termination_by sizeOf items
decreasing_by
  · simp only [List.cons.sizeOf_spec]
    omega
  · simp only [List.cons.sizeOf_spec]
    omega

end

def readAnnotationHead (m : Members) : Except Fault AnnotationHead := do
  let desc ← m.required .text "desc"
  let visible ← m.orElse .truth "visible" true
  return ⟨desc, visible⟩

def readTypeAnnotationHead (m : Members) : Except Fault TypeAnnotationHead := do
  let typeRef ← m.orElse .integer "type_ref" (.number 0)
  let path ← m.optional .text "type_path"
  let desc ← m.required .text "desc"
  let visible ← m.orElse .truth "visible" true
  return ⟨typeRef, path.map .mk, desc, visible⟩

def readParameterAnnotation (m : Members) : Except Fault (Integer × AnnotationHead) := do
  let parameter ← m.required .integer "parameter"
  let head ← readAnnotationHead m
  return (parameter, head)

/-- The way through the annotations listed under a key. -/
def annotationEvents {α : Type} (m : Members) (key : String) (read : Members → Except Fault α)
    (toEvent : α → Event L) : Traversal L :=
  check (m.entries .object key) fun as =>
    each as fun a => check (read a) fun head => scope (toEvent head) (annotationBody a)

end ClassUsage
