import ClassUsage.Proofs.Trace.Naming

/-!
The classes a recorded class uses, read off the document alone: `Members.Uses` says where in a
document a class can be named, with no traversal, events or collecting. Wherever a signature stands
beside a descriptor, the signature counts and the descriptor does not.
-/
namespace ClassUsage

mutual

/-- The classes named by a value of an annotation. Of the keys that say what kind of value an object
is, `enum` goes before `annotation`, and that before `array`. -/
inductive ValueNames : Json → String → Prop
  | enumConstant {m : Members} {desc x : String} (he : m.hasKey "enum" = true)
      (hdesc : m.value? .text "enum" = some desc) (hx : DescriptorNames desc x) :
      ValueNames (.object m) x
  | nested {m n : Members} {x : String} (he : m.hasKey "enum" = false)
      (hn : m.value? .object "annotation" = some n) (hx : AnnotationNames n x) :
      ValueNames (.object m) x
  | item {m : Members} {items : List Json} {v : Json} {x : String} (he : m.hasKey "enum" = false)
      (ha : m.hasKey "annotation" = false) (hitems : m.value? .list "array" = some items)
      (hv : v ∈ items) (hx : ValueNames v x) : ValueNames (.object m) x
  | literal {m : Members} {x : String} (he : m.hasKey "enum" = false)
      (ha : m.hasKey "annotation" = false) (hl : m.hasKey "array" = false)
      (hx : LiteralNames (.object m) x) : ValueNames (.object m) x

/-- The classes named by an annotation: its own, and those of its values at any depth. -/
inductive AnnotationNames : Members → String → Prop
  | own {m : Members} {desc x : String} (hdesc : m.value? .text "desc" = some desc)
      (hx : DescriptorNames desc x) : AnnotationNames m x
  | value {m e : Members} {v : Json} {x : String} (he : e ∈ m.items .object "values")
      (hv : e.get? "value" = some v) (hx : ValueNames v x) : AnnotationNames m x

end

/-- The classes an instruction names by its operands. Calls and accesses name the owner of the member
only. -/
def OperandNames (op : Opcode) (m : Members) (x : String) : Prop :=
  match op with
  | .newObject | .anewarray | .checkcast | .instanceof =>
    ∃ name, m.value? .text "type" = some name ∧ OwnerNames name x
  | .getstatic | .putstatic | .getfield | .putfield =>
    ∃ owner, m.value? .text "owner" = some owner ∧ x = className owner
  | .invokevirtual | .invokespecial | .invokestatic | .invokeinterface =>
    ∃ owner, m.value? .text "owner" = some owner ∧ OwnerNames owner x
  | .ldc => ∃ v, m.get? "value" = some v ∧ LiteralNames v x
  | .multianewarray => ∃ desc, m.value? .text "desc" = some desc ∧ DescriptorNames desc x
  | _ => False

namespace Members

/-- The classes named by the annotations listed under a key. -/
def AnnotatedNames (m : Members) (key x : String) : Prop :=
  ∃ a ∈ m.items .object key, AnnotationNames a x

/-- The classes named by the type of a declaration: by its signature, or else its descriptor. -/
def DeclaredNames (m : Members) (kind : SignatureKind) (x : String) : Prop :=
  match m.value? .text "signature" with
  | some s => SignatureNames kind s x
  | none => ∃ desc, m.value? .text "desc" = some desc ∧ DescriptorNames desc x

def HeaderNames (m : Members) (x : String) : Prop :=
  match m.value? .text "signature" with
  | some s => SignatureNames .classFile s x
  | none =>
    (∃ name, m.value? .text "super" = some name ∧ x = className name) ∨
      ∃ name ∈ m.items .text "interfaces", x = className name

def FieldNames (m : Members) (x : String) : Prop :=
  m.DeclaredNames .type x ∨
    (∃ v, m.find? "value" = some v ∧ LiteralNames v x) ∨
    m.AnnotatedNames "annotations" x ∨
    m.AnnotatedNames "type_annotations" x

def HandlerNames (m : Members) (x : String) : Prop :=
  (∃ name, m.value? .text "type" = some name ∧ x = className name) ∨
    m.AnnotatedNames "annotations" x

/-- Only instructions name classes, not the marks between them. -/
def CodeEntryNames (m : Members) (x : String) : Prop :=
  m.hasKey "op" = true ∧
    ((∃ name op, m.value? .text "op" = some name ∧ Opcode.ofName? name = some op ∧
        OperandNames op m x) ∨
      m.AnnotatedNames "annotations" x)

def LocalVariableNames (m : Members) (x : String) : Prop :=
  m.DeclaredNames .type x ∨ m.AnnotatedNames "annotations" x

def CodeNames (m : Members) (x : String) : Prop :=
  (∃ h ∈ m.items .object "try_catch", h.HandlerNames x) ∨
    (∃ e ∈ m.items .object "code", e.CodeEntryNames x) ∨
    ∃ v ∈ m.items .object "local_variables", v.LocalVariableNames x

/-- What stands under the keys of code counts only if there is a list of code. The exceptions count
also beside a signature. -/
def MethodNames (m : Members) (x : String) : Prop :=
  m.DeclaredNames .method x ∨
    (∃ name ∈ m.items .text "exceptions", x = className name) ∨
    (m.value? .list "code" ≠ none ∧ m.CodeNames x) ∨
    (∃ v, m.get? "annotation_default" = some v ∧ ValueNames v x) ∨
    m.AnnotatedNames "annotations" x ∨
    m.AnnotatedNames "type_annotations" x ∨
    m.AnnotatedNames "parameter_annotations" x

/-- The classes that a recorded class uses. -/
def Uses (m : Members) (x : String) : Prop :=
  m.HeaderNames x ∨
    m.AnnotatedNames "annotations" x ∨
    m.AnnotatedNames "type_annotations" x ∨
    (∃ f ∈ m.items .object "fields", f.FieldNames x) ∨
    ∃ o ∈ m.items .object "methods", o.MethodNames x

end Members

section Annotations

variable {m : Members} {x : String}

theorem annotationNames_iff : AnnotationNames m x ↔
    (∃ desc, m.value? .text "desc" = some desc ∧ DescriptorNames desc x) ∨
      ∃ e ∈ m.items .object "values", ∃ v, e.get? "value" = some v ∧ ValueNames v x := by
  constructor
  · intro h
    cases h with
    | own hdesc hx => exact .inl ⟨_, hdesc, hx⟩
    | value he hv hx => exact .inr ⟨_, he, _, hv, hx⟩
  · rintro (⟨desc, hdesc, hx⟩ | ⟨e, he, v, hv, hx⟩)
    · exact .own hdesc hx
    · exact .value he hv hx

theorem valueNames_enum (he : m.hasKey "enum" = true) : ValueNames (.object m) x ↔
    ∃ desc, m.value? .text "enum" = some desc ∧ DescriptorNames desc x := by
  constructor
  · intro h
    cases h with
    | enumConstant _ hdesc hx => exact ⟨_, hdesc, hx⟩
    | nested he' => simp [he] at he'
    | item he' => simp [he] at he'
    | literal he' => simp [he] at he'
  · rintro ⟨desc, hdesc, hx⟩
    exact .enumConstant he hdesc hx

theorem valueNames_nested {n : Members} (he : m.hasKey "enum" = false)
    (hn : m.value? .object "annotation" = some n) :
    ValueNames (.object m) x ↔ AnnotationNames n x := by
  have hkey : m.hasKey "annotation" ≠ false := by
    intro ha
    rw [Members.value?_eq_none_of_not_hasKey ha] at hn
    contradiction
  constructor
  · intro h
    cases h with
    | enumConstant he' => simp [he] at he'
    | nested _ hn' hx =>
      rw [hn] at hn'
      cases hn'
      exact hx
    | item _ ha => exact absurd ha hkey
    | literal _ ha => exact absurd ha hkey
  · exact .nested he hn

theorem valueNames_array {items : List Json} (he : m.hasKey "enum" = false)
    (ha : m.hasKey "annotation" = false) (hitems : m.value? .list "array" = some items) :
    ValueNames (.object m) x ↔ ∃ v ∈ items, ValueNames v x := by
  constructor
  · intro h
    cases h with
    | enumConstant he' => simp [he] at he'
    | nested _ hn =>
      rw [Members.value?_eq_none_of_not_hasKey ha] at hn
      contradiction
    | item _ _ hitems' hv hx =>
      rw [hitems] at hitems'
      cases hitems'
      exact ⟨_, hv, hx⟩
    | literal _ _ hl =>
      rw [Members.value?_eq_none_of_not_hasKey hl] at hitems
      contradiction
  · rintro ⟨v, hv, hx⟩
    exact .item he ha hitems hv hx

theorem valueNames_literal (he : m.hasKey "enum" = false) (ha : m.hasKey "annotation" = false)
    (hl : m.hasKey "array" = false) :
    ValueNames (.object m) x ↔ LiteralNames (.object m) x := by
  constructor
  · intro h
    cases h with
    | enumConstant he' => simp [he] at he'
    | nested _ hn =>
      rw [Members.value?_eq_none_of_not_hasKey ha] at hn
      contradiction
    | item _ _ hitems =>
      rw [Members.value?_eq_none_of_not_hasKey hl] at hitems
      contradiction
    | literal _ _ _ hx => exact hx
  · exact .literal he ha hl

theorem not_valueNames_plain {v : Json} (h : ∀ m, v ≠ .object m) : ¬ ValueNames v x := by
  intro hx
  cases hx <;> exact h _ rfl

end Annotations

end ClassUsage
