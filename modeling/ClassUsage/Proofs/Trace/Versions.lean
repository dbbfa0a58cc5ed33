import ClassUsage.Proofs.Trace.Likeness
import ClassUsage.Proofs.Trace.Positions

/-!
Two versions of a document. They can differ in two ways, and in nothing else: inside scopes that a
listener does not open, and in keys with the value null, which can be left out. The relation follows the
forms of objects that a document is made of, one definition for each form that has parts.
-/
namespace ClassUsage

/-- The forms of objects in a document. A tagged object stands for a constant or for the value of an
annotation element. -/
inductive Form where
  | classFile | component | field | method | parameter | handler | codeEntry | localVariable
  | limits | annotated | entry | innerClass | outerClass | handle | tagged
  deriving DecidableEq, Repr

/-- The known keys of a form, apart from those whose presence alone tells what an object is. -/
def Form.keys : Form → List String
  | .classFile => classKeys
  | .component => ["name", "desc", "signature"]
  | .field => fieldKeys
  | .method => methodKeys
  | .parameter => ["name", "access"]
  | .handler => ["start", "end", "handler", "type", "annotations"]
  | .codeEntry =>
    ["operand", "var", "type", "owner", "name", "desc", "itf", "value", "increment", "labels", "min",
     "max", "default", "keys", "bootstrap", "bootstrap_args", "dims", "local", "stack", "annotations"]
  | .localVariable => ["start", "end", "index", "name", "desc", "signature", "annotations"]
  | .limits => ["max_stack", "max_locals"]
  | .annotated => ["desc", "visible", "type_ref", "type_path", "parameter", "values"]
  | .entry => ["name", "value"]
  | .innerClass => ["name", "outer_name", "inner_name", "access"]
  | .outerClass => ["owner", "name", "desc"]
  | .handle => ["tag", "owner", "name", "desc", "itf"]
  | .tagged => ["value"]

/-- What two versions of a document can differ in: the insides of scopes that are not wanted, and
whether a null is written out. -/
structure Leeway (L : Type) where
  wanted : Event L → Bool
  nulls : Bool

/-- Versions that differ only inside scopes that a listener does not open. -/
def Leeway.unopened {L : Type} (wanted : Event L → Bool) : Leeway L := ⟨wanted, false⟩

/-- Versions that differ only in which nulls are written out. -/
def Leeway.omission {L : Type} : Leeway L := ⟨fun _ => true, true⟩

section Objects

variable {L : Type}

/-- An entry of a list, or the value of a key, that is the same in both versions or an object in both. -/
inductive Json.Item (R : Members → Members → Prop) : Json → Json → Prop
  | same (v : Json) : Json.Item R v v
  | object {m m' : Members} (h : R m m') : Json.Item R (.object m) (.object m')

/-- Lists with related entries. -/
inductive Json.Lists (R : Json → Json → Prop) : Json → Json → Prop
  | list {items items' : List Json} (h : List.Forall₂ R items items') :
      Json.Lists R (.list items) (.list items')

/-- Lists of objects that are related at their places. -/
inductive Json.Numbered (R : Nat → Members → Members → Prop) : Json → Json → Prop
  | list {items items' : List Json}
      (h : List.Forall₂ (fun p q => Json.Item (R p.2) p.1 q.1) items.zipIdx items'.zipIdx) :
      Json.Numbered R (.list items) (.list items')

namespace Leeway

variable (w : Leeway L)

/-- The value under a key of an object is kept, or it is null and the key is left out. -/
def Keeps (form : Form) (key : String) (x y : Option Json) : Prop :=
  x = y ∨ w.nulls = true ∧ key ∈ form.keys ∧ x = some .null ∧ y = none

/-- The values under all keys but those given are kept. -/
def SameBut (form : Form) (parts : List String) (m m' : Members) : Prop :=
  ∀ key ∉ parts, w.Keeps form key (m.find? key) (m'.find? key)

/-- The value under a key is kept, or both versions have values there that are related. -/
inductive Part (form : Form) (key : String) (R : Json → Json → Prop) (m m' : Members) : Prop
  | kept (h : w.Keeps form key (m.find? key) (m'.find? key))
  | revised {v v' : Json} (hm : m.find? key = some v) (hm' : m'.find? key = some v') (h : R v v')

/-- Constants, in which handles are objects of their own. -/
inductive Constant : Json → Json → Prop
  | same (v : Json) : Constant v v
  | handle {m m' o o' : Members} (hrest : w.SameBut .tagged ["handle"] m m')
      (hm : m.find? "handle" = some (.object o)) (hm' : m'.find? "handle" = some (.object o'))
      (h : w.SameBut .handle [] o o') : Constant (.object m) (.object m')

end Leeway

end Objects

section Values

variable {L : Type}

mutual

/-- Values of an annotation element of the given name. The annotation or the array that a value stands
for opens a scope. -/
inductive Leeway.Value (w : Leeway L) : Option String → Json → Json → Prop
  | constant {name : Option String} {v v' : Json} (h : w.Constant v v') : Leeway.Value w name v v'
  | enumConstant {name : Option String} {m m' : Members} (hkey : m.hasKey "enum" = true)
      (h : w.SameBut .tagged [] m m') : Leeway.Value w name (.object m) (.object m')
  | nested {name : Option String} {m m' a a' : Members}
      (hrest : w.SameBut .tagged ["annotation"] m m')
      (hm : m.find? "annotation" = some (.object a)) (hm' : m'.find? "annotation" = some (.object a'))
      (h : Leeway.Annotated w (∃ desc, a.value? .text "desc" = some desc ∧
        w.wanted (.value (.nested name desc)) = false) a a') :
      Leeway.Value w name (.object m) (.object m')
  | array {name : Option String} {m m' : Members} {items items' : List Json}
      (hrest : w.SameBut .tagged ["array"] m m')
      (hm : m.find? "array" = some (.list items)) (hm' : m'.find? "array" = some (.list items'))
      (h : List.Forall₂ (Leeway.Value w none) items items') :
      Leeway.Value w name (.object m) (.object m')
  | unopenedArray {name : Option String} {m m' : Members} {items items' : List Json}
      (hdeclined : w.wanted (.value (.array name)) = false)
      (hrest : w.SameBut .tagged ["array"] m m')
      (hm : m.find? "array" = some (.list items)) (hm' : m'.find? "array" = some (.list items')) :
      Leeway.Value w name (.object m) (.object m')

/-- Annotations, of which it is known whether the scope of their values is declined. -/
inductive Leeway.Annotated (w : Leeway L) : Prop → Members → Members → Prop
  | kept {declined : Prop} {m m' : Members} (h : w.SameBut .annotated [] m m') :
      Leeway.Annotated w declined m m'
  | values {declined : Prop} {m m' : Members} {items items' : List Json}
      (hrest : w.SameBut .annotated ["values"] m m')
      (hm : m.find? "values" = some (.list items)) (hm' : m'.find? "values" = some (.list items'))
      (h : List.Forall₂ (Json.Item (Leeway.Entry w)) items items') :
      Leeway.Annotated w declined m m'
  | unopened {declined : Prop} {m m' : Members} (hdeclined : declined)
      (hrest : w.SameBut .annotated ["values"] m m') : Leeway.Annotated w declined m m'

/-- Entries of an annotation: a name and a value. -/
inductive Leeway.Entry (w : Leeway L) : Members → Members → Prop
  | kept {m m' : Members} (h : w.SameBut .entry [] m m') : Leeway.Entry w m m'
  | value {m m' : Members} {v v' : Json} (hrest : w.SameBut .entry ["value"] m m')
      (hm : m.find? "value" = some v) (hm' : m'.find? "value" = some v')
      (h : Leeway.Value w (m.value? .text "name") v v') : Leeway.Entry w m m'

end

namespace Leeway

variable (w : Leeway L)

/-- The scope of the values of an annotation is declined, if it is an annotation at all. -/
def DeclinesAnnotated {α : Type} (read : Members → Except Fault α) (toEvent : α → Event L)
    (a : Members) : Prop :=
  ∃ head, read a = .ok head ∧ w.wanted (toEvent head) = false

/-- Annotations listed under a key. -/
def Annotations (form : Form) (key : String) (declined : Members → Prop) (m m' : Members) : Prop :=
  w.Part form key (Json.Lists (Json.Item fun a a' => w.Annotated (declined a) a a')) m m'

/-- The annotations of a declaration, and those of its types. -/
structure Declaration (form : Form) (annotated : AnnotationHead → Event L)
    (typeAnnotated : TypeAnnotationHead → Event L) (m m' : Members) : Prop where
  annotations :
    w.Annotations form "annotations" (w.DeclinesAnnotated readAnnotationHead annotated) m m'
  typeAnnotations : w.Annotations form "type_annotations"
    (w.DeclinesAnnotated readTypeAnnotationHead typeAnnotated) m m'

/-- The scope of a field or a method is declined, if it is one at all. -/
def DeclinesMember (read : String → Members → Except Fault ClassEvent) (m : Members) : Prop :=
  ∃ name e, m.required .text "name" = .ok name ∧ read name m = .ok e ∧
    w.wanted (.classFile e) = false

structure Field (m m' : Members) : Prop where
  rest : w.SameBut .field ["value", "annotations", "type_annotations"] m m'
  value : w.Part .field "value" w.Constant m m'
  inside : w.DeclinesMember readField m ∨
    w.Declaration .field (fun a => .field (.annotated a)) (fun a => .field (.typeAnnotated a)) m m'

end Leeway

end Values

section Code

namespace Leeway

variable (w : Leeway String)

structure Handler (m m' : Members) : Prop where
  rest : w.SameBut .handler ["annotations"] m m'
  annotations : w.Annotations .handler "annotations"
    (w.DeclinesAnnotated readTypeAnnotationHead fun a => .method (.handlerAnnotated a)) m m'

structure CodeEntry (m m' : Members) : Prop where
  rest : w.SameBut .codeEntry ["value", "bootstrap", "bootstrap_args", "annotations"] m m'
  value : w.Part .codeEntry "value" w.Constant m m'
  bootstrap : w.Part .codeEntry "bootstrap" w.Constant m m'
  arguments : w.Part .codeEntry "bootstrap_args" (Json.Lists w.Constant) m m'
  annotations : w.Annotations .codeEntry "annotations"
    (w.DeclinesAnnotated readTypeAnnotationHead fun a => .method (.instructionAnnotated a)) m m'

/-- The event of an annotation of a local variable tells where the variable lives. -/
structure Variable (m m' : Members) : Prop where
  rest : w.SameBut .localVariable ["annotations"] m m'
  annotations : w.Annotations .localVariable "annotations" (fun a => ∃ v, readLocalVariable m = .ok v ∧
    w.DeclinesAnnotated readTypeAnnotationHead
      (fun head => .method (.localVariableAnnotated head [v.start] [v.stop] [v.index])) a) m m'

/-- Default values of an annotation element. That there is one is seen also by a listener that does not
open its scope. -/
inductive DefaultValue (m m' : Members) : Prop
  | part (h : w.Part .method "annotation_default" (w.Value none) m m')
  | unopened {v v' : Json} (hdeclined : w.wanted (.method .defaultValue) = false)
      (hm : m.get? "annotation_default" = some v) (hm' : m'.get? "annotation_default" = some v')

/-- What is inside the scope of a method. -/
structure MethodInside (m m' : Members) : Prop where
  parameters : w.Part .method "parameters" (Json.Lists (Json.Item (w.SameBut .parameter []))) m m'
  handlers : w.Part .method "try_catch" (Json.Lists (Json.Item w.Handler)) m m'
  code : w.Part .method "code" (Json.Lists (Json.Item w.CodeEntry)) m m'
  localVariables : w.Part .method "local_variables" (Json.Lists (Json.Item w.Variable)) m m'
  limits : w.Part .method "maxs" (Json.Item (w.SameBut .limits [])) m m'
  defaultValue : w.DefaultValue m m'
  declaration : w.Declaration .method (fun a => .method (.annotated a))
    (fun a => .method (.typeAnnotated a)) m m'
  parameterAnnotations : w.Annotations .method "parameter_annotations"
    (w.DeclinesAnnotated readParameterAnnotation fun p => .method (.parameterAnnotated p.1 p.2)) m m'

end Leeway

/-- The keys of a method that are looked at only inside its scope. -/
def methodInsideKeys : List String :=
  ["parameters", "try_catch", "code", "local_variables", "maxs", "annotation_default", "annotations",
   "type_annotations", "parameter_annotations"]

end Code

namespace Leeway

variable (w : Leeway Label)

/-- The leeway inside a method, where labels are names. -/
def within (index : Nat) (m : Members) : Leeway String :=
  ⟨fun e => w.wanted (e.map (positionOf index m)), w.nulls⟩

structure Method (index : Nat) (m m' : Members) : Prop where
  rest : w.SameBut .method methodInsideKeys m m'
  inside : w.DeclinesMember readMethod m ∨ (w.within index m).MethodInside m m'

structure Class (m m' : Members) : Prop where
  rest : w.SameBut .classFile ["annotations", "type_annotations", "record_components", "fields",
    "methods", "inner_classes", "outer_class"] m m'
  declaration : w.Declaration .classFile (fun a => .classFile (.annotated a))
    (fun a => .classFile (.typeAnnotated a)) m m'
  components :
    w.Part .classFile "record_components" (Json.Lists (Json.Item (w.SameBut .component []))) m m'
  fields : w.Part .classFile "fields" (Json.Lists (Json.Item w.Field)) m m'
  methods : w.Part .classFile "methods" (Json.Numbered w.Method) m m'
  innerClasses :
    w.Part .classFile "inner_classes" (Json.Lists (Json.Item (w.SameBut .innerClass []))) m m'
  outerClass : w.Part .classFile "outer_class" (Json.Item (w.SameBut .outerClass [])) m m'

end Leeway

section Edits

variable {L : Type} {w : Leeway L} {form : Form} {parts : List String} {m m' : Members}

/-- The members of one version are made from those of the other, one after the other: each is taken over,
is a part that may change, or is a null that is dropped. -/
inductive Leeway.Edited (w : Leeway L) (form : Form) (parts : List String) : Members → Members → Prop
  | nil : Leeway.Edited w form parts [] []
  | same {p : String × Json} {m m' : Members} (h : Leeway.Edited w form parts m m') :
      Leeway.Edited w form parts (p :: m) (p :: m')
  | part {key : String} {v v' : Json} {m m' : Members} (hkey : key ∈ parts)
      (h : Leeway.Edited w form parts m m') :
      Leeway.Edited w form parts ((key, v) :: m) ((key, v') :: m')
  | null {key : String} {m m' : Members} (hnulls : w.nulls = true) (hkey : key ∈ form.keys)
      (habsent : m'.hasKey key = false) (h : Leeway.Edited w form parts m m') :
      Leeway.Edited w form parts ((key, .null) :: m) m'

theorem Members.find?_cons (p : String × Json) (m : Members) (key : String) :
    Members.find? (p :: m) key = if key = p.1 then some p.2 else m.find? key := by
  obtain ⟨k, v⟩ := p
  by_cases h : key = k
  · simp [Members.find?, h]
  · simp [Members.find?, List.lookup_cons, h, beq_eq_false_iff_ne.mpr h]

theorem Leeway.Edited.sameBut (h : w.Edited form parts m m') : w.SameBut form parts m m' := by
  intro key hparts
  induction h with
  | nil => exact .inl rfl
  | same _ ih =>
    rw [Members.find?_cons, Members.find?_cons]
    split
    · exact .inl rfl
    · exact ih
  | part hkey _ ih =>
    have hne : key ≠ _ := fun heq => hparts (heq ▸ hkey)
    rw [Members.find?_cons, Members.find?_cons, if_neg hne, if_neg hne]
    exact ih
  | null hnulls hkey habsent _ ih =>
    rw [Members.find?_cons]
    split
    · next heq =>
      subst heq
      exact .inr ⟨hnulls, hkey, rfl, by simpa [Members.hasKey] using habsent⟩
    · exact ih

end Edits

end ClassUsage
