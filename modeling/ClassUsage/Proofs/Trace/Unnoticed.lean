import ClassUsage.Proofs.Trace.SameWay

/-!
What a listener does not notice. There are two main statements: what is inside a scope that is not opened
is never looked at, and a null is the same as an absent key.
-/
namespace ClassUsage

open Traversal

section Documents

variable {wanted : Event Label → Bool} {doc doc' : Json} {origin : String}

/-- Both documents are refused for the same reason, or the listener notices the same in both. -/
inductive Json.Indistinct (wanted : Event Label → Bool) (origin : String) (doc doc' : Json) : Prop
  | refused {e : TraceError} (h : Trace.ofJson origin doc = .error e)
      (h' : Trace.ofJson origin doc' = .error e)
  | played {t t' : Trace} (h : Trace.ofJson origin doc = .ok t)
      (h' : Trace.ofJson origin doc' = .ok t')
      (hplay : (t.traversal.play wanted).Matches (t'.traversal.play wanted))

theorem Json.indistinct_refl (wanted : Event Label → Bool) (origin : String) (doc : Json) :
    doc.Indistinct wanted origin doc := by
  cases h : Trace.ofJson origin doc with
  | error e => exact .refused h h
  | ok t => exact .played h h (akin_refl lenient_true _).play

/-- Both versions are refused, or have the name of one class. -/
theorem Leeway.Class.ofJson {w : Leeway Label} {m m' : Members} (h : w.Class m m') :
    Trace.ofJson origin (.object m) = .error (.missingName origin) ∧
        Trace.ofJson origin (.object m') = .error (.missingName origin) ∨
      ∃ name, Trace.ofJson origin (.object m) = .ok ⟨name, m⟩ ∧
        Trace.ofJson origin (.object m') = .ok ⟨name, m'⟩ := by
  simp only [Trace.ofJson]
  rcases h.rest "name" (by decide) with hsame | ⟨-, -, hnull, hnone⟩
  · rw [hsame]
    split
    · next name _ =>
      by_cases hempty : name = ""
      · simp [hempty]
      · simp [hempty]
    · exact .inl ⟨rfl, rfl⟩
  · rw [hnull, hnone]
    exact .inl ⟨rfl, rfl⟩

theorem indistinct_of_class {w : Leeway Label} (h : Json.Item w.Class doc doc')
    (hplay : ∀ t t' : Traversal Label, t.Akin w.wanted (fun _ _ => True) t' →
      (t.play wanted).Matches (t'.play wanted)) : doc.Indistinct wanted origin doc' := by
  cases h with
  | same doc => exact Json.indistinct_refl wanted origin doc
  | object h =>
    rcases h.ofJson with ⟨hm, hm'⟩ | ⟨name, hm, hm'⟩
    · exact .refused hm hm'
    · exact .played hm hm' (hplay _ _ (akin_traversal h name))

/-- What is inside a scope that the listener does not open is never looked at. Two documents that differ
only there, however malformed, lead to the same events, warnings and ending. -/
theorem unopened_scopes_unnoticed (h : Json.Item (Leeway.unopened wanted).Class doc doc')
    (origin : String) : doc.Indistinct wanted origin doc' :=
  indistinct_of_class h fun _ _ hakin => hakin.play

namespace Gate

/-- A listener that goes into the annotation `Mark` of the class and into the method `stop`, no deeper. -/
def policy : Event Label → Bool
  | .classFile (.annotated a) => a.desc == "Lapp/Mark;"
  | .classFile (.method _ name _ _ _) => name == "stop"
  | _ => false

def tag (values : Json) : Members := [("desc", .string "Lapp/Tag;"), ("values", values)]

def nestedTag (values : Json) : Members := [("annotation", .object (tag values))]

def array (items : List Json) : Members := [("array", .list items)]

def entry (value : Json) : Members := [("name", .string "all"), ("value", value)]

def mark (values : Json) (items : List Json) : Members :=
  [("desc", .string "Lapp/Mark;"),
   ("values", .list [.object (entry (.object (nestedTag values))), .object (entry (.object (array items)))])]

def size (annotations : Json) : Members :=
  [("name", .string "size"), ("desc", .string "I"), ("annotations", annotations)]

def run (code : Json) : Members := [("name", .string "run"), ("desc", .string "()V"), ("code", code)]

def stop (values default : Json) : Members :=
  [("name", .string "stop"), ("desc", .string "()V"), ("annotations", .list [.object (tag values)]),
   ("annotation_default", default)]

/-- What the listener does not look at is left open. -/
def document (values annotations code default : Json) (items : List Json) : Json :=
  .object [("name", .string "app/Gate"),
    ("annotations", .list [.object (tag values), .object (mark values items)]),
    ("fields", .list [.object (size annotations)]),
    ("methods", .list [.object (run code), .object (stop values default)])]

theorem versions_tag {L : Type} {w : Leeway L} {declined : Prop} (h : declined) (v v' : Json) :
    w.Annotated declined (tag v) (tag v') :=
  .unopened h (Leeway.Edited.sameBut (.same (.part (by decide) .nil)))

theorem versions_mark (v v' : Json) (items items' : List Json) {declined : Prop} :
    (Leeway.unopened policy).Annotated declined (mark v items) (mark v' items') := by
  have hentry : ∀ u u', (Leeway.unopened policy).Value (some "all") u u' →
      (Leeway.unopened policy).Entry (entry u) (entry u') := fun u u' h =>
    .value (Leeway.Edited.sameBut (.same (.part (by decide) .nil))) rfl rfl h
  have hnested := hentry (.object (nestedTag v)) (.object (nestedTag v')) <|
    .nested (Leeway.Edited.sameBut (.part (by decide) .nil)) rfl rfl
      (versions_tag ⟨_, rfl, rfl⟩ v v')
  have harray := hentry (.object (array items)) (.object (array items')) <|
    .unopenedArray rfl (Leeway.Edited.sameBut (.part (by decide) .nil)) rfl rfl
  exact .values (Leeway.Edited.sameBut (.same (.part (by decide) .nil))) rfl rfl
    (.cons (.object hnested) (.cons (.object harray) .nil))

theorem versions_size (v v' : Json) : (Leeway.unopened policy).Field (size v) (size v') where
  rest := Leeway.Edited.sameBut (.same (.same (.part (by decide) .nil)))
  value := .kept (.inl rfl)
  inside := .inl ⟨_, _, rfl, rfl, rfl⟩

theorem versions_run (v v' : Json) (index : Nat) :
    (Leeway.unopened policy).Method index (run v) (run v') where
  rest := Leeway.Edited.sameBut (.same (.same (.part (by decide) .nil)))
  inside := .inl ⟨_, _, rfl, rfl, rfl⟩

theorem versions_stop (v v' : Json) {u u' : Json} (hu : u ≠ .null) (hu' : u' ≠ .null) (index : Nat) :
    (Leeway.unopened policy).Method index (stop v u) (stop v' u') where
  rest := Leeway.Edited.sameBut (.same (.same (.part (by decide) (.part (by decide) .nil))))
  inside := .inr {
    parameters := .kept (.inl rfl)
    handlers := .kept (.inl rfl)
    code := .kept (.inl rfl)
    localVariables := .kept (.inl rfl)
    limits := .kept (.inl rfl)
    defaultValue := .unopened rfl (Members.get?_of_find? rfl hu) (Members.get?_of_find? rfl hu')
    declaration := ⟨.revised rfl rfl (.list (.cons (.object (versions_tag ⟨_, rfl, rfl⟩ v v')) .nil)),
      .kept (.inl rfl)⟩
    parameterAnnotations := .kept (.inl rfl) }

theorem versions_document (values values' annotations annotations' code code' : Json)
    {default default' : Json} (hd : default ≠ .null) (hd' : default' ≠ .null)
    (items items' : List Json) :
    Json.Item (Leeway.unopened policy).Class (document values annotations code default items)
      (document values' annotations' code' default' items') :=
  .object {
    rest := Leeway.Edited.sameBut
      (.same (.part (by decide) (.part (by decide) (.part (by decide) .nil))))
    declaration := ⟨.revised rfl rfl (.list (.cons (.object (versions_tag ⟨_, rfl, rfl⟩ _ _))
      (.cons (.object (versions_mark values values' items items')) .nil))), .kept (.inl rfl)⟩
    components := .kept (.inl rfl)
    fields := .revised rfl rfl (.list (.cons (.object (versions_size _ _)) .nil))
    methods := .revised rfl rfl (.list (.cons (.object (versions_run _ _ 0))
      (.cons (.object (versions_stop _ _ hd hd' 1)) .nil)))
    innerClasses := .kept (.inl rfl)
    outerClass := .kept (.inl rfl) }

end Gate

open Gate in
/-- In the first document nothing is in order that the listener does not look at. -/
theorem unopened_scopes_unnoticed_gate :
    (document (.int 1) (.int 2) (.int 3) (.object []) [.object []]).Indistinct policy noOrigin
      (document (.list []) (.list []) (.list []) (.int 0) []) :=
  unopened_scopes_unnoticed (versions_document _ _ _ _ _ _ (by simp) (by simp) _ _) noOrigin

/-- A key with the value null can as well be left out, in any object of the document: every listener
notices the same. -/
theorem nulls_as_absent_keys (h : Json.Item Leeway.omission.Class doc doc')
    (wanted : Event Label → Bool) (origin : String) : doc.Indistinct wanted origin doc' :=
  indistinct_of_class h fun _ _ hakin => (hakin.of_all wanted).play

namespace Relay

/-- Members that start with a null, or without it. -/
def blank (written : Bool) (key : String) (m : Members) : Members :=
  if written then (key, .null) :: m else m

def handle (written : Bool) : Members :=
  [("tag", .int 6), ("owner", .string "app/Relay"), ("name", .string "make")] ++
    blank written "itf" [("desc", .string "()V")]

def tag (written : Bool) : Members :=
  blank written "visible" [("desc", .string "Lapp/Tag;"),
    ("values", .list [.object (blank written "name" [("value", .string "on")])])]

def port (written : Bool) : Members :=
  [("name", .string "port"), ("desc", .string "I"),
   ("value", .object [("handle", .object (handle written))])] ++ blank written "signature" []

def call (written : Bool) : Members :=
  [("op", .string "INVOKESTATIC"), ("owner", .string "io/Line"), ("name", .string "open")] ++
    blank written "itf" [("desc", .string "()V")]

def send (written : Bool) : Members :=
  [("name", .string "send"), ("desc", .string "()V"), ("code", .list [.object (call written)]),
   ("maxs", .object (blank written "max_stack" []))] ++ blank written "annotation_default" []

def document (written : Bool) : Json :=
  .object ([("name", .string "app/Relay"), ("annotations", .list [.object (tag written)]),
    ("fields", .list [.object (port written)]), ("methods", .list [.object (send written)])] ++
    blank written "outer_class" [])

theorem versions_tag {declined : Prop} :
    (Leeway.omission : Leeway Label).Annotated declined (tag true) (tag false) := by
  have hentry : (Leeway.omission : Leeway Label).Entry
      (blank true "name" [("value", .string "on")]) (blank false "name" [("value", .string "on")]) :=
    .kept (Leeway.Edited.sameBut (.null rfl (by decide) rfl (.same .nil)))
  exact .values (Leeway.Edited.sameBut (.null rfl (by decide) rfl (.same (.part (by decide) .nil))))
    rfl rfl (.cons (.object hentry) .nil)

theorem versions_port : (Leeway.omission : Leeway Label).Field (port true) (port false) where
  rest := Leeway.Edited.sameBut
    (.same (.same (.part (by decide) (.null rfl (by decide) rfl .nil))))
  value := .revised rfl rfl (.handle (Leeway.Edited.sameBut (.part (by decide) .nil)) rfl rfl
    (Leeway.Edited.sameBut (.same (.same (.same (.null rfl (by decide) rfl (.same .nil)))))))
  inside := .inr ⟨.kept (.inl rfl), .kept (.inl rfl)⟩

theorem versions_call : (Leeway.omission : Leeway String).CodeEntry (call true) (call false) where
  rest := Leeway.Edited.sameBut
    (.same (.same (.same (.null rfl (by decide) rfl (.same .nil)))))
  value := .kept (.inl rfl)
  bootstrap := .kept (.inl rfl)
  arguments := .kept (.inl rfl)
  annotations := .kept (.inl rfl)

theorem versions_send (index : Nat) :
    (Leeway.omission : Leeway Label).Method index (send true) (send false) where
  rest := Leeway.Edited.sameBut (.same (.same (.part (by decide) (.part (by decide)
    (.null rfl (by decide) rfl .nil)))))
  inside := .inr {
    parameters := .kept (.inl rfl)
    handlers := .kept (.inl rfl)
    code := .revised rfl rfl (.list (.cons (.object versions_call) .nil))
    localVariables := .kept (.inl rfl)
    limits := .revised rfl rfl
      (.object (Leeway.Edited.sameBut (.null rfl (by decide) rfl .nil)))
    defaultValue := .part (.kept (.inr ⟨rfl, by decide, rfl, rfl⟩))
    declaration := ⟨.kept (.inl rfl), .kept (.inl rfl)⟩
    parameterAnnotations := .kept (.inl rfl) }

theorem versions_document :
    Json.Item (Leeway.omission : Leeway Label).Class (document true) (document false) :=
  .object {
    rest := Leeway.Edited.sameBut (.same (.part (by decide) (.part (by decide) (.part (by decide)
      (.null rfl (by decide) rfl .nil)))))
    declaration := ⟨.revised rfl rfl (.list (.cons (.object versions_tag) .nil)), .kept (.inl rfl)⟩
    components := .kept (.inl rfl)
    fields := .revised rfl rfl (.list (.cons (.object versions_port) .nil))
    methods := .revised rfl rfl (.list (.cons (.object (versions_send 0)) .nil))
    innerClasses := .kept (.inl rfl)
    outerClass := .kept (.inr ⟨rfl, by decide, rfl, rfl⟩) }

end Relay

/-- Nulls are left out of the class and of an annotation, its entry, a field, a handle, a method, an
instruction and the limits of the code. -/
theorem nulls_as_absent_keys_relay :
    (Relay.document true).Indistinct (fun _ => true) noOrigin (Relay.document false) :=
  nulls_as_absent_keys Relay.versions_document _ noOrigin

end Documents

end ClassUsage
