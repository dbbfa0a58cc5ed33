import ClassUsage.Proofs.Trace.Formation
import ClassUsage.Proofs.Trace.Rereading
import ClassUsage.Proofs.Trace.Silence
import ClassUsage.Proofs.Workspace.Failure

/-!
Keys that are not known. The elements whose keys are looked through are the class and those of its
fields and methods that a listener comes to and that have a name. Main statement: each of them that
has keys which are not known is warned about once, in order, and otherwise such keys make no
difference.
-/
namespace ClassUsage

open Traversal

section Warnings

variable {L α : Type} {wanted : Event L → Bool}

/-- An element whose keys are looked through: how warnings call it, and the keys it may have. -/
structure Inspected where
  title : String
  known : List String
  members : Members

def Inspected.Unrecognised (i : Inspected) (key : String) : Prop :=
  i.members.hasKey key = true ∧ key ∉ i.known

/-- The warning lists just the keys of the element that are not known, in order. -/
structure Warning.About (w : Warning) (i : Inspected) : Prop where
  element : w.element = i.title
  keys : ∀ key, key ∈ w.keys ↔ i.Unrecognised key
  sorted : w.keys.Pairwise (· < ·)

/-- There is one warning for each element that has a key which is not known, in the same order. -/
inductive Warned : List Inspected → List Warning → Prop
  | nil : Warned [] []
  | warned {i : Inspected} {w : Warning} {is : List Inspected} {ws : List Warning} {key : String}
      (hkey : i.Unrecognised key) (hw : w.About i) (hrest : Warned is ws) :
      Warned (i :: is) (w :: ws)
  | unremarked {i : Inspected} {is : List Inspected} {ws : List Warning}
      (hknown : ∀ key, ¬ i.Unrecognised key) (hrest : Warned is ws) : Warned (i :: is) ws

theorem Warned.append {is js : List Inspected} {ws vs : List Warning} (h : Warned is ws)
    (h' : Warned js vs) : Warned (is ++ js) (ws ++ vs) := by
  induction h with
  | nil => exact h'
  | warned hkey hw _ ih => exact .warned hkey hw ih
  | unremarked hknown _ ih => exact .unremarked hknown ih

theorem mem_unknownKeys {known : List String} {m : Members} {key : String} :
    key ∈ unknownKeys known m ↔ m.hasKey key = true ∧ key ∉ known := by
  rw [unknownKeys, NameSet.mem_toList, NameSet.mem_ofList, List.mem_filter, mem_keys_iff]
  simp

theorem warned_warnUnknown (known : List String) (title : String) (m : Members) :
    Warned [⟨title, known, m⟩] ((warnUnknown known title m).play wanted).warnings := by
  unfold warnUnknown
  cases hkeys : unknownKeys known m with
  | nil =>
    refine .unremarked (fun key hkey => ?_) .nil
    have hmem := mem_unknownKeys.mpr hkey
    rw [hkeys] at hmem
    contradiction
  | cons key keys =>
    have hkey : key ∈ unknownKeys known m := by
      rw [hkeys]
      exact List.mem_cons_self
    refine .warned (mem_unknownKeys.mp hkey) ⟨rfl, fun k => ?_, ?_⟩ .nil
    · rw [← hkeys]
      exact mem_unknownKeys
    · rw [← hkeys]
      exact NameSet.sorted _

/-- What comes after is looked through only if there was no fault. -/
theorem warned_append {t u : Traversal L} {is js : List Inspected}
    (ht : Warned is (t.play wanted).warnings) (hu : Warned js (u.play wanted).warnings) :
    Warned (is ++ if (t.play wanted).fault.isSome then [] else js)
      ((t ++ u).play wanted).warnings := by
  rw [play_append, Playback.warnings_andThen]
  cases (t.play wanted).fault with
  | some f => exact ht.append .nil
  | none => exact ht.append hu

/-- The entries that a listener comes to: those up to the first on which there is a fault. -/
def reached (wanted : Event L → Bool) (way : α → Traversal L) : List α → List α
  | [] => []
  | a :: rest =>
    a :: if ((way a).play wanted).fault.isSome then [] else reached wanted way rest

theorem warned_each {way : α → Traversal L} {inspected : α → List Inspected}
    (h : ∀ a, Warned (inspected a) ((way a).play wanted).warnings) (l : List α) :
    Warned ((reached wanted way l).flatMap inspected) ((each l way).play wanted).warnings := by
  induction l with
  | nil => exact .nil
  | cons a l ih =>
    have happend := warned_append (h a) ih
    rw [reached, List.flatMap_cons, each]
    cases hf : ((way a).play wanted).fault with
    | some f =>
      rw [hf] at happend
      exact happend
    | none =>
      rw [hf] at happend
      exact happend

/-- The objects listed under a key. If one of the entries is no object, none is come to. -/
def Members.listed (m : Members) (key : String) : List Members :=
  (m.entries .object key).toOption.getD []

theorem warned_listed {way : List Members → Traversal L} {g : List Members → List Inspected}
    {m : Members} {key : String} (hnone : g [] = [])
    (h : ∀ os, Warned (g os) ((way os).play wanted).warnings) :
    Warned (g (m.listed key)) ((check (m.entries .object key) way).play wanted).warnings := by
  unfold Members.listed
  cases m.entries .object key with
  | ok os => exact h os
  | error f =>
    change Warned (g []) []
    rw [hnone]
    exact .nil

/-- A field or a method is looked through if it has a name. -/
def named (kind : String) (known : List String) (m : Members) : List Inspected :=
  (m.value? .text "name").toList.map fun name => ⟨kind ++ name, known, m⟩

theorem Members.required_of_value? {kind : Kind α} {m : Members} {key : String} {a : α}
    (h : m.value? kind key = some a) : m.required kind key = .ok a := by
  obtain ⟨v, hget, hread⟩ := get?_of_value? h
  simp only [required, optional_of_read? hget hread]

theorem warned_member {way : String → Traversal L} (hway : ∀ name, (way name).Quiet) (kind : String)
    (known : List String) (m : Members) :
    Warned (named kind known m) ((check (m.required .text "name") fun name =>
      warnUnknown known (kind ++ name) m ++ way name).play wanted).warnings := by
  cases hvalue : m.value? .text "name" with
  | some name =>
    have hquiet : Warned [] ((way name).play wanted).warnings := by
      rw [(hway name).warnings]
      exact .nil
    have happend := warned_append (warned_warnUnknown known (kind ++ name) m) hquiet
    rw [ite_self] at happend
    rw [named, hvalue, Members.required_of_value? hvalue]
    exact happend
  | none =>
    cases hname : m.required .text "name" with
    | ok name =>
      rw [Members.value?_of_required hname] at hvalue
      contradiction
    | error f =>
      rw [named, hvalue]
      exact .nil

theorem warned_fieldEvents (m : Members) :
    Warned (named "field " fieldKeys m) ((fieldEvents m : Traversal L).play wanted).warnings :=
  warned_member (fun _ => .check fun _ _ => quiet_scope (quiet_fieldBody m)) _ _ m

end Warnings

section Elements

variable {wanted : Event Label → Bool}

theorem warned_methodEvents (index : Nat) (m : Members) :
    Warned (named "method " methodKeys m) ((methodEvents index m).play wanted).warnings :=
  warned_member (fun _ => .check fun _ _ => quiet_scope ((quiet_methodBody m).map _)) _ _ m

namespace Trace

/-- The way through a class up to its fields, behind the warning. -/
def beforeFields (t : Trace) : Traversal Label :=
  check (readHeader t) (fun e => event (.classFile e)) ++
    declarationAnnotations t.members (fun a => .classFile (.annotated a))
      (fun a => .classFile (.typeAnnotated a)) ++
    objectEvents t.members "record_components" readRecordComponent

def throughFields (t : Trace) : Traversal Label :=
  check (t.members.entries .object "fields") (each · fieldEvents)

/-- The elements whose keys are looked through: the class, the fields that a listener comes to, and,
if it gets past all of them, the methods that it comes to. -/
def inspected (wanted : Event Label → Bool) (t : Trace) : List Inspected :=
  let fields := reached wanted fieldEvents (t.members.listed "fields")
  let methods := reached wanted (fun p => methodEvents p.2 p.1) (t.members.listed "methods").zipIdx
  ⟨t.name, classKeys, t.members⟩ ::
    if (t.beforeFields.play wanted).fault.isSome then []
    else
      fields.flatMap (named "field " fieldKeys) ++
        if (t.throughFields.play wanted).fault.isSome then []
        else methods.flatMap fun p => named "method " methodKeys p.1

theorem beforeMethods_eq (t : Trace) :
    t.beforeMethods =
      warnUnknown classKeys t.name t.members ++ (t.beforeFields ++ t.throughFields) := by
  simp only [beforeMethods, beforeFields, throughFields, append_assoc]

theorem quiet_beforeFields (t : Trace) : t.beforeFields.Quiet :=
  (Quiet.append (.check fun _ _ => quiet_event _) (quiet_declarationAnnotations _ _ _)).append
    (quiet_objectEvents _ _ _)

theorem quiet_afterMethods (t : Trace) : t.afterMethods.Quiet := by
  refine .append (.append (.append (.append (.append ?_ ?_) ?_) ?_) ?_) ?_
  · exact quiet_textEvent _ _ _
  · exact quiet_textEvents _ _ _
  · exact quiet_textEvents _ _ _
  · exact quiet_objectEvents _ _ _
  · exact quiet_outerClassEvents _
  · exact quiet_textEvent _ _ _

theorem warned_throughFields (t : Trace) :
    Warned ((reached wanted fieldEvents (t.members.listed "fields")).flatMap
        (named "field " fieldKeys))
      (t.throughFields.play wanted).warnings :=
  warned_listed (g := fun os => (reached wanted fieldEvents os).flatMap _) rfl
    (warned_each warned_fieldEvents)

theorem warned_throughMethods (t : Trace) :
    Warned ((reached wanted (fun p => methodEvents p.2 p.1)
        (t.members.listed "methods").zipIdx).flatMap fun p => named "method " methodKeys p.1)
      (t.throughMethods.play wanted).warnings :=
  warned_listed (g := fun os => (reached wanted _ os.zipIdx).flatMap _) rfl
    fun os => warned_each (fun p => warned_methodEvents p.2 p.1) os.zipIdx

theorem fault_warnUnknown (known : List String) (title : String) (m : Members) :
    ((warnUnknown known title m).play wanted).fault = none := by
  unfold warnUnknown
  split <;> rfl

/-- The warnings are about just the elements that are looked through. -/
theorem warned_traversal (t : Trace) :
    Warned (t.inspected wanted) (t.traversal.play wanted).warnings := by
  have hquiet : ∀ {u : Traversal Label}, u.Quiet → Warned [] (u.play wanted).warnings := by
    intro u hu
    rw [hu.warnings]
    exact .nil
  -- from the end to the start, since a fault in one part hides all that comes after
  have hrest := hquiet (t.quiet_afterMethods.append (quiet_event (.finish .classFile)))
  have hmethods := warned_append t.warned_throughMethods hrest
  rw [ite_self, List.append_nil] at hmethods
  have hbefore := warned_append (hquiet t.quiet_beforeFields)
    (warned_append t.warned_throughFields hmethods)
  have hclass := warned_append (warned_warnUnknown classKeys t.name t.members) hbefore
  rw [fault_warnUnknown] at hclass
  rw [traversal_eq, beforeMethods_eq]
  simp only [append_assoc] at hclass ⊢
  exact hclass

end Trace

end Elements

section Versions

variable {known : List String} {m m' : Members}

/-- The same is found under every known key. Under other keys anything can be added, wherever. -/
def Members.SameKnown (known : List String) (m m' : Members) : Prop :=
  ∀ key ∈ known, m.find? key = m'.find? key

theorem Members.sameKnown_refl (m : Members) : m.SameKnown known m := fun _ _ => rfl

theorem Members.SameKnown.sameAt (h : m.SameKnown known m') : m.SameAt known m' := by
  intro key hkey
  simp only [get?, h key hkey]

/-- Lists of which the objects have the same under every known key; what is no list of entries is
the same altogether. -/
inductive SameListed (known : List String) : Option Json → Option Json → Prop
  | kept (o : Option Json) : SameListed known o o
  | list {items items' : List Json}
      (h : List.Forall₂ (Json.Item (Members.SameKnown known)) items items') :
      SameListed known (some (.list items)) (some (.list items'))

/-- Two versions of a class that differ only in keys which are not known: of the class, of its
fields and of its methods. -/
structure Members.Embellished (m m' : Members) : Prop where
  rest : ∀ key ∈ classKeys, key ≠ "fields" → key ≠ "methods" → m.find? key = m'.find? key
  fields : SameListed fieldKeys (m.find? "fields") (m'.find? "fields")
  methods : SameListed methodKeys (m.find? "methods") (m'.find? "methods")

theorem SameListed.entries {key : String} (h : SameListed known (m.find? key) (m'.find? key)) :
    Coincide (List.Forall₂ (Members.SameKnown known)) (m.entries .object key)
      (m'.entries .object key) := by
  generalize hm : m.find? key = x at h
  generalize hm' : m'.find? key = y at h
  cases h with
  | kept o =>
    have hsame : m.SameAt [key] m' := by
      apply Members.sameAt_singleton
      simp only [Members.get?, hm, hm']
    refine coincide_of_eq (hsame.entries List.mem_cons_self) fun os => ?_
    exact List.forall₂_same.mpr fun o _ => o.sameKnown_refl
  | list h =>
    rw [Members.entries_of_list (Members.get?_of_find? hm (by simp)),
      Members.entries_of_list (Members.get?_of_find? hm' (by simp))]
    refine (coincide_readEntries h).mono fun os os' hos => hos.imp ?_
    rintro o o' (rfl | ho)
    · exact o.sameKnown_refl
    · exact ho

variable {L : Type}

theorem annotationEvents_of_sameAt {α : Type} {key : String} (h : m.SameAt known m')
    (hkey : key ∈ known) (read : Members → Except Fault α) (toEvent : α → Event L) :
    annotationEvents m key read toEvent = annotationEvents m' key read toEvent := by
  unfold annotationEvents
  rw [h.entries hkey]

theorem declarationAnnotations_of_sameAt (h : m.SameAt known m')
    (hkeys : ∀ key ∈ ["annotations", "type_annotations"], key ∈ known)
    (annotated : AnnotationHead → Event L) (typeAnnotated : TypeAnnotationHead → Event L) :
    declarationAnnotations m annotated typeAnnotated =
      declarationAnnotations m' annotated typeAnnotated := by
  unfold declarationAnnotations
  rw [annotationEvents_of_sameAt h (hkeys _ (by simp)),
    annotationEvents_of_sameAt h (hkeys _ (by simp))]

theorem codeEvents_of_sameAt (h : m.SameAt methodKeys m') : codeEvents m = codeEvents m' := by
  simp (disch := decide) only [codeEvents, readLimits, h.entries, h.orElse]

theorem methodBody_of_sameAt (h : m.SameAt methodKeys m') : methodBody m = methodBody m' := by
  have hdefault : m.get? "annotation_default" = m'.get? "annotation_default" := h _ (by decide)
  have hannotations := declarationAnnotations_of_sameAt h (by decide)
    (fun a => (.method (.annotated a) : Event String)) (fun a => .method (.typeAnnotated a))
  unfold methodBody defaultValueEvents
  rw [hdefault, hannotations, codeEvents_of_sameAt h, h.entries (by decide), h.optional (by decide),
    annotationEvents_of_sameAt h (by decide)]

theorem Coincide.agrees {α β : Type} {R : α → β → Prop} {r : Except Fault α} {s : Except Fault β}
    {f : α → Traversal L} {g : β → Traversal L} (h : Coincide R r s)
    (hfg : ∀ a b, R a b → (f a).Agrees (g b)) : (check r f).Agrees (check s g) := by
  cases h with
  | ok h => exact hfg _ _ h
  | error f => rfl

theorem silenced_warnUnknown (known : List String) (title : String) (m : Members) :
    (warnUnknown known title m : Traversal L).silenced = .done := by
  unfold warnUnknown
  split <;> rfl

theorem agrees_warnUnknown (known : List String) (title : String) (m m' : Members) :
    (warnUnknown known title m : Traversal L).Agrees (warnUnknown known title m') := by
  rw [Agrees, silenced_warnUnknown, silenced_warnUnknown]

theorem agrees_fieldEvents (h : m.SameKnown fieldKeys m') :
    (fieldEvents m : Traversal L).Agrees (fieldEvents m') := by
  have hsame := h.sameAt
  have hvalue : m.find? "value" = m'.find? "value" := h _ (by decide)
  refine agrees_check (hsame.required (by decide)) fun name => ?_
  refine (agrees_warnUnknown _ _ m m').append (agrees_check ?_ fun e => agrees_of_eq ?_)
  · simp (disch := decide) only [readField, hsame.required, hsame.optional, hsame.orElse, hvalue]
  · rw [fieldBody, fieldBody, declarationAnnotations_of_sameAt hsame (by decide)]

theorem agrees_methodEvents (h : m.SameKnown methodKeys m') (index : Nat) :
    (methodEvents index m).Agrees (methodEvents index m') := by
  have hsame := h.sameAt
  refine agrees_check (hsame.required (by decide)) fun name => ?_
  refine (agrees_warnUnknown _ _ m m').append (agrees_check ?_ fun e => agrees_of_eq ?_)
  · simp (disch := decide) only [readMethod, hsame.required, hsame.optional, hsame.orElse,
      hsame.optionalEntries]
  · rw [methodBody_of_sameAt hsame]

theorem forall₂_zipIdx {α β : Type} {R : α → β → Prop} {l : List α} {l' : List β}
    (h : List.Forall₂ R l l') (k : Nat) :
    List.Forall₂ (fun p q => p.2 = q.2 ∧ R p.1 q.1) (l.zipIdx k) (l'.zipIdx k) := by
  induction h generalizing k with
  | nil => exact .nil
  | cons hab _ ih => exact .cons ⟨rfl, hab⟩ (ih (k + 1))

namespace Members.Embellished

variable (h : m.Embellished m') (name : String)

include h

theorem sameAt {keys : List String}
    (hkeys : ∀ key ∈ keys, key ∈ classKeys ∧ key ≠ "fields" ∧ key ≠ "methods") :
    m.SameAt keys m' := by
  intro key hkey
  obtain ⟨hknown, hfields, hmethods⟩ := hkeys key hkey
  simp only [Members.get?, h.rest key hknown hfields hmethods]

theorem beforeFields : Trace.beforeFields ⟨name, m⟩ = Trace.beforeFields ⟨name, m'⟩ := by
  have hannotations : m.SameAt ["annotations", "type_annotations"] m' := h.sameAt (by decide)
  have hcomponents : m.SameAt ["record_components"] m' := h.sameAt (by decide)
  simp only [Trace.beforeFields, objectEvents]
  rw [readHeader_of_sameAt (h.sameAt (by decide)),
    declarationAnnotations_of_sameAt hannotations (by simp), hcomponents.entries (by decide)]

theorem throughFields :
    (Trace.throughFields ⟨name, m⟩).Agrees (Trace.throughFields ⟨name, m'⟩) :=
  h.fields.entries.agrees fun _ _ hos => Agrees.each hos fun _ _ => agrees_fieldEvents

theorem throughMethods :
    (Trace.throughMethods ⟨name, m⟩).Agrees (Trace.throughMethods ⟨name, m'⟩) := by
  refine h.methods.entries.agrees fun os os' hos => Agrees.each (forall₂_zipIdx hos 0) ?_
  rintro ⟨o, i⟩ ⟨o', j⟩ ⟨rfl, ho⟩
  exact agrees_methodEvents ho i

theorem afterMethods : Trace.afterMethods ⟨name, m⟩ = Trace.afterMethods ⟨name, m'⟩ := by
  have hsame : m.SameAt ["nest_host", "nest_members", "permitted_subclasses", "inner_classes",
    "outer_class", "source"] m' := h.sameAt (by decide)
  simp (disch := decide) only [Trace.afterMethods, textEvent, textEvents, objectEvents,
    outerClassEvents, hsame.optional, hsame.entries]

/-- The ways through both versions of a class are the same but for their warnings. -/
theorem agrees : (Trace.traversal ⟨name, m⟩).Agrees (Trace.traversal ⟨name, m'⟩) := by
  rw [Trace.traversal_eq, Trace.traversal_eq, Trace.beforeMethods_eq, Trace.beforeMethods_eq]
  refine Agrees.append (Agrees.append (Agrees.append ?_ ?_) ?_) (agrees_of_eq rfl)
  · exact (agrees_warnUnknown _ _ m m').append
      ((agrees_of_eq (h.beforeFields name)).append (h.throughFields name))
  · exact h.throughMethods name
  · exact agrees_of_eq (h.afterMethods name)

/-- Both versions are refused, or have the name of one class. -/
theorem ofJson (origin : String) :
    (∃ e, Trace.ofJson origin (.object m) = .error e ∧
      Trace.ofJson origin (.object m') = .error e) ∨
      ∃ name, Trace.ofJson origin (.object m) = .ok ⟨name, m⟩ ∧
        Trace.ofJson origin (.object m') = .ok ⟨name, m'⟩ := by
  have hname : m.find? "name" = m'.find? "name" := h.rest _ (by decide) (by decide) (by decide)
  simp only [Trace.ofJson, hname]
  split
  · next name _ =>
    by_cases hempty : name = ""
    · simp [hempty]
    · simp [hempty]
  · exact .inl ⟨_, rfl, rfl⟩

end Members.Embellished

/-- Both documents are refused for the same reason, or the ways through them are the same but for
their warnings. -/
theorem agrees_of_embellished {doc doc' : Json} (h : Json.Item Members.Embellished doc doc')
    (origin : String) :
    (∃ e, Trace.ofJson origin doc = .error e ∧ Trace.ofJson origin doc' = .error e) ∨
      ∃ t t', Trace.ofJson origin doc = .ok t ∧ Trace.ofJson origin doc' = .ok t' ∧
        t.traversal.Agrees t'.traversal := by
  cases h with
  | same doc =>
    cases Trace.ofJson origin doc with
    | error e => exact .inl ⟨e, rfl, rfl⟩
    | ok t => exact .inr ⟨t, t, rfl, rfl, agrees_of_eq rfl⟩
  | object h =>
    rcases h.ofJson origin with hrefused | ⟨name, ht, ht'⟩
    · exact .inl hrefused
    · exact .inr ⟨_, _, ht, ht', h.agrees name⟩

/-- A collector takes the same from ways that are the same but for their warnings. -/
theorem Trace.replay_of_agrees {t t' : Trace} (h : t.traversal.Agrees t'.traversal)
    (known : NameSet) :
    (t.replay known).names = (t'.replay known).names ∧
      (t.replay known).fault = (t'.replay known).fault := by
  obtain ⟨hnames, hfault⟩ := t.replay_adds known
  obtain ⟨hnames', hfault'⟩ := t'.replay_adds known
  obtain ⟨hevents, hend⟩ := h.play fun _ => true
  rw [hnames, hnames', hfault, hfault', Playback.mentions_eq, Playback.mentions_eq, hevents, hend]
  exact ⟨rfl, rfl⟩

/-- Keys that are not known, added to a class, to its fields and to its methods with whatever
values, make no difference to the events that a listener is told of, to the fault at the end, and to
what a collector finds. The warnings are one for each element that is looked through and has such
keys, in the order in which the listener comes to them, and each lists just those keys in order. -/
theorem unrecognised_keys_only_warned {doc doc' : Json} (h : Json.Item Members.Embellished doc doc')
    (wanted : Event Label → Bool) (origin : String) :
    (∃ e, Trace.ofJson origin doc = .error e ∧ Trace.ofJson origin doc' = .error e) ∨
      ∃ t t', Trace.ofJson origin doc = .ok t ∧ Trace.ofJson origin doc' = .ok t' ∧
        (t.traversal.play wanted).events = (t'.traversal.play wanted).events ∧
        (t.traversal.play wanted).fault = (t'.traversal.play wanted).fault ∧
        Warned (t.inspected wanted) (t.traversal.play wanted).warnings ∧
        Warned (t'.inspected wanted) (t'.traversal.play wanted).warnings ∧
        ∀ known, (t.replay known).names = (t'.replay known).names ∧
          (t.replay known).fault = (t'.replay known).fault := by
  rcases agrees_of_embellished h origin with hrefused | ⟨t, t', ht, ht', hagrees⟩
  · exact .inl hrefused
  · obtain ⟨hevents, hfault⟩ := hagrees.play wanted
    exact .inr ⟨t, t', ht, ht', hevents, hfault, t.warned_traversal, t'.warned_traversal,
      Trace.replay_of_agrees hagrees⟩

/-- Members under keys that are not known can be put anywhere. -/
theorem Members.sameKnown_added (m n : Members) {extra : Members} (h : ∀ p ∈ extra, p.1 ∉ known) :
    Members.SameKnown known (m ++ n) (m ++ (extra ++ n)) := by
  intro key hkey
  induction m with
  | cons p m ih => simp only [List.cons_append, Members.find?_cons, ih]
  | nil =>
    induction extra with
    | nil => rfl
    | cons p extra ih =>
      obtain ⟨hp, hextra⟩ := List.forall_mem_cons.mp h
      have hne : key ≠ p.1 := fun heq => hp (heq ▸ hkey)
      rw [ih hextra]
      simp only [List.nil_append, List.cons_append, Members.find?_cons, if_neg hne]

namespace Lamp

def member (name : String) (desc : Json) (extra : Members) : Members :=
  [("name", .string name)] ++ (extra ++ [("desc", desc)])

/-- The descriptor of the first method is no text. -/
def members (ofClass ofField ofMethod : Members) : Members :=
  [("name", .string "app/Lamp"),
   ("fields", .list [.object (member "bulb" (.string "I") ofField)]),
   ("methods", .list [.object (member "glow" (.int 5) ofMethod),
     .object (member "dim" (.string "()V") ofMethod)])] ++ ofClass

def plain : Members := members [] [] []

def marked : Members :=
  members [("colour", .string "red")] [("watts", .int 60), ("brand", .null)] [("speed", .list [])]

theorem embellished : plain.Embellished marked where
  rest := by
    intro key hkey hfields hmethods
    have hcolour : key ≠ "colour" := by
      rintro rfl
      revert hkey
      decide
    simp [plain, marked, members, Members.find?_cons, hfields, hmethods, hcolour]
  fields := .list (.cons (.object (Members.sameKnown_added _ _ (by simp [fieldKeys]))) .nil)
  methods := .list (.cons (.object (Members.sameKnown_added _ _ (by simp [methodKeys])))
    (.cons (.object (Members.sameKnown_added _ _ (by simp [methodKeys]))) .nil))

end Lamp

open Lamp in
/-- The class, the field and the first method are warned about. The second method is not come to,
since the descriptor of the first is at fault. -/
theorem unrecognised_keys_only_warned_lamp :
    (∃ t t', Trace.ofJson noOrigin (.object plain) = .ok t ∧
      Trace.ofJson noOrigin (.object marked) = .ok t' ∧
      (t.traversal.play fun _ => true).events = (t'.traversal.play fun _ => true).events ∧
      (t.traversal.play fun _ => true).fault = (t'.traversal.play fun _ => true).fault ∧
      Warned (t'.inspected fun _ => true) (t'.traversal.play fun _ => true).warnings) ∧
    (Trace.traversal ⟨"app/Lamp", marked⟩ |>.play fun _ => true).warnings =
      [⟨"app/Lamp", ["colour"]⟩, ⟨"field bulb", ["brand", "watts"]⟩,
        ⟨"method glow", ["speed"]⟩] := by
  constructor
  · rcases unrecognised_keys_only_warned (.object embellished) (fun _ => true) noOrigin with
      ⟨e, he, -⟩ | ⟨t, t', ht, ht', hevents, hfault, -, hwarned, -⟩
    · contradiction
    · exact ⟨t, t', ht, ht', hevents, hfault, hwarned⟩
  · rfl

end Versions

end ClassUsage
