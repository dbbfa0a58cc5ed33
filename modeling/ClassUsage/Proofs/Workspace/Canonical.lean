import ClassUsage.Proofs.Descriptor.Decoding
import ClassUsage.Proofs.Signature.Decoding
import ClassUsage.Proofs.Workspace.Failure
import ClassUsage.Proofs.Workspace.Journal

/-!
The form of names. A decoder gives names that are not empty and hold neither a slash nor a
semicolon; a name that comes in some other way has its slashes turned into dots, unless it is to be
taken as it is. Main statement: so no collector comes to hold a name with a slash, whatever is done
with it.
-/
namespace ClassUsage

section Names

/-- A name as decoders give it. -/
structure Canonical (x : String) : Prop where
  ne_empty : x ≠ ""
  no_slash : '/' ∉ x.toList
  no_semicolon : ';' ∉ x.toList

theorem slash_not_mem_dotted (name : List Char) : '/' ∉ (dotted name).toList := by
  intro h
  simp only [dotted, String.toList_ofList] at h
  obtain ⟨c, -, hc⟩ := List.mem_map.mp h
  split at hc
  · contradiction
  · next hslash => exact hslash hc

/-- Nothing but slashes is replaced. -/
theorem semicolon_mem_dotted {name : List Char} (h : ';' ∈ (dotted name).toList) : ';' ∈ name := by
  simp only [dotted, String.toList_ofList] at h
  obtain ⟨c, hmem, hc⟩ := List.mem_map.mp h
  split at hc
  · contradiction
  · exact hc ▸ hmem

theorem InternalName.canonical (n : InternalName) : Canonical (dotted n.chars) where
  ne_empty := by simpa [dotted] using n.ne_nil
  no_slash := slash_not_mem_dotted n.chars
  no_semicolon := fun h => n.no_semicolon (semicolon_mem_dotted h)

end Names

section Trees

theorem Element.canonical_names (e : Element) : ∀ x ∈ e.names, Canonical x := by
  cases e with
  | primitive p => exact List.forall_mem_nil _
  | object name => exact List.forall_mem_singleton.mpr name.canonical

theorem ReturnType.canonical_names (t : ReturnType) : ∀ x ∈ t.names, Canonical x := by
  cases t with
  | void => exact List.forall_mem_nil _
  | value t => exact t.element.canonical_names

theorem Descriptor.canonical_names (d : Descriptor) : ∀ x ∈ d.names, Canonical x := by
  cases d with
  | plain t => exact t.canonical_names
  | method m =>
    refine List.forall_mem_append.mpr ⟨?_, m.result.canonical_names⟩
    exact List.forall_mem_flatMap.mpr fun t _ => t.element.canonical_names

namespace Signature

/-- The name of a class inside others is put together from theirs; it is one that a descriptor can
hold. -/
theorem ClassType.canonical_path (c : ClassType) : Canonical (dotted c.path) :=
  c.internalName.canonical

mutual

theorem SignatureType.canonical_names : ∀ t : SignatureType, ∀ x ∈ t.names, Canonical x
  | .primitive _ => List.forall_mem_nil _
  | .reference r => r.canonical_names

theorem ReferenceType.canonical_names : ∀ r : ReferenceType, ∀ x ∈ r.names, Canonical x
  | .object c => c.canonical_names
  | .typeVariable _ => List.forall_mem_nil _
  | .array component => component.canonical_names

theorem ClassType.canonical_names : ∀ c : ClassType, ∀ x ∈ c.names, Canonical x
  | .outer name arguments =>
    List.forall_mem_cons.mpr
      ⟨(ClassType.outer name arguments).canonical_path, canonical_argumentsNames arguments⟩
  | .member enclosing name arguments =>
    List.forall_mem_append.mpr ⟨enclosing.canonical_names, List.forall_mem_cons.mpr
      ⟨(ClassType.member enclosing name arguments).canonical_path,
        canonical_argumentsNames arguments⟩⟩

theorem TypeArgument.canonical_names : ∀ a : TypeArgument, ∀ x ∈ a.names, Canonical x
  | .any => List.forall_mem_nil _
  | .type _ r => r.canonical_names

theorem canonical_argumentsNames :
    ∀ arguments : List TypeArgument, ∀ x ∈ argumentsNames arguments, Canonical x
  | [] => List.forall_mem_nil _
  | a :: rest =>
    List.forall_mem_append.mpr ⟨a.canonical_names, canonical_argumentsNames rest⟩

end

theorem TypeParameter.canonical_names (p : TypeParameter) : ∀ x ∈ p.names, Canonical x := by
  refine List.forall_mem_append.mpr ⟨?_, ?_⟩
  · cases p.classBound with
    | none => exact List.forall_mem_nil _
    | some r => exact r.canonical_names
  · exact List.forall_mem_flatMap.mpr fun r _ => r.canonical_names

theorem ClassSignature.canonical_names (s : ClassSignature) : ∀ x ∈ s.names, Canonical x := by
  refine List.forall_mem_append.mpr ⟨List.forall_mem_append.mpr ⟨?_, ?_⟩, ?_⟩
  · exact List.forall_mem_flatMap.mpr fun p _ => p.canonical_names
  · exact s.superclass.canonical_names
  · exact List.forall_mem_flatMap.mpr fun c _ => c.canonical_names

theorem MethodSignature.canonical_names (m : MethodSignature) : ∀ x ∈ m.names, Canonical x := by
  refine List.forall_mem_append.mpr ⟨List.forall_mem_append.mpr
    ⟨List.forall_mem_append.mpr ⟨?_, ?_⟩, ?_⟩, ?_⟩
  · exact List.forall_mem_flatMap.mpr fun p _ => p.canonical_names
  · exact List.forall_mem_flatMap.mpr fun t _ => t.canonical_names
  · cases m.result with
    | none => exact List.forall_mem_nil _
    | some t => exact t.canonical_names
  · exact List.forall_mem_flatMap.mpr fun t _ => t.type.canonical_names

end Signature

theorem decodeDescriptor_canonical {text : String} {names : NameSet}
    (h : decodeDescriptor text = .ok names) : ∀ x ∈ names, Canonical x := by
  obtain ⟨d, -, rfl⟩ := decodeDescriptor_eq_ok_iff.mp h
  intro x hx
  exact d.canonical_names x (NameSet.mem_ofList.mp hx)

theorem decodeSignature_canonical {kind : SignatureKind} {text : String} {names : NameSet}
    (h : decodeSignature kind text = .ok names) : ∀ x ∈ names, Canonical x := by
  intro x hx
  cases kind with
  | type =>
    obtain ⟨t, -, rfl⟩ := decode_typeSignature_iff.mp h
    exact t.canonical_names x (NameSet.mem_ofList.mp hx)
  | classFile =>
    obtain ⟨s, -, -, rfl⟩ := decode_classSignature_iff.mp h
    exact s.canonical_names x (NameSet.mem_ofList.mp hx)
  | method =>
    obtain ⟨m, -, -, rfl⟩ := decode_methodSignature_iff.mp h
    exact m.canonical_names x (NameSet.mem_ofList.mp hx)

end Trees

section Mentions

/-- No name in the set has a slash. -/
def NameSet.Slashless (s : NameSet) : Prop := ∀ x ∈ s, '/' ∉ x.toList

theorem NameSet.slashless_empty : (∅ : NameSet).Slashless := by simp [Slashless]

theorem NameSet.Slashless.union {s t : NameSet} (hs : s.Slashless) (ht : t.Slashless) :
    (s ∪ t).Slashless := by
  intro x hx
  rcases mem_union.mp hx with hx | hx
  · exact hs x hx
  · exact ht x hx

theorem NameSet.slashless_dotted (name : List Char) : (singleton (dotted name)).Slashless := by
  intro x hx
  rw [mem_singleton.mp hx]
  exact slash_not_mem_dotted name

/-- A type constant need not have been checked: whatever is cut out of it is dotted. -/
theorem TypeConstant.slashless_elementNames {e : TypeConstant} {names : NameSet}
    (h : e.elementNames = .ok names) : names.Slashless := by
  unfold elementNames at h
  split at h
  · cases h
    exact NameSet.slashless_dotted _
  · cases h
    exact NameSet.slashless_empty
  · contradiction

theorem TypeConstant.slashless_classNames {t : TypeConstant} {names : NameSet}
    (h : t.classNames = .ok names) : names.Slashless := by
  rw [classNames_eq] at h
  split at h
  · exact slashless_elementNames h
  · exact slashless_elementNames h

/-- What is to be taken as it is has no slash. -/
def Mention.Normal : Mention → Prop
  | .verbatim names => ∀ x ∈ names, '/' ∉ x.toList
  | _ => True

theorem Mention.slashless_resolve {m : Mention} {names : NameSet} (hm : m.Normal)
    (h : m.resolve = .ok names) : names.Slashless := by
  cases m with
  | internal name =>
    cases h
    exact NameSet.slashless_dotted _
  | descriptor desc =>
    have hnames := decodeDescriptor_canonical (mapError_eq_ok.mp h)
    exact fun x hx => (hnames x hx).no_slash
  | signature kind text =>
    have hnames := decodeSignature_canonical (mapError_eq_ok.mp h)
    exact fun x hx => (hnames x hx).no_slash
  | constant c =>
    cases c with
    | type t => exact TypeConstant.slashless_classNames (mapError_eq_ok.mp h)
    | _ =>
      cases h
      exact NameSet.slashless_empty
  | verbatim all =>
    cases h
    exact fun x hx => hm x (NameSet.mem_ofList.mp hx)

theorem slashless_gathered {ms : List Mention} (h : ∀ m ∈ ms, m.Normal) :
    (gathered ms).Slashless := by
  induction ms with
  | nil => exact NameSet.slashless_empty
  | cons m ms ih =>
    obtain ⟨hm, hms⟩ := List.forall_mem_cons.mp h
    cases hr : m.resolve with
    | error f =>
      simp only [gathered, hr]
      exact NameSet.slashless_empty
    | ok names =>
      simp only [gathered, hr]
      exact (Mention.slashless_resolve hm hr).union (ih hms)

theorem normal_internals (names : List String) :
    ∀ m ∈ names.map Mention.internal, m.Normal :=
  List.forall_mem_map.mpr fun _ _ => trivial

theorem normal_typeMention (signature : Option String) (desc : String) :
    (typeMention signature desc).Normal := by
  cases signature <;> trivial

theorem normal_ownerMention (name : String) : (ownerMention name).Normal := by
  unfold ownerMention
  split <;> trivial

theorem normal_one {m : Mention} (h : m.Normal) : ∀ m' ∈ [m], m'.Normal :=
  List.forall_mem_singleton.mpr h

theorem ClassEvent.normal_mentions (e : ClassEvent) : ∀ m ∈ e.mentions, m.Normal := by
  cases e with
  | header version access name signature superName interfaces =>
    cases signature with
    | none => exact normal_internals _
    | some signature => exact normal_one trivial
  | annotated a => exact normal_one trivial
  | typeAnnotated a => exact normal_one trivial
  | field access name desc signature value =>
    exact List.forall_mem_cons.mpr ⟨normal_typeMention signature desc, normal_one trivial⟩
  | method access name desc signature exceptions =>
    cases signature with
    | none => exact List.forall_mem_cons.mpr ⟨trivial, normal_internals _⟩
    | some signature => exact List.forall_mem_cons.mpr ⟨trivial, normal_internals _⟩
  | _ => exact List.forall_mem_nil _

theorem MethodEvent.normal_mentions {L : Type} (e : MethodEvent L) :
    ∀ m ∈ e.mentions, m.Normal := by
  cases e with
  | type op desc => exact normal_one (normal_ownerMention desc)
  | method op owner name desc isInterface => exact normal_one (normal_ownerMention owner)
  | handler start stop target caught => exact normal_internals _
  | localVariable name desc signature start stop index =>
    exact normal_one (normal_typeMention signature desc)
  | _ => first | exact List.forall_mem_nil _ | exact normal_one trivial

/-- No event hands over names to be taken as they are. -/
theorem Event.normal_mentions {L : Type} (e : Event L) : ∀ m ∈ e.mentions, m.Normal := by
  cases e with
  | classFile e => exact e.normal_mentions
  | method e => exact e.normal_mentions
  | field e => cases e <;> first | exact List.forall_mem_nil _ | exact normal_one trivial
  | value e => cases e <;> first | exact List.forall_mem_nil _ | exact normal_one trivial

end Mentions

namespace Action

/-- The action hands over no name with a slash to be taken as it is. -/
def Normalises : Action → Prop
  | .add ms => ∀ m ∈ ms, m.Normal
  | _ => True

theorem Normalises.normal_mentions {a : Action} (h : a.Normalises) :
    ∀ m ∈ a.mentions, m.Normal := by
  cases a with
  | add ms => exact h
  | visit e => exact e.normal_mentions
  | replay document =>
    cases hd : Trace.ofJson noOrigin document with
    | error e =>
      simp only [mentions, hd]
      exact List.forall_mem_nil _
    | ok t =>
      simp only [mentions, hd, Playback.mentions_eq]
      exact List.forall_mem_flatMap.mpr fun e _ => e.normal_mentions
  | _ => exact List.forall_mem_nil _

theorem Normalises.slashless_effect {a : Action} (h : a.Normalises) {known : NameSet}
    (hknown : known.Slashless) : (a.effect known).names.Slashless := by
  by_cases hc : a.Collects
  · rw [effect_names hc]
    exact hknown.union (slashless_gathered h.normal_mentions)
  · cases a with
    | add ms => exact absurd trivial hc
    | visit e => exact absurd trivial hc
    | replay document => exact absurd trivial hc
    | clear => exact NameSet.slashless_empty
    | _ => exact hknown

end Action

namespace Workspace

/-- No collector holds a name with a slash. -/
def Slashless (w : Workspace) : Prop := ∀ collector, (w.contents collector).Slashless

theorem Slashless.act {w : Workspace} (hw : w.Slashless) (listener : String) {a : Action}
    (h : a.Normalises) : (w.act listener a).1.Slashless := by
  intro collector
  rw [contents_act_eq]
  split
  · exact h.slashless_effect (hw collector)
  · exact hw collector

theorem Slashless.run {w : Workspace} (hw : w.Slashless) {ss : List Step}
    (h : ∀ s ∈ ss, s.action.Normalises) : (w.run ss).Slashless := by
  induction ss generalizing w with
  | nil => exact hw
  | cons s ss ih =>
    obtain ⟨hs, hss⟩ := List.forall_mem_cons.mp h
    exact ih (hw.act s.listener hs) hss

end Workspace

/-- Whatever is done with collectors, if no name with a slash is handed over to be taken as it is,
then they hold none: not after events, documents, type constants that were not checked, nor any that
failed. The names in all descriptors and signatures that can be decoded are not empty, and have no
slash and no semicolon. -/
theorem stored_names_canonical :
    (∀ (owner : String → String) (ss : List Step), (∀ s ∈ ss, s.action.Normalises) →
      ∀ collector, ∀ x ∈ ((Workspace.fresh owner).run ss).contents collector, '/' ∉ x.toList) ∧
    (∀ (text : String) (names : NameSet), decodeDescriptor text = .ok names →
      ∀ x ∈ names, Canonical x) ∧
    ∀ (kind : SignatureKind) (text : String) (names : NameSet),
      decodeSignature kind text = .ok names → ∀ x ∈ names, Canonical x := by
  refine ⟨?_, ?_, ?_⟩
  · intro owner ss h collector
    have hfresh : (Workspace.fresh owner).Slashless := fun _ => NameSet.slashless_empty
    exact hfresh.run h collector
  · intro text names h
    exact decodeDescriptor_canonical h
  · intro kind text names h
    exact decodeSignature_canonical h

namespace Drawer

/-- A class that names another one, and then a field that cannot be decoded. -/
def document : Json := .object
  [("name", .string "app/Drawer"), ("super", .string "app/Box"),
   ("fields", .list [.object [("name", .string "knob"), ("desc", .string "Lapp/Knob")]])]

/-- Two listeners with one collector. The type constants were not checked: there is a name to cut
out of the first and none in the second, which fails, as the document does. -/
def steps : List Step :=
  [⟨"a", .add [.internal "app/Lost"]⟩, ⟨"b", .clear⟩, ⟨"a", .add [.constant (.type ⟨"Lapp/in/"⟩)]⟩,
   ⟨"b", .add [.internal "app/Rail", .constant (.type ⟨"[/;"⟩)]⟩, ⟨"b", .replay document⟩,
   ⟨"a", .visit (.value (.enumConstant none "[Lapp/Side;" "app/LEFT"))⟩]

theorem normalises : ∀ s ∈ steps, s.action.Normalises := by
  simp [steps, Action.Normalises, Mention.Normal]

/-- `(Lapp/Box;I)V` -/
def closing : MethodType where
  parameters := [⟨0, .object ⟨"app/Box".toList, by decide, by decide⟩⟩, ⟨0, .primitive .int⟩]
  result := .void

theorem decode_closing : decodeDescriptor "(Lapp/Box;I)V" = .ok (.ofList ["app.Box"]) :=
  decodeDescriptor_eq_ok_iff.mpr ⟨.method closing, by decide, by decide⟩

end Drawer

open Drawer in
theorem stored_names_canonical_drawer :
    ((Workspace.fresh fun _ => "").run steps).contents "" =
      .ofList ["app.in", "app.Rail", "app.Box", "app.Side"] ∧
    (∀ x ∈ ((Workspace.fresh fun _ => "").run steps).contents "", '/' ∉ x.toList) ∧
    decodeDescriptor "(Lapp/Box;I)V" = .ok (.ofList ["app.Box"]) ∧
    (∀ x ∈ NameSet.ofList ["app.Box"], Canonical x) ∧
    decodeSignature .type "Lapp/Box<-Lapp/Rail;>.Lid;" =
      .ok (.ofList ["app.Box", "app.Rail", "app.Box$Lid"]) ∧
    ∀ x ∈ NameSet.ofList ["app.Box", "app.Rail", "app.Box$Lid"], Canonical x :=
  ⟨rfl, stored_names_canonical.1 _ steps normalises "",
    decode_closing, stored_names_canonical.2.1 _ _ decode_closing,
    rfl, stored_names_canonical.2.2 .type "Lapp/Box<-Lapp/Rail;>.Lid;" _ rfl⟩

end ClassUsage
