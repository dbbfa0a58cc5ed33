import ClassUsage.Proofs.Trace.Faults
import ClassUsage.Proofs.Workspace.Union

/-!
What is left of a failure. A call takes up at most one text that has to be decoded, and takes it up
first; so a call that fails in decoding has added nothing. A document that cannot be gone through to its
end leaves what the calls before the failure have added.
-/
namespace ClassUsage

section Mentions

variable {L : Type} {ms : List Mention} {e : DecodingError}

/-- The mention holds no text that has to be decoded. -/
def Mention.Undecoded (m : Mention) : Prop := ∀ e, m.resolve ≠ .error (.decoding e)

theorem undecoded_internal (name : String) : (Mention.internal name).Undecoded := nofun

/-- Constants are not decoded again; one that was not checked can lack a sort. -/
theorem undecoded_constant (c : Value) : (Mention.constant c).Undecoded := by
  intro e h
  cases c with
  | type t =>
    obtain ⟨fault, -, hfault⟩ := mapError_eq_error.mp h
    contradiction
  | _ => contradiction

theorem undecoded_internals (names : List String) :
    ∀ m ∈ names.map Mention.internal, m.Undecoded := by
  intro m hm
  obtain ⟨name, -, rfl⟩ := List.mem_map.mp hm
  exact undecoded_internal name

/-- The form of a document is never at fault for a mention. -/
theorem Mention.resolve_ne_trace (m : Mention) (e : TraceError) : m.resolve ≠ .error (.trace e) := by
  intro h
  cases m with
  | internal name => contradiction
  | verbatim names => contradiction
  | descriptor desc =>
    obtain ⟨fault, -, hfault⟩ := mapError_eq_error.mp h
    contradiction
  | signature kind text =>
    obtain ⟨fault, -, hfault⟩ := mapError_eq_error.mp h
    contradiction
  | constant c =>
    cases c with
    | type t =>
      obtain ⟨fault, -, hfault⟩ := mapError_eq_error.mp h
      contradiction
    | _ => contradiction

theorem exists_of_firstFault {f : Fault} (h : firstFault ms = some f) :
    ∃ m ∈ ms, m.resolve = .error f := by
  induction ms with
  | nil => contradiction
  | cons m ms ih =>
    cases hr : m.resolve with
    | ok names =>
      simp only [firstFault, hr] at h
      obtain ⟨m', hm', hfault⟩ := ih h
      exact ⟨m', List.mem_cons_of_mem m hm', hfault⟩
    | error g =>
      simp only [firstFault, hr, Option.some.injEq] at h
      exact ⟨m, List.mem_cons_self, h ▸ hr⟩

/-- A text that has to be decoded is taken up before anything else. -/
def DecodesFirst (ms : List Mention) : Prop := ∀ m ∈ ms.tail, m.Undecoded

theorem decodesFirst_of_undecoded (h : ∀ m ∈ ms, m.Undecoded) : DecodesFirst ms :=
  fun m hm => h m (List.mem_of_mem_tail hm)

theorem decodesFirst_one (m : Mention) : DecodesFirst [m] := nofun

/-- If decoding fails, then with nothing added before. -/
theorem DecodesFirst.gathered_of_fault (h : DecodesFirst ms)
    (hf : firstFault ms = some (.decoding e)) : gathered ms = ∅ := by
  cases ms with
  | nil => contradiction
  | cons m ms =>
    cases hr : m.resolve with
    | error f => simp only [gathered, hr]
    | ok names =>
      simp only [firstFault, hr] at hf
      obtain ⟨m', hm', hfault⟩ := exists_of_firstFault hf
      exact absurd hfault (h m' hm' e)

theorem ClassEvent.decodesFirst (e : ClassEvent) : DecodesFirst e.mentions := by
  cases e with
  | header version access name signature superName interfaces =>
    cases signature with
    | none => exact decodesFirst_of_undecoded (undecoded_internals _)
    | some signature => exact decodesFirst_one _
  | field access name desc signature value =>
    intro m hm
    cases List.mem_singleton.mp hm
    exact undecoded_constant value
  | method access name desc signature exceptions =>
    cases signature with
    | none => exact undecoded_internals _
    | some signature => exact undecoded_internals _
  | _ => exact nofun

theorem MethodEvent.decodesFirst (e : MethodEvent L) : DecodesFirst e.mentions := by
  cases e with
  | handler start stop target caught => exact decodesFirst_of_undecoded (undecoded_internals _)
  | _ => exact nofun

theorem Event.decodesFirst (e : Event L) : DecodesFirst e.mentions := by
  cases e with
  | classFile e => exact e.decodesFirst
  | method e => exact e.decodesFirst
  | field e => cases e <;> exact nofun
  | value e => cases e <;> exact nofun

end Mentions

/-- The operations that add to a collector, with what they are given. -/
inductive Addition where
  | name (internal : String)
  | names (internal : Option (List String))
  | descriptor (text : String)
  | constant (c : Value)
  | classNames (dotted : List String)

def Addition.mentions : Addition → List Mention
  | .name internal => [.internal internal]
  | .names internal => (internal.getD []).map .internal
  | .descriptor text => [.descriptor text]
  | .constant c => [.constant c]
  | .classNames dotted => [.verbatim dotted]

theorem Addition.decodesFirst (a : Addition) : DecodesFirst a.mentions := by
  cases a with
  | names internal => exact decodesFirst_of_undecoded (undecoded_internals _)
  | _ => exact decodesFirst_one _

namespace Action

variable {a : Action} {e : DecodingError}

/-- The actions that are one call: an operation of a collector, or being told of one event. -/
def IsCall : Action → Prop
  | .add ms => ∃ addition : Addition, addition.mentions = ms
  | .replay _ => False
  | _ => True

theorem IsCall.decodesFirst (h : a.IsCall) : DecodesFirst a.mentions := by
  cases a with
  | add ms =>
    obtain ⟨addition, rfl⟩ := h
    exact addition.decodesFirst
  | visit e => exact e.decodesFirst
  | replay document => contradiction
  | _ => exact nofun

theorem fault_of_answer {f : Fault} (h : a.answer = .error f) : a.fault = some f := by
  unfold answer replyOf at h
  split at h
  · next g hg => rw [hg, Except.error.inj h]
  · contradiction

theorem IsCall.ending_eq_none (h : a.IsCall) : a.ending = none := by
  cases a with
  | replay document => contradiction
  | _ => rfl

theorem IsCall.contribution_of_failed (h : a.IsCall) (hf : a.answer = .error (.decoding e)) :
    a.contribution = ∅ := by
  have hfault := fault_of_answer hf
  rw [fault, h.ending_eq_none, Option.or_none] at hfault
  exact h.decodesFirst.gathered_of_fault hfault

end Action

namespace Workspace

variable {w : Workspace} {listener : String}

/-- A collector that gets nothing new is as it was. -/
theorem set_namesOf (w : Workspace) (listener : String) :
    set w.contents (w.owner listener) (w.namesOf listener) = w.contents := by
  funext collector
  by_cases hc : collector = w.owner listener
  · simp [set, namesOf, hc]
  · simp [set, hc]

theorem reply_of_not_collects {a : Action} (h : ¬ a.Collects) :
    ∃ reply, (w.act listener a).2 = .ok reply := by
  cases a with
  | add ms => exact absurd trivial h
  | visit e => exact absurd trivial h
  | replay document => exact absurd trivial h
  | _ => exact ⟨_, rfl⟩

/-- A call that fails in decoding changes nothing. -/
theorem act_of_failed {a : Action} {e : DecodingError} (h : a.IsCall)
    (hf : (w.act listener a).2 = .error (.decoding e)) : (w.act listener a).1 = w := by
  by_cases hc : a.Collects
  · rw [act_collecting hc] at hf ⊢
    rw [h.contribution_of_failed hf, NameSet.union_empty, set_namesOf]
  · obtain ⟨reply, hreply⟩ : ∃ reply, (w.act listener a).2 = .ok reply := reply_of_not_collects hc
    rw [hreply] at hf
    contradiction

end Workspace

section Replays

variable {L : Type}

/-- Going through a document fails with `f` after the calls for the events `completed`: there is no
class name and no call is made, or the document is at fault after the last call, or the call for the
next event fails. -/
inductive FailsAfter (document : Json) : List (Event Label) → Fault → Prop
  | unnamed {e : TraceError} (h : Trace.ofJson noOrigin document = .error e) :
      FailsAfter document [] (.trace e)
  | form {t : Trace} {f : Fault} (ht : Trace.ofJson noOrigin document = .ok t)
      (hf : (t.traversal.play fun _ => true).fault = some f) :
      FailsAfter document (t.traversal.play fun _ => true).events f
  | call {t : Trace} {completed later : List (Event Label)} {e : Event Label} {f : Fault}
      (ht : Trace.ofJson noOrigin document = .ok t)
      (hevents : (t.traversal.play fun _ => true).events = completed ++ e :: later)
      (hf : (Action.visit e).answer = .error f) : FailsAfter document completed f

theorem Playback.mentions_eq (p : Playback L) : p.mentions = p.events.flatMap Event.mentions := by
  obtain ⟨ns, fault⟩ := p
  simp only [mentions, events]
  induction ns with
  | nil => rfl
  | cons n ns ih =>
    cases n with
    | warning w => exact ih
    | event e => simp [Notice.mentions, ih]

/-- Events in a row either can all be resolved, or there is a first that cannot. -/
theorem events_up_to_fault (es : List (Event L)) :
    (firstFault (es.flatMap Event.mentions) = none ∧ ∀ e ∈ es, firstFault e.mentions = none) ∨
      ∃ completed e later f, es = completed ++ e :: later ∧
        (∀ c ∈ completed, firstFault c.mentions = none) ∧ firstFault e.mentions = some f ∧
        firstFault (es.flatMap Event.mentions) = some f ∧
        gathered (es.flatMap Event.mentions) =
          gathered (completed.flatMap Event.mentions) ∪ gathered e.mentions := by
  induction es with
  | nil => exact .inl ⟨rfl, List.forall_mem_nil _⟩
  | cons e es ih =>
    rw [List.flatMap_cons, firstFault_append]
    cases hf : firstFault e.mentions with
    | some f =>
      refine .inr ⟨[], e, es, f, rfl, List.forall_mem_nil _, hf, rfl, ?_⟩
      rw [gathered_append_of_fault hf]
      exact (NameSet.empty_union _).symm
    | none =>
      rw [gathered_append_of_none hf]
      rcases ih with ⟨hnone, hall⟩ | ⟨completed, e', later, f, rfl, hall, he', hfault, hnames⟩
      · exact .inl ⟨hnone, List.forall_mem_cons.mpr ⟨hf, hall⟩⟩
      · refine .inr ⟨e :: completed, e', later, f, rfl, List.forall_mem_cons.mpr ⟨hf, hall⟩, he',
          hfault, ?_⟩
        rw [hnames, List.flatMap_cons, gathered_append_of_none hf, NameSet.union_assoc]

end Replays

namespace Workspace

variable {w : Workspace} {listener : String}

/-- A listener is told of events. -/
def callbacks (listener : String) (es : List (Event Label)) : List Step :=
  es.map fun e => ⟨listener, .visit e⟩

theorem collects_callbacks (listener : String) (es : List (Event Label)) :
    ∀ s ∈ callbacks listener es, s.action.Collects := by
  intro s hs
  obtain ⟨e, -, rfl⟩ := List.mem_map.mp hs
  trivial

/-- Calls that all return contribute what their mentions gather. -/
theorem contributed_callbacks (w : Workspace) (listener collector : String) (es : List (Event Label))
    (h : ∀ e ∈ es, firstFault e.mentions = none) :
    w.contributed collector (callbacks listener es) =
      if w.owner listener = collector then gathered (es.flatMap Event.mentions) else ∅ := by
  induction es with
  | nil => exact (ite_self _).symm
  | cons e es ih =>
    obtain ⟨he, hes⟩ := List.forall_mem_cons.mp h
    have hrest := ih hes
    by_cases ho : w.owner listener = collector
    · rw [if_pos ho] at hrest ⊢
      rw [List.flatMap_cons, gathered_append_of_none he, ← hrest]
      exact if_pos ho
    · rw [if_neg ho] at hrest ⊢
      exact (if_neg ho).trans hrest

theorem answer_visit_of_none {e : Event Label} (h : firstFault e.mentions = none) :
    ∃ reply, (Action.visit e).answer = .ok reply := by
  simp [Action.answer, Action.fault, Action.mentions, Action.ending, h, replyOf]

theorem answer_visit_of_fault {e : Event Label} {f : Fault} (h : firstFault e.mentions = some f) :
    (Action.visit e).answer = .error f := by
  simp [Action.answer, Action.fault, Action.mentions, Action.ending, h, replyOf]

/-- The calls up to a failure, whose contribution is that of the whole document. -/
theorem exists_completed {document : Json} {f : Fault}
    (h : (Action.replay document).answer = .error f) :
    ((∃ e, f = .trace e) ∨ ∃ e, f = .decoding e) ∧
      ∃ completed, FailsAfter document completed f ∧
        (∀ e ∈ completed, firstFault e.mentions = none) ∧
        (Action.replay document).contribution = gathered (completed.flatMap Event.mentions) := by
  have hfault := Action.fault_of_answer h
  cases ht : Trace.ofJson noOrigin document with
  | error e =>
    have hf : f = .trace e := by
      simpa [Action.fault, Action.mentions, Action.ending, ht, firstFault] using hfault.symm
    subst hf
    refine ⟨.inl ⟨e, rfl⟩, [], .unnamed ht, List.forall_mem_nil _, ?_⟩
    simp only [Action.contribution, Action.mentions, ht, List.flatMap_nil]
  | ok t =>
    have honly := (sound_traversal t).play fun _ => true
    have hcontribution : (Action.replay document).contribution =
        gathered ((t.traversal.play fun _ => true).events.flatMap Event.mentions) := by
      simp only [Action.contribution, Action.mentions, ht, Playback.mentions_eq]
    simp only [Action.fault, Action.mentions, Action.ending, ht, Playback.mentions_eq] at hfault
    rw [hcontribution]
    rcases events_up_to_fault (t.traversal.play fun _ => true).events with
      ⟨hnone, hall⟩ | ⟨completed, e, later, g, hevents, hall, he, hfirst, hnames⟩
    · rw [hnone, Option.none_or] at hfault
      refine ⟨?_, _, .form ht hfault, hall, rfl⟩
      have hwithin := honly.fault f hfault
      cases f with
      | trace e => exact .inl ⟨e, rfl⟩
      | decoding e => exact .inr ⟨e, rfl⟩
      | type e => exact hwithin.elim
    · rw [hfirst, Option.some_or] at hfault
      cases hfault
      have hfailed := FailsAfter.call ht hevents (answer_visit_of_fault he)
      -- the type constants of a document are checked, so it was decoding that failed
      have hsound : e.Sound t.members.HasText := honly.events e (by simp [hevents])
      obtain ⟨m, hm, hresolve⟩ := exists_of_firstFault he
      have hwithin := (hsound m hm).faultsIn f hresolve
      cases f with
      | type fault => exact hwithin.elim
      | trace fault => exact absurd hresolve (m.resolve_ne_trace fault)
      | decoding fault =>
        refine ⟨.inr ⟨fault, rfl⟩, completed, hfailed, hall, ?_⟩
        rw [hnames, e.decodesFirst.gathered_of_fault he, NameSet.union_empty]

/-- A call that fails in decoding leaves everything as it was. A document that cannot be gone through
fails by its form or in decoding, and leaves what is left by just the calls made before the failure:
every collector holds what it held and what those calls contribute, and the call that failed
contributes nothing. -/
theorem failure_leaves_completed_calls (w : Workspace) (listener : String) :
    (∀ (a : Action) e, a.IsCall → (w.act listener a).2 = .error (.decoding e) →
      (w.act listener a).1 = w) ∧
    ∀ document f, (w.act listener (.replay document)).2 = .error f →
      ((∃ e, f = .trace e) ∨ ∃ e, f = .decoding e) ∧
      ∃ completed, FailsAfter document completed f ∧
        (∀ reply ∈ w.replies (callbacks listener completed), ∃ r, reply = .ok r) ∧
        (w.act listener (.replay document)).1 = w.run (callbacks listener completed) ∧
        ∀ c, (w.act listener (.replay document)).1.contents c =
          w.contents c ∪ w.contributed c (callbacks listener completed) := by
  refine ⟨fun a e => act_of_failed, ?_⟩
  intro document f hf
  have hreplay : (Action.replay document).Collects := trivial
  rw [act_collecting hreplay] at hf ⊢
  obtain ⟨hkind, completed, hfails, hall, hcontribution⟩ := exists_completed hf
  have hcontents : ∀ c, set w.contents (w.owner listener)
      (w.namesOf listener ∪ (Action.replay document).contribution) c =
        w.contents c ∪ w.contributed c (callbacks listener completed) := by
    intro c
    rw [contributed_callbacks w listener c completed hall, hcontribution]
    by_cases hc : c = w.owner listener
    · simp [set, namesOf, hc]
    · simp [set, hc, Ne.symm hc]
  refine ⟨hkind, completed, hfails, ?_, ?_, hcontents⟩
  · rw [replies_collecting (collects_callbacks listener completed)]
    intro reply hreply
    obtain ⟨s, hs, rfl⟩ := List.mem_map.mp hreply
    obtain ⟨e, he, rfl⟩ := List.mem_map.mp hs
    exact answer_visit_of_none (hall e he)
  · rw [run_collecting (collects_callbacks listener completed)]
    simp only [funext hcontents]

namespace Lockers

/-- The descriptor breaks off, and a class literal stands beside it. -/
def lock : ClassEvent :=
  .field (.number 0) "lock" "Lapp/Lock" none (.type ⟨"Lapp/Key;"⟩)

/-- The second field cannot be decoded. -/
def locker : Json :=
  .object [("name", .string "app/Locker"), ("super", .string "app/Box"), ("fields", .list
    [.object [("name", .string "lid"), ("desc", .string "Lapp/Lid;")],
     .object [("name", .string "lock"), ("desc", .string "Lapp/Lock"),
       ("value", .object [("type", .string "Lapp/Key;")])],
     .object [("name", .string "shelf"), ("desc", .string "Lapp/Shelf;")]])]

def brokenOff : Fault := .decoding ⟨"Lapp/Lock", 0, .unterminatedObjectType⟩

end Lockers

open Lockers in
/-- Of the locker its superclass and its lid are left, and nothing of the field that failed. -/
theorem failure_leaves_completed_calls_locker :
    ((start true).act "a" (.visit (.classFile lock))).1 = start true ∧
    ((start true).act "a" (.replay locker)).1.contents "" = .ofList ["app.Box", "app.Lid"] ∧
    ∃ completed, FailsAfter locker completed brokenOff ∧
      ((start true).act "a" (.replay locker)).1 = (start true).run (callbacks "a" completed) := by
  obtain ⟨hcalls, hreplays⟩ := failure_leaves_completed_calls (start true) "a"
  have hlock := hcalls (.visit (.classFile lock)) _ trivial rfl
  obtain ⟨-, completed, hfails, -, hrun, -⟩ := hreplays locker brokenOff rfl
  exact ⟨hlock, rfl, completed, hfails, hrun⟩

end Workspace

end ClassUsage
