import ClassUsage.Workspace

/-!
What an action adds to a collector. Mentions are taken up in order until one cannot be resolved, so
what they add and how they end is known before anything is known of the collector: the names of an
action that collects are put to those that are there, and its reply is the same for every collector.
-/
namespace ClassUsage

section Mentions

/-- The names of mentions, up to the first that cannot be resolved. -/
def gathered : List Mention → NameSet
  | [] => ∅
  | m :: ms =>
    match m.resolve with
    | .ok names => names ∪ gathered ms
    | .error _ => ∅

/-- The fault of the first mention that cannot be resolved. -/
def firstFault : List Mention → Option Fault
  | [] => none
  | m :: ms =>
    match m.resolve with
    | .ok _ => firstFault ms
    | .error f => some f

theorem firstFault_append (ms ns : List Mention) :
    firstFault (ms ++ ns) = (firstFault ms).or (firstFault ns) := by
  induction ms with
  | nil => rfl
  | cons m ms ih =>
    cases hr : m.resolve with
    | ok names => simpa [firstFault, hr] using ih
    | error f => simp [firstFault, hr]

/-- Behind a mention that cannot be resolved nothing is gathered. -/
theorem gathered_append_of_fault {ms : List Mention} {f : Fault} (h : firstFault ms = some f)
    (ns : List Mention) : gathered (ms ++ ns) = gathered ms := by
  induction ms with
  | nil => contradiction
  | cons m ms ih =>
    cases hr : m.resolve with
    | ok names =>
      simp only [firstFault, hr] at h
      simp only [List.cons_append, gathered, hr, ih h]
    | error f => simp only [List.cons_append, gathered, hr]

theorem gathered_append_of_none {ms : List Mention} (h : firstFault ms = none) (ns : List Mention) :
    gathered (ms ++ ns) = gathered ms ∪ gathered ns := by
  induction ms with
  | nil => exact (NameSet.empty_union _).symm
  | cons m ms ih =>
    cases hr : m.resolve with
    | ok names =>
      simp only [firstFault, hr] at h
      simp only [List.cons_append, gathered, hr, ih h, NameSet.union_assoc]
    | error f => simp [firstFault, hr] at h

/-- Taking up mentions adds what they gather, and ends as they do. -/
theorem takeUp_adds (known : NameSet) (ms : List Mention) :
    (takeUp known ms).names = known ∪ gathered ms ∧ (takeUp known ms).fault = firstFault ms := by
  induction ms generalizing known with
  | nil => exact ⟨(NameSet.union_empty known).symm, rfl⟩
  | cons m ms ih =>
    cases hr : m.resolve with
    | ok names =>
      obtain ⟨hnames, hfault⟩ := ih (known ∪ names)
      simp only [takeUp, gathered, firstFault, hr]
      exact ⟨hnames.trans (NameSet.union_assoc ..), hfault⟩
    | error f => simp [takeUp, gathered, firstFault, hr]

end Mentions

section Playbacks

variable {L : Type}

/-- The mentions of what is noticed. Warnings name nothing. -/
def Notice.mentions : Notice L → List Mention
  | .warning _ => []
  | .event e => e.mentions

def Playback.mentions (p : Playback L) : List Mention := p.notices.flatMap Notice.mentions

/-- A collector goes through all the mentions of a playback as through one list of them. -/
theorem collect_adds (ending : Option Fault) (known : NameSet) (ns : List (Notice L)) :
    (collect ending known ns).names = known ∪ gathered (ns.flatMap Notice.mentions) ∧
      (collect ending known ns).fault = (firstFault (ns.flatMap Notice.mentions)).or ending := by
  induction ns generalizing known with
  | nil => exact ⟨(NameSet.union_empty known).symm, rfl⟩
  | cons n ns ih =>
    cases n with
    | warning w => exact ih known
    | event e =>
      obtain ⟨hnames, hfault⟩ := takeUp_adds known e.mentions
      simp only [List.flatMap_cons, Notice.mentions, firstFault_append]
      cases hf : firstFault e.mentions with
      | some f =>
        rw [gathered_append_of_fault hf]
        simp only [collect, hfault, hf, hnames]
        exact ⟨trivial, rfl⟩
      | none =>
        obtain ⟨hrest, hend⟩ := ih (known ∪ gathered e.mentions)
        rw [gathered_append_of_none hf, ← NameSet.union_assoc, ← hrest]
        simp only [collect, hfault, hf, hnames]
        exact ⟨rfl, hend⟩

theorem Trace.replay_adds (known : NameSet) (t : Trace) :
    (t.replay known).names = known ∪ gathered (t.traversal.play fun _ => true).mentions ∧
      (t.replay known).fault =
        (firstFault (t.traversal.play fun _ => true).mentions).or
          (t.traversal.play fun _ => true).fault := by
  simp only [Trace.replay, Trace.collect, Playback.collect, Playback.mentions]
  exact collect_adds _ known _

end Playbacks

namespace Action

/-- The actions that collect: those that take up mentions, tell of an event or go through a
document. -/
def Collects : Action → Prop
  | .add _ => True
  | .visit _ => True
  | .replay _ => True
  | _ => False

instance : DecidablePred Collects := fun a =>
  match a with
  | .add _ | .visit _ | .replay _ => isTrue trivial
  | .ignore | .clear | .size | .contains _ | .names | .keep | .kept | .addKept _ => isFalse id

/-- All the mentions an action comes upon. -/
def mentions : Action → List Mention
  | .add ms => ms
  | .visit e => e.mentions
  | .replay document =>
    match Trace.ofJson noOrigin document with
    | .ok t => (t.traversal.play fun _ => true).mentions
    | .error _ => []
  | _ => []

/-- The fault an action ends with if all its mentions can be resolved. -/
def ending : Action → Option Fault
  | .replay document =>
    match Trace.ofJson noOrigin document with
    | .ok t => (t.traversal.play fun _ => true).fault
    | .error e => some (.trace e)
  | _ => none

/-- What an action that collects adds to a collector. -/
def contribution (a : Action) : NameSet := gathered a.mentions

def fault (a : Action) : Option Fault := (firstFault a.mentions).or a.ending

/-- The reply to an action that collects. -/
def answer (a : Action) : Except Fault Reply :=
  replyOf a.fault <|
    match a with
    | .visit e =>
      match e.opens with
      | some s => .opened s
      | none => .nothing
    | _ => .nothing

theorem effect_names {a : Action} (h : a.Collects) (known : NameSet) :
    (a.effect known).names = known ∪ a.contribution := by
  cases a with
  | add ms => exact (takeUp_adds known ms).1
  | visit e => exact (takeUp_adds known e.mentions).1
  | replay document =>
    cases hd : Trace.ofJson noOrigin document with
    | error e => simp [effect, contribution, mentions, hd, gathered]
    | ok t =>
      simp only [effect, contribution, mentions, hd]
      exact (t.replay_adds known).1
  | _ => contradiction

theorem effect_reply {a : Action} (h : a.Collects) (known : NameSet) :
    (a.effect known).reply = a.answer := by
  cases a with
  | add ms =>
    simp only [effect, answer, fault, mentions, ending, (takeUp_adds known ms).2, Option.or_none]
  | visit e =>
    have hfault := (takeUp_adds known e.mentions).2
    cases ho : e.opens with
    | none => simp only [effect, answer, fault, mentions, ending, hfault, ho, Option.or_none]
    | some s => simp only [effect, answer, fault, mentions, ending, hfault, ho, Option.or_none]
  | replay document =>
    cases hd : Trace.ofJson noOrigin document with
    | error e => simp [effect, answer, fault, mentions, ending, hd, firstFault, replyOf]
    | ok t =>
      simp only [effect, answer, fault, mentions, ending, hd]
      rw [(t.replay_adds known).2]
  | _ => contradiction

/-- A document is gone through without a fault just if it can be analysed, and contributes what the
analysis finds. -/
theorem answer_replay_iff (document : Json) :
    (Action.replay document).answer = .ok .nothing ↔
      ∃ t, Trace.ofJson noOrigin document = .ok t ∧
        t.analyze.result = .ok (Action.replay document).contribution := by
  cases hd : Trace.ofJson noOrigin document with
  | error e => simp [answer, fault, mentions, ending, hd, firstFault, replyOf]
  | ok t =>
    obtain ⟨hnames, hfault⟩ := t.replay_adds ∅
    simp only [Except.ok.injEq, exists_eq_left']
    simp only [answer, fault, contribution, mentions, ending, hd, ← hfault, Trace.analyze]
    cases (t.replay ∅).fault with
    | some f => simp [replyOf]
    | none => simp [replyOf, hnames]

end Action

end ClassUsage
