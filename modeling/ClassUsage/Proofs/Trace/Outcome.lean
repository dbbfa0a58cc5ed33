import Mathlib.Data.Option.NAry
import ClassUsage.Analysis
import ClassUsage.Proofs.Trace.Naming

/-!
What comes of a way through a class, apart from the order in which things are met: the names of all
its events together, or nothing if anything goes wrong. Outcomes are put together in any order and any
grouping with the same result, and the analysis of a recorded class gives the outcome of the way
through it.
-/
namespace ClassUsage

section Together

/-- Two outcomes together: the names of both, unless one of them failed. -/
def together (a b : Option NameSet) : Option NameSet := Option.map₂ (· ∪ ·) a b

variable (a b c : Option NameSet)

theorem together_comm : together a b = together b a :=
  Option.map₂_comm NameSet.union_comm

theorem together_assoc : together (together a b) c = together a (together b c) :=
  Option.map₂_assoc NameSet.union_assoc

theorem together_left_comm : together a (together b c) = together b (together a c) :=
  Option.map₂_left_comm NameSet.union_left_comm

@[simp] theorem together_none : together a none = none := Option.map₂_none_right _ a

@[simp] theorem none_together : together none a = none := Option.map₂_none_left _ a

@[simp] theorem together_empty : together a (some ∅) = a := by
  cases a <;> simp [together]

@[simp] theorem empty_together : together (some ∅) a = a := by
  rw [together_comm, together_empty]

end Together

section Mentions

variable {L M : Type}

/-- What comes of mentions: all their names, unless one cannot be resolved. -/
def mentionsOutcome : List Mention → Option NameSet
  | [] => some ∅
  | m :: ms => together m.resolve.toOption (mentionsOutcome ms)

def Event.outcome (e : Event L) : Option NameSet := mentionsOutcome e.mentions

theorem Event.outcome_map (f : L → M) (e : Event L) : (e.map f).outcome = e.outcome := by
  rw [outcome, mentions_map, outcome]

theorem mentionsOutcome_perm {ms ms' : List Mention} (h : ms.Perm ms') :
    mentionsOutcome ms = mentionsOutcome ms' := by
  induction h with
  | nil => rfl
  | cons m _ ih => rw [mentionsOutcome, mentionsOutcome, ih]
  | swap m n ms => exact together_left_comm _ _ _
  | trans _ _ ih ih' => exact ih.trans ih'

/-- The names known afterwards, if no fault came up. -/
def Intake.outcome (i : Intake) : Option NameSet := if i.fault.isSome then none else some i.names

def Reading.outcome (r : Reading L) : Option NameSet := if r.fault.isSome then none else some r.names

/-- Taking up mentions adds their outcome to what is known. -/
theorem outcome_takeUp (known : NameSet) (ms : List Mention) :
    (takeUp known ms).outcome = together (some known) (mentionsOutcome ms) := by
  induction ms generalizing known with
  | nil => simp [takeUp, mentionsOutcome, Intake.outcome]
  | cons m ms ih =>
    cases hr : m.resolve with
    | error f => simp [takeUp, hr, mentionsOutcome, Except.toOption, Intake.outcome]
    | ok new =>
      have hnew : together (some known) (some new) = some (known ∪ new) := rfl
      have hrest := ih (known ∪ new)
      simp only [mentionsOutcome, hr, Except.toOption]
      rw [← together_assoc, hnew, ← hrest]
      simp [takeUp, hr, Intake.outcome]

end Mentions

namespace Traversal

variable {L M α β : Type} {a b : Traversal L}

/-- What comes of a way when every scope is wanted: the names of all its events. -/
def outcome : Traversal L → Option NameSet
  | .done => some ∅
  | .fail _ => none
  | .warn _ next => next.outcome
  | .visit e body next => together e.outcome (together body.outcome next.outcome)

@[simp] theorem outcome_event (e : Event L) : (event e).outcome = e.outcome := by
  simp [event, outcome]

@[simp] theorem outcome_scope (e : Event L) (body : Traversal L) :
    (scope e body).outcome = together e.outcome body.outcome := by
  simp [scope, outcome]

@[simp] theorem outcome_append (a b : Traversal L) :
    (a ++ b).outcome = together a.outcome b.outcome := by
  induction a with
  | done => exact (empty_together _).symm
  | fail f => rfl
  | warn w next ih => exact ih
  | visit e body next _ ih =>
    simp only [visit_append, outcome, ih, together_assoc]

theorem outcome_append_congr {a b : Traversal L} {a' b' : Traversal M} (ha : a.outcome = a'.outcome)
    (hb : b.outcome = b'.outcome) : (a ++ b).outcome = (a' ++ b').outcome := by
  rw [outcome_append, outcome_append, ha, hb]

theorem outcome_scope_congr {e : Event L} {e' : Event M} {body : Traversal L} {body' : Traversal M}
    (he : e.outcome = e'.outcome) (hbody : body.outcome = body'.outcome) :
    (scope e body).outcome = (scope e' body').outcome := by
  rw [outcome_scope, outcome_scope, he, hbody]

@[simp] theorem outcome_map (f : L → M) (t : Traversal L) : (t.map f).outcome = t.outcome := by
  induction t with
  | done => rfl
  | fail e => rfl
  | warn w next ih => exact ih
  | visit e body next ihBody ihNext => simp [map, outcome, Event.outcome_map, ihBody, ihNext]

/-- The order in which parts are gone through does not matter. -/
theorem outcome_each_perm {l l' : List α} (h : l.Perm l') (f : α → Traversal L) :
    (each l f).outcome = (each l' f).outcome := by
  induction h with
  | nil => rfl
  | cons x _ ih => simp [each, ih]
  | swap x y l =>
    simp only [each, outcome_append]
    exact together_left_comm _ _ _
  | trans _ _ ih ih' => exact ih.trans ih'

/-- Places that have no part in the outcome may as well be left out. -/
theorem outcome_each_zipIdx {α : Type} {f : α × Nat → Traversal L} {g : α → Traversal L}
    (h : ∀ a i, (f (a, i)).outcome = (g a).outcome) (l : List α) (start : Nat) :
    (each (l.zipIdx start) f).outcome = (each l g).outcome := by
  induction l generalizing start with
  | nil => rfl
  | cons a l ih => simp only [List.zipIdx_cons, each, outcome_append, h, ih]

end Traversal

section Analysis

variable {L : Type}

/-- What comes of notices that end with a fault or without. -/
def noticesOutcome (ending : Option Fault) : List (Notice L) → Option NameSet
  | [] => if ending.isSome then none else some ∅
  | .warning _ :: rest => noticesOutcome ending rest
  | .event e :: rest => together e.outcome (noticesOutcome ending rest)

def Playback.outcome (p : Playback L) : Option NameSet := noticesOutcome p.fault p.notices

theorem noticesOutcome_append (ending : Option Fault) (ns ms : List (Notice L)) :
    noticesOutcome ending (ns ++ ms) =
      together (noticesOutcome none ns) (noticesOutcome ending ms) := by
  induction ns with
  | nil => simp [noticesOutcome]
  | cons n ns ih =>
    cases n with
    | warning w => exact ih
    | event e => simp only [List.cons_append, noticesOutcome, ih, together_assoc]

theorem noticesOutcome_fault (f : Fault) (ns : List (Notice L)) :
    noticesOutcome (some f) ns = none := by
  induction ns with
  | nil => rfl
  | cons n ns ih =>
    cases n with
    | warning w => exact ih
    | event e => rw [noticesOutcome, ih, together_none]

theorem Playback.outcome_andThen (a b : Playback L) :
    (a.andThen b).outcome = together a.outcome b.outcome := by
  obtain ⟨ns, ending⟩ := a
  cases ending with
  | some f => simp [andThen, outcome, noticesOutcome_fault]
  | none => exact noticesOutcome_append b.fault ns b.notices

/-- A listener that wants every scope gets the outcome of the whole way. -/
theorem Traversal.outcome_play (t : Traversal L) :
    (t.play fun _ => true).outcome = t.outcome := by
  induction t with
  | done => rfl
  | fail f => rfl
  | warn w next ih => exact ih
  | visit e body next ihBody ihNext =>
    have hrest := Playback.outcome_andThen (body.play fun _ => true) (next.play fun _ => true)
    rw [ihBody, ihNext] at hrest
    rw [Traversal.outcome, ← hrest]
    rfl

/-- Collecting adds the outcome of the notices to what is known. -/
theorem outcome_collect (ending : Option Fault) (known : NameSet) (ns : List (Notice L)) :
    (collect ending known ns).outcome = together (some known) (noticesOutcome ending ns) := by
  induction ns generalizing known with
  | nil => cases ending <;> simp [collect, noticesOutcome, Reading.outcome]
  | cons n ns ih =>
    cases n with
    | warning w => exact ih known
    | event e =>
      have hintake := outcome_takeUp known e.mentions
      rw [noticesOutcome, ← together_assoc, Event.outcome, ← hintake]
      cases hf : (takeUp known e.mentions).fault with
      | some f => simp [collect, hf, Intake.outcome, Reading.outcome]
      | none =>
        simp only [collect, hf, Intake.outcome]
        exact ih _

/-- The analysis of a recorded class gives the outcome of the way through it. -/
theorem Trace.analyze_eq_outcome (t : Trace) :
    t.analyze.result.toOption = t.traversal.outcome := by
  have hcollect : (t.collect ∅).outcome = t.traversal.outcome := by
    rw [← Traversal.outcome_play, Trace.collect, Playback.collect, outcome_collect, empty_together,
      Playback.outcome]
  rw [← hcollect]
  cases hf : (t.collect ∅).fault with
  | some f => simp [analyze, replay, hf, Reading.outcome, Except.toOption]
  | none => simp [analyze, replay, hf, Reading.outcome, Except.toOption]

end Analysis

end ClassUsage
