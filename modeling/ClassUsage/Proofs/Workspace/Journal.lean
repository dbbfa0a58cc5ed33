import Mathlib.Data.List.Nodup
import ClassUsage.Proofs.Workspace.Union

/-!
What a collector logs. Every name is logged when it comes in and at no other time; so since a
collector was made or cleared the log lists its names, each once. Main statement: this holds after
all steps of all listeners, those that fail included, and of every analysis.
-/
namespace ClassUsage

section Logs

/-- The names that a log tells of as found. -/
def foundIn (log : List LogEntry) : List String :=
  log.filterMap fun
    | .dependency name => some name
    | _ => none

@[simp] theorem foundIn_nil : foundIn [] = [] := rfl

@[simp] theorem foundIn_append (log log' : List LogEntry) :
    foundIn (log ++ log') = foundIn log ++ foundIn log' := List.filterMap_append

@[simp] theorem foundIn_dependencies (names : List String) :
    foundIn (names.map .dependency) = names := by
  induction names with
  | nil => rfl
  | cons name names ih => exact congrArg (name :: ·) ih

/-- What is announced of an event is no name that was found. -/
@[simp] theorem foundIn_announced {L : Type} (e : Event L) : foundIn e.announced.toList = [] := by
  unfold Event.announced
  split <;> rfl

/-- From the names `known` to the names `after` just those were added that `found` lists, each once.
-/
structure Grows (known : NameSet) (found : List String) (after : NameSet) : Prop where
  nodup : found.Nodup
  fresh : ∀ x ∈ found, x ∉ known
  mem_iff : ∀ x, x ∈ after ↔ x ∈ known ∨ x ∈ found

theorem Grows.refl (known : NameSet) : Grows known [] known where
  nodup := .nil
  fresh := List.forall_mem_nil _
  mem_iff := by simp

theorem Grows.trans {known between after : NameSet} {found found' : List String}
    (h : Grows known found between) (h' : Grows between found' after) :
    Grows known (found ++ found') after where
  nodup := by
    refine h.nodup.append h'.nodup fun x hx hx' => ?_
    exact h'.fresh x hx' ((h.mem_iff x).mpr (.inr hx))
  fresh := by
    intro x hx hknown
    rcases List.mem_append.mp hx with hx | hx
    · exact h.fresh x hx hknown
    · exact h'.fresh x hx ((h.mem_iff x).mpr (.inl hknown))
  mem_iff := by
    intro x
    rw [h'.mem_iff, h.mem_iff, List.mem_append, or_assoc]

theorem grows_newIn (known new : NameSet) : Grows known (new.newIn known) (known ∪ new) where
  nodup := (new.sorted.imp fun hlt => Std.ne_of_lt hlt).filter _
  fresh := fun x hx => (NameSet.mem_newIn.mp hx).2
  mem_iff := by
    intro x
    by_cases hx : x ∈ known
    · simp [hx]
    · simp [hx]

end Logs

section Steps

theorem takeUp_grows (known : NameSet) (ms : List Mention) :
    Grows known (takeUp known ms).found (takeUp known ms).names := by
  induction ms generalizing known with
  | nil => exact .refl known
  | cons m ms ih =>
    cases hr : m.resolve with
    | error f =>
      simp only [takeUp, hr]
      exact .refl known
    | ok new =>
      simp only [takeUp, hr]
      exact (grows_newIn known new).trans (ih (known ∪ new))

variable {L : Type}

theorem Reading.foundIn_cons (o : Observation L) (r : Reading L) :
    foundIn (Reading.cons o r).log = foundIn o.log ++ foundIn r.log := by
  simp [Reading.log, Reading.cons]

theorem collect_grows (ending : Option Fault) (known : NameSet) (ns : List (Notice L)) :
    Grows known (foundIn (collect ending known ns).log) (collect ending known ns).names := by
  induction ns generalizing known with
  | nil => exact .refl known
  | cons n ns ih =>
    cases n with
    | warning w => exact ih known
    | event e =>
      have hevent := takeUp_grows known e.mentions
      cases hf : (takeUp known e.mentions).fault with
      | some f =>
        -- what the event names before the fault is there, and logged
        simp only [collect, hf]
        simpa [Reading.log, Observation.log] using hevent
      | none =>
        simp only [collect, hf, Reading.foundIn_cons]
        simpa [Observation.log, Reading.cons] using hevent.trans (ih _)

theorem Trace.replay_grows (known : NameSet) (t : Trace) :
    Grows known (foundIn (t.replay known).log) (t.replay known).names := by
  have hlog : foundIn (t.replay known).log = foundIn (t.collect known).log := by
    simp [replay, foundIn]
  rw [hlog]
  simp only [replay, Trace.collect, Playback.collect]
  exact collect_grows _ known _

/-- Every action but clearing adds just the names that it logs. -/
theorem Action.effect_grows {a : Action} (h : a ≠ .clear) (known : NameSet) :
    Grows known (foundIn (a.effect known).log) (a.effect known).names := by
  cases a with
  | add ms => simpa [effect] using takeUp_grows known ms
  | visit e => simpa [effect] using takeUp_grows known e.mentions
  | replay document =>
    cases hd : Trace.ofJson noOrigin document with
    | error e =>
      simp only [effect, hd]
      exact .refl known
    | ok t =>
      simp only [effect, hd]
      exact t.replay_grows known
  | clear => exact absurd rfl h
  | _ => exact .refl known

/-- What a collector has logged since it was made or last cleared, from what that was before an
action. -/
def Action.logSince (earlier : List LogEntry) (known : NameSet) : Action → List LogEntry
  | .clear => []
  | a => earlier ++ (a.effect known).log

/-- If the log lists the names of a collector, it does so after an action. -/
theorem Action.logSince_grows {earlier : List LogEntry} {known : NameSet}
    (h : Grows ∅ (foundIn earlier) known) (a : Action) :
    Grows ∅ (foundIn (a.logSince earlier known)) (a.effect known).names := by
  unfold logSince
  split
  · exact .refl ∅
  · next hclear =>
    rw [foundIn_append]
    exact h.trans (effect_grows hclear known)

end Steps

namespace Workspace

variable {w : Workspace} {collector : String}

/-- What a collector has logged since it was made or last cleared, when some steps are done. -/
def journal (w : Workspace) (collector : String) (earlier : List LogEntry) :
    List Step → List LogEntry
  | [] => earlier
  | s :: ss =>
    (w.act s.listener s.action).1.journal collector
      (if w.owner s.listener = collector then s.action.logSince earlier (w.contents collector)
        else earlier) ss

/-- An action changes the names of the collector it is done with, and no others. -/
theorem contents_act_eq (w : Workspace) (listener : String) (a : Action) (collector : String) :
    (w.act listener a).1.contents collector =
      if w.owner listener = collector then (a.effect (w.contents collector)).names
      else w.contents collector := by
  have hset : set w.contents (w.owner listener) (a.effect (w.namesOf listener)).names collector =
      if w.owner listener = collector then (a.effect (w.contents collector)).names
      else w.contents collector := by
    by_cases hc : w.owner listener = collector
    · simp [set, namesOf, hc]
    · simp [set, hc, Ne.symm hc]
  cases a <;> exact hset

/-- If the log lists the names of a collector, it does so after any steps. -/
theorem journal_grows {earlier : List LogEntry}
    (h : Grows ∅ (foundIn earlier) (w.contents collector)) (ss : List Step) :
    Grows ∅ (foundIn (w.journal collector earlier ss)) ((w.run ss).contents collector) := by
  induction ss generalizing w earlier with
  | nil => exact h
  | cons s ss ih =>
    rw [journal, run]
    apply ih
    rw [contents_act_eq]
    by_cases hc : w.owner s.listener = collector
    · rw [if_pos hc, if_pos hc]
      exact s.action.logSince_grows h
    · rw [if_neg hc, if_neg hc]
      exact h

/-- Listeners with empty collectors. -/
def fresh (owner : String → String) : Workspace := ⟨owner, fun _ => ∅, fun _ => ∅⟩

end Workspace

theorem Grows.mem_empty_iff {found : List String} {after : NameSet} (h : Grows ∅ found after)
    (x : String) : x ∈ found ↔ x ∈ after := by
  simp [h.mem_iff]

/-- Counting the names at the end logs no other. -/
theorem Trace.foundIn_analyze (t : Trace) : foundIn t.analyze.log = foundIn (t.replay ∅).log := by
  cases hf : (t.replay ∅).fault with
  | some f => simp only [analyze, hf]
  | none =>
    simp only [analyze, hf, foundIn_append]
    exact List.append_nil _

theorem Trace.names_of_analyze {t : Trace} {names : NameSet} (h : t.analyze.result = .ok names) :
    names = (t.replay ∅).names := by
  cases hf : (t.replay ∅).fault with
  | some f => simp [analyze, hf] at h
  | none => simpa [analyze, hf] using h.symm

/-- Whatever steps are done by listeners, with or without a fault, the names logged by a collector
since it was made or last cleared are those that it holds, each once. So an analysis logs the names
that it gives, each once. -/
theorem dependency_log_exact :
    (∀ (owner : String → String) (ss : List Step) (collector : String),
      let found := foundIn ((Workspace.fresh owner).journal collector [] ss)
      found.Nodup ∧ ∀ x, x ∈ found ↔ x ∈ ((Workspace.fresh owner).run ss).contents collector) ∧
    ∀ t : Trace, (foundIn t.analyze.log).Nodup ∧
      ∀ names, t.analyze.result = .ok names → ∀ x, x ∈ foundIn t.analyze.log ↔ x ∈ names := by
  constructor
  · intro owner ss collector
    have hempty : Grows ∅ (foundIn []) ((Workspace.fresh owner).contents collector) := .refl ∅
    have hgrows := Workspace.journal_grows hempty ss
    exact ⟨hgrows.nodup, hgrows.mem_empty_iff⟩
  · intro t
    have hgrows := t.replay_grows ∅
    rw [← t.foundIn_analyze] at hgrows
    refine ⟨hgrows.nodup, fun names hnames x => ?_⟩
    rw [Trace.names_of_analyze hnames]
    exact hgrows.mem_empty_iff x

namespace Cupboard

/-- The same class by its internal and by its dotted name, then a text that cannot be decoded. -/
def twice : Step := ⟨"a", .add [.internal "app/Door", .internal "app.Door", .descriptor "?"]⟩

def cupboard : Trace where
  name := "app/Cupboard"
  members :=
    [("name", .string "app/Cupboard"), ("super", .string "app/Box"),
     ("fields", .list [.object [("name", .string "left"), ("desc", .string "Lapp/Door;")],
       .object [("name", .string "right"), ("desc", .string "[Lapp/Door;")]])]

def steps : List Step :=
  [⟨"b", .replay (.object cupboard.members)⟩, ⟨"a", .clear⟩, twice,
   ⟨"b", .replay (.object cupboard.members)⟩, twice]

end Cupboard

open Cupboard in
/-- Two listeners share a collector that is cleared once; after that its names are logged again. -/
theorem dependency_log_exact_cupboard :
    foundIn ((Workspace.fresh fun _ => "").journal "" [] steps) = ["app.Door", "app.Box"] ∧
    (∀ x, x ∈ foundIn ((Workspace.fresh fun _ => "").journal "" [] steps) ↔
      x ∈ ((Workspace.fresh fun _ => "").run steps).contents "") ∧
    cupboard.analyze.result = .ok (.ofList ["app.Box", "app.Door"]) ∧
    ∀ x, x ∈ foundIn cupboard.analyze.log ↔ x ∈ NameSet.ofList ["app.Box", "app.Door"] :=
  ⟨rfl, (dependency_log_exact.1 _ steps "").2, rfl, (dependency_log_exact.2 cupboard).2 _ rfl⟩

end ClassUsage
