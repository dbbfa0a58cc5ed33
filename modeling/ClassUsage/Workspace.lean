import ClassUsage.Analysis

/-!
Several listeners at work. Each collects into the collector it belongs to, which it may share with
others; besides, a set of names can be taken from a collector and kept apart from it.
-/
namespace ClassUsage

inductive Action where
  /-- Take up mentions. -/
  | add (mentions : List Mention)
  /-- Be told of an event. -/
  | visit (e : Event Label)
  /-- Tell whatever it is to a listener that collects nothing and opens nothing. -/
  | ignore
  /-- Go through a whole document. -/
  | replay (document : Json)
  | clear
  | size
  | contains (name : Option String)
  | names
  /-- Keep the names collected so far. -/
  | keep
  | kept
  | addKept (name : String)
  deriving Repr

inductive Reply where
  | nothing
  | count (n : Nat)
  | truth (b : Bool)
  | names (s : NameSet)
  | opened (scope : Scope)
  deriving Repr

/-- What an action did to the names of a collector, what was logged, and its reply. -/
structure Effect where
  names : NameSet
  log : List LogEntry
  reply : Except Fault Reply

def replyOf (fault : Option Fault) (reply : Reply) : Except Fault Reply :=
  match fault with
  | some f => .error f
  | none => .ok reply

/-- The effect of an action on a collector. Actions on names kept apart have none. -/
def Action.effect (known : NameSet) : Action → Effect
  | .add mentions =>
    let i := takeUp known mentions
    ⟨i.names, i.found.map .dependency, replyOf i.fault .nothing⟩
  | .visit e =>
    let i := takeUp known e.mentions
    let reply := match e.opens with
      | some s => .opened s
      | none => .nothing
    ⟨i.names, e.announced.toList ++ i.found.map .dependency, replyOf i.fault reply⟩
  | .replay document =>
    match Trace.ofJson noOrigin document with
    | .ok t =>
      let r := t.replay known
      ⟨r.names, r.log, replyOf r.fault .nothing⟩
    | .error e => ⟨known, [], .error (.trace e)⟩
  | .clear => ⟨∅, [], .ok .nothing⟩
  | .size => ⟨known, [], .ok (.count known.size)⟩
  | .contains name => ⟨known, [], .ok (.truth (name.any fun n => decide (n ∈ known)))⟩
  | .names => ⟨known, [], .ok (.names known)⟩
  | .keep => ⟨known, [], .ok (.names known)⟩
  | .ignore => ⟨known, [], .ok .nothing⟩
  | .kept => ⟨known, [], .ok .nothing⟩
  | .addKept _ => ⟨known, [], .ok .nothing⟩

/-- Listeners by name: the collector each belongs to, what collectors hold, and the names kept for
each listener. -/
structure Workspace where
  owner : String → String
  contents : String → NameSet
  kept : String → NameSet

namespace Workspace

/-- All listeners have one collector, or each has its own. -/
def start (shared : Bool) : Workspace where
  owner := if shared then fun _ => "" else id
  contents := fun _ => ∅
  kept := fun _ => ∅

def set (f : String → NameSet) (key : String) (s : NameSet) : String → NameSet :=
  fun k => if k = key then s else f k

/-- The names that the collector of a listener holds. -/
def namesOf (w : Workspace) (listener : String) : NameSet := w.contents (w.owner listener)

/-- Do an action with a listener. -/
def act (w : Workspace) (listener : String) (a : Action) : Workspace × Except Fault Reply :=
  let e := a.effect (w.namesOf listener)
  let w := { w with contents := set w.contents (w.owner listener) e.names }
  match a with
  | .keep => ({ w with kept := set w.kept listener e.names }, e.reply)
  | .kept => (w, .ok (.names (w.kept listener)))
  | .addKept name =>
    let s := (w.kept listener).insert name
    ({ w with kept := set w.kept listener s }, .ok (.names s))
  | _ => (w, e.reply)

end Workspace

end ClassUsage
