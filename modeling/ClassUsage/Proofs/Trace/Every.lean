import ClassUsage.Analysis
import ClassUsage.Proofs.Trace.Lookup
import ClassUsage.Proofs.Trace.Playback

/-!
What holds of everything that can be met on a way through a class: `Traversal.Every` asks it of each
event, those in scopes that a listener may decline included, and of each fault. There is one lemma for
each means by which ways are made up; what a listener notices is part of what can be met.
-/
namespace ClassUsage

section Readers

variable {α β : Type} {F : Fault → Prop}

/-- All faults of a reader are of one kind. -/
def FaultsIn (F : Fault → Prop) (r : Except Fault α) : Prop := ∀ f, r = .error f → F f

@[simp] theorem faultsIn_ok (a : α) : FaultsIn F (.ok a) := nofun

@[simp] theorem faultsIn_pure (a : α) : FaultsIn F (pure a : Except Fault α) := nofun

@[simp] theorem faultsIn_error {f : Fault} : FaultsIn F (.error f : Except Fault α) ↔ F f := by
  constructor
  · intro h
    exact h f rfl
  · intro hf g hg
    cases hg
    exact hf

/-- One reader after the other. -/
@[simp] theorem faultsIn_bind {r : Except Fault α} {next : α → Except Fault β} :
    FaultsIn F (r >>= next) ↔ FaultsIn F r ∧ ∀ a, r = .ok a → FaultsIn F (next a) := by
  cases r with
  | error f => simp [bind, Except.bind]
  | ok a => simp [bind, Except.bind]

@[simp] theorem faultsIn_map {r : Except Fault α} {g : α → β} :
    FaultsIn F (r.map g) ↔ FaultsIn F r := by
  cases r <;> simp [Except.map]

@[simp] theorem faultsIn_functorMap {r : Except Fault α} {g : α → β} :
    FaultsIn F (g <$> r) ↔ FaultsIn F r := faultsIn_map

@[simp] theorem faultsIn_mapError {ε : Type} {r : Except ε α} {g : ε → Fault} :
    FaultsIn F (r.mapError g) ↔ ∀ e, r = .error e → F (g e) := by
  constructor
  · intro h e he
    exact h (g e) (mapError_eq_error.mpr ⟨e, he, rfl⟩)
  · intro h f hf
    obtain ⟨e, he, rfl⟩ := mapError_eq_error.mp hf
    exact h e he

end Readers

namespace Playback

variable {L : Type} {E : Event L → Prop} {F : Fault → Prop} {a b : Playback L}

/-- All events that are noticed are of one kind, and so is the fault at the end. -/
structure Only (E : Event L → Prop) (F : Fault → Prop) (p : Playback L) : Prop where
  events : ∀ e ∈ p.events, E e
  fault : ∀ f, p.fault = some f → F f

theorem only_nothing : (nothing : Playback L).Only E F := ⟨by simp, by simp⟩

theorem Only.andThen (ha : a.Only E F) (hb : b.Only E F) : (a.andThen b).Only E F := by
  constructor
  · intro e he
    rw [events_andThen] at he
    rcases List.mem_append.mp he with he | he
    · exact ha.events e he
    · split at he
      · contradiction
      · exact hb.events e he
  · intro f hf
    rw [fault_andThen, Option.or_eq_some_iff] at hf
    rcases hf with hf | ⟨-, hf⟩
    · exact ha.fault f hf
    · exact hb.fault f hf

theorem Only.warning (ha : a.Only E F) (w : Warning) : (cons (.warning w) a).Only E F :=
  ⟨ha.events, ha.fault⟩

theorem Only.event {e : Event L} (ha : a.Only E F) (he : E e) : (cons (.event e) a).Only E F := by
  constructor
  · intro e' he'
    rcases List.mem_cons.mp he' with rfl | he'
    · exact he
    · exact ha.events e' he'
  · exact ha.fault

end Playback

namespace Traversal

variable {L M α : Type} {E E' : Event L → Prop} {F F' : Fault → Prop} {t u : Traversal L}

/-- All events on the way, in whatever scope, and all faults are of the given kinds. -/
inductive Every (E : Event L → Prop) (F : Fault → Prop) : Traversal L → Prop
  | done : Every E F .done
  | fail {f : Fault} (hf : F f) : Every E F (.fail f)
  | warn {w : Warning} {next : Traversal L} (hnext : Every E F next) : Every E F (.warn w next)
  | visit {e : Event L} {body next : Traversal L} (he : E e) (hbody : Every E F body)
      (hnext : Every E F next) : Every E F (.visit e body next)

theorem every_event {e : Event L} (h : E e) : (event e).Every E F := .visit h .done .done

theorem every_scope {e : Event L} (h : E e) (ht : t.Every E F) : (scope e t).Every E F :=
  .visit h ht .done

namespace Every

theorem mono (h : t.Every E F) (hE : ∀ e, E e → E' e) (hF : ∀ f, F f → F' f) : t.Every E' F' := by
  induction h with
  | done => exact .done
  | fail hf => exact .fail (hF _ hf)
  | warn _ ih => exact .warn ih
  | visit he _ _ ihBody ihNext => exact .visit (hE _ he) ihBody ihNext

theorem append (ht : t.Every E F) (hu : u.Every E F) : (t ++ u).Every E F := by
  induction ht with
  | done => exact hu
  | fail hf => exact .fail hf
  | warn _ ih => exact .warn ih
  | visit he hbody _ _ ih => exact .visit he hbody ih

theorem check {r : Except Fault α} {f : α → Traversal L} (hr : FaultsIn F r)
    (h : ∀ a, r = .ok a → (f a).Every E F) : (check r f).Every E F := by
  cases r with
  | ok a => exact h a rfl
  | error fault => exact .fail (hr fault rfl)

theorem each {l : List α} {f : α → Traversal L} (h : ∀ a ∈ l, (f a).Every E F) :
    (each l f).Every E F := by
  induction l with
  | nil => exact .done
  | cons a l ih =>
    have hhead := h a List.mem_cons_self
    have htail := ih fun b hb => h b (List.mem_cons_of_mem a hb)
    exact hhead.append htail

theorem map {g : L → M} {E' : Event M → Prop} (h : t.Every E F) (hE : ∀ e, E e → E' (e.map g)) :
    (t.map g).Every E' F := by
  induction h with
  | done => exact .done
  | fail hf => exact .fail hf
  | warn _ ih => exact .warn ih
  | visit he _ _ ihBody ihNext => exact .visit (hE _ he) ihBody ihNext

/-- A listener notices only what is on the way. -/
theorem play (h : t.Every E F) (wanted : Event L → Bool) : (t.play wanted).Only E F := by
  induction h with
  | done => exact Playback.only_nothing
  | fail hf => exact ⟨by simp [Traversal.play, Playback.events], fun g hg => by cases hg; exact hf⟩
  | warn _ ih => exact ih.warning _
  | @visit e body next he _ _ ihBody ihNext =>
    have hopened : (if wanted e then body.play wanted else .nothing).Only E F := by
      split
      · exact ihBody
      · exact Playback.only_nothing
    exact (hopened.andThen ihNext).event he

end Every

end Traversal

end ClassUsage
