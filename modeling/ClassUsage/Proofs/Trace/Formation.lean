import ClassUsage.Proofs.Trace.Every
import ClassUsage.Proofs.Trace.Pattern

/-!
How a way through a class is nested, apart from any listener: `Traversal.Formed` says that all events
belong to their scope, that a scope ends with its own last event, and that every event is of a given
kind. There is one lemma for each means by which ways are made up.
-/
namespace ClassUsage

section Events

variable {L M : Type} {e : Event L} {s inner : Scope}

theorem Event.Plain.map (g : L → M) (h : e.Plain s) : (e.map g).Plain s := by
  simpa [Event.Plain] using h

theorem Event.Opens.map (g : L → M) (h : e.Opens s inner) : (e.map g).Opens s inner := by
  simpa [Event.Opens] using h

theorem Traversal.map_finish (g : L → M) (s : Scope) :
    (event (.finish s) : Traversal L).map g = event (.finish s) := by
  simp [event, Traversal.map]

end Events

namespace Traversal

variable {L M α : Type} {E : Event L → Prop} {s inner : Scope} {t u : Traversal L}

theorem append_assoc (a b c : Traversal L) : a ++ b ++ c = a ++ (b ++ c) := by
  induction a with
  | done => rfl
  | fail f => rfl
  | warn w next ih => simp [ih]
  | visit e body next _ ih => simp [ih]

/-- A way inside the scope `s`, up to its last event. What is inside a scope that an event opens is
formed in the same way, and then comes the last event of that scope. -/
inductive Formed (E : Event L → Prop) : Scope → Traversal L → Prop
  | done {s : Scope} : Formed E s .done
  | fail {s : Scope} {f : Fault} : Formed E s (.fail f)
  | warn {s : Scope} {w : Warning} {next : Traversal L} (hnext : Formed E s next) :
      Formed E s (.warn w next)
  | plain {s : Scope} {e : Event L} {next : Traversal L} (he : E e) (hplain : e.Plain s)
      (hnext : Formed E s next) : Formed E s (.visit e .done next)
  | opening {s inner : Scope} {e : Event L} {inside next : Traversal L} (he : E e)
      (hopens : e.Opens s inner) (hinside : Formed E inner inside) (hnext : Formed E s next) :
      Formed E s (.visit e (inside ++ event (.finish inner)) next)

/-- The way through the whole scope `s`. -/
def Closed (E : Event L → Prop) (s : Scope) (t : Traversal L) : Prop :=
  ∃ inside : Traversal L, t = inside ++ event (.finish s) ∧ inside.Formed E s

theorem formed_event {e : Event L} (he : E e) (h : e.Plain s) : (event e).Formed E s :=
  .plain he h .done

theorem formed_scope {e : Event L} (he : E e) (h : e.Opens s inner) (ht : t.Closed E inner) :
    (scope e t).Formed E s := by
  obtain ⟨inside, rfl, hinside⟩ := ht
  exact .opening he h hinside .done

theorem Formed.closed (h : t.Formed E s) : (t ++ event (.finish s)).Closed E s := ⟨t, rfl, h⟩

namespace Formed

theorem append (ht : t.Formed E s) (hu : u.Formed E s) : (t ++ u).Formed E s := by
  induction ht with
  | done => exact hu
  | fail => exact .fail
  | warn _ ih => exact .warn (ih hu)
  | plain he hplain _ ih => exact .plain he hplain (ih hu)
  | opening he hopens hinside _ _ ih => exact .opening he hopens hinside (ih hu)

theorem check {r : Except Fault α} {f : α → Traversal L} (h : ∀ a, r = .ok a → (f a).Formed E s) :
    (check r f).Formed E s := by
  cases r with
  | ok a => exact h a rfl
  | error fault => exact .fail

theorem each {l : List α} {f : α → Traversal L} (h : ∀ a ∈ l, (f a).Formed E s) :
    (each l f).Formed E s := by
  induction l with
  | nil => exact .done
  | cons a l ih =>
    have hhead := h a List.mem_cons_self
    have htail := ih fun b hb => h b (List.mem_cons_of_mem a hb)
    exact hhead.append htail

theorem entries {m : Members} {kind : Kind α} {key : String} {f : α → Traversal L}
    (h : ∀ a ∈ m.items kind key, (f a).Formed E s) :
    (Traversal.check (m.entries kind key) (Traversal.each · f)).Formed E s := by
  apply check
  intro as has
  rw [Members.items_of_entries has] at h
  exact each h

theorem mono {E' : Event L → Prop} (h : t.Formed E s) (hE : ∀ e, E e → E' e) : t.Formed E' s := by
  induction h with
  | done => exact .done
  | fail => exact .fail
  | warn _ ih => exact .warn ih
  | plain he hplain _ ih => exact .plain (hE _ he) hplain ih
  | opening he hopens _ _ ihInside ihNext => exact .opening (hE _ he) hopens ihInside ihNext

theorem map {g : L → M} {E' : Event M → Prop} (h : t.Formed E s) (hE : ∀ e, E e → E' (e.map g)) :
    (t.map g).Formed E' s := by
  induction h with
  | done => exact .done
  | fail => exact .fail
  | warn _ ih => exact .warn ih
  | plain he hplain _ ih => exact .plain (hE _ he) (hplain.map g) ih
  | opening he hopens _ _ ihInside ihNext =>
    rw [Traversal.map, map_append, map_finish]
    exact .opening (hE _ he) (hopens.map g) ihInside ihNext

/-- All events on the way are of the given kind, if the last events of scopes are. -/
theorem every (h : t.Formed E s) (hlast : ∀ s, E (.finish s)) : t.Every E fun _ => True := by
  induction h with
  | done => exact .done
  | fail => exact .fail trivial
  | warn _ ih => exact .warn ih
  | plain he _ _ ih => exact .visit he .done ih
  | opening he _ _ _ ihInside ihNext =>
    exact .visit he (ihInside.append (every_event (hlast _))) ihNext

end Formed

theorem Closed.every (h : t.Closed E s) (hlast : ∀ s, E (.finish s)) : t.Every E fun _ => True := by
  obtain ⟨inside, rfl, hinside⟩ := h
  exact (hinside.every hlast).append (every_event (hlast s))

theorem Closed.map {g : L → M} {E' : Event M → Prop} (h : t.Closed E s)
    (hE : ∀ e, E e → E' (e.map g)) : (t.map g).Closed E' s := by
  obtain ⟨inside, rfl, hinside⟩ := h
  exact ⟨inside.map g, by rw [map_append, map_finish], hinside.map hE⟩

end Traversal

end ClassUsage
