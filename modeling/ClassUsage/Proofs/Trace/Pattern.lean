import ClassUsage.Proofs.Trace.Playback

/-!
Patterns of events. A pattern says which events make up a complete passage of a scope, and which can
have come before a fault in the middle of it. Every pattern is well bracketed by construction: a
complete passage leaves the scopes as they were, a broken one only adds open scopes on top of them.
There is one pattern for each means by which ways through a class are made up.
-/
namespace ClassUsage

variable {L M : Type}

namespace Event

/-- The last event of a scope. -/
def finish : Scope → Event L
  | .classFile => .classFile .finish
  | .field => .field .finish
  | .method => .method .finish
  | .values => .value .finish

def isFinish : Event L → Bool
  | .classFile .finish => true
  | .field .finish => true
  | .method .finish => true
  | .value .finish => true
  | _ => false

/-- An event of the scope `s` that neither opens a scope nor ends one. -/
def Plain (s : Scope) (e : Event L) : Prop := e.scope = s ∧ e.opens = none ∧ e.isFinish = false

/-- An event of the scope `s` that opens the scope `inner`. -/
def Opens (s inner : Scope) (e : Event L) : Prop := e.scope = s ∧ e.opens = some inner

theorem isFinish_of_opens {e : Event L} {inner : Scope} (h : e.opens = some inner) :
    e.isFinish = false := by
  cases hf : e.isFinish with
  | false => rfl
  | true =>
    unfold isFinish at hf
    split at hf <;> contradiction

@[simp] theorem scope_finish (s : Scope) : (finish s : Event L).scope = s := by
  cases s <;> rfl

@[simp] theorem isFinish_finish (s : Scope) : (finish s : Event L).isFinish = true := by
  cases s <;> rfl

@[simp] theorem map_finish (f : L → M) (s : Scope) : (finish s).map f = finish s := by
  cases s <;> rfl

section Map

variable (f : L → M) (e : Event L)

@[simp] theorem scope_map : (e.map f).scope = e.scope := by
  cases e <;> rfl

@[simp] theorem isFinish_map : (e.map f).isFinish = e.isFinish := by
  rcases e with e | e | e | e <;> cases e <;> rfl

@[simp] theorem opens_map : (e.map f).opens = e.opens := by
  rcases e with e | e | e | e <;> cases e <;> rfl

end Map

end Event

section Scopes

variable {wanted : Event L → Bool} {s : Scope} {outer : List Scope} {e : Event L}

/-- The scopes that are open after an event, the innermost first. Only an event of the innermost scope
can come. -/
def afterEvent (wanted : Event L → Bool) : List Scope → Event L → Option (List Scope)
  | [], _ => none
  | s :: outer, e =>
    if e.scope ≠ s then none
    else if e.isFinish then some outer
    else
      match e.opens with
      | some inner => some (if wanted e then inner :: s :: outer else s :: outer)
      | none => some (s :: outer)

/-- The scopes that are open after some events. -/
def openScopes (wanted : Event L → Bool) (stack : List Scope) (es : List (Event L)) :
    Option (List Scope) :=
  es.foldlM (afterEvent wanted) stack

theorem openScopes_cons (stack : List Scope) (e : Event L) (es : List (Event L)) :
    openScopes wanted stack (e :: es) =
      (afterEvent wanted stack e).bind fun next => openScopes wanted next es := by
  rw [openScopes, List.foldlM_cons]
  rfl

theorem openScopes_append (stack : List Scope) (es fs : List (Event L)) :
    openScopes wanted stack (es ++ fs) =
      (openScopes wanted stack es).bind fun next => openScopes wanted next fs := by
  rw [openScopes, List.foldlM_append]
  rfl

theorem afterEvent_plain (h : e.Plain s) : afterEvent wanted (s :: outer) e = some (s :: outer) := by
  obtain ⟨hs, ho, hf⟩ := h
  simp [afterEvent, hs, ho, hf]

theorem afterEvent_opens {inner : Scope} (h : e.Opens s inner) :
    afterEvent wanted (s :: outer) e =
      some (if wanted e then inner :: s :: outer else s :: outer) := by
  obtain ⟨hs, ho⟩ := h
  simp [afterEvent, hs, ho, Event.isFinish_of_opens ho]

theorem afterEvent_finish : afterEvent wanted (s :: outer) (.finish s) = some outer := by
  simp [afterEvent]

theorem openScopes_map (f : L → M) (wanted : Event M → Bool) (stack : List Scope)
    (es : List (Event L)) :
    openScopes wanted stack (es.map (Event.map f)) =
      openScopes (fun e => wanted (e.map f)) stack es := by
  induction es generalizing stack with
  | nil => rfl
  | cons e es ih =>
    have hstep : afterEvent wanted stack (e.map f) =
        afterEvent (fun e => wanted (e.map f)) stack e := by
      cases stack with
      | nil => rfl
      | cons s outer => simp [afterEvent]
    rw [List.map_cons, openScopes_cons, openScopes_cons, hstep]
    simp only [ih]

end Scopes

/-- A pattern of events in the scope `s`, for a listener that wants certain scopes: the complete
passages, and what can have come before a fault. -/
structure Pattern (wanted : Event L → Bool) (s : Scope) where
  whole : List (Event L) → Prop
  broken : List (Event L) → Prop
  broken_nil : broken []
  scopes_of_whole : ∀ {es}, whole es →
    ∀ outer, openScopes wanted (s :: outer) es = some (s :: outer)
  scopes_of_broken : ∀ {es}, broken es →
    ∀ outer, ∃ inner, openScopes wanted (s :: outer) es = some (inner ++ s :: outer)

namespace Pattern

variable {wanted : Event L → Bool} {s inner : Scope}

/-- A passage that cannot be completed: there is a fault at its start. -/
def never : Pattern wanted s where
  whole _ := False
  broken es := es = []
  broken_nil := rfl
  scopes_of_whole h := h.elim
  scopes_of_broken := by
    rintro _ rfl outer
    exact ⟨[], rfl⟩

/-- No event. -/
def nothing : Pattern wanted s where
  whole es := es = []
  broken es := es = []
  broken_nil := rfl
  scopes_of_whole := by
    rintro _ rfl outer
    rfl
  scopes_of_broken := by
    rintro _ rfl outer
    exact ⟨[], rfl⟩

/-- One event that opens no scope. -/
def one (P : Event L → Prop) (h : ∀ e, P e → e.Plain s) : Pattern wanted s where
  whole es := ∃ e, P e ∧ es = [e]
  broken es := es = []
  broken_nil := rfl
  scopes_of_whole := by
    rintro _ ⟨e, he, rfl⟩ outer
    rw [openScopes_cons, afterEvent_plain (h e he)]
    rfl
  scopes_of_broken := by
    rintro _ rfl outer
    exact ⟨[], rfl⟩

/-- A certain event that opens no scope. -/
def just (e : Event L) (h : e.Plain s) : Pattern wanted s :=
  one (· = e) (by rintro _ rfl; exact h)

/-- One event that opens a scope. If the listener wants the scope, its events follow at once, up to
and with its own last event; otherwise none of them do. -/
def opening (P : Event L → Prop) (h : ∀ e, P e → e.Opens s inner) (body : Pattern wanted inner) :
    Pattern wanted s where
  whole es := ∃ e, P e ∧
    (wanted e = false ∧ es = [e] ∨
      wanted e = true ∧ ∃ inside, body.whole inside ∧ es = e :: (inside ++ [.finish inner]))
  broken es := es = [] ∨
    ∃ e, P e ∧ wanted e = true ∧ ∃ inside, body.broken inside ∧ es = e :: inside
  broken_nil := .inl rfl
  scopes_of_whole := by
    rintro _ ⟨e, he, hopened⟩ outer
    rcases hopened with ⟨hw, rfl⟩ | ⟨hw, inside, hinside, rfl⟩
    · rw [openScopes_cons, afterEvent_opens (h e he), hw]
      rfl
    · rw [openScopes_cons, afterEvent_opens (h e he), hw]
      simp only [if_true, Option.bind_some]
      rw [openScopes_append, body.scopes_of_whole hinside, Option.bind_some, openScopes_cons,
        afterEvent_finish]
      rfl
  scopes_of_broken := by
    rintro _ (rfl | ⟨e, he, hw, inside, hinside, rfl⟩) outer
    · exact ⟨[], rfl⟩
    · obtain ⟨opened, hopened⟩ := body.scopes_of_broken hinside (s :: outer)
      refine ⟨opened ++ [inner], ?_⟩
      rw [openScopes_cons, afterEvent_opens (h e he), hw]
      simpa using hopened

/-- One passage after the other. -/
def append (p q : Pattern wanted s) : Pattern wanted s where
  whole es := ∃ as bs, p.whole as ∧ q.whole bs ∧ es = as ++ bs
  broken es := p.broken es ∨ ∃ as bs, p.whole as ∧ q.broken bs ∧ es = as ++ bs
  broken_nil := .inl p.broken_nil
  scopes_of_whole := by
    rintro _ ⟨as, bs, ha, hb, rfl⟩ outer
    rw [openScopes_append, p.scopes_of_whole ha, Option.bind_some, q.scopes_of_whole hb]
  scopes_of_broken := by
    rintro _ (ha | ⟨as, bs, ha, hb, rfl⟩) outer
    · exact p.scopes_of_broken ha outer
    · rw [openScopes_append, p.scopes_of_whole ha, Option.bind_some]
      exact q.scopes_of_broken hb outer

instance : Append (Pattern wanted s) := ⟨append⟩

/-- One passage for each member of a list, in its order. -/
def each {α : Type} (l : List α) (p : α → Pattern wanted s) : Pattern wanted s :=
  match l with
  | [] => nothing
  | a :: rest => p a ++ each rest p

/-- One passage for each entry of the list under a key, in its order. A list with an entry of the
wrong kind has none. -/
def listed {α : Type} (m : Members) (kind : Kind α) (key : String) (p : α → Pattern wanted s) :
    Pattern wanted s :=
  match m.entries kind key with
  | .ok as => each as p
  | .error _ => never

/-- A passage that is there if a value is. -/
def given {α : Type} (o : Option α) (p : α → Pattern wanted s) : Pattern wanted s :=
  match o with
  | some a => p a
  | none => nothing

/-- The passages of a pattern with the labels changed by one of certain functions. -/
def relabelled {wanted : Event M → Bool} (good : (L → M) → Prop)
    (p : ∀ f : L → M, Pattern (fun e => wanted (e.map f)) s) : Pattern wanted s where
  whole es := ∃ f, good f ∧ ∃ as, (p f).whole as ∧ es = as.map (Event.map f)
  broken es := es = [] ∨ ∃ f, good f ∧ ∃ as, (p f).broken as ∧ es = as.map (Event.map f)
  broken_nil := .inl rfl
  scopes_of_whole := by
    rintro _ ⟨f, -, as, ha, rfl⟩ outer
    rw [openScopes_map, (p f).scopes_of_whole ha]
  scopes_of_broken := by
    rintro _ (rfl | ⟨f, -, as, ha, rfl⟩) outer
    · exact ⟨[], rfl⟩
    · rw [openScopes_map]
      exact (p f).scopes_of_broken ha outer

/-- What a listener noticed is a passage of the pattern: a complete one, or one broken by the fault. -/
def Admits (p : Pattern wanted s) (played : Playback L) : Prop :=
  match played.fault with
  | none => p.whole played.events
  | some _ => p.broken played.events

theorem admits_of_none {p : Pattern wanted s} {a : Playback L} (h : a.fault = none) :
    p.Admits a ↔ p.whole a.events := by
  rw [Admits, h]

theorem admits_of_some {p : Pattern wanted s} {a : Playback L} {f : Fault} (h : a.fault = some f) :
    p.Admits a ↔ p.broken a.events := by
  rw [Admits, h]

theorem Admits.andThen {p q : Pattern wanted s} {a b : Playback L} (ha : p.Admits a)
    (hb : q.Admits b) : (p ++ q).Admits (a.andThen b) := by
  cases hf : a.fault with
  | some f =>
    have hevents : (a.andThen b).events = a.events := by simp [hf]
    rw [admits_of_some hf] at ha
    rw [admits_of_some (f := f) (by simp [hf]), hevents]
    exact .inl ha
  | none =>
    have hevents : (a.andThen b).events = a.events ++ b.events := by simp [hf]
    rw [admits_of_none hf] at ha
    cases hg : b.fault with
    | none =>
      rw [admits_of_none hg] at hb
      rw [admits_of_none (by simp [hf, hg]), hevents]
      exact ⟨a.events, b.events, ha, hb, rfl⟩
    | some g =>
      rw [admits_of_some hg] at hb
      rw [admits_of_some (f := g) (by simp [hf, hg]), hevents]
      exact .inr ⟨a.events, b.events, ha, hb, rfl⟩

end Pattern

namespace Traversal

variable {α : Type} {wanted : Event L → Bool} {s inner : Scope} {t : Traversal L}

/-- Whoever goes this way notices a passage of the pattern. -/
structure Follows (t : Traversal L) (p : Pattern wanted s) : Prop where
  admits : p.Admits (t.play wanted)

/-- The way through a whole scope: what the pattern says, then the last event of the scope. -/
def Fills (t : Traversal L) (p : Pattern wanted s) : Prop :=
  ∃ inside : Traversal L, t = inside ++ event (.finish s) ∧ inside.Follows p

theorem follows_done : (done : Traversal L).Follows (.nothing : Pattern wanted s) := ⟨rfl⟩

theorem follows_fail (f : Fault) (p : Pattern wanted s) : (fail f).Follows p := ⟨p.broken_nil⟩

theorem follows_event {e : Event L} {P : Event L → Prop} {h : ∀ e, P e → e.Plain s} (he : P e) :
    (event e).Follows (.one P h : Pattern wanted s) := by
  constructor
  rw [play_event, Pattern.admits_of_none rfl]
  exact ⟨e, he, rfl⟩

theorem follows_just {e : Event L} {h : e.Plain s} :
    (event e).Follows (.just e h : Pattern wanted s) := follows_event rfl

namespace Follows

theorem append {a b : Traversal L} {p q : Pattern wanted s} (ha : a.Follows p) (hb : b.Follows q) :
    (a ++ b).Follows (p ++ q) := by
  constructor
  rw [play_append]
  exact ha.admits.andThen hb.admits

theorem check {r : Except Fault α} {f : α → Traversal L} {p : Pattern wanted s}
    (h : ∀ a, r = .ok a → (f a).Follows p) : (check r f).Follows p := by
  cases r with
  | ok a => exact h a rfl
  | error e => exact follows_fail e p

theorem each {l : List α} {f : α → Traversal L} {p : α → Pattern wanted s}
    (h : ∀ a ∈ l, (f a).Follows (p a)) : (each l f).Follows (.each l p) := by
  induction l with
  | nil => exact follows_done
  | cons a l ih =>
    exact (h a List.mem_cons_self).append (ih fun b hb => h b (List.mem_cons_of_mem a hb))

theorem listed {m : Members} {kind : Kind α} {key : String} {f : α → Traversal L}
    {p : α → Pattern wanted s} (h : ∀ a, (f a).Follows (p a)) :
    (Traversal.check (m.entries kind key) (Traversal.each · f)).Follows
      (.listed m kind key p) := by
  apply Follows.check
  intro as has
  unfold Pattern.listed
  rw [has]
  exact Follows.each fun a _ => h a

/-- Warnings are no events. -/
theorem warn {w : Warning} {p : Pattern wanted s} (h : t.Follows p) : (warn w t).Follows p := by
  have hadmits := h.admits
  constructor
  unfold Pattern.Admits at hadmits ⊢
  rw [play, Playback.fault_cons, Playback.events_cons_warning]
  exact hadmits

theorem scope {e : Event L} {P : Event L → Prop} {h : ∀ e, P e → e.Opens s inner}
    {p : Pattern wanted inner} (he : P e) (ht : t.Fills p) :
    (scope e t).Follows (.opening P h p) := by
  obtain ⟨inside, rfl, ⟨hinside⟩⟩ := ht
  constructor
  rw [play_scope, play_append, play_event]
  cases hw : wanted e with
  | false =>
    rw [Pattern.admits_of_none rfl]
    exact ⟨e, he, .inl ⟨hw, rfl⟩⟩
  | true =>
    cases hf : (inside.play wanted).fault with
    | none =>
      rw [Pattern.admits_of_none hf] at hinside
      rw [Pattern.admits_of_none (by simp [hf])]
      exact ⟨e, he, .inr ⟨hw, (inside.play wanted).events, hinside, by simp [hf]⟩⟩
    | some f =>
      rw [Pattern.admits_of_some hf] at hinside
      rw [Pattern.admits_of_some (f := f) (by simp [hf])]
      exact .inr ⟨e, he, hw, (inside.play wanted).events, hinside, by simp [hf]⟩

theorem map {wanted : Event M → Bool} {good : (L → M) → Prop}
    {p : ∀ f : L → M, Pattern (fun e => wanted (e.map f)) s} {f : L → M} (hgood : good f)
    (ht : t.Follows (p f)) : (t.map f).Follows (.relabelled good p : Pattern wanted s) := by
  obtain ⟨ht⟩ := ht
  constructor
  obtain ⟨hfault, hevents⟩ := play_map f wanted t
  cases hf : (t.play fun e => wanted (e.map f)).fault with
  | none =>
    rw [Pattern.admits_of_none hf] at ht
    rw [Pattern.admits_of_none (hfault.trans hf), hevents]
    exact ⟨f, hgood, _, ht, rfl⟩
  | some g =>
    rw [Pattern.admits_of_some hf] at ht
    rw [Pattern.admits_of_some (hfault.trans hf), hevents]
    exact .inr ⟨f, hgood, _, ht, rfl⟩

end Follows

namespace Fills

variable {p : Pattern wanted s}

/-- Without a fault, the events are a complete passage up to the last event of the scope, and leave no
scope open. -/
theorem whole_of_play (ht : t.Fills p) (hf : (t.play wanted).fault = none) :
    (∃ inside, p.whole inside ∧ (t.play wanted).events = inside ++ [.finish s]) ∧
      openScopes wanted [s] (t.play wanted).events = some [] := by
  obtain ⟨inside, rfl, hinside⟩ := ht
  have hnone : (inside.play wanted).fault = none := by
    simp only [play_append, Playback.fault_andThen, Option.or_eq_none_iff] at hf
    exact hf.1
  have hwhole := (Pattern.admits_of_none hnone).mp hinside.admits
  have hevents : ((inside ++ event (.finish s)).play wanted).events =
      (inside.play wanted).events ++ [.finish s] := by
    simp [hnone]
  rw [hevents]
  refine ⟨⟨_, hwhole, rfl⟩, ?_⟩
  rw [openScopes_append, p.scopes_of_whole hwhole, Option.bind_some, openScopes_cons,
    afterEvent_finish]
  rfl

/-- The events before a fault are a broken passage, and leave the scope itself open. -/
theorem broken_of_play (ht : t.Fills p) {f : Fault} (hf : (t.play wanted).fault = some f) :
    p.broken (t.play wanted).events ∧
      ∃ inner, openScopes wanted [s] (t.play wanted).events = some (inner ++ [s]) := by
  obtain ⟨inside, rfl, hinside⟩ := ht
  have hsome : (inside.play wanted).fault = some f := by
    simpa [play_append, Playback.fault_andThen] using hf
  have hbroken := (Pattern.admits_of_some hsome).mp hinside.admits
  have hevents : ((inside ++ event (.finish s)).play wanted).events =
      (inside.play wanted).events := by
    simp [hsome]
  rw [hevents]
  exact ⟨hbroken, p.scopes_of_broken hbroken []⟩

theorem map {wanted : Event M → Bool} {good : (L → M) → Prop}
    {p : ∀ f : L → M, Pattern (fun e => wanted (e.map f)) s} {f : L → M} (hgood : good f)
    (ht : t.Fills (p f)) : (t.map f).Fills (.relabelled good p : Pattern wanted s) := by
  obtain ⟨inside, rfl, hinside⟩ := ht
  refine ⟨inside.map f, ?_, hinside.map hgood⟩
  rw [map_append]
  simp [event, Traversal.map]

end Fills

end Traversal

end ClassUsage
