import ClassUsage.Proofs.Trace.Contents

/-!
What a listener notices that wants fewer scopes than another. In the events of the one that wants more,
each event stands in certain scopes; those that stand only in scopes the other wants too are just the
events the other notices.
-/
namespace ClassUsage

variable {L : Type} {kept wanted : Event L → Bool}

/-- The events whose scopes are open after an event, the innermost first. -/
def openersAfter (wanted : Event L → Bool) (openers : List (Event L)) (e : Event L) :
    List (Event L) :=
  if e.isFinish then openers.tail
  else if e.opens.isSome && wanted e then e :: openers
  else openers

/-- Each event with the events whose scopes it stands in. The last event of a scope stands in it. -/
def inScopes (wanted : Event L → Bool) (openers : List (Event L)) :
    List (Event L) → List (List (Event L) × Event L)
  | [] => []
  | e :: es => (openers, e) :: inScopes wanted (openersAfter wanted openers e) es

/-- The events of a listener that wants certain scopes, less those inside scopes that are not kept. -/
def visible (kept wanted : Event L → Bool) (openers es : List (Event L)) : List (Event L) :=
  ((inScopes wanted openers es).filter fun p => p.1.all kept).map Prod.snd

section Events

variable {e : Event L} {s inner : Scope} {openers es fs : List (Event L)}

theorem openersAfter_plain (h : e.Plain s) : openersAfter wanted openers e = openers := by
  obtain ⟨-, hopens, hfinish⟩ := h
  simp [openersAfter, hopens, hfinish]

theorem openersAfter_wanted (h : e.Opens s inner) (hw : wanted e = true) :
    openersAfter wanted openers e = e :: openers := by
  simp [openersAfter, h.2, hw, Event.isFinish_of_opens h.2]

theorem openersAfter_declined (h : e.Opens s inner) (hw : wanted e = false) :
    openersAfter wanted openers e = openers := by
  simp [openersAfter, h.2, hw, Event.isFinish_of_opens h.2]

theorem openersAfter_finish : openersAfter wanted (e :: openers) (.finish s) = openers := by
  simp [openersAfter]

theorem inScopes_append : inScopes wanted openers (es ++ fs) =
    inScopes wanted openers es ++ inScopes wanted (es.foldl (openersAfter wanted) openers) fs := by
  induction es generalizing openers with
  | nil => rfl
  | cons e es ih => simp [inScopes, ih]

theorem visible_append : visible kept wanted openers (es ++ fs) =
    visible kept wanted openers es ++
      visible kept wanted (es.foldl (openersAfter wanted) openers) fs := by
  simp [visible, inScopes_append]

theorem visible_cons_of_kept (h : openers.all kept = true) :
    visible kept wanted openers (e :: es) =
      e :: visible kept wanted (openersAfter wanted openers e) es := by
  simp [visible, inScopes, h]

theorem visible_cons_of_hidden (h : openers.all kept = false) :
    visible kept wanted openers (e :: es) =
      visible kept wanted (openersAfter wanted openers e) es := by
  simp [visible, inScopes, h]

end Events

namespace Traversal

variable {E : Event L → Prop} {s inner : Scope} {e : Event L} {t inside body next : Traversal L}

theorem play_plain : (visit e .done next).play wanted = .cons (.event e) (next.play wanted) := by
  have hnothing : (Playback.nothing : Playback L).andThen (next.play wanted) = next.play wanted := rfl
  simp [play, hnothing]

theorem play_declined (hw : wanted e = false) :
    (visit e body next).play wanted = .cons (.event e) (next.play wanted) := by
  have hnothing : (Playback.nothing : Playback L).andThen (next.play wanted) = next.play wanted := rfl
  simp [play, hw, hnothing]

/-- A scope that is wanted is gone through to its last event before anything else, if there is no
fault. -/
theorem fault_opened (hw : wanted e = true) :
    ((visit e (inside ++ event (.finish inner)) next).play wanted).fault = none ↔
      (inside.play wanted).fault = none ∧ (next.play wanted).fault = none := by
  simp [play, hw]

theorem events_opened (hw : wanted e = true) (hf : (inside.play wanted).fault = none) :
    ((visit e (inside ++ event (.finish inner)) next).play wanted).events =
      e :: ((inside.play wanted).events ++ .finish inner :: (next.play wanted).events) := by
  simp [play, hw, hf]

namespace Formed

/-- A complete passage of a scope leaves open what was open. -/
theorem openers_of_play (h : t.Formed E s) (hf : (t.play wanted).fault = none)
    (openers : List (Event L)) :
    (t.play wanted).events.foldl (openersAfter wanted) openers = openers := by
  induction h generalizing openers with
  | done => rfl
  | fail => contradiction
  | warn _ ih => exact ih hf openers
  | plain _ hplain _ ih =>
    rw [play_plain] at hf ⊢
    simpa [openersAfter_plain hplain] using ih hf openers
  | @opening s inner e inside next _ hopens _ _ ihInside ihNext =>
    cases hw : wanted e with
    | false =>
      rw [play_declined hw] at hf ⊢
      simpa [openersAfter_declined hopens hw] using ihNext hf openers
    | true =>
      obtain ⟨hinside, hnext⟩ := (fault_opened hw).mp hf
      rw [events_opened hw hinside, List.foldl_cons, openersAfter_wanted hopens hw,
        List.foldl_append, ihInside hinside, List.foldl_cons, openersAfter_finish, ihNext hnext]

/-- Inside a scope that is not kept nothing is visible. -/
theorem visible_of_hidden (h : t.Formed E s) (hf : (t.play wanted).fault = none)
    {openers : List (Event L)} (ho : openers.all kept = false) :
    visible kept wanted openers (t.play wanted).events = [] := by
  induction h generalizing openers with
  | done => rfl
  | fail => contradiction
  | warn _ ih => exact ih hf ho
  | plain _ hplain _ ih =>
    rw [play_plain] at hf ⊢
    rw [Playback.events_cons_event, visible_cons_of_hidden ho, openersAfter_plain hplain, ih hf ho]
  | @opening s inner e inside next _ hopens hinside _ ihInside ihNext =>
    cases hw : wanted e with
    | false =>
      rw [play_declined hw] at hf ⊢
      rw [Playback.events_cons_event, visible_cons_of_hidden ho, openersAfter_declined hopens hw,
        ihNext hf ho]
    | true =>
      obtain ⟨hf', hnext⟩ := (fault_opened hw).mp hf
      have ho' : (e :: openers).all kept = false := by simp only [List.all_cons, ho, Bool.and_false]
      rw [events_opened hw hf', visible_cons_of_hidden ho, openersAfter_wanted hopens hw,
        visible_append, ihInside hf' ho', hinside.openers_of_play hf', visible_cons_of_hidden ho',
        openersAfter_finish, ihNext hnext ho, List.append_nil]

/-- Whoever wants fewer scopes gets to the end as well, and notices what is visible. -/
theorem play_kept (h : t.Formed E s)
    (hle : ∀ e : Event L, e.opens ≠ none → kept e = true → wanted e = true)
    (hf : (t.play wanted).fault = none) {openers : List (Event L)} (ho : openers.all kept = true) :
    (t.play kept).fault = none ∧
      (t.play kept).events = visible kept wanted openers (t.play wanted).events := by
  induction h generalizing openers with
  | done => exact ⟨rfl, rfl⟩
  | fail => contradiction
  | warn _ ih => exact ih hf ho
  | plain _ hplain _ ih =>
    rw [play_plain] at hf ⊢
    rw [play_plain, Playback.events_cons_event, Playback.events_cons_event, visible_cons_of_kept ho,
      openersAfter_plain hplain]
    obtain ⟨hfault, hevents⟩ := ih hf ho
    exact ⟨hfault, by rw [hevents]⟩
  | @opening s inner e inside next _ hopens hinside _ ihInside ihNext =>
    cases hw : wanted e with
    | false =>
      have hk : kept e = false := by
        cases hk : kept e with
        | false => rfl
        | true => simp [hle e (by simp [hopens.2]) hk] at hw
      rw [play_declined hw] at hf ⊢
      rw [play_declined hk, Playback.events_cons_event, Playback.events_cons_event,
        visible_cons_of_kept ho, openersAfter_declined hopens hw]
      obtain ⟨hfault, hevents⟩ := ihNext hf ho
      exact ⟨hfault, by rw [hevents]⟩
    | true =>
      obtain ⟨hf', hnext⟩ := (fault_opened hw).mp hf
      obtain ⟨hfault, hevents⟩ := ihNext hnext ho
      rw [events_opened hw hf', visible_cons_of_kept ho, openersAfter_wanted hopens hw, visible_append,
        hinside.openers_of_play hf']
      cases hk : kept e with
      | false =>
        have ho' : (e :: openers).all kept = false := by simp [hk]
        rw [play_declined hk, hinside.visible_of_hidden hf' ho', visible_cons_of_hidden ho',
          openersAfter_finish, ← hevents]
        exact ⟨hfault, rfl⟩
      | true =>
        have ho' : (e :: openers).all kept = true := by simp only [List.all_cons, hk, ho, Bool.and_self]
        obtain ⟨hfault', hevents'⟩ := ihInside hf' ho'
        rw [fault_opened hk, events_opened hk hfault', ← hevents', visible_cons_of_kept ho',
          openersAfter_finish, ← hevents]
        exact ⟨⟨hfault', hfault⟩, rfl⟩

end Formed

theorem Closed.play_kept (h : t.Closed E s)
    (hle : ∀ e : Event L, e.opens ≠ none → kept e = true → wanted e = true)
    (hf : (t.play wanted).fault = none) :
    (t.play kept).fault = none ∧
      (t.play kept).events = visible kept wanted [] (t.play wanted).events := by
  obtain ⟨inside, rfl, hinside⟩ := h
  have hf' : (inside.play wanted).fault = none := by simpa using hf
  obtain ⟨hfault, hevents⟩ := hinside.play_kept hle hf' (List.all_nil (f := kept))
  have hwhole : ∀ p : Event L → Bool, (inside.play p).fault = none →
      ((inside ++ event (.finish s)).play p).events = (inside.play p).events ++ [.finish s] := by
    intro p hp
    simp [hp]
  rw [hwhole kept hfault, hwhole wanted hf', visible_append, hinside.openers_of_play hf', hevents]
  exact ⟨by simp [hfault], rfl⟩

end Traversal

section Classes

/-- If a listener wants no scope but those that another wants too, and the other gets through a class,
then so does this one. It notices the events of the other, in the same order and with the same operands,
less just those inside scopes that it does not want. -/
theorem events_of_fewer_scopes (t : Trace) (kept wanted : Event Label → Bool)
    (hle : ∀ e : Event Label, e.opens ≠ none → kept e = true → wanted e = true)
    (hf : (t.traversal.play wanted).fault = none) :
    (t.traversal.play kept).fault = none ∧
      (t.traversal.play kept).events = visible kept wanted [] (t.traversal.play wanted).events := by
  have hclosed : t.traversal.Closed Event.Proper .classFile := closed_traversal t
  exact hclosed.play_kept hle hf

/-- A class with an annotated field and a method that jumps. -/
def annotatedJump : Trace where
  name := "app/Jump"
  members :=
    [("name", .string "app/Jump"),
     ("fields", .list [.object
       [("name", .string "count"), ("desc", .string "I"), ("annotations", .list [.object
         [("desc", .string "Lapp/Mark;"), ("values", .list [.object
           [("value", .object [("array", .list [.int 1, .int 2])])]])]])]]),
     ("methods", .list [.object
       [("name", .string "run"), ("desc", .string "()V"), ("code", .list [
         .object [("op", .string "goto"), ("label", .string "L")],
         .object [("label", .string "L")]])]])]

/-- Five of its sixteen events are inside the annotation of the field. A listener that wants no values
notices the other eleven. -/
theorem events_of_fewer_scopes_annotatedJump :
    (annotatedJump.traversal.play fun _ => true).events.length = 16 ∧
    (annotatedJump.traversal.play fun e => e.opens != some .values).events.length = 11 ∧
    (annotatedJump.traversal.play fun e => e.opens != some .values).fault = none ∧
    (annotatedJump.traversal.play fun e => e.opens != some .values).events =
      visible (fun e => e.opens != some .values) (fun _ => true) []
        (annotatedJump.traversal.play fun _ => true).events := by
  have hnone : (annotatedJump.traversal.play fun _ => true).fault.isNone = true := by decide +kernel
  have hf := Option.isNone_iff_eq_none.mp hnone
  exact ⟨by decide +kernel, by decide +kernel,
    events_of_fewer_scopes annotatedJump _ _ (fun _ _ _ => rfl) hf⟩

end Classes

end ClassUsage
