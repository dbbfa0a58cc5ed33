import Mathlib.Data.List.Forall2
import ClassUsage.Proofs.Trace.Playback

/-!
Ways and their warnings. A way without its warnings has the same events and ends alike, and two ways
agree if they are the same then; a way is quiet if it has none to lose. Apart from the elements
whose keys are looked through, every part of a document is gone through quietly.
-/
namespace ClassUsage

namespace Playback

variable {L : Type} {a b : Playback L}

@[simp] theorem warnings_nothing : (nothing : Playback L).warnings = [] := rfl

@[simp] theorem warnings_cons_event (e : Event L) : (cons (.event e) a).warnings = a.warnings := rfl

@[simp] theorem warnings_cons_warning (w : Warning) :
    (cons (.warning w) a).warnings = w :: a.warnings := rfl

@[simp] theorem warnings_andThen :
    (a.andThen b).warnings = a.warnings ++ if a.fault.isSome then [] else b.warnings := by
  unfold andThen
  split <;> simp_all [warnings]

end Playback

namespace Traversal

variable {L M α : Type} {t u : Traversal L}

/-- The way without its warnings. -/
def silenced : Traversal L → Traversal L
  | .done => .done
  | .fail f => .fail f
  | .warn _ next => next.silenced
  | .visit e body next => .visit e body.silenced next.silenced

theorem silenced_append (t u : Traversal L) : (t ++ u).silenced = t.silenced ++ u.silenced := by
  induction t with
  | done => rfl
  | fail f => rfl
  | warn w next ih => exact ih
  | visit e body next _ ih => simp only [visit_append, silenced, ih]

theorem silenced_map (g : L → M) (t : Traversal L) : (t.map g).silenced = t.silenced.map g := by
  induction t with
  | done => rfl
  | fail f => rfl
  | warn w next ih => exact ih
  | visit e body next ihBody ihNext => simp only [map, silenced, ihBody, ihNext]

/-- A listener is told the same events, and it ends alike. -/
theorem play_silenced (wanted : Event L → Bool) (t : Traversal L) :
    (t.silenced.play wanted).events = (t.play wanted).events ∧
      (t.silenced.play wanted).fault = (t.play wanted).fault := by
  induction t with
  | done => exact ⟨rfl, rfl⟩
  | fail f => exact ⟨rfl, rfl⟩
  | warn w next ih => exact ih
  | visit e body next ihBody ihNext =>
    by_cases hw : wanted e = true
    · simp [silenced, play, hw, ihBody, ihNext]
    · simp [silenced, play, hw, ihNext]

theorem warnings_silenced (wanted : Event L → Bool) (t : Traversal L) :
    (t.silenced.play wanted).warnings = [] := by
  induction t with
  | done => rfl
  | fail f => rfl
  | warn w next ih => exact ih
  | visit e body next ihBody ihNext =>
    by_cases hw : wanted e = true
    · simp [silenced, play, hw, ihBody, ihNext]
    · simp [silenced, play, hw, ihNext]

/-- The ways are the same but for their warnings. -/
def Agrees (t u : Traversal L) : Prop := t.silenced = u.silenced

theorem agrees_of_eq (h : t = u) : t.Agrees u := congrArg silenced h

theorem agrees_check {r s : Except Fault α} {f g : α → Traversal L} (h : r = s)
    (hfg : ∀ a, (f a).Agrees (g a)) : (check r f).Agrees (check s g) := by
  subst h
  cases r with
  | ok a => exact hfg a
  | error f => rfl

namespace Agrees

theorem append {t' u' : Traversal L} (h : t.Agrees u) (h' : t'.Agrees u') :
    (t ++ t').Agrees (u ++ u') := by
  rw [Agrees, silenced_append, silenced_append, h, h']

theorem each {β : Type} {R : α → β → Prop} {l : List α} {l' : List β} {f : α → Traversal L}
    {g : β → Traversal L} (h : List.Forall₂ R l l') (hfg : ∀ a b, R a b → (f a).Agrees (g b)) :
    (each l f).Agrees (each l' g) := by
  induction h with
  | nil => rfl
  | cons hab _ ih => exact (hfg _ _ hab).append ih

theorem play (h : t.Agrees u) (wanted : Event L → Bool) :
    (t.play wanted).events = (u.play wanted).events ∧
      (t.play wanted).fault = (u.play wanted).fault := by
  rw [Agrees] at h
  obtain ⟨hevents, hfault⟩ := play_silenced wanted t
  rw [← hevents, ← hfault, h]
  exact play_silenced wanted u

end Agrees

/-- There are no warnings on the way. -/
def Quiet (t : Traversal L) : Prop := t.silenced = t

theorem quiet_event (e : Event L) : (event e).Quiet := rfl

theorem quiet_scope {e : Event L} (h : t.Quiet) : (scope e t).Quiet := by
  rw [Quiet] at h
  simp only [Quiet, scope, silenced, h]

namespace Quiet

theorem warnings (h : t.Quiet) (wanted : Event L → Bool) : (t.play wanted).warnings = [] := by
  rw [← h]
  exact warnings_silenced wanted t

theorem append (ht : t.Quiet) (hu : u.Quiet) : (t ++ u).Quiet := by
  rw [Quiet, silenced_append, ht, hu]

theorem check {r : Except Fault α} {f : α → Traversal L} (h : ∀ a, r = .ok a → (f a).Quiet) :
    (check r f).Quiet := by
  cases r with
  | ok a => exact h a rfl
  | error fault => rfl

theorem each {l : List α} {f : α → Traversal L} (h : ∀ a ∈ l, (f a).Quiet) : (each l f).Quiet := by
  induction l with
  | nil => rfl
  | cons a l ih =>
    have hhead := h a List.mem_cons_self
    have htail := ih fun b hb => h b (List.mem_cons_of_mem a hb)
    exact hhead.append htail

theorem map (h : t.Quiet) (g : L → M) : (t.map g).Quiet := by
  rw [Quiet, silenced_map, h]

end Quiet

end Traversal

section Parts

open Traversal

variable {L α : Type}

/-- Values and annotations are gone through without a warning. -/
theorem quiet_values :
    (∀ v name, (valueEvents name v : Traversal L).Quiet) ∧
      ∀ m, (annotationBody m : Traversal L).Quiet := by
  apply value_induction
  · intro v hv name
    rw [valueEvents_plain hv]
    exact quiet_event _
  · intro m hnested hitems name
    cases he : m.hasKey "enum" with
    | true =>
      rw [valueEvents_enum he]
      exact .check fun e _ => quiet_event _
    | false =>
      cases ha : m.hasKey "annotation" with
      | true =>
        rw [valueEvents_nested he ha]
        exact .check fun n hn => .check fun desc _ => quiet_scope (hnested n hn)
      | false =>
        cases hl : m.hasKey "array" with
        | true =>
          rw [valueEvents_array he ha hl]
          refine .check fun items hread => quiet_scope (.append ?_ (quiet_event _))
          rw [itemEvents_eq]
          exact .each fun v hv => hitems items hread v hv none
        | false =>
          rw [valueEvents_tagged he ha hl]
          exact .check fun c _ => quiet_event _
  · intro m hvalues
    rw [annotationBody_eq]
    refine .check fun es hes => .append ?_ (quiet_event _)
    rw [entryEvents_eq]
    exact .each fun e he => .check fun name _ => .check fun v hv => hvalues es hes e he v hv name

theorem quiet_annotationEvents (m : Members) (key : String) (read : Members → Except Fault α)
    (toEvent : α → Event L) : (annotationEvents m key read toEvent).Quiet :=
  .check fun _ _ => .each fun a _ => .check fun _ _ => quiet_scope (quiet_values.2 a)

theorem quiet_declarationAnnotations (m : Members) (annotated : AnnotationHead → Event L)
    (typeAnnotated : TypeAnnotationHead → Event L) :
    (declarationAnnotations m annotated typeAnnotated).Quiet :=
  (quiet_annotationEvents m _ _ _).append (quiet_annotationEvents m _ _ _)

theorem quiet_fieldBody (m : Members) : (fieldBody m : Traversal L).Quiet :=
  (quiet_declarationAnnotations m _ _).append (quiet_event _)

theorem quiet_handlerEvents (m : Members) : (handlerEvents m).Quiet :=
  .check fun _ _ => (quiet_event _).append (quiet_annotationEvents m _ _ _)

theorem quiet_codeEntryEvents (m : Members) : (codeEntryEvents m).Quiet := by
  unfold codeEntryEvents
  split
  · exact .check fun _ _ => (quiet_event _).append (quiet_annotationEvents m _ _ _)
  · exact .check fun _ _ => quiet_event _

theorem quiet_localVariableEvents (m : Members) : (localVariableEvents m).Quiet :=
  .check fun _ _ => (quiet_event _).append (quiet_annotationEvents m _ _ _)

theorem quiet_codeEvents (m : Members) : (codeEvents m).Quiet := by
  refine .append (.append (.append (.append (quiet_event _) ?_) ?_) ?_) ?_
  · exact .check fun _ _ => .each fun h _ => quiet_handlerEvents h
  · exact .check fun _ _ => .each fun e _ => quiet_codeEntryEvents e
  · exact .check fun _ _ => .each fun v _ => quiet_localVariableEvents v
  · exact .check fun _ _ => quiet_event _

theorem quiet_defaultValueEvents (m : Members) : (defaultValueEvents m : Traversal L).Quiet := by
  unfold defaultValueEvents
  split
  · exact quiet_scope ((quiet_values.1 _ none).append (quiet_event _))
  · rfl

theorem quiet_methodBody (m : Members) : (methodBody m).Quiet := by
  refine .append (.append (.append (.append (.append ?_ ?_) ?_) ?_) ?_) (quiet_event _)
  · exact .check fun _ _ => .each fun _ _ => .check fun _ _ => quiet_event _
  · refine .check fun code _ => ?_
    cases code with
    | some items => exact quiet_codeEvents m
    | none => rfl
  · exact quiet_defaultValueEvents m
  · exact quiet_declarationAnnotations m _ _
  · exact quiet_annotationEvents m _ _ _

theorem quiet_objectEvents (m : Members) (key : String) (read : Members → Except Fault ClassEvent) :
    (objectEvents m key read : Traversal L).Quiet :=
  .check fun _ _ => .each fun _ _ => .check fun _ _ => quiet_event _

theorem quiet_textEvents (m : Members) (key : String) (toEvent : String → ClassEvent) :
    (textEvents m key toEvent : Traversal L).Quiet :=
  .check fun _ _ => .each fun _ _ => quiet_event _

theorem quiet_textEvent (m : Members) (key : String) (toEvent : String → ClassEvent) :
    (textEvent m key toEvent : Traversal L).Quiet := by
  refine .check fun text _ => ?_
  cases text with
  | none => rfl
  | some s =>
    by_cases hs : s = ""
    · simp only [hs, if_true]
      rfl
    · simp only [hs, if_false]
      exact quiet_event _

theorem quiet_outerClassEvents (m : Members) : (outerClassEvents m : Traversal L).Quiet := by
  refine .check fun outer _ => ?_
  cases outer with
  | none => rfl
  | some o => exact .check fun _ _ => quiet_event _

end Parts

end ClassUsage
