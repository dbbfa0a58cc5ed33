import Mathlib.Data.List.Forall2
import ClassUsage.Proofs.Trace.Playback

/-!
Two ways through a class that are the same to a listener: they have the same events and warnings in the
same places, the scopes that the listener opens are alike inside, and where one ends with a fault, the
other does so with a fault of that kind. There is one lemma for each means by which ways are made up;
the main statement is that the listener notices the same on both.
-/
namespace ClassUsage

/-- Faults of one kind: both of the form of the document, of a text, or of a type constant. -/
inductive Fault.SameKind : Fault → Fault → Prop
  | trace (e e' : TraceError) : SameKind (.trace e) (.trace e')
  | decoding (e e' : DecodingError) : SameKind (.decoding e) (.decoding e')
  | type (e e' : TypeFault) : SameKind (.type e) (.type e')

theorem Fault.SameKind.refl (f : Fault) : f.SameKind f := by
  cases f with
  | trace e => exact .trace e e
  | decoding e => exact .decoding e e
  | type e => exact .type e e

namespace Playback

variable {L : Type} {p q p' q' : Playback L}

/-- The same is noticed, in the same order, and it ends alike: without a fault, or with faults of one
kind. -/
structure Matches (p q : Playback L) : Prop where
  notices : p.notices = q.notices
  ending : Option.Rel Fault.SameKind p.fault q.fault

theorem matches_nothing : (nothing : Playback L).Matches nothing := ⟨rfl, .none⟩

theorem Matches.cons (n : Notice L) (h : p.Matches q) : (cons n p).Matches (cons n q) :=
  ⟨congrArg (n :: ·) h.notices, h.ending⟩

theorem Matches.andThen (h : p.Matches q) (h' : p'.Matches q') :
    (p.andThen p').Matches (q.andThen q') := by
  obtain ⟨ns, f⟩ := p
  obtain ⟨ms, g⟩ := q
  obtain ⟨hnotices, hending⟩ := h
  cases hending with
  | none => exact ⟨congrArg₂ (· ++ ·) hnotices h'.notices, h'.ending⟩
  | some hkind => exact ⟨hnotices, .some hkind⟩

end Playback

namespace Traversal

variable {L M α β : Type} {wanted : Event L → Bool} {hidden : Traversal L → Traversal L → Prop}
  {t u t' u' : Traversal L}

/-- The ways are the same to a listener. The bodies of an event whose scope it does not open need only
be related as `hidden` says. -/
inductive Akin (wanted : Event L → Bool) (hidden : Traversal L → Traversal L → Prop) :
    Traversal L → Traversal L → Prop
  | done : Akin wanted hidden .done .done
  | fail {f g : Fault} (h : f.SameKind g) : Akin wanted hidden (.fail f) (.fail g)
  | warn {w : Warning} {next next' : Traversal L} (hnext : Akin wanted hidden next next') :
      Akin wanted hidden (.warn w next) (.warn w next')
  | opened {e : Event L} {body body' next next' : Traversal L} (hw : wanted e = true)
      (hbody : Akin wanted hidden body body') (hnext : Akin wanted hidden next next') :
      Akin wanted hidden (.visit e body next) (.visit e body' next')
  | declined {e : Event L} {body body' next next' : Traversal L} (hw : wanted e = false)
      (hbody : hidden body body') (hnext : Akin wanted hidden next next') :
      Akin wanted hidden (.visit e body next) (.visit e body' next')

/-- The same labels occur in the same order. -/
def SameLabels (t u : Traversal L) : Prop := t.labels = u.labels

/-- Bodies can differ in all but their labels. -/
def Lenient (hidden : Traversal L → Traversal L → Prop) : Prop :=
  ∀ t u, SameLabels t u → hidden t u

theorem lenient_sameLabels : Lenient (SameLabels (L := L)) := fun _ _ h => h

theorem lenient_true : Lenient fun _ _ : Traversal L => True := fun _ _ _ => trivial

theorem akin_visit {e : Event L} {body body' next next' : Traversal L}
    (hopened : wanted e = true → body.Akin wanted hidden body')
    (hdeclined : wanted e = false → hidden body body') (hnext : next.Akin wanted hidden next') :
    (visit e body next).Akin wanted hidden (visit e body' next') := by
  cases hw : wanted e with
  | true => exact .opened hw (hopened hw) hnext
  | false => exact .declined hw (hdeclined hw) hnext

theorem akin_refl (hh : Lenient hidden) (t : Traversal L) : t.Akin wanted hidden t := by
  induction t with
  | done => exact .done
  | fail f => exact .fail (.refl f)
  | warn w next ih => exact .warn ih
  | visit e body next ihBody ihNext => exact akin_visit (fun _ => ihBody) (fun _ => hh _ _ rfl) ihNext

theorem akin_of_eq (hh : Lenient hidden) (h : t = u) : t.Akin wanted hidden u := h ▸ akin_refl hh t

theorem akin_scope {e : Event L} {body body' : Traversal L}
    (hopened : wanted e = true → body.Akin wanted hidden body')
    (hdeclined : wanted e = false → hidden body body') :
    (scope e body).Akin wanted hidden (scope e body') :=
  akin_visit hopened hdeclined .done

/-- Ways that the same checked value leads. -/
theorem akin_check {r s : Except Fault α} {f g : α → Traversal L} (h : r = s)
    (hfg : ∀ a, r = .ok a → (f a).Akin wanted hidden (g a)) :
    (check r f).Akin wanted hidden (check s g) := by
  subst h
  cases r with
  | ok a => exact hfg a rfl
  | error f => exact .fail (.refl f)

namespace Akin

theorem append (h : t.Akin wanted hidden u) (h' : t'.Akin wanted hidden u') :
    (t ++ t').Akin wanted hidden (u ++ u') := by
  induction h with
  | done => exact h'
  | fail hkind => exact .fail hkind
  | warn _ ih => exact .warn ih
  | opened hw hbody _ _ ih => exact .opened hw hbody ih
  | declined hw hbody _ ih => exact .declined hw hbody ih

theorem each {R : α → β → Prop} {l : List α} {l' : List β} {f : α → Traversal L}
    {g : β → Traversal L} (h : List.Forall₂ R l l')
    (hfg : ∀ a b, R a b → (f a).Akin wanted hidden (g b)) :
    (each l f).Akin wanted hidden (each l' g) := by
  induction h with
  | nil => exact .done
  | cons hab _ ih => exact (hfg _ _ hab).append ih

/-- Whoever opens every scope sees all there is, and so does not see less than another. -/
theorem of_all (h : t.Akin (fun _ => true) hidden u) (wanted : Event L → Bool) :
    t.Akin wanted (fun _ _ => True) u := by
  induction h with
  | done => exact .done
  | fail hkind => exact .fail hkind
  | warn _ ih => exact .warn ih
  | opened _ _ _ ihBody ihNext => exact akin_visit (fun _ => ihBody) (fun _ => trivial) ihNext
  | declined hw => contradiction

theorem labels (h : t.Akin wanted SameLabels u) : t.labels = u.labels := by
  induction h with
  | done => rfl
  | fail _ => rfl
  | warn _ ih => exact ih
  | opened _ _ _ ihBody ihNext => simp only [Traversal.labels, ihBody, ihNext]
  | declined _ hbody _ ihNext =>
    rw [SameLabels] at hbody
    simp only [Traversal.labels, hbody, ihNext]

/-- With other labels the ways are the same to a listener that goes by the changed events. -/
theorem map {g : L → M} {wanted : Event M → Bool}
    (h : t.Akin (fun e => wanted (e.map g)) hidden u) :
    (t.map g).Akin wanted (fun _ _ => True) (u.map g) := by
  induction h with
  | done => exact .done
  | fail hkind => exact .fail hkind
  | warn _ ih => exact .warn ih
  | opened hw _ _ ihBody ihNext => exact .opened hw ihBody ihNext
  | declined hw _ _ ihNext => exact .declined hw trivial ihNext

/-- The listener notices the same on both ways. -/
theorem play (h : t.Akin wanted hidden u) : (t.play wanted).Matches (u.play wanted) := by
  induction h with
  | done => exact Playback.matches_nothing
  | fail hkind => exact ⟨rfl, .some hkind⟩
  | warn _ ih => exact ih.cons _
  | opened hw _ _ ihBody ihNext =>
    simp only [Traversal.play, hw, if_true]
    exact (ihBody.andThen ihNext).cons _
  | declined hw _ _ ihNext =>
    simp only [Traversal.play, hw, Bool.false_eq_true, if_false]
    exact (Playback.matches_nothing.andThen ihNext).cons _

end Akin

end Traversal

end ClassUsage
