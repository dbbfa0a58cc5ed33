import ClassUsage.Proofs.Trace.Contents
import Mathlib.Data.List.Basic

/-!
Which labels are the same. The events that a listener notices are numbered by the methods they belong
to; two labels are the same if and only if their events have one number and the document gives them
one name.
-/
namespace ClassUsage

open Traversal

section Numbers

variable {L : Type}

/-- The number of methods that have been started after an event. -/
def methodAfter (n : Nat) (e : Event L) : Nat := if e.startsMethod then n + 1 else n

/-- Each event with the number of methods started by then. The events of the first method have the
number one. -/
def numbered (n : Nat) : List (Event L) → List (Nat × Event L)
  | [] => []
  | e :: es => (methodAfter n e, e) :: numbered (methodAfter n e) es

theorem numbered_append (n : Nat) (es fs : List (Event L)) :
    numbered n (es ++ fs) = numbered n es ++ numbered (es.foldl methodAfter n) fs := by
  induction es generalizing n with
  | nil => rfl
  | cons e es ih => simp [numbered, ih]

/-- Events among which no method starts have the number of the first. -/
theorem mem_numbered_of_none {n : Nat} {es : List (Event L)} {p : Nat × Event L}
    (h : ∀ e ∈ es, e.startsMethod = false) (hp : p ∈ numbered n es) : p.1 = n ∧ p.2 ∈ es := by
  induction es generalizing n with
  | nil => contradiction
  | cons e es ih =>
    have hn : methodAfter n e = n := by simp [methodAfter, h e List.mem_cons_self]
    rw [numbered, hn] at hp
    rcases List.mem_cons.mp hp with rfl | hp
    · exact ⟨rfl, List.mem_cons_self⟩
    · obtain ⟨hnumber, hmem⟩ := ih (fun e' he' => h e' (List.mem_cons_of_mem e he')) hp
      exact ⟨hnumber, List.mem_cons_of_mem e hmem⟩

theorem foldl_methodAfter_of_none {n : Nat} {es : List (Event L)}
    (h : ∀ e ∈ es, e.startsMethod = false) : es.foldl methodAfter n = n := by
  induction es with
  | nil => rfl
  | cons e es ih =>
    have hn : methodAfter n e = n := by simp [methodAfter, h e List.mem_cons_self]
    rw [List.foldl_cons, hn]
    exact ih fun e' he' => h e' (List.mem_cons_of_mem e he')

end Numbers

namespace Traversal

variable {L α : Type} {P : Nat → Event L → Prop} {n k last : Nat} {t u : Traversal L}

/-- Whatever scopes a listener wants, the events it notices on this way satisfy `P` at their numbers, if
`n` methods were started before; if there is no fault, then `last` methods are started in the end. -/
def Counts (P : Nat → Event L → Prop) (n last : Nat) (t : Traversal L) : Prop :=
  ∀ wanted : Event L → Bool, (∀ p ∈ numbered n (t.play wanted).events, P p.1 p.2) ∧
    ((t.play wanted).fault = none → (t.play wanted).events.foldl methodAfter n = last)

theorem counts_done : (Traversal.done : Traversal L).Counts P n n := by
  intro wanted
  refine ⟨?_, fun _ => rfl⟩
  intro p hp
  contradiction

theorem counts_fail {f : Fault} : (Traversal.fail f : Traversal L).Counts P n last := by
  intro wanted
  refine ⟨?_, ?_⟩
  · intro p hp
    contradiction
  · intro hf
    contradiction

namespace Counts

theorem append (ht : t.Counts P n k) (hu : u.Counts P k last) : (t ++ u).Counts P n last := by
  intro wanted
  obtain ⟨htold, hstarted⟩ := ht wanted
  obtain ⟨htold', hstarted'⟩ := hu wanted
  rw [play_append, Playback.events_andThen, Playback.fault_andThen]
  cases hf : (t.play wanted).fault with
  | some f =>
    simp only [Option.isSome_some, if_true, List.append_nil]
    exact ⟨htold, by simp⟩
  | none =>
    have hk := hstarted hf
    simp only [Option.isSome_none, Bool.false_eq_true, if_false, Option.none_or]
    rw [numbered_append, List.foldl_append, hk]
    exact ⟨List.forall_mem_append.mpr ⟨htold, htold'⟩, hstarted'⟩

theorem check {r : Except Fault α} {f : α → Traversal L} (h : ∀ a, r = .ok a → (f a).Counts P n last) :
    (check r f).Counts P n last := by
  cases r with
  | ok a => exact h a rfl
  | error fault => exact counts_fail

end Counts

/-- A way on which no method starts. -/
theorem Every.counts {F : Fault → Prop} (h : t.Every (fun e => e.startsMethod = false ∧ P n e) F) :
    t.Counts P n n := by
  intro wanted
  have hevents := (h.play wanted).events
  refine ⟨?_, fun _ => foldl_methodAfter_of_none fun e he => (hevents e he).1⟩
  intro p hp
  obtain ⟨hnumber, hmem⟩ := mem_numbered_of_none (fun e he => (hevents e he).1) hp
  rw [hnumber]
  exact (hevents p.2 hmem).2

/-- A method and its scope, in which no other method starts. -/
theorem counts_method {F : Fault → Prop} {e : Event L} {body : Traversal L}
    (hstarts : e.startsMethod = true) (he : P (n + 1) e)
    (hbody : body.Every (fun e => e.startsMethod = false ∧ P (n + 1) e) F) :
    (scope e body).Counts P n (n + 1) := by
  intro wanted
  have hn : methodAfter n e = n + 1 := by simp [methodAfter, hstarts]
  rw [play_scope, Playback.events_cons_event, Playback.fault_cons, numbered, List.foldl_cons, hn]
  cases hw : wanted e with
  | false =>
    refine ⟨?_, fun _ => rfl⟩
    intro p hp
    cases List.mem_singleton.mp hp
    exact he
  | true =>
    obtain ⟨htold, hstarted⟩ := hbody.counts wanted
    exact ⟨List.forall_mem_cons.mpr ⟨he, htold⟩, hstarted⟩

/-- The labels of each event are among those of the way. -/
theorem Every.labels {E : Event L → Prop} {F : Fault → Prop} (h : t.Every E F) {ls : List L}
    (hls : ∀ a ∈ t.labels, a ∈ ls) : t.Every (fun e => E e ∧ ∀ a ∈ e.labels, a ∈ ls) F := by
  induction h with
  | done => exact .done
  | fail hf => exact .fail hf
  | warn _ ih => exact .warn (ih hls)
  | @visit e body next he _ _ ihBody ihNext =>
    simp only [Traversal.labels, List.mem_append, or_imp, forall_and] at hls
    obtain ⟨⟨hevent, hbody⟩, hnext⟩ := hls
    exact .visit ⟨he, hevent⟩ (ihBody hbody) (ihNext hnext)

end Traversal

section Labels

variable {L M : Type}

theorem Event.labels_map (f : L → M) (e : Event L) : (e.map f).labels = e.labels.map f := by
  rcases e with e | e | e | e
  case method => cases e <;> simp [Event.map, Event.labels, MethodEvent.map, MethodEvent.labels]
  all_goals rfl

theorem Event.startsMethod_map (f : L → M) (e : Event L) :
    (e.map f).startsMethod = e.startsMethod := by
  rcases e with e | e | e | e <;> cases e <;> rfl

/-- The position that a name stands for in the code of the method that is the `index`-th of its
class. -/
def positionOf (index : Nat) (o : Members) (name : String) : Label :=
  ⟨index, (methodBody o).labels.idxOf name, some name⟩

/-- An event with labels belongs to a method of the class, which has the number `n`, and records an
entry of its code. -/
def Trace.Places (t : Trace) (n : Nat) (e : Event Label) : Prop :=
  e.labels ≠ [] → ∃ index o told, n = index + 1 ∧
    (t.members.items .object "methods")[index]? = some o ∧ o.RecordsPosition told ∧
    (∀ name ∈ told.labels, name ∈ (methodBody o).labels) ∧ e = told.map (positionOf index o)

theorem Event.Aside.places {e : Event Label} (h : e.Aside) (t : Trace) (n : Nat) : t.Places n e := by
  intro hlabels
  exact absurd h.unlabelled hlabels

/-- Labels of two events are the same just if the events have one number and the labels one name. -/
theorem Trace.Places.same_iff {t : Trace} {n k : Nat} {e f : Event Label} {a b : Label}
    (he : t.Places n e) (hf : t.Places k f) (ha : a ∈ e.labels) (hb : b ∈ f.labels) :
    a.same b = true ↔ n = k ∧ a.name = b.name := by
  obtain ⟨i, o, told, rfl, ho, -, hnames, rfl⟩ := he (List.ne_nil_of_mem ha)
  obtain ⟨j, o', told', rfl, ho', -, -, rfl⟩ := hf (List.ne_nil_of_mem hb)
  rw [Event.labels_map] at ha hb
  obtain ⟨x, hx, rfl⟩ := List.mem_map.mp ha
  obtain ⟨y, -, rfl⟩ := List.mem_map.mp hb
  by_cases hij : i = j
  · subst hij
    cases Option.some.inj (ho.symm.trans ho')
    -- within one method the number of a name is the place of its first mention
    have hinj : (methodBody o).labels.idxOf x = (methodBody o).labels.idxOf y ↔ x = y :=
      List.idxOf_inj (hnames x hx)
    simp [Label.same, positionOf, hinj]
  · simp [Label.same, positionOf, hij]

end Labels

section Classes

variable {t : Trace}

theorem counts_of_formed {u : Traversal Label} {n : Nat} (h : u.Formed Event.Aside .classFile) :
    u.Counts t.Places n n := by
  have hevery : u.Every (fun e => e.startsMethod = false ∧ t.Places n e) fun _ => True :=
    (h.every Event.aside_finish).mono (fun _ he => ⟨he.startsNone, he.places t n⟩) fun _ hf => hf
  exact hevery.counts

/-- All that is noticed inside the method `o`, the `index`-th of the class, has its number. -/
theorem every_methodBody {index : Nat} {o : Members}
    (ho : (t.members.items .object "methods")[index]? = some o) :
    (bindLabels index (methodBody o)).Every
      (fun e => e.startsMethod = false ∧ t.Places (index + 1) e) fun _ => True := by
  have hlast : ∀ s, o.Tells (.finish s) := fun s => (Event.aside_finish s).tells o
  have hevery := ((closed_methodBody o).every hlast).labels fun _ ha => ha
  apply hevery.map
  rintro told ⟨htells, hnames⟩
  refine ⟨(Event.startsMethod_map _ told).trans htells.startsNone, ?_⟩
  intro hlabels
  rcases htells.recorded with hempty | hrecords
  · exact absurd (by rw [Event.labels_map, hempty, List.map_nil]) hlabels
  · exact ⟨index, o, told, rfl, ho, hrecords, hnames, rfl⟩

theorem counts_methodEvents {index : Nat} {o : Members}
    (ho : (t.members.items .object "methods")[index]? = some o) :
    (methodEvents index o).Counts t.Places index (index + 1) := by
  apply Counts.check
  intro name hname
  refine Counts.append (counts_of_formed formed_warnUnknown) (Counts.check ?_)
  intro e he
  obtain ⟨name, desc, exceptions, -, -, -, hsame⟩ := recordsMethod_of_read (L := Label) hname he
  rw [hsame]
  exact counts_method rfl (fun hlabels => absurd rfl hlabels) (every_methodBody ho)

theorem counts_methods (ms : List Members) (start : Nat)
    (h : ∀ i o, ms[i]? = some o → (t.members.items .object "methods")[start + i]? = some o) :
    (each (ms.zipIdx start) fun (o, i) => methodEvents i o).Counts t.Places start
      (start + ms.length) := by
  induction ms generalizing start with
  | nil => exact counts_done
  | cons o ms ih =>
    have hhead : (t.members.items .object "methods")[start]? = some o := h 0 o rfl
    have htail := ih (start + 1) fun i o' ho' => by
      rw [Nat.add_assoc, Nat.add_comm 1 i]
      exact h (i + 1) o' ho'
    rw [Nat.add_assoc, Nat.add_comm 1 ms.length] at htail
    exact (counts_methodEvents hhead).append htail

theorem counts_throughMethods (t : Trace) :
    t.throughMethods.Counts t.Places 0 (t.members.items .object "methods").length := by
  apply Counts.check
  intro ms hms
  have hitems := Members.items_of_entries hms
  rw [hitems]
  have hcounts := counts_methods (t := t) ms 0 fun i o ho => by rw [hitems, Nat.zero_add, ho]
  rw [Nat.zero_add] at hcounts
  exact hcounts

/-- Every event with labels is noticed at the number of its method. -/
theorem places_of_play (t : Trace) (wanted : Event Label → Bool) {p : Nat × Event Label}
    (hp : p ∈ numbered 0 (t.traversal.play wanted).events) : t.Places p.1 p.2 := by
  have hfinish : (event (.finish .classFile) : Traversal Label).Every
      (fun e => e.startsMethod = false ∧ t.Places (t.members.items .object "methods").length e)
      fun _ => True := every_event ⟨rfl, fun hlabels => absurd rfl hlabels⟩
  have hcounts := (((counts_of_formed (formed_beforeMethods t)).append
    (counts_throughMethods t)).append (counts_of_formed (formed_afterMethods t))).append hfinish.counts
  rw [← Trace.traversal_eq] at hcounts
  exact (hcounts wanted).1 p hp

/-- Whatever scopes a listener wants, two labels among the events it notices are the same if and only if
their events belong to one method and the labels have one name. An event with labels records an entry of
the code of its method, and its labels carry the names given there. -/
theorem labels_same_iff (t : Trace) (wanted : Event Label → Bool) :
    (∀ p ∈ numbered 0 (t.traversal.play wanted).events,
      ∀ q ∈ numbered 0 (t.traversal.play wanted).events, ∀ a ∈ p.2.labels, ∀ b ∈ q.2.labels,
        (a.same b = true ↔ p.1 = q.1 ∧ a.name = b.name)) ∧
    ∀ p ∈ numbered 0 (t.traversal.play wanted).events, p.2.labels ≠ [] →
      ∃ index o told, p.1 = index + 1 ∧ (t.members.items .object "methods")[index]? = some o ∧
        o.RecordsPosition told ∧ ∃ position, KeepsNames position ∧ p.2 = told.map position := by
  constructor
  · intro p hp q hq a ha b hb
    exact (places_of_play t wanted hp).same_iff (places_of_play t wanted hq) ha hb
  · intro p hp hlabels
    obtain ⟨index, o, told, hnumber, ho, hrecords, -, hsame⟩ := places_of_play t wanted hp hlabels
    exact ⟨index, o, told, hnumber, ho, hrecords, positionOf index o, fun _ => rfl, hsame⟩

/-- A class with two methods that give the same name to a label. -/
def twoLoops : Trace where
  name := "app/Loops"
  members :=
    [("name", .string "app/Loops"),
     ("methods", .list [
       .object [("name", .string "first"), ("desc", .string "()V"), ("code", .list [
         .object [("op", .string "goto"), ("label", .string "end")],
         .object [("label", .string "start")], .object [("label", .string "end")]])],
       .object [("name", .string "second"), ("desc", .string "()V"), ("code", .list [
         .object [("line", .int 7), ("label", .string "end")]])]])]

/-- The target of the jump is the label of that name in the same method, and not the one in the other
method, which carries its name as well. -/
theorem labels_same_iff_twoLoops :
    (1, .method (.jump (.opcode .jump) ⟨0, 0, some "end"⟩)) ∈
      numbered 0 (twoLoops.traversal.play fun _ => true).events ∧
    (1, .method (.label ⟨0, 0, some "end"⟩)) ∈
      numbered 0 (twoLoops.traversal.play fun _ => true).events ∧
    (2, .method (.line (.number 7) ⟨1, 0, some "end"⟩)) ∈
      numbered 0 (twoLoops.traversal.play fun _ => true).events ∧
    Label.same ⟨0, 0, some "end"⟩ ⟨0, 0, some "end"⟩ = true ∧
    ¬ Label.same ⟨0, 0, some "end"⟩ ⟨1, 0, some "end"⟩ = true ∧
    ∃ index o told, 2 = index + 1 ∧
      (twoLoops.members.items .object "methods")[index]? = some o ∧ o.RecordsPosition told ∧
      ∃ position, KeepsNames position ∧
        Event.method (.line (.number 7) ⟨1, 0, some "end"⟩) = told.map position := by
  have hjump : (1, .method (.jump (.opcode .jump) ⟨0, 0, some "end"⟩)) ∈
      numbered 0 (twoLoops.traversal.play fun _ => true).events := List.mem_of_getElem? (i := 3) rfl
  have hlabel : (1, .method (.label ⟨0, 0, some "end"⟩)) ∈
      numbered 0 (twoLoops.traversal.play fun _ => true).events := List.mem_of_getElem? (i := 5) rfl
  have hline : (2, .method (.line (.number 7) ⟨1, 0, some "end"⟩)) ∈
      numbered 0 (twoLoops.traversal.play fun _ => true).events := List.mem_of_getElem? (i := 10) rfl
  obtain ⟨hsame, hnames⟩ := labels_same_iff twoLoops fun _ => true
  have hwithin := hsame _ hjump _ hlabel _ List.mem_cons_self _ List.mem_cons_self
  have hacross := hsame _ hjump _ hline _ List.mem_cons_self _ List.mem_cons_self
  refine ⟨hjump, hlabel, hline, hwithin.mpr ⟨rfl, rfl⟩, ?_, hnames _ hline (List.cons_ne_nil _ _)⟩
  intro h
  exact absurd (hacross.mp h).1 (by decide)

end Classes

end ClassUsage
