import ClassUsage.Trace.Elements

/-!
How a way through a class is made up: one way after the other is played one after the other, a check
that fails ends it, and changing the labels changes each event in its place. The values of an
annotation are gone through by the same means; an induction over them is stated once.
-/
namespace ClassUsage

namespace Playback

variable {L : Type} {a b : Playback L}

@[simp] theorem fault_andThen : (a.andThen b).fault = a.fault.or b.fault := by
  unfold andThen
  split <;> simp_all

@[simp] theorem events_andThen :
    (a.andThen b).events = a.events ++ if a.fault.isSome then [] else b.events := by
  unfold andThen
  split <;> simp_all [events]

@[simp] theorem andThen_nothing : a.andThen .nothing = a := by
  obtain ⟨notices, fault⟩ := a
  cases fault <;> simp [andThen, nothing]

theorem andThen_assoc (a b c : Playback L) : (a.andThen b).andThen c = a.andThen (b.andThen c) := by
  obtain ⟨ns, fault⟩ := a
  obtain ⟨ms, fault'⟩ := b
  cases fault <;> cases fault' <;> simp [andThen]

@[simp] theorem cons_andThen (n : Notice L) : (cons n a).andThen b = cons n (a.andThen b) := by
  obtain ⟨notices, fault⟩ := a
  cases fault <;> simp [andThen, cons]

@[simp] theorem fault_cons (n : Notice L) : (cons n a).fault = a.fault := rfl

@[simp] theorem events_cons_event (e : Event L) : (cons (.event e) a).events = e :: a.events := rfl

@[simp] theorem events_cons_warning (w : Warning) : (cons (.warning w) a).events = a.events := rfl

@[simp] theorem fault_nothing : (Playback.nothing : Playback L).fault = none := rfl

@[simp] theorem events_nothing : (Playback.nothing : Playback L).events = [] := rfl

end Playback

namespace Traversal

variable {L M : Type} {α : Type}

@[simp] theorem warn_append (w : Warning) (a t : Traversal L) :
    .warn w a ++ t = .warn w (a ++ t) := rfl

@[simp] theorem visit_append (e : Event L) (body a t : Traversal L) :
    .visit e body a ++ t = .visit e body (a ++ t) := rfl

@[simp] theorem check_ok (a : α) (f : α → Traversal L) : check (.ok a) f = f a := rfl

@[simp] theorem check_error (e : Fault) (f : α → Traversal L) : check (.error e) f = .fail e := rfl

theorem check_append (r : Except Fault α) (f : α → Traversal L) (t : Traversal L) :
    check r f ++ t = check r fun a => f a ++ t := by
  cases r <;> rfl

@[simp] theorem play_append (wanted : Event L → Bool) (a b : Traversal L) :
    (a ++ b).play wanted = (a.play wanted).andThen (b.play wanted) := by
  induction a with
  | done => rfl
  | fail f => rfl
  | warn w next ih => simp [play, ih]
  | visit e body next _ ih => simp [play, ih, Playback.andThen_assoc]

@[simp] theorem play_event (wanted : Event L → Bool) (e : Event L) :
    (event e).play wanted = .cons (.event e) .nothing := by
  simp [event, play]

theorem play_scope (wanted : Event L → Bool) (e : Event L) (body : Traversal L) :
    (scope e body).play wanted =
      .cons (.event e) (if wanted e then body.play wanted else .nothing) := by
  simp [scope, play]

theorem map_append (f : L → M) (a b : Traversal L) : (a ++ b).map f = a.map f ++ b.map f := by
  induction a with
  | done => rfl
  | fail e => rfl
  | warn w next ih => simp [map, ih]
  | visit e body next _ ih => simp [map, ih]

/-- Changing labels changes the events in their places, and a listener that goes by the changed
events wants the same scopes. -/
theorem play_map (f : L → M) (wanted : Event M → Bool) (t : Traversal L) :
    ((t.map f).play wanted).fault = (t.play fun e => wanted (e.map f)).fault ∧
      ((t.map f).play wanted).events = (t.play fun e => wanted (e.map f)).events.map (Event.map f) := by
  induction t with
  | done => exact ⟨rfl, rfl⟩
  | fail e => exact ⟨rfl, rfl⟩
  | warn w next ih => simpa [map, play] using ih
  | visit e body next ihBody ihNext =>
    by_cases h : wanted (e.map f) = true
    · simp [map, play, h, ihBody, ihNext]
      split <;> simp
    · simpa [map, play, h] using ihNext

end Traversal

section Values

open Traversal

variable {L M : Type} {name : Option String} {m : Members}

theorem valueEvents_enum (h : m.hasKey "enum" = true) :
    valueEvents (L := L) name (.object m) =
      check (readEnumConstant name m) fun e => event (.value e) := by
  rw [valueEvents, if_pos h]

theorem valueEvents_nested (he : m.hasKey "enum" = false) (ha : m.hasKey "annotation" = true) :
    valueEvents (L := L) name (.object m) =
      check (m.required .object "annotation") fun n => check (n.required .text "desc") fun desc =>
        scope (.value (.nested name desc)) (annotationBody n) := by
  rw [valueEvents, if_neg (by simp [he]), if_pos ha]
  split
  · next h => rw [h, check_ok]
  · next h => rw [h, check_error]

theorem valueEvents_array (he : m.hasKey "enum" = false) (ha : m.hasKey "annotation" = false)
    (hl : m.hasKey "array" = true) :
    valueEvents (L := L) name (.object m) =
      check (m.required .list "array") fun items =>
        scope (.value (.array name)) (itemEvents items ++ event (.value .finish)) := by
  rw [valueEvents, if_neg (by simp [he]), if_neg (by simp [ha]), if_pos hl]
  split
  · next h => rw [h, check_ok]
  · next h => rw [h, check_error]

theorem valueEvents_tagged (he : m.hasKey "enum" = false) (ha : m.hasKey "annotation" = false)
    (hl : m.hasKey "array" = false) :
    valueEvents (L := L) name (.object m) =
      check (readTagged m) fun c => event (.value (.constant name c)) := by
  rw [valueEvents, if_neg (by simp [he]), if_neg (by simp [ha]), if_neg (by simp [hl])]

theorem valueEvents_plain {v : Json} (h : ∀ m, v ≠ .object m) :
    valueEvents (L := L) name v = event (.value (.constant name (.plain v))) := by
  rw [valueEvents]
  exact h

theorem annotationBody_eq (m : Members) :
    annotationBody (L := L) m =
      check (m.entries .object "values") fun es => entryEvents es ++ event (.value .finish) := by
  rw [annotationBody]
  split
  · next h => rw [h, check_ok]
  · next h => rw [h, check_error]

/-- The way through the entry of an annotation. -/
def entryValue (e : Members) : Traversal L :=
  check (e.optional .text "name") fun name =>
    check (e.requiredValue "value") fun v => valueEvents name v

theorem entryEvents_eq (es : List Members) : entryEvents (L := L) es = each es entryValue := by
  induction es with
  | nil => rw [entryEvents, each]
  | cons e es ih =>
    rw [entryEvents, each, ← ih, entryValue, check_append]
    congr 1
    funext name
    rw [check_append]
    split
    · next h => rw [h, check_ok]
    · next h => rw [h, check_error]

theorem itemEvents_eq (items : List Json) :
    itemEvents (L := L) items = each items (valueEvents none) := by
  induction items with
  | nil => rw [itemEvents, each]
  | cons v items ih => rw [itemEvents, each, ih]

/-- What is inherited from the parts of a value holds of every value, and of every annotation. -/
theorem value_induction {P : Json → Prop} {Q : Members → Prop}
    (plain : ∀ v, (∀ m, v ≠ .object m) → P v)
    (object : ∀ m : Members, (∀ n, m.required .object "annotation" = .ok n → Q n) →
      (∀ items, m.required .list "array" = .ok items → ∀ v ∈ items, P v) → P (.object m))
    (body : ∀ m : Members, (∀ es, m.entries .object "values" = .ok es → ∀ e ∈ es, ∀ v,
      e.requiredValue "value" = .ok v → P v) → Q m) :
    (∀ v, P v) ∧ ∀ m, Q m := by
  have step : ∀ n, (∀ v, sizeOf v ≤ n → P v) ∧ ∀ m : Members, sizeOf m ≤ n → Q m := by
    intro n
    induction n with
    | zero =>
      refine ⟨fun v hv => ?_, fun m hm => ?_⟩
      · cases v <;> simp at hv
      · have := Members.one_le_sizeOf (m := m)
        omega
    | succ n ih =>
      have hQ : ∀ m : Members, sizeOf m ≤ n + 1 → Q m := by
        intro m hm
        apply body
        intro es hes e he v hv
        apply ih.1
        have h₁ := Members.sizeOf_entries hes
        have h₂ := List.sizeOf_lt_of_mem he
        have h₃ := Members.sizeOf_requiredValue hv
        omega
      refine ⟨fun v hv => ?_, hQ⟩
      by_cases ho : ∃ m, v = .object m
      · obtain ⟨m, rfl⟩ := ho
        simp only [Json.object.sizeOf_spec] at hv
        apply object
        · intro k hk
          apply hQ
          have := Members.sizeOf_required_object hk
          omega
        · intro items hi w hw
          apply ih.1
          have h₁ := Members.sizeOf_required_list hi
          have h₂ := List.sizeOf_lt_of_mem hw
          omega
      · exact plain v fun m hm => ho ⟨m, hm⟩
  exact ⟨fun v => (step _).1 v (Nat.le_refl _), fun m => (step _).2 m (Nat.le_refl _)⟩

end Values

end ClassUsage
