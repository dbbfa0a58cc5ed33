import ClassUsage.Trace.Elements

/-!
What a document holds under a key, apart from any checks. A checked look-up that succeeds gives just
that, so what is read from a document can be said in terms of the document alone.
-/
namespace ClassUsage

theorem bind_eq_ok {ε α β : Type} {x : Except ε α} {f : α → Except ε β} {b : β} :
    (x >>= f) = .ok b ↔ ∃ a, x = .ok a ∧ f a = .ok b := by
  cases x <;> simp [bind, Except.bind]

theorem pure_eq_ok {ε α : Type} {a b : α} : (pure a : Except ε α) = .ok b ↔ a = b := by
  simp [pure, Except.pure]

theorem toOption_eq_some_iff {ε α : Type} {r : Except ε α} {a : α} :
    r.toOption = some a ↔ r = .ok a := by
  cases r <;> simp [Except.toOption]

namespace Kind

variable {v : Json}

theorem eq_string {s : String} (h : text.read? v = some s) : v = .string s := by
  cases v <;> cases h
  rfl

theorem eq_list {items : List Json} (h : list.read? v = some items) : v = .list items := by
  cases v <;> cases h
  rfl

theorem eq_object {m : Members} (h : object.read? v = some m) : v = .object m := by
  cases v <;> cases h
  rfl

end Kind

namespace Members

variable {α : Type} {m : Members} {kind : Kind α} {key : String}

/-- The value of a key, if it is of the given kind. -/
def value? (m : Members) (kind : Kind α) (key : String) : Option α := (m.get? key).bind kind.read?

/-- The entries of the given kind in the list under a key. -/
def items (m : Members) (kind : Kind α) (key : String) : List α :=
  ((m.value? .list key).getD []).filterMap kind.read?

theorem find?_of_get? {v : Json} (h : m.get? key = some v) : m.find? key = some v := by
  unfold get? at h
  split at h
  · contradiction
  · exact h

theorem get?_of_value? {a : α} (h : m.value? kind key = some a) :
    ∃ v, m.get? key = some v ∧ kind.read? v = some a :=
  Option.bind_eq_some_iff.mp h

theorem value?_of_optional {o : Option α} (h : m.optional kind key = .ok o) :
    m.value? kind key = o := by
  unfold optional at h
  unfold value?
  split at h
  · next hg =>
    cases h
    simp [hg]
  · next v hg =>
    split at h
    · next hr =>
      cases h
      simp [hg, hr]
    · contradiction

theorem value?_of_required {a : α} (h : m.required kind key = .ok a) :
    m.value? kind key = some a := by
  obtain ⟨v, hg, hr⟩ := required_eq_ok h
  simp [value?, hg, hr]

theorem get?_of_requiredValue {v : Json} (h : m.requiredValue key = .ok v) :
    m.get? key = some v := by
  unfold requiredValue at h
  split at h
  · next hg =>
    cases h
    exact hg
  · contradiction

theorem orElse_eq_ok {a default : α} (h : m.orElse kind key default = .ok a) :
    (m.value? kind key).getD default = a := by
  unfold orElse at h
  cases ho : m.optional kind key with
  | error f =>
    rw [ho] at h
    contradiction
  | ok o =>
    rw [ho] at h
    cases h
    rw [value?_of_optional ho]

theorem filterMap_of_readEntries {as : List α} {vs : List Json}
    (h : readEntries kind key vs = .ok as) : vs.filterMap kind.read? = as := by
  induction vs generalizing as with
  | nil =>
    cases h
    rfl
  | cons v vs ih =>
    unfold readEntries at h
    split at h
    · next a ha =>
      split at h
      · next rest hrest =>
        cases h
        simp [ha, ih hrest]
      · contradiction
    · contradiction

theorem items_of_optionalEntries {o : Option (List α)}
    (h : m.optionalEntries kind key = .ok o) : m.items kind key = o.getD [] := by
  unfold optionalEntries at h
  split at h
  · next ho =>
    cases h
    simp [items, value?_of_optional ho]
  · next vs ho =>
    cases hr : readEntries kind key vs with
    | error f =>
      rw [hr] at h
      contradiction
    | ok as =>
      rw [hr] at h
      cases h
      simp [items, value?_of_optional ho, filterMap_of_readEntries hr]
  · contradiction

theorem items_of_entries {as : List α} (h : m.entries kind key = .ok as) :
    m.items kind key = as := by
  unfold entries at h
  cases ho : m.optionalEntries kind key with
  | error f =>
    rw [ho] at h
    contradiction
  | ok o =>
    rw [ho] at h
    cases h
    exact items_of_optionalEntries ho

theorem items_of_requiredEntries {as : List α} (h : m.requiredEntries kind key = .ok as) :
    m.items kind key = as := by
  unfold requiredEntries at h
  split at h
  · next vs hvs => simp [items, value?_of_required hvs, filterMap_of_readEntries h]
  · contradiction

/-- A key that does not occur has no value. -/
theorem value?_eq_none_of_not_hasKey (h : m.hasKey key = false) : m.value? kind key = none := by
  have hf : m.find? key = none := by simpa [hasKey] using h
  simp [value?, get?, hf]

end Members

end ClassUsage
