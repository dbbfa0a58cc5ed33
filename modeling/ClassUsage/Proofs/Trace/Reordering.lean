import Mathlib.Data.List.Forall2
import ClassUsage.Proofs.Trace.Lookup
import ClassUsage.Proofs.Trace.Outcome

/-!
Documents that differ in the order of list entries only, and what look-ups in them have in common:
either both fail, or both give values that differ in such order only.
-/
namespace ClassUsage

section Relation

mutual

/-- The values differ at most in the order of the entries of lists, at any depth. -/
inductive Json.Reordered : Json → Json → Prop
  | same (v : Json) : Json.Reordered v v
  | list {items permuted items' : List Json} (hperm : items.Perm permuted)
      (hitems : List.Forall₂ Json.Reordered permuted items') :
      Json.Reordered (.list items) (.list items')
  | object {m m' : Members} (hmembers : List.Forall₂ MemberReordered m m') :
      Json.Reordered (.object m) (.object m')

/-- The keys are the same, and the values differ at most in the order of list entries. -/
inductive MemberReordered : String × Json → String × Json → Prop
  | value {key : String} {v w : Json} (h : Json.Reordered v w) : MemberReordered (key, v) (key, w)

end

def Members.Reordered (m m' : Members) : Prop := List.Forall₂ MemberReordered m m'

/-- The same entries in another order, each itself reordered. -/
def Permuted {α : Type} (R : α → α → Prop) (l l' : List α) : Prop :=
  ∃ k, l.Perm k ∧ List.Forall₂ R k l'

theorem Members.Reordered.refl (m : Members) : m.Reordered m :=
  List.forall₂_same.mpr fun p _ => .value (.same p.2)

theorem permuted_refl {α : Type} {R : α → α → Prop} (hR : ∀ a, R a a) (l : List α) :
    Permuted R l l :=
  ⟨l, .refl l, List.forall₂_same.mpr fun a _ => hR a⟩

theorem permuted_nil {α : Type} {R : α → α → Prop} : Permuted R [] [] := ⟨[], .nil, .nil⟩

theorem Permuted.perm {α : Type} {l l' : List α} (h : Permuted (· = ·) l l') : l.Perm l' := by
  obtain ⟨k, hperm, hk⟩ := h
  rw [List.forall₂_eq_eq_eq] at hk
  exact hk ▸ hperm

theorem Permuted.forall_mem_iff {α : Type} {R : α → α → Prop} {l l' : List α} (h : Permuted R l l')
    {P : α → Prop} (hP : ∀ a b, R a b → (P a ↔ P b)) : (∀ a ∈ l, P a) ↔ ∀ b ∈ l', P b := by
  obtain ⟨k, hperm, hk⟩ := h
  have hsame : (∀ a ∈ l, P a) ↔ ∀ a ∈ k, P a := by simp only [hperm.mem_iff]
  rw [hsame]
  clear hperm hsame
  induction hk with
  | nil => simp
  | cons hab _ ih => simp only [List.forall_mem_cons, hP _ _ hab, ih]

theorem Json.Reordered.of_object {m : Members} {w : Json} (h : Json.Reordered (.object m) w) :
    ∃ m' : Members, w = .object m' ∧ m.Reordered m' := by
  cases h with
  | same => exact ⟨m, rfl, .refl m⟩
  | object hmembers => exact ⟨_, rfl, hmembers⟩

theorem Json.Reordered.of_list {items : List Json} {w : Json} (h : Json.Reordered (.list items) w) :
    ∃ items', w = .list items' ∧ Permuted Json.Reordered items items' := by
  cases h with
  | same => exact ⟨items, rfl, permuted_refl .same items⟩
  | list hperm hitems => exact ⟨_, rfl, _, hperm, hitems⟩

end Relation

section Ways

open Traversal

variable {L M α β : Type} {R : α → β → Prop}

theorem outcome_each_forall₂ {l : List α} {l' : List β} {f : α → Traversal L} {g : β → Traversal M}
    (h : List.Forall₂ R l l') (hfg : ∀ a ∈ l, ∀ b, R a b → (f a).outcome = (g b).outcome) :
    (each l f).outcome = (each l' g).outcome := by
  induction h with
  | nil => rfl
  | cons hab _ ih =>
    obtain ⟨hhead, htail⟩ := List.forall_mem_cons.mp hfg
    simp only [each, outcome_append, hhead _ hab, ih htail]

/-- Parts in another order have the outcome they had, if each part has. -/
theorem outcome_each_permuted {S : α → α → Prop} {l l' : List α} {f : α → Traversal L}
    {g : α → Traversal M} (h : Permuted S l l')
    (hfg : ∀ a ∈ l, ∀ b, S a b → (f a).outcome = (g b).outcome) :
    (each l f).outcome = (each l' g).outcome := by
  obtain ⟨k, hperm, hk⟩ := h
  rw [outcome_each_perm hperm]
  exact outcome_each_forall₂ hk fun a ha => hfg a (hperm.mem_iff.mpr ha)

end Ways

section Agreement

variable {ε α β γ δ : Type} {R : α → β → Prop} {S : γ → δ → Prop}

/-- Both readers fail, or both succeed with related results. -/
inductive Agree (R : α → β → Prop) : Except ε α → Except ε β → Prop
  | ok {a : α} {b : β} (h : R a b) : Agree R (.ok a) (.ok b)
  | error (f g : ε) : Agree R (.error f) (.error g)

theorem agree_cases {r : Except ε α} {s : Except ε β} (h : Agree R r s) :
    (∃ f g, r = .error f ∧ s = .error g) ∨ ∃ a b, r = .ok a ∧ s = .ok b ∧ R a b := by
  cases h with
  | ok h => exact .inr ⟨_, _, rfl, rfl, h⟩
  | error f g => exact .inl ⟨f, g, rfl, rfl⟩

namespace Agree

theorem mono {R' : α → β → Prop} {r : Except ε α} {s : Except ε β} (h : Agree R r s)
    (hR : ∀ a b, R a b → R' a b) : Agree R' r s := by
  cases h with
  | ok h => exact .ok (hR _ _ h)
  | error f g => exact .error f g

theorem refl (r : Except ε α) : Agree (· = ·) r r := by
  cases r with
  | ok a => exact .ok rfl
  | error f => exact .error f f

theorem of_eq {R : α → α → Prop} {r s : Except ε α} (h : Agree (· = ·) r s) (hR : ∀ a, R a a) :
    Agree R r s := by
  apply h.mono
  intro a b hab
  exact hab ▸ hR a

theorem trans {S : β → γ → Prop} {r : Except ε α} {s : Except ε β} {t : Except ε γ}
    (h : Agree R r s) (h' : Agree S s t) : Agree (fun a c => ∃ b, R a b ∧ S b c) r t := by
  cases h with
  | ok h =>
    cases h' with
    | ok h' => exact .ok ⟨_, h, h'⟩
  | error f g =>
    cases h' with
    | error _ g' => exact .error f g'

theorem bind {r : Except ε α} {s : Except ε β} {next : α → Except ε γ}
    {next' : β → Except ε δ} (h : Agree R r s)
    (hnext : ∀ a b, R a b → Agree S (next a) (next' b)) : Agree S (r >>= next) (s >>= next') := by
  cases h with
  | ok h => exact hnext _ _ h
  | error f g => exact .error f g

theorem bind_eq {r s : Except ε α} {next : α → Except ε γ} {next' : α → Except ε δ}
    (h : Agree (· = ·) r s) (hnext : ∀ a, Agree S (next a) (next' a)) :
    Agree S (r >>= next) (s >>= next') := by
  apply h.bind
  rintro a _ rfl
  exact hnext a

theorem map {r : Except ε α} {s : Except ε β} {f : α → γ} {g : β → δ} (h : Agree R r s)
    (hfg : ∀ a b, R a b → S (f a) (g b)) : Agree S (r.map f) (s.map g) := by
  cases h with
  | ok h => exact .ok (hfg _ _ h)
  | error f g => exact .error f g

theorem exists_ok_iff {r : Except ε α} {s : Except ε β} (h : Agree R r s) :
    (∃ a, r = .ok a) ↔ ∃ b, s = .ok b := by
  cases h with
  | ok h => simp
  | error f g => simp

theorem of_exists_ok_iff {r : Except ε α} {s : Except ε β}
    (h : (∃ a, r = .ok a) ↔ ∃ b, s = .ok b) : Agree (fun _ _ => True) r s := by
  cases r with
  | ok a =>
    obtain ⟨b, rfl⟩ := h.mp ⟨a, rfl⟩
    exact .ok trivial
  | error f =>
    cases s with
    | ok b => simp at h
    | error g => exact .error f g

/-- Ways that related results lead have the same outcome. -/
theorem check {L M : Type} {r : Except Fault α} {s : Except Fault β} {f : α → Traversal L}
    {g : β → Traversal M} (h : Agree R r s)
    (hfg : ∀ a b, r = .ok a → R a b → (f a).outcome = (g b).outcome) :
    (Traversal.check r f).outcome = (Traversal.check s g).outcome := by
  cases h with
  | ok h => exact hfg _ _ rfl h
  | error f g => rfl

theorem check_eq {L M : Type} {r s : Except Fault α} {f : α → Traversal L} {g : α → Traversal M}
    (h : Agree (· = ·) r s) (hfg : ∀ a, (f a).outcome = (g a).outcome) :
    (Traversal.check r f).outcome = (Traversal.check s g).outcome := by
  apply h.check
  intro a b _ hab
  rw [hfg a, hab]

end Agree

end Agreement

section Lookups

variable {α : Type} {m m' : Members}

theorem rel_cases {β : Type} {R : α → β → Prop} {x : Option α} {y : Option β}
    (h : Option.Rel R x y) : (x = none ∧ y = none) ∨ ∃ a b, x = some a ∧ y = some b ∧ R a b := by
  cases h with
  | none => exact .inl ⟨rfl, rfl⟩
  | some hab => exact .inr ⟨_, _, rfl, rfl, hab⟩

namespace Members.Reordered

theorem find? (h : m.Reordered m') (key : String) :
    Option.Rel Json.Reordered (m.find? key) (m'.find? key) := by
  induction h with
  | nil => exact .none
  | cons hp _ ih =>
    obtain ⟨hv⟩ := hp
    simp only [Members.find?, List.lookup_cons]
    split
    · exact .some hv
    · exact ih

theorem hasKey (h : m.Reordered m') (key : String) : m.hasKey key = m'.hasKey key := by
  rcases rel_cases (h.find? key) with ⟨hm, hm'⟩ | ⟨v, w, hm, hm', -⟩
  · simp [Members.hasKey, hm, hm']
  · simp [Members.hasKey, hm, hm']

theorem get? (h : m.Reordered m') (key : String) :
    Option.Rel Json.Reordered (m.get? key) (m'.get? key) := by
  unfold Members.get?
  rcases rel_cases (h.find? key) with ⟨hm, hm'⟩ | ⟨v, w, hm, hm', hvw⟩
  · rw [hm, hm']
    exact .none
  · rw [hm, hm']
    cases hvw with
    | same v => cases v <;> first | exact .none | exact .some (.same _)
    | list hperm hitems => exact .some (.list hperm hitems)
    | object hmembers => exact .some (.object hmembers)

end Members.Reordered

/-- Values of this kind that differ in the order of list entries are read as related ones. -/
def Kind.Keeps (kind : Kind α) (R : α → α → Prop) : Prop :=
  ∀ v w, Json.Reordered v w → Option.Rel R (kind.read? v) (kind.read? w)

namespace Kind

variable {kind : Kind α}

theorem keeps_of_flat (hlist : ∀ items, kind.read? (.list items) = none)
    (hobject : ∀ m, kind.read? (.object m) = none) : kind.Keeps (· = ·) := by
  intro v w h
  cases h with
  | same v => cases kind.read? v with
    | none => exact .none
    | some a => exact .some rfl
  | list =>
    rw [hlist, hlist]
    exact .none
  | object =>
    rw [hobject, hobject]
    exact .none

theorem keeps_text : text.Keeps (· = ·) := keeps_of_flat (fun _ => rfl) fun _ => rfl

theorem keeps_integer : integer.Keeps (· = ·) := keeps_of_flat (fun _ => rfl) fun _ => rfl

theorem keeps_truth : truth.Keeps (· = ·) := keeps_of_flat (fun _ => rfl) fun _ => rfl

theorem keeps_list : list.Keeps (Permuted Json.Reordered) := by
  intro v w h
  cases v with
  | list items =>
    obtain ⟨items', rfl, hitems⟩ := h.of_list
    exact .some hitems
  | _ => cases h <;> exact .none

theorem keeps_object : object.Keeps Members.Reordered := by
  intro v w h
  cases v with
  | object m =>
    obtain ⟨m', rfl, hm⟩ := h.of_object
    exact .some hm
  | _ => cases h <;> exact .none

end Kind

section Entries

variable {kind : Kind α} {R : α → α → Prop} {key : String} {items items' permuted : List Json}

/-- Read one entry of a list. -/
def readEntry (kind : Kind α) (key : String) (v : Json) : Except Fault α :=
  match kind.read? v with
  | some a => .ok a
  | none => .error (.trace (.wrongEntry key kind.phrase v))

theorem readEntries_cons (v : Json) (items : List Json) :
    readEntries kind key (v :: items) =
      readEntry kind key v >>= fun a => (readEntries kind key items).map (a :: ·) := by
  rw [readEntries, readEntry]
  cases kind.read? v with
  | none => rfl
  | some a => cases readEntries kind key items <;> rfl

theorem agree_readEntries_perm (h : items.Perm permuted) :
    Agree List.Perm (readEntries kind key items) (readEntries kind key permuted) := by
  induction h with
  | nil => exact .ok .nil
  | cons v _ ih =>
    rw [readEntries_cons, readEntries_cons]
    exact (Agree.refl _).bind_eq fun a => ih.map fun _ _ h => h.cons a
  | swap v w l =>
    simp only [readEntries_cons]
    cases readEntry kind key v with
    | error f =>
      cases readEntry kind key w with
      | error g => exact .error _ _
      | ok b => exact .error _ _
    | ok a =>
      cases readEntry kind key w with
      | error g => exact .error _ _
      | ok b =>
        cases readEntries kind key l with
        | error g => exact .error _ _
        | ok as => exact .ok (.swap a b as)
  | trans _ _ ih ih' => exact (ih.trans ih').mono fun _ _ ⟨_, h, h'⟩ => h.trans h'

theorem agree_readEntry (hk : kind.Keeps R) {v w : Json} (h : v.Reordered w) :
    Agree R (readEntry kind key v) (readEntry kind key w) := by
  unfold readEntry
  rcases rel_cases (hk v w h) with ⟨hv, hw⟩ | ⟨a, b, hv, hw, hab⟩
  · rw [hv, hw]
    exact .error _ _
  · rw [hv, hw]
    exact .ok hab

theorem agree_readEntries_forall₂ (hk : kind.Keeps R) (h : List.Forall₂ Json.Reordered items items') :
    Agree (List.Forall₂ R) (readEntries kind key items) (readEntries kind key items') := by
  induction h with
  | nil => exact .ok .nil
  | cons hv _ ih =>
    rw [readEntries_cons, readEntries_cons]
    refine (agree_readEntry hk hv).bind fun a b hab => ?_
    exact ih.map fun _ _ h => .cons hab h

/-- Entries in another order are read in that order. -/
theorem agree_readEntries (hk : kind.Keeps R) (h : Permuted Json.Reordered items items') :
    Agree (Permuted R) (readEntries kind key items) (readEntries kind key items') := by
  obtain ⟨permuted, hperm, hitems⟩ := h
  exact (agree_readEntries_perm hperm).trans (agree_readEntries_forall₂ hk hitems)

end Entries

section Readers

variable {kind : Kind α} {R : α → α → Prop}

namespace Members.Reordered

theorem optional (h : m.Reordered m') (hk : kind.Keeps R) (key : String) :
    Agree (Option.Rel R) (m.optional kind key) (m'.optional kind key) := by
  unfold Members.optional
  rcases rel_cases (h.get? key) with ⟨hm, hm'⟩ | ⟨v, w, hm, hm', hvw⟩
  · rw [hm, hm']
    exact .ok .none
  · rw [hm, hm']
    rcases rel_cases (hk v w hvw) with ⟨hv, hw⟩ | ⟨a, b, hv, hw, hab⟩
    · simp only [hv, hw]
      exact .error _ _
    · simp only [hv, hw]
      exact .ok (.some hab)

theorem optional_eq (h : m.Reordered m') (hk : kind.Keeps (· = ·)) (key : String) :
    Agree (· = ·) (m.optional kind key) (m'.optional kind key) := by
  refine (h.optional hk key).mono fun o o' ho => ?_
  rcases rel_cases ho with ⟨rfl, rfl⟩ | ⟨a, b, rfl, rfl, rfl⟩
  · rfl
  · rfl

theorem required (h : m.Reordered m') (hk : kind.Keeps R) (key : String) :
    Agree R (m.required kind key) (m'.required kind key) := by
  unfold Members.required
  rcases agree_cases (h.optional hk key) with ⟨f, g, hm, hm'⟩ | ⟨o, o', hm, hm', ho⟩
  · rw [hm, hm']
    exact .error f g
  · rw [hm, hm']
    cases ho with
    | none => exact .error _ _
    | some hab => exact .ok hab

theorem orElse (h : m.Reordered m') (hk : kind.Keeps R) (key : String) {default : α}
    (hdefault : R default default) :
    Agree R (m.orElse kind key default) (m'.orElse kind key default) := by
  refine (h.optional hk key).map fun o o' ho => ?_
  cases ho with
  | none => exact hdefault
  | some hab => exact hab

theorem optionalEntries (h : m.Reordered m') (hk : kind.Keeps R) (key : String) :
    Agree (Option.Rel (Permuted R)) (m.optionalEntries kind key) (m'.optionalEntries kind key) := by
  unfold Members.optionalEntries
  rcases agree_cases (h.optional Kind.keeps_list key) with ⟨f, g, hm, hm'⟩ | ⟨o, o', hm, hm', ho⟩
  · rw [hm, hm']
    exact .error f g
  · rw [hm, hm']
    cases ho with
    | none => exact .ok .none
    | some hitems => exact (agree_readEntries hk hitems).map fun _ _ => .some

theorem entries (h : m.Reordered m') (hk : kind.Keeps R) (key : String) :
    Agree (Permuted R) (m.entries kind key) (m'.entries kind key) := by
  refine (h.optionalEntries hk key).map fun o o' ho => ?_
  cases ho with
  | none => exact permuted_nil
  | some has => exact has

theorem requiredEntries (h : m.Reordered m') (hk : kind.Keeps R) (key : String) :
    Agree (Permuted R) (m.requiredEntries kind key) (m'.requiredEntries kind key) := by
  unfold Members.requiredEntries
  rcases agree_cases (h.required Kind.keeps_list key) with ⟨f, g, hm, hm'⟩ | ⟨l, l', hm, hm', hl⟩
  · rw [hm, hm']
    exact .error f g
  · rw [hm, hm']
    exact agree_readEntries hk hl

theorem requiredValue (h : m.Reordered m') (key : String) :
    Agree Json.Reordered (m.requiredValue key) (m'.requiredValue key) := by
  unfold Members.requiredValue
  rcases rel_cases (h.get? key) with ⟨hm, hm'⟩ | ⟨v, w, hm, hm', hvw⟩
  · rw [hm, hm']
    exact .error _ _
  · rw [hm, hm']
    exact .ok hvw

end Members.Reordered

end Readers

end Lookups

end ClassUsage
