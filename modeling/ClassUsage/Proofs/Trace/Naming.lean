import ClassUsage.Analysis
import ClassUsage.Proofs.Descriptor.Reading
import ClassUsage.Proofs.Trace.Lookup
import ClassUsage.Proofs.Trace.Playback

/-!
The classes named by the events of a way through a class. A collector that meets no fault ends with
just these. `Traversal.Yields` says of a way, if it leads to its end, which classes it names; there is
one lemma for each means by which ways are made up.
-/
namespace ClassUsage

/-- The classes that the accepted signature `text` names. -/
def SignatureNames (kind : SignatureKind) (text x : String) : Prop :=
  ∃ names, decodeSignature kind text = .ok names ∧ x ∈ names

/-- The class that an operand names: an array by its descriptor, any other by internal name. -/
def OwnerNames (name x : String) : Prop :=
  if name.toList.head? = some '[' then DescriptorNames name x else x = className name

/-- The classes that a constant of a document names: those of a class literal. -/
def LiteralNames (v : Json) (x : String) : Prop :=
  ∃ m desc, v = .object m ∧ Members.value? m .text "type" = some desc ∧
    ¬ IsMethodDescriptor desc ∧ DescriptorNames desc x

namespace Mention

/-- The mention can be resolved, and `x` is among the names. -/
def Names (m : Mention) (x : String) : Prop := ∃ names, m.resolve = .ok names ∧ x ∈ names

variable {x : String}

@[simp] theorem names_internal (name : String) :
    (internal name).Names x ↔ x = className name := by
  simp [Names, resolve]

@[simp] theorem names_descriptor (desc : String) :
    (descriptor desc).Names x ↔ DescriptorNames desc x := by
  simp [Names, resolve, mapError_eq_ok, DescriptorNames]

@[simp] theorem names_signature (kind : SignatureKind) (text : String) :
    (signature kind text).Names x ↔ SignatureNames kind text x := by
  simp [Names, resolve, mapError_eq_ok, SignatureNames]

@[simp] theorem names_ownerMention (name : String) :
    (ownerMention name).Names x ↔ OwnerNames name x := by
  unfold ownerMention OwnerNames
  split <;> simp

theorem names_type (t : TypeConstant) :
    (constant (.type t)).Names x ↔ ∃ names, t.classNames = .ok names ∧ x ∈ names := by
  simp [Names, resolve, mapError_eq_ok]

@[simp] theorem not_names_plain (v : Json) : ¬ (constant (.plain v)).Names x := by
  simp [Names, resolve]

@[simp] theorem not_names_handle (h : Handle) : ¬ (constant (.handle h)).Names x := by
  simp [Names, resolve]

end Mention

theorem asType_eq_ok {r : Except DecodingError TypeConstant} {c : Value} (h : asType r = .ok c) :
    ∃ t, r = .ok t ∧ c = .type t := by
  cases r with
  | ok t =>
    cases h
    exact ⟨t, rfl, rfl⟩
  | error e => contradiction

/-- What a tagged object stands for: a type whose descriptor was checked, or a handle. -/
theorem readTagged_eq_ok {m : Members} {c : Value} (h : readTagged m = .ok c) :
    (∃ desc t, TypeConstant.ofDescriptor desc = .ok t ∧ c = .type t) ∨
      ∃ handle, c = .handle handle := by
  unfold readTagged at h
  split at h
  · obtain ⟨desc, -, hc⟩ := bind_eq_ok.mp h
    obtain ⟨t, ht, rfl⟩ := asType_eq_ok hc
    exact .inl ⟨desc, t, ht, rfl⟩
  · split at h
    · obtain ⟨desc, -, hc⟩ := bind_eq_ok.mp h
      obtain ⟨t, ht, rfl⟩ := asType_eq_ok hc
      unfold TypeConstant.ofMethodDescriptor at ht
      split at ht
      · exact .inl ⟨desc, t, ht, rfl⟩
      · contradiction
    · split at h
      · obtain ⟨o, -, ho⟩ := bind_eq_ok.mp h
        obtain ⟨handle, -, hc⟩ := bind_eq_ok.mp ho
        exact .inr ⟨handle, (pure_eq_ok.mp hc).symm⟩
      · contradiction

theorem not_names_methodType {text x : String} {t : TypeConstant}
    (h : TypeConstant.ofMethodDescriptor text = .ok t) : ¬ (Mention.constant (.type t)).Names x := by
  unfold TypeConstant.ofMethodDescriptor at h
  split at h
  · next hm =>
    rw [Mention.names_type, TypeConstant.mem_classNames_iff h]
    exact fun hx => hx.1 hm
  · contradiction

theorem names_readTagged {m : Members} {c : Value} (h : readTagged m = .ok c) (x : String) :
    (Mention.constant c).Names x ↔ LiteralNames (.object m) x := by
  have hliteral : LiteralNames (.object m) x ↔ ∃ desc, m.value? .text "type" = some desc ∧
      ¬ IsMethodDescriptor desc ∧ DescriptorNames desc x := by
    simp [LiteralNames]
  rw [hliteral]
  unfold readTagged at h
  by_cases ht : m.hasKey "type" = true
  · rw [if_pos ht, bind_eq_ok] at h
    obtain ⟨desc, hdesc, hc⟩ := h
    obtain ⟨t, hparse, rfl⟩ := asType_eq_ok hc
    rw [Mention.names_type, TypeConstant.mem_classNames_iff hparse, Members.value?_of_required hdesc]
    simp
  · rw [if_neg ht] at h
    have hnone : m.value? .text "type" = none :=
      Members.value?_eq_none_of_not_hasKey (by simpa using ht)
    rw [hnone]
    -- without a class literal, what is left is a method type or a handle, which name nothing
    suffices hx : ¬ (Mention.constant c).Names x by simp [hx]
    split at h
    · obtain ⟨desc, -, hc⟩ := bind_eq_ok.mp h
      obtain ⟨t, hparse, rfl⟩ := asType_eq_ok hc
      exact not_names_methodType hparse
    · split at h
      · obtain ⟨o, -, ho⟩ := bind_eq_ok.mp h
        obtain ⟨handle, -, hc⟩ := bind_eq_ok.mp ho
        rw [← pure_eq_ok.mp hc]
        exact Mention.not_names_handle handle
      · contradiction

theorem not_literalNames {v : Json} (h : ∀ m, v ≠ .object m) (x : String) : ¬ LiteralNames v x := by
  rintro ⟨m, desc, rfl, -⟩
  exact h m rfl

theorem names_readConstant {v : Json} {c : Value} (h : readConstant v = .ok c) (x : String) :
    (Mention.constant c).Names x ↔ LiteralNames v x := by
  by_cases ho : ∃ m, v = .object m
  · obtain ⟨m, rfl⟩ := ho
    exact names_readTagged h x
  · have hplain : ∀ m, v ≠ .object m := fun m hm => ho ⟨m, hm⟩
    have hc : c = .plain v := by
      unfold readConstant at h
      split at h
      · next m => exact absurd rfl (hplain m)
      · cases h
        rfl
    subst hc
    simp [not_literalNames hplain x]

section Collecting

variable {L : Type}

/-- Labels have no part in what an event mentions. -/
theorem Event.mentions_map {M : Type} (f : L → M) (e : Event L) :
    (e.map f).mentions = e.mentions := by
  cases e with
  | method e => cases e <;> rfl
  | _ => rfl

/-- The event names the class `x`. -/
def Event.Names (e : Event L) (x : String) : Prop := ∃ m ∈ e.mentions, m.Names x

theorem mem_takeUp {known : NameSet} {ms : List Mention} (h : (takeUp known ms).fault = none)
    (x : String) : x ∈ (takeUp known ms).names ↔ x ∈ known ∨ ∃ m ∈ ms, m.Names x := by
  induction ms generalizing known with
  | nil => simp [takeUp]
  | cons m ms ih =>
    cases hr : m.resolve with
    | error f => simp [takeUp, hr] at h
    | ok new =>
      simp only [takeUp, hr] at h ⊢
      have hnames : m.Names x ↔ x ∈ new := by simp [Mention.Names, hr]
      rw [ih h, NameSet.mem_union, or_assoc]
      simp [hnames]

theorem mem_collect {ending : Option Fault} {known : NameSet} {ns : List (Notice L)}
    (h : (collect ending known ns).fault = none) :
    ending = none ∧ ∀ x, x ∈ (collect ending known ns).names ↔
      x ∈ known ∨ ∃ e, .event e ∈ ns ∧ e.Names x := by
  induction ns generalizing known with
  | nil => exact ⟨h, fun x => by simp [collect]⟩
  | cons n ns ih =>
    cases n with
    | warning w =>
      obtain ⟨hend, hmem⟩ := ih h
      refine ⟨hend, fun x => ?_⟩
      simpa [collect, Reading.cons] using hmem x
    | event e =>
      cases hf : (takeUp known e.mentions).fault with
      | some f => simp [collect, hf] at h
      | none =>
        simp only [collect, hf] at h ⊢
        obtain ⟨hend, hmem⟩ := ih h
        refine ⟨hend, fun x => ?_⟩
        have hstep := mem_takeUp hf x
        have hrest := hmem x
        simp only [Reading.cons] at hrest ⊢
        rw [hrest, hstep, or_assoc]
        simp [Event.Names, or_and_right, exists_or]

theorem Playback.mem_events {p : Playback L} {e : Event L} :
    e ∈ p.events ↔ .event e ∈ p.notices := by
  simp only [events, List.mem_filterMap]
  constructor
  · rintro ⟨n, hn, hne⟩
    cases n with
    | warning w => contradiction
    | event e' =>
      cases hne
      exact hn
  · intro he
    exact ⟨.event e, he, rfl⟩

theorem Playback.mem_collect {p : Playback L} (h : (p.collect ∅).fault = none) :
    p.fault = none ∧ ∀ x, x ∈ (p.collect ∅).names ↔ ∃ e ∈ p.events, e.Names x := by
  obtain ⟨hend, hmem⟩ := ClassUsage.mem_collect h
  refine ⟨hend, fun x => (hmem x).trans ?_⟩
  simp [mem_events]

theorem Trace.mem_analyze {t : Trace} {names : NameSet} (h : t.analyze.result = .ok names) :
    (t.traversal.play fun _ => true).fault = none ∧
      ∀ x, x ∈ names ↔ ∃ e ∈ (t.traversal.play fun _ => true).events, e.Names x := by
  cases hf : (t.collect ∅).fault with
  | some f => simp [analyze, replay, hf] at h
  | none =>
    have hnames : (t.collect ∅).names = names := by simpa [analyze, replay, hf] using h
    unfold Trace.collect at hf hnames
    rw [← hnames]
    exact Playback.mem_collect hf

end Collecting

namespace Traversal

variable {L M α : Type} {P Q : String → Prop} {a b t : Traversal L}

/-- If the way leads to its end with every scope wanted, the classes it names are those of which `P`
holds. -/
def Yields (t : Traversal L) (P : String → Prop) : Prop :=
  (t.play fun _ => true).fault = none →
    ∀ x, (∃ e ∈ (t.play fun _ => true).events, e.Names x) ↔ P x

theorem yields_done : (done : Traversal L).Yields fun _ => False := by
  intro _ x
  simp [play]

theorem yields_fail (f : Fault) : (fail f : Traversal L).Yields P := by
  intro h
  contradiction

theorem yields_event (e : Event L) : (event e).Yields e.Names := by
  intro _ x
  simp

namespace Yields

theorem congr (h : t.Yields P) (hpq : ∀ x, P x ↔ Q x) : t.Yields Q := by
  intro hf x
  rw [h hf x, hpq x]

theorem append (ha : a.Yields P) (hb : b.Yields Q) : (a ++ b).Yields fun x => P x ∨ Q x := by
  intro hf x
  simp only [play_append, Playback.fault_andThen, Option.or_eq_none_iff] at hf
  simp only [← ha hf.1 x, ← hb hf.2 x]
  simp [hf.1, or_and_right, exists_or]

theorem check {r : Except Fault α} {f : α → Traversal L} (h : ∀ a, r = .ok a → (f a).Yields P) :
    (check r f).Yields P := by
  cases r with
  | ok a => exact h a rfl
  | error e => exact yields_fail e

theorem each {P : α → String → Prop} {l : List α} {f : α → Traversal L}
    (h : ∀ a ∈ l, (f a).Yields (P a)) : (each l f).Yields fun x => ∃ a ∈ l, P a x := by
  induction l with
  | nil => exact yields_done.congr (by simp)
  | cons a l ih =>
    have hhead := h a List.mem_cons_self
    have htail := ih fun b hb => h b (List.mem_cons_of_mem a hb)
    exact (hhead.append htail).congr (by simp)

theorem scope {e : Event L} (h : t.Yields P) : (scope e t).Yields fun x => e.Names x ∨ P x := by
  intro hf x
  simp only [play_scope, if_true, Playback.fault_cons] at hf
  simp only [← h hf x]
  simp [play_scope]

theorem silent {e : Event L} (h : e.mentions = []) : (event e).Yields fun _ => False :=
  (yields_event e).congr fun x => by simp [Event.Names, h]

theorem append_silent (ha : a.Yields P) (hb : b.Yields fun _ => False) : (a ++ b).Yields P :=
  (ha.append hb).congr fun x => by simp

theorem map {f : L → M} (h : t.Yields P) : (t.map f).Yields P := by
  intro hf x
  obtain ⟨hfault, hevents⟩ := play_map f (fun _ => true) t
  rw [hfault] at hf
  rw [hevents, ← h hf x]
  have hnames : ∀ e : Event L, (e.map f).Names x ↔ e.Names x := by
    intro e
    rw [Event.Names, Event.mentions_map, Event.Names]
  constructor
  · rintro ⟨e, he, hx⟩
    obtain ⟨e', he', rfl⟩ := List.mem_map.mp he
    exact ⟨e', he', (hnames e').mp hx⟩
  · rintro ⟨e, he, hx⟩
    exact ⟨e.map f, List.mem_map_of_mem he, (hnames e).mpr hx⟩

end Yields

end Traversal

end ClassUsage
