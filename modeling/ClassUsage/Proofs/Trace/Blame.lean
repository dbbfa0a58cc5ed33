import ClassUsage.Proofs.Descriptor.Decoding
import ClassUsage.Proofs.Signature.Refusal
import ClassUsage.Proofs.Trace.Every
import ClassUsage.Proofs.Trace.Naming

/-!
What a fault can be put down to: the form of the document, or a text that cannot be decoded. A way is
sound for given texts if that holds of all its faults and of all that its events lead a collector to
decode; then it holds of whatever ends the collecting.
-/
namespace ClassUsage

open Traversal

section Texts

/-- The text is a value somewhere in the document. -/
inductive Json.HasText (text : String) : Json → Prop
  | here : HasText text (.string text)
  | item {items : List Json} {v : Json} (hv : v ∈ items) (h : HasText text v) :
      HasText text (.list items)
  | member {m : Members} {key : String} {v : Json} (hv : m.find? key = some v)
      (h : HasText text v) : HasText text (.object m)

namespace Members

variable {m a : Members} {key text : String}

/-- The text is a value somewhere in the object. -/
def HasText (m : Members) (text : String) : Prop := (Json.object m).HasText text

theorem hasText_of_get? {v : Json} (hv : m.get? key = some v) (h : v.HasText text) :
    m.HasText text :=
  .member (find?_of_get? hv) h

theorem hasText_value (h : m.value? .text key = some text) : m.HasText text := by
  obtain ⟨v, hv, hread⟩ := get?_of_value? h
  rw [Kind.eq_string hread] at hv
  exact hasText_of_get? hv .here

theorem hasText_object (ha : m.value? .object key = some a) (h : a.HasText text) :
    m.HasText text := by
  obtain ⟨v, hv, hread⟩ := get?_of_value? ha
  rw [Kind.eq_object hread] at hv
  exact hasText_of_get? hv h

theorem hasText_list {items : List Json} {v : Json} (hl : m.value? .list key = some items)
    (hv : v ∈ items) (h : v.HasText text) : m.HasText text := by
  obtain ⟨w, hw, hread⟩ := get?_of_value? hl
  rw [Kind.eq_list hread] at hw
  exact hasText_of_get? hw (.item hv h)

theorem hasText_item (ha : a ∈ m.items .object key) (h : a.HasText text) : m.HasText text := by
  obtain ⟨v, hv, hread⟩ := List.mem_filterMap.mp ha
  rw [Kind.eq_object hread] at hv
  cases hl : m.value? .list key with
  | none =>
    rw [hl] at hv
    contradiction
  | some items =>
    rw [hl] at hv
    exact hasText_list hl hv h

end Members

end Texts

section Faults

variable {α : Type} {texts : String → Prop} {m : Members} {kind : Kind α} {key : String}

/-- The form of the document is at fault, or one of the given texts. -/
def Fault.Within (texts : String → Prop) : Fault → Prop
  | .trace _ => True
  | .decoding e => texts e.text
  | .type _ => False

theorem Fault.Within.mono {f : Fault} {more : String → Prop} (h : f.Within texts)
    (hmore : ∀ s, texts s → more s) : f.Within more := by
  cases f with
  | trace e => trivial
  | decoding e => exact hmore _ h
  | type e => exact h

@[simp] theorem Fault.within_trace (e : TraceError) : (Fault.trace e).Within texts := trivial

@[simp] theorem faultsIn_optional : FaultsIn (Fault.Within texts) (m.optional kind key) := by
  unfold Members.optional
  split
  · simp
  · split <;> simp

@[simp] theorem faultsIn_required : FaultsIn (Fault.Within texts) (m.required kind key) := by
  unfold Members.required
  split
  · simp
  · simp
  · next h => exact faultsIn_error.mpr (faultsIn_optional _ h)

@[simp] theorem faultsIn_orElse {default : α} :
    FaultsIn (Fault.Within texts) (m.orElse kind key default) := by
  simp [Members.orElse]

@[simp] theorem faultsIn_requiredValue : FaultsIn (Fault.Within texts) (m.requiredValue key) := by
  unfold Members.requiredValue
  split <;> simp

@[simp] theorem faultsIn_readEntries {items : List Json} :
    FaultsIn (Fault.Within texts) (readEntries kind key items) := by
  induction items with
  | nil => simp [readEntries]
  | cons v items ih =>
    unfold readEntries
    split
    · split
      · simp
      · next h => exact faultsIn_error.mpr (ih _ h)
    · simp

@[simp] theorem faultsIn_optionalEntries :
    FaultsIn (Fault.Within texts) (m.optionalEntries kind key) := by
  unfold Members.optionalEntries
  split
  · simp
  · simp
  · next h => exact faultsIn_error.mpr (faultsIn_optional _ h)

@[simp] theorem faultsIn_entries : FaultsIn (Fault.Within texts) (m.entries kind key) := by
  simp [Members.entries]

@[simp] theorem faultsIn_requiredEntries :
    FaultsIn (Fault.Within texts) (m.requiredEntries kind key) := by
  unfold Members.requiredEntries
  split
  · simp
  · next h => exact faultsIn_error.mpr (faultsIn_required _ h)

end Faults

section Decoding

/-- Where a text cannot be decoded, the error holds that text. -/
theorem text_of_ofDescriptor_error {text : String} {e : DecodingError}
    (h : TypeConstant.ofDescriptor text = .error e) : e.text = text := by
  cases hp : Descriptor.parse text with
  | ok d => simp [TypeConstant.ofDescriptor, hp, Except.map] at h
  | error e' =>
    have he : e' = e := by simpa [TypeConstant.ofDescriptor, hp, Except.map] using h
    obtain ⟨f, -, rfl⟩ := mapError_eq_error.mp hp
    rw [← he]
    rfl

theorem text_of_ofMethodDescriptor_error {text : String} {e : DecodingError}
    (h : TypeConstant.ofMethodDescriptor text = .error e) : e.text = text := by
  unfold TypeConstant.ofMethodDescriptor at h
  split at h
  · exact text_of_ofDescriptor_error h
  · cases h
    rfl

end Decoding

section Mentions

variable {texts more : String → Prop}

/-- If the value is a type constant, its descriptor was checked. -/
def Value.Checked : Value → Prop
  | .type t => ∃ desc, TypeConstant.ofDescriptor desc = .ok t
  | _ => True

/-- What the mention has to decode is one of the given texts, and its constant was checked. -/
def Mention.Sound (texts : String → Prop) : Mention → Prop
  | .descriptor desc => texts desc
  | .signature _ text => texts text
  | .constant c => c.Checked
  | .internal _ => True
  | .verbatim _ => True

theorem Mention.Sound.mono {m : Mention} (h : m.Sound texts) (hmore : ∀ s, texts s → more s) :
    m.Sound more := by
  cases m with
  | descriptor desc => exact hmore _ h
  | signature kind text => exact hmore _ h
  | constant c => exact h
  | internal name => trivial
  | verbatim names => trivial

theorem Value.Checked.faultsIn {c : Value} (h : c.Checked) :
    FaultsIn (Fault.Within texts) (Mention.constant c).resolve := by
  cases c with
  | type t =>
    obtain ⟨desc, hdesc⟩ := h
    obtain ⟨d, hd⟩ := TypeConstant.chars_of_ofDescriptor hdesc
    obtain ⟨names, hnames⟩ := TypeConstant.classNames_of_chars hd
    simp [Mention.resolve, hnames]
  | _ => simp [Mention.resolve]

/-- A sound mention that cannot be resolved holds a text that cannot be decoded. -/
theorem Mention.Sound.faultsIn {m : Mention} (h : m.Sound texts) :
    FaultsIn (Fault.Within texts) m.resolve := by
  cases m with
  | internal name => simp [resolve]
  | verbatim names => simp [resolve]
  | constant c => exact Value.Checked.faultsIn h
  | descriptor desc =>
    rw [resolve, faultsIn_mapError]
    intro e he
    obtain ⟨f, -, rfl⟩ := decodeDescriptor_eq_error he
    exact h
  | signature kind text =>
    rw [resolve, faultsIn_mapError]
    intro e he
    obtain ⟨f, -, rfl⟩ := decodeSignature_eq_error he
    exact h

variable {L : Type}

/-- All that the event has to decode is among the given texts. -/
def Event.Sound (texts : String → Prop) (e : Event L) : Prop := ∀ m ∈ e.mentions, m.Sound texts

theorem Event.Sound.of_mentions {e : Event L} {M : Type} {e' : Event M} (h : e.Sound texts)
    (hsame : e'.mentions = e.mentions) : e'.Sound texts := by
  rw [Event.Sound, hsame]
  exact h

theorem Event.sound_of_silent {e : Event L} (h : e.mentions = []) : e.Sound texts := by
  simp [Event.Sound, h]

theorem Event.sound_of_one {e : Event L} {m : Mention} (h : e.mentions = [m]) (hm : m.Sound texts) :
    e.Sound texts := by
  simpa [Event.Sound, h] using hm

theorem sound_internals (names : List String) :
    ∀ m ∈ names.map Mention.internal, m.Sound texts := by
  intro m hm
  obtain ⟨name, -, rfl⟩ := List.mem_map.mp hm
  trivial

end Mentions

section Constants

variable {texts : String → Prop} {m : Members}

theorem checked_of_readTagged {c : Value} (h : readTagged m = .ok c) : c.Checked := by
  rcases readTagged_eq_ok h with ⟨desc, t, ht, rfl⟩ | ⟨handle, rfl⟩
  · exact ⟨desc, ht⟩
  · trivial

theorem checked_of_readConstant {v : Json} {c : Value} (h : readConstant v = .ok c) :
    c.Checked := by
  unfold readConstant at h
  split at h
  · exact checked_of_readTagged h
  · cases h
    trivial

theorem faultsIn_asType {r : Except DecodingError TypeConstant}
    (h : ∀ e, r = .error e → texts e.text) : FaultsIn (Fault.Within texts) (asType r) := by
  cases r with
  | ok t => simp [asType]
  | error e => simpa [asType, Fault.Within] using h e rfl

@[simp] theorem faultsIn_readHandle : FaultsIn (Fault.Within texts) (readHandle m) := by
  simp [readHandle]

/-- A constant is at fault for its form or for the descriptor it holds. -/
theorem faultsIn_readTagged (hm : ∀ s, m.HasText s → texts s) :
    FaultsIn (Fault.Within texts) (readTagged m) := by
  unfold readTagged
  split
  · simp only [faultsIn_bind, faultsIn_required, true_and]
    intro desc hdesc
    apply faultsIn_asType
    intro e he
    rw [text_of_ofDescriptor_error he]
    exact hm _ (Members.hasText_value (Members.value?_of_required hdesc))
  · split
    · simp only [faultsIn_bind, faultsIn_required, true_and]
      intro desc hdesc
      apply faultsIn_asType
      intro e he
      rw [text_of_ofMethodDescriptor_error he]
      exact hm _ (Members.hasText_value (Members.value?_of_required hdesc))
    · split <;> simp

theorem faultsIn_readConstant {v : Json} (hv : ∀ s, v.HasText s → texts s) :
    FaultsIn (Fault.Within texts) (readConstant v) := by
  unfold readConstant
  split
  · exact faultsIn_readTagged hv
  · simp

theorem faultsIn_readConstants {vs : List Json} (hvs : ∀ v ∈ vs, ∀ s, v.HasText s → texts s) :
    FaultsIn (Fault.Within texts) (readConstants vs) := by
  induction vs with
  | nil => simp [readConstants]
  | cons v vs ih =>
    obtain ⟨hv, hrest⟩ := List.forall_mem_cons.mp hvs
    simp [readConstants, faultsIn_readConstant hv, ih hrest]

end Constants

namespace Traversal

variable {L : Type} {texts more : String → Prop}

/-- Whatever goes wrong on the way, or at one of its events, is the form of the document or one of the
given texts. -/
def Sound (texts : String → Prop) (t : Traversal L) : Prop :=
  t.Every (Event.Sound texts) (Fault.Within texts)

theorem Sound.mono {t : Traversal L} (h : t.Sound texts) (hmore : ∀ s, texts s → more s) :
    t.Sound more :=
  Every.mono h (fun _ he m hm => (he m hm).mono hmore) fun _ hf => hf.mono hmore

theorem sound_silent {e : Event L} (h : e.mentions = []) : (event e).Sound texts :=
  every_event (Event.sound_of_silent h)

end Traversal

end ClassUsage
