import Mathlib.Order.Bounds.Defs
import ClassUsage.Proofs.Signature.Decoding

/-!
Where a signature is refused. Whatever frames are left to be read, some text supplies them all; so
what has been read of a text can always be completed, and the character at which the scanner stops is
the first that no accepted text has there.
-/
namespace ClassUsage.Signature

section Completion

/-- A text that a frame stands for, with the names in it. -/
theorem Frame.exists_reads (f : Frame) : ∃ w n, f.Reads w n := by
  have simple : ClassType := .outer ⟨['C'], by simp, by simp [isPathChar, isStop]⟩ []
  have variableName : Identifier := ⟨['U'], by simp, by simp [isStop]⟩
  cases f with
  | type => exact ⟨_, _, .primitive .int, rfl, rfl⟩
  | reference => exact ⟨_, _, .typeVariable variableName, rfl, rfl⟩
  | classType | outerName => exact ⟨_, _, simple, rfl, rfl⟩
  | innerName path => exact ⟨_, _, variableName, [], [], rfl, rfl⟩
  | className slashes read => exact ⟨_, _, [], [], [], by simp, rfl, rfl⟩
  | classRest path => exact ⟨_, _, [], rfl, rfl⟩
  | firstArgument => exact ⟨_, _, [.any], by simp, rfl, rfl⟩
  | arguments => exact ⟨_, _, [], rfl, rfl⟩
  | variableName => exact ⟨_, _, variableName, rfl, rfl⟩
  | variableRest => exact ⟨_, _, [], by simp, rfl, rfl⟩
  | firstParameter => exact ⟨_, _, [⟨variableName, none, []⟩], by simp, rfl, rfl, rfl⟩
  | parameterRest => exact ⟨_, _, [], none, [], [], by simp, by simp [Distinct], rfl, rfl, rfl⟩
  | classBound => exact ⟨_, _, none, [], [], by simp [Distinct], rfl, rfl, rfl⟩
  | bounds => exact ⟨_, _, [], [], rfl, rfl, rfl⟩
  | classSignature => exact ⟨_, _, ⟨[], simple, []⟩, rfl, rfl, rfl⟩
  | superTypes => exact ⟨_, _, [], rfl, rfl⟩
  | methodSignature => exact ⟨_, _, ⟨[], [], none, []⟩, rfl, rfl, rfl⟩
  | parameterList => exact ⟨_, _, [], none, [], rfl, rfl⟩
  | parameters => exact ⟨_, _, [], rfl, rfl⟩
  | result => exact ⟨_, _, none, rfl, rfl⟩
  | throws => exact ⟨_, _, [], rfl, rfl⟩
  | thrown => exact ⟨_, _, .typeVariable variableName, rfl, rfl⟩

theorem exists_readsAll (fs : List Frame) : ∃ w n, ReadsAll fs w n := by
  induction fs with
  | nil => exact ⟨[], [], readsAll_nil⟩
  | cons f fs ih =>
    obtain ⟨w₁, n₁, hf⟩ := f.exists_reads
    obtain ⟨w₂, n₂, hfs⟩ := ih
    exact ⟨w₁ ++ w₂, n₁ ++ n₂, readsAll_cons hf hfs⟩

/-- Whatever is still expected, some text supplies it. -/
theorem exists_scan {fs : List Frame} (hfs : Proper fs) (known : NameSet) :
    ∃ w names, scan fs known w = .ok (names, []) := by
  obtain ⟨w, n, hw⟩ := exists_readsAll fs
  exact ⟨w, _, (scan_eq_ok_iff hfs).mpr ⟨n, hw, rfl⟩⟩

end Completion

section Scanning

variable {fs : List Frame} {known : NameSet} {s : List Char}

/-- A scan that stops leaves off at a character that cannot be taken, whatever comes after it; what
was read before can be completed. -/
theorem scan_stops (hfs : Proper fs) {f : Failure} (h : scan fs known s = .error f) :
    ∃ read, s = read ++ f.rest ∧
      (∃ more names, scan fs known (read ++ more) = .ok (names, [])) ∧
      ∀ c rest, f.rest = c :: rest → ∀ more, ∃ g, scan fs known (read ++ c :: more) = .error g := by
  induction s generalizing fs known with
  | nil =>
    cases fs with
    | nil => contradiction
    | cons frame fs =>
      have hrest : f.rest = [] := by
        unfold scan at h
        split at h
        · cases h
          rfl
        · contradiction
      refine ⟨[], by simp [hrest], exists_scan hfs known, ?_⟩
      intro c rest hc
      rw [hrest] at hc
      contradiction
  | cons c s ih =>
    cases fs with
    | nil => contradiction
    | cons frame fs =>
      rw [scan] at h
      cases ht : frame.take c with
      | ok move =>
        rw [ht] at h
        obtain ⟨read, rfl, ⟨more, names, hmore⟩, hstop⟩ := ih (proper_step hfs ht) h
        refine ⟨c :: read, rfl, ⟨more, names, ?_⟩, ?_⟩
        · simpa [scan, ht] using hmore
        · intro d rest hd more'
          simpa [scan, ht] using hstop d rest hd more'
      | error reason =>
        rw [ht] at h
        cases h
        refine ⟨[], rfl, exists_scan hfs known, ?_⟩
        intro d rest hd more
        obtain ⟨rfl, rfl⟩ := List.cons.inj hd
        exact ⟨⟨c :: more, reason⟩, by simp [scan, ht]⟩

/-- A text may not end where something that says where it ends is still expected. -/
theorem scan_nil_of_delimited (fs : List Frame) (known : NameSet) {f : Frame}
    (hf : f.delimited = true) :
    ∃ r, f.atEnd = some r ∧ scan (f :: fs) known [] = .error ⟨[], r⟩ := by
  cases hr : f.atEnd with
  | none =>
    rw [Frame.delimited_of_atEnd hr] at hf
    contradiction
  | some r => exact ⟨r, rfl, by simp [scan, hr]⟩

/-- A scan that has all it expects leaves whatever comes then, unless it only stopped because the text
ended. -/
theorem scan_leaves {names : NameSet} {rest : List Char}
    (h : scan fs known s = .ok (names, rest)) (hfs : rest = [] → ∀ f ∈ fs, f.delimited = true) :
    ∃ read, s = read ++ rest ∧ ∀ more, scan fs known (read ++ more) = .ok (names, more) := by
  induction s generalizing fs known with
  | nil =>
    cases fs with
    | nil =>
      cases h
      exact ⟨[], rfl, fun more => by simp [scan]⟩
    | cons frame fs =>
      have hrest : rest = [] := by
        unfold scan at h
        split at h <;> cases h
        rfl
      have hframe := hfs hrest frame List.mem_cons_self
      obtain ⟨r, -, herror⟩ := scan_nil_of_delimited fs known hframe
      rw [herror] at h
      contradiction
  | cons d s ih =>
    cases fs with
    | nil =>
      cases h
      exact ⟨[], rfl, fun more => by simp [scan]⟩
    | cons frame fs =>
      rw [scan] at h
      cases ht : frame.take d with
      | ok move =>
        rw [ht] at h
        have hmove : rest = [] → ∀ f ∈ move.frames ++ fs, f.delimited = true := by
          intro hrest
          obtain ⟨hframe, hfs⟩ := List.forall_mem_cons.mp (hfs hrest)
          exact List.forall_mem_append.mpr ⟨Frame.delimited_take hframe ht, hfs⟩
        obtain ⟨read, rfl, hread⟩ := ih h hmove
        refine ⟨d :: read, rfl, ?_⟩
        intro more
        simpa [scan, ht] using hread more
      | error reason =>
        rw [ht] at h
        contradiction

end Scanning

/-- The frame accepts some text that starts like this. -/
def Frame.Continues (f : Frame) (read : List Char) : Prop :=
  ∃ more names, scanAll f (read ++ more) = .ok names

theorem scanAll_eq_ok_of_scan {f : Frame} {s : List Char} {names : NameSet}
    (h : scan [f] ∅ s = .ok (names, [])) : scanAll f s = .ok names := by
  simp [scanAll, h]

/-- What was read before the failure can be completed, but not with the character found there. -/
theorem scanAll_stops {f : Frame} {s : List Char} {e : Failure} (h : scanAll f s = .error e) :
    ∃ read, s = read ++ e.rest ∧ f.Continues read ∧
      ∀ c rest, e.rest = c :: rest → ¬ f.Continues (read ++ [c]) := by
  have hproper : Proper [f] := by simp [Proper]
  cases hs : scan [f] ∅ s with
  | error e' =>
    have he : e' = e := by simpa [scanAll, hs] using h
    subst he
    obtain ⟨read, hread, ⟨more, names, hmore⟩, hstop⟩ := scan_stops hproper hs
    refine ⟨read, hread, ⟨more, names, scanAll_eq_ok_of_scan hmore⟩, ?_⟩
    rintro c rest hc ⟨more', names', hgo⟩
    obtain ⟨g, hg⟩ := hstop c rest hc more'
    simp [scanAll, hg] at hgo
  | ok p =>
    obtain ⟨names, left⟩ := p
    cases left with
    | nil => simp [scanAll, hs] at h
    | cons c rest =>
      have he : e = ⟨c :: rest, .trailingAfterSignature⟩ := by simpa [scanAll, hs] using h.symm
      subst he
      obtain ⟨read, hread, hall⟩ := scan_leaves hs fun hnil => absurd hnil (List.cons_ne_nil c rest)
      refine ⟨read, hread, ⟨[], names, scanAll_eq_ok_of_scan (hall [])⟩, ?_⟩
      rintro d rest' hd ⟨more', names', hgo⟩
      simp [scanAll, hall] at hgo

end ClassUsage.Signature

namespace ClassUsage

open Signature

theorem continued_iff {kind : SignatureKind} {chars : List Char} :
    Continued (decodeSignature kind) chars ↔ kind.start.Continues chars := by
  constructor
  · rintro ⟨text, names, h, more, hmore⟩
    refine ⟨more, names, ?_⟩
    rw [hmore]
    exact mapError_eq_ok.mp h
  · rintro ⟨more, names, h⟩
    refine ⟨String.ofList (chars ++ more), names, ?_, ?_⟩
    · apply mapError_eq_ok.mpr
      simpa using h
    · simp

theorem decodeSignature_eq_error {kind : SignatureKind} {text : String} {e : DecodingError}
    (h : decodeSignature kind text = .error e) :
    ∃ f, scanAll kind.start text.toList = .error f ∧ e = f.locate text :=
  mapError_eq_error.mp h

/-- A signature is refused at the end of the longest start of it that some accepted signature has: the
characters before the position can be completed, and with the one at the position they cannot. -/
theorem signature_refused_at_first_offence (kind : SignatureKind) (text : String)
    (e : DecodingError) (h : decodeSignature kind text = .error e) :
    e.text = text ∧
      IsGreatest {n | n ≤ text.length ∧
        Continued (decodeSignature kind) (text.toList.take n)} e.position ∧
      (e.position < text.length →
        ¬ Continued (decodeSignature kind) (text.toList.take (e.position + 1))) := by
  obtain ⟨f, hf, rfl⟩ := decodeSignature_eq_error h
  obtain ⟨read, hread, hgo, hstop⟩ := scanAll_stops hf
  have hposition := Failure.locate_position hread
  have htake := Failure.take_position hread
  have hlength : text.length = read.length + f.rest.length := by
    rw [← String.length_toList, hread, List.length_append]
  have hnext : (f.locate text).position < text.length →
      ¬ Continued (decodeSignature kind) (text.toList.take ((f.locate text).position + 1)) := by
    intro hlt
    cases hrest : f.rest with
    | nil =>
      rw [hrest, List.length_nil] at hlength
      omega
    | cons c rest =>
      have hmore : text.toList.take ((f.locate text).position + 1) = read ++ [c] := by
        rw [hposition, hread, hrest, List.take_length_add_append]
        rfl
      rw [hmore, continued_iff]
      exact hstop c rest hrest
  refine ⟨rfl, ⟨⟨by omega, ?_⟩, ?_⟩, hnext⟩
  · rw [htake, continued_iff]
    exact hgo
  · rintro n ⟨hn, hcontinued⟩
    apply Nat.le_of_not_lt
    intro hlt
    have hshorter : text.toList.take ((f.locate text).position + 1) <+: text.toList.take n :=
      List.take_prefix_take_left (by omega)
    exact hnext (by omega) (hcontinued.of_isPrefix hshorter)

/-- An empty list of type arguments, a second supertype that is no class, and a primitive type that is
thrown. -/
theorem malformed_signatures_refused :
    (decodeSignature .type "Lp/A<>;" = .error ⟨"Lp/A<>;", 5, .emptyTypeArguments⟩ ∧
      IsGreatest {n | n ≤ "Lp/A<>;".length ∧
        Continued (decodeSignature .type) ("Lp/A<>;".toList.take n)} 5 ∧
      ¬ Continued (decodeSignature .type) ("Lp/A<>;".toList.take 6)) ∧
    (decodeSignature .classFile "Lp/A;I" = .error ⟨"Lp/A;I", 5, .expected 'L'⟩ ∧
      ¬ Continued (decodeSignature .classFile) ("Lp/A;I".toList.take 6)) ∧
    decodeSignature .method "()V^I" = .error ⟨"()V^I", 4, .notThrowable⟩ ∧
      ¬ Continued (decodeSignature .method) ("()V^I".toList.take 5) := by
  have htype : decodeSignature .type "Lp/A<>;" = .error ⟨"Lp/A<>;", 5, .emptyTypeArguments⟩ := rfl
  have hclass : decodeSignature .classFile "Lp/A;I" = .error ⟨"Lp/A;I", 5, .expected 'L'⟩ := rfl
  have hmethod : decodeSignature .method "()V^I" = .error ⟨"()V^I", 4, .notThrowable⟩ := rfl
  obtain ⟨-, hgreatest, hnext⟩ := signature_refused_at_first_offence _ _ _ htype
  exact ⟨⟨htype, hgreatest, hnext (by decide)⟩,
    ⟨hclass, (signature_refused_at_first_offence _ _ _ hclass).2.2 (by decide)⟩,
    hmethod, (signature_refused_at_first_offence _ _ _ hmethod).2.2 (by decide)⟩

end ClassUsage
