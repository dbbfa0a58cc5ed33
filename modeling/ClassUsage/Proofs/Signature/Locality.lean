import ClassUsage.Proofs.Signature.Refusal

/-!
What the scanner does with a part of a text depends on that part alone: names met before are only
added to, frames further down wait until those above have been read, and a frame whose texts say
where they end leaves whatever follows untouched.
-/
namespace ClassUsage.Signature

/-- The names met and what is left of the text, or why it cannot be read. -/
abbrev Outcome := Except Failure (NameSet × List Char)

/-- The outcome with these names met before. -/
def adding (known : NameSet) : Outcome → Outcome
  | .ok (names, rest) => .ok (known ∪ names, rest)
  | .error f => .error f

/-- Go on behind what was read. -/
def andThen (first : Outcome) (next : List Char → Outcome) : Outcome :=
  match first with
  | .ok (names, rest) => adding names (next rest)
  | .error f => .error f

theorem addFound_union (found : Option (List Char)) (known names : NameSet) :
    addFound found (known ∪ names) = known ∪ addFound found names := by
  cases found with
  | none => rfl
  | some name =>
    apply NameSet.ext
    intro x
    simp [addFound, or_left_comm]

/-- Names that were met before have no influence on what is read. -/
theorem scan_union (fs : List Frame) (known names : NameSet) (s : List Char) :
    scan fs (known ∪ names) s = adding known (scan fs names s) := by
  induction s generalizing fs names with
  | nil =>
    cases fs with
    | nil => rfl
    | cons f fs =>
      simp only [scan]
      split <;> rfl
  | cons c s ih =>
    cases fs with
    | nil => rfl
    | cons f fs =>
      simp only [scan]
      cases f.take c with
      | ok m => simp only [addFound_union, ih]
      | error r => rfl

theorem scan_known (fs : List Frame) (known : NameSet) (s : List Char) :
    scan fs known s = adding known (scan fs ∅ s) := by
  rw [← scan_union, NameSet.union_empty]

/-- The frames further down start behind what those above have read. -/
theorem scan_append {fs gs : List Frame} (hfs : ∀ f ∈ fs, f.delimited = true) (known : NameSet)
    (s : List Char) : scan (fs ++ gs) known s = andThen (scan fs known s) (scan gs ∅) := by
  induction s generalizing fs known with
  | nil =>
    cases fs with
    | nil => exact scan_known gs known []
    | cons f fs =>
      -- the frame on top refuses the end of the text, whatever is below it
      have hf := hfs f List.mem_cons_self
      obtain ⟨r, hr, herror⟩ := scan_nil_of_delimited fs known hf
      obtain ⟨r', hr', herror'⟩ := scan_nil_of_delimited (fs ++ gs) known hf
      cases hr.symm.trans hr'
      rw [List.cons_append, herror, herror']
      rfl
  | cons c s ih =>
    cases fs with
    | nil => exact scan_known gs known (c :: s)
    | cons f fs =>
      obtain ⟨hf, hfs⟩ := List.forall_mem_cons.mp hfs
      rw [List.cons_append, scan, scan]
      cases hm : f.take c with
      | ok m =>
        have hmove := Frame.delimited_take hf hm
        have hscan := ih (List.forall_mem_append.mpr ⟨hmove, hfs⟩) (addFound m.found known)
        rwa [List.append_assoc] at hscan
      | error r => rfl

/-- Some of the text is read, and what is made of it depends on nothing else. -/
def SelfDelimiting (read : List Char → Outcome) : Prop :=
  ∀ s names rest, read s = .ok (names, rest) →
    ∃ part, part ≠ [] ∧ s = part ++ rest ∧ ∀ more, read (part ++ more) = .ok (names, more)

theorem SelfDelimiting.length_lt {read : List Char → Outcome} (hread : SelfDelimiting read)
    {s rest : List Char} {names : NameSet} (h : read s = .ok (names, rest)) :
    rest.length < s.length := by
  obtain ⟨part, hpart, rfl, -⟩ := hread s names rest h
  have := List.length_pos_iff.mpr hpart
  simp only [List.length_append]
  omega

/-- Nothing that is read to its end can be read on. -/
theorem SelfDelimiting.eq_nil_of_append {read : List Char → Outcome} (hread : SelfDelimiting read)
    {s more : List Char} {a b : NameSet} (hs : read s = .ok (a, []))
    (hmore : read (s ++ more) = .ok (b, [])) : more = [] := by
  obtain ⟨part, -, hpart, hall⟩ := hread s a [] hs
  rw [List.append_nil] at hpart
  subst hpart
  cases (hall more).symm.trans hmore
  rfl

theorem selfDelimiting_scan {f : Frame} (hf : f.delimited = true) :
    SelfDelimiting (scan [f] ∅) := by
  intro s names rest h
  have hfs : rest = [] → ∀ g ∈ [f], g.delimited = true := by simp [hf]
  obtain ⟨part, hs, hall⟩ := scan_leaves h hfs
  refine ⟨part, ?_, hs, hall⟩
  rintro rfl
  obtain ⟨r, -, herror⟩ := scan_nil_of_delimited [] ∅ hf
  cases herror.symm.trans (hall [])

end ClassUsage.Signature
