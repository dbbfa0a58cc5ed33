import ClassUsage.Proofs.Signature.Declarations

/-!
What the scanner accepts. A frame stands for a text exactly if it takes the first character and
leaves frames that stand for the rest; so a stack can be read to the end by exactly the texts it
stands for. The induction is over the text alone, and none over the trees is needed.
-/
namespace ClassUsage.Signature

private theorem reads_iff_of_takes {f : Frame} {w : List Char} {n : List String}
    (hend : f.atEnd ≠ none) (h : Takes f.take w n ↔ f.Reads w n) :
    f.Reads w n ↔ Takes f.take w n ∨ f.atEnd = none ∧ w = [] ∧ n = [] := by
  simp [hend, h]

/-- A frame stands for the texts whose first character it takes and whose rest the frames stand for
that this leaves. Only where a text may end does it stand for the empty text. -/
theorem Frame.reads_iff {f : Frame} {w : List Char} {n : List String} :
    f.Reads w n ↔ Takes f.take w n ∨ f.atEnd = none ∧ w = [] ∧ n = [] := by
  cases f with
  | superTypes => simpa [atEnd] using takes_superTypes
  | throws => simpa [atEnd] using takes_throws
  | type => exact reads_iff_of_takes (by simp [atEnd]) takes_startType
  | reference => exact reads_iff_of_takes (by simp [atEnd]) takes_startReference
  | classType => exact reads_iff_of_takes (by simp [atEnd]) takes_startClass
  | outerName => exact reads_iff_of_takes (by simp [atEnd]) takes_outerName
  | innerName path => exact reads_iff_of_takes (by simp [atEnd]) takes_innerName
  | className slashes read => exact reads_iff_of_takes (by simp [atEnd]) takes_inClassName
  | classRest path => exact reads_iff_of_takes (by simp [atEnd]) takes_afterClass
  | firstArgument => exact reads_iff_of_takes (by simp [atEnd]) takes_firstArgument
  | arguments => exact reads_iff_of_takes (by simp [atEnd]) takes_inArguments
  | variableName => exact reads_iff_of_takes (by simp [atEnd]) takes_variableName
  | variableRest => exact reads_iff_of_takes (by simp [atEnd]) takes_variableRest
  | firstParameter => exact reads_iff_of_takes (by simp [atEnd]) takes_firstParameter
  | parameterRest => exact reads_iff_of_takes (by simp [atEnd]) takes_parameterRest
  | classBound => exact reads_iff_of_takes (by simp [atEnd]) takes_classBound
  | bounds => exact reads_iff_of_takes (by simp [atEnd]) takes_inBounds
  | classSignature => exact reads_iff_of_takes (by simp [atEnd]) takes_classSignature
  | methodSignature => exact reads_iff_of_takes (by simp [atEnd]) takes_methodSignature
  | parameterList => exact reads_iff_of_takes (by simp [atEnd]) takes_openParameterList
  | parameters => exact reads_iff_of_takes (by simp [atEnd]) takes_parameters
  | result => exact reads_iff_of_takes (by simp [atEnd]) takes_result
  | thrown => exact reads_iff_of_takes (by simp [atEnd]) takes_thrown

/-- A frame whose texts say themselves where they end. -/
def Frame.delimited : Frame → Bool
  | .classSignature | .superTypes | .methodSignature | .parameterList | .throws => false
  | _ => true

/-- Only the outermost frame may go on to the end of the text. -/
def Proper (fs : List Frame) : Prop := ∀ f ∈ fs.dropLast, f.delimited = true

theorem Frame.delimited_of_atEnd {f : Frame} (h : f.atEnd = none) : f.delimited = false := by
  cases f <;> simp [atEnd] at h <;> rfl

theorem delimited_startReference {c : Char} {m : Move} (h : startReference c = .ok m) :
    ∀ g ∈ m.frames, g.delimited = true := by
  unfold startReference at h
  split at h <;> cases h <;> simp [Frame.delimited]

theorem delimited_startType {c : Char} {m : Move} (h : startType c = .ok m) :
    ∀ g ∈ m.frames, g.delimited = true := by
  unfold startType at h
  split at h
  · cases h
    simp
  · exact delimited_startReference h

theorem delimited_afterClass {path : List Char} {found : Option (List Char)} {c : Char} {m : Move}
    (h : afterClass path found c = .ok m) : ∀ g ∈ m.frames, g.delimited = true := by
  unfold afterClass at h
  split at h <;> cases h <;> simp [Frame.delimited]

theorem delimited_startClass {c : Char} {m : Move} (h : startClass c = .ok m) :
    ∀ g ∈ m.frames, g.delimited = true := by
  unfold startClass at h
  split at h
  · cases h
    simp [Frame.delimited]
  · contradiction

theorem delimited_followedBy {s : Step} {fs : List Frame} {m : Move}
    (hs : ∀ m₀, s = .ok m₀ → ∀ g ∈ m₀.frames, g.delimited = true)
    (hfs : ∀ g ∈ fs, g.delimited = true) (h : followedBy s fs = .ok m) :
    ∀ g ∈ m.frames, g.delimited = true := by
  obtain ⟨m₀, h₀, rfl⟩ := followedBy_eq_ok.mp h
  intro g hg
  rcases List.mem_append.mp hg with hg | hg
  · exact hs m₀ h₀ g hg
  · exact hfs g hg

theorem delimited_startParameter {c : Char} {m : Move} (h : startParameter c = .ok m) :
    ∀ g ∈ m.frames, g.delimited = true := by
  unfold startParameter at h
  split at h <;> cases h
  simp [Frame.delimited]

theorem delimited_inArguments {c : Char} {m : Move} (h : inArguments c = .ok m) :
    ∀ g ∈ m.frames, g.delimited = true := by
  unfold inArguments at h
  split at h
  · cases h; simp
  · cases h; simp [Frame.delimited]
  · cases h; simp [Frame.delimited]
  · cases h; simp [Frame.delimited]
  · exact delimited_followedBy (fun _ => delimited_startReference) (by simp [Frame.delimited]) h

theorem delimited_inBounds {c : Char} {m : Move} (h : inBounds c = .ok m) :
    ∀ g ∈ m.frames, g.delimited = true := by
  unfold inBounds at h
  split at h
  · cases h; simp [Frame.delimited]
  · cases h; simp
  · exact delimited_startParameter h

theorem delimited_inClassName {slashes : Bool} {read : List Char} {c : Char} {m : Move}
    (h : inClassName slashes read c = .ok m) : ∀ g ∈ m.frames, g.delimited = true := by
  unfold inClassName at h
  split at h
  · cases h; simp [Frame.delimited]
  split at h
  · cases h; simp [Frame.delimited]
  · exact delimited_afterClass h

/-- A text that says where it ends is made of such texts. -/
theorem Frame.delimited_take {f : Frame} {c : Char} {m : Move} (hf : f.delimited = true)
    (h : f.take c = .ok m) : ∀ g ∈ m.frames, g.delimited = true := by
  cases f with
  | classSignature | superTypes | methodSignature | parameterList | throws => contradiction
  | type => exact delimited_startType h
  | reference => exact delimited_startReference h
  | classType => exact delimited_startClass h
  | className slashes read => exact delimited_inClassName h
  | classRest path => exact delimited_afterClass h
  | arguments => exact delimited_inArguments h
  | bounds => exact delimited_inBounds h
  | outerName | innerName path | variableName | variableRest | parameterRest | thrown =>
    simp only [take] at h
    repeat' split at h
    all_goals cases h
    all_goals simp [delimited]
  | firstArgument =>
    simp only [take] at h
    split at h
    · contradiction
    · exact delimited_inArguments h
  | firstParameter =>
    simp only [take] at h
    split at h
    · contradiction
    · exact delimited_startParameter h
  | classBound =>
    simp only [take] at h
    split at h
    · exact delimited_followedBy (fun _ => delimited_startReference) (by simp [delimited]) h
    · exact delimited_inBounds h
  | parameters =>
    simp only [take] at h
    split at h
    · cases h; simp
    · exact delimited_followedBy (fun _ => delimited_startType) (by simp [delimited]) h
  | result =>
    simp only [take] at h
    split at h
    · cases h; simp
    · exact delimited_startType h

theorem proper_followedBy {s : Step} {f : Frame} {m : Move}
    (hs : ∀ m₀, s = .ok m₀ → ∀ g ∈ m₀.frames, g.delimited = true)
    (h : followedBy s [f] = .ok m) : Proper m.frames := by
  obtain ⟨m₀, h₀, rfl⟩ := followedBy_eq_ok.mp h
  simpa [Proper] using hs m₀ h₀

theorem proper_openParameterList {c : Char} {m : Move} (h : openParameterList c = .ok m) :
    Proper m.frames := by
  unfold openParameterList at h
  split at h <;> cases h
  simp [Proper, Frame.delimited]

theorem Frame.proper_take {f : Frame} {c : Char} {m : Move} (h : f.take c = .ok m) :
    Proper m.frames := by
  by_cases hf : f.delimited = true
  · intro g hg
    exact delimited_take hf h g (List.dropLast_subset _ hg)
  cases f with
  | classSignature =>
    simp only [take] at h
    split at h
    · cases h; simp [Proper, delimited]
    · exact proper_followedBy (fun _ => delimited_startClass) h
  | superTypes => exact proper_followedBy (fun _ => delimited_startClass) h
  | methodSignature =>
    simp only [take] at h
    split at h
    · cases h; simp [Proper, delimited]
    · exact proper_openParameterList h
  | parameterList => exact proper_openParameterList h
  | throws =>
    simp only [take] at h
    split at h <;> cases h
    simp [Proper, delimited]
  | _ => simp [delimited] at hf

/-- Taking a character keeps the stack in order. -/
theorem proper_step {f : Frame} {fs : List Frame} {c : Char} {m : Move} (hfs : Proper (f :: fs))
    (h : f.take c = .ok m) : Proper (m.frames ++ fs) := by
  cases fs with
  | nil => simpa using Frame.proper_take h
  | cons g gs =>
    have hf : f.delimited = true := hfs f (by simp)
    intro e he
    rw [List.dropLast_append_of_ne_nil (by simp)] at he
    rcases List.mem_append.mp he with he | he
    · exact Frame.delimited_take hf h e he
    · exact hfs e (by simpa using .inr he)

theorem addFound_eq (m : Move) (names : NameSet) :
    addFound m.found names = m.names.foldl NameSet.insert names := by
  cases hm : m.found <;> simp [addFound, Move.names, hm]

theorem readsAll_empty {fs : List Frame} {n : List String} :
    ReadsAll fs [] n ↔ (∀ f ∈ fs, f.atEnd = none) ∧ n = [] := by
  induction fs generalizing n with
  | nil => simp [ReadsAll]
  | cons f fs ih =>
    constructor
    · rintro ⟨w₁, w₂, n₁, n₂, hw, rfl, hf, hfs⟩
      obtain ⟨rfl, rfl⟩ := List.append_eq_nil_iff.mp hw.symm
      obtain ⟨hall, rfl⟩ := ih.mp hfs
      rcases Frame.reads_iff.mp hf with ⟨c, rest, _, _, hc, _⟩ | ⟨hend, _, rfl⟩
      · contradiction
      · exact ⟨List.forall_mem_cons.mpr ⟨hend, hall⟩, rfl⟩
    · rintro ⟨h, rfl⟩
      obtain ⟨hf, hfs⟩ := List.forall_mem_cons.mp h
      exact ⟨[], [], [], [], rfl, rfl, Frame.reads_iff.mpr (.inr ⟨hf, rfl, rfl⟩),
        ih.mpr ⟨hfs, rfl⟩⟩

/-- A stack can be read to the end of a text exactly if it stands for the text. -/
theorem scan_eq_ok_iff {fs : List Frame} (hfs : Proper fs) {known names : NameSet} {s : List Char} :
    scan fs known s = .ok (names, []) ↔
      ∃ n, ReadsAll fs s n ∧ names = n.foldl NameSet.insert known := by
  induction s generalizing fs known with
  | nil =>
    simp only [readsAll_empty, and_assoc, exists_and_left, exists_eq_left, List.foldl_nil]
    cases fs with
    | nil => simp [scan, eq_comm]
    | cons f fs =>
      unfold scan
      split
      · next r hr =>
        obtain ⟨g, hg, hr⟩ := List.exists_of_findSome?_eq_some hr
        simp only [reduceCtorEq, false_iff, not_and]
        intro h
        rw [h g hg] at hr
        contradiction
      · next hnone =>
        have hend : ∀ g ∈ f :: fs, g.atEnd = none := List.findSome?_eq_none_iff.mp hnone
        simp only [Except.ok.injEq, Prod.mk.injEq, and_true]
        exact ⟨fun h => ⟨hend, h.symm⟩, fun h => h.2.symm⟩
  | cons c s ih =>
    cases fs with
    | nil => simp [scan, ReadsAll]
    | cons f fs =>
      rw [scan]
      constructor
      · intro h
        split at h
        · next m hm =>
          obtain ⟨n', hr, rfl⟩ := (ih (proper_step hfs hm)).mp h
          obtain ⟨w₁, w₂, n₁, n₂, rfl, rfl, h₁, h₂⟩ := readsAll_append.mp hr
          have hf : f.Reads (c :: w₁) (m.names ++ n₁) :=
            Frame.reads_iff.mpr (.inl ⟨c, w₁, m, n₁, rfl, hm, h₁, rfl⟩)
          exact ⟨_, readsAll_cons hf h₂, by simp [addFound_eq]⟩
        · contradiction
      · rintro ⟨_, ⟨w₁, w₂, n₁, n₂, hw, rfl, hf, h₂⟩, rfl⟩
        rcases Frame.reads_iff.mp hf with ⟨d, rest, m, n', rfl, hm, hr, rfl⟩ | ⟨hend, rfl, rfl⟩
        · obtain ⟨rfl, rfl⟩ := List.cons.inj hw
          rw [hm]
          exact (ih (proper_step hfs hm)).mpr
            ⟨n' ++ n₂, readsAll_append.mpr ⟨_, _, _, _, rfl, rfl, hr, h₂⟩, by simp [addFound_eq]⟩
        · -- a frame that may be left without a character has none below it
          cases fs with
          | nil =>
            obtain ⟨rfl, rfl⟩ := h₂
            contradiction
          | cons g gs =>
            have := hfs f (by simp)
            rw [Frame.delimited_of_atEnd hend] at this
            contradiction

theorem scanAll_eq_ok_iff {f : Frame} {s : List Char} {names : NameSet} :
    scanAll f s = .ok names ↔ ∃ n, f.Reads s n ∧ names = .ofList n := by
  have hproper : Proper [f] := by simp [Proper]
  have h : scan [f] ∅ s = .ok (names, []) ↔
      ∃ n, f.Reads s n ∧ names = n.foldl NameSet.insert ∅ := by
    simpa only [readsAll_singleton] using scan_eq_ok_iff hproper
  refine Iff.trans ?_ h
  unfold scanAll
  split <;> simp_all

end ClassUsage.Signature
