import ClassUsage.Proofs.Signature.Language

/-!
Types, read a character at a time: taking the first character of a type, of a class name or of a
type argument leaves frames that stand for the rest of it, and nothing else can be taken there.
-/
namespace ClassUsage.Signature

section References

variable {w : List Char} {n : List String}

theorem takes_startReference :
    Takes startReference w n ↔ ∃ r : ReferenceType, w = r.chars ∧ n = r.names := by
  constructor
  · rintro ⟨c, rest, m, names, rfl, h, hr, rfl⟩
    unfold startReference at h
    split at h
    · cases h
      obtain ⟨c, rfl, rfl⟩ := readsAll_singleton.mp hr
      exact ⟨.object c, rfl, rfl⟩
    · cases h
      obtain ⟨name, rfl, rfl⟩ := readsAll_singleton.mp hr
      exact ⟨.typeVariable name, rfl, rfl⟩
    · cases h
      obtain ⟨t, rfl, rfl⟩ := readsAll_singleton.mp hr
      exact ⟨.array t, rfl, rfl⟩
    · contradiction
  · rintro ⟨r, rfl, rfl⟩
    cases r with
    | object c => exact ⟨'L', _, _, _, rfl, rfl, readsAll_singleton.mpr ⟨c, rfl, rfl⟩, rfl⟩
    | typeVariable name =>
      exact ⟨'T', _, _, _, rfl, rfl, readsAll_singleton.mpr ⟨name, rfl, rfl⟩, rfl⟩
    | array t => exact ⟨'[', _, _, _, rfl, rfl, readsAll_singleton.mpr ⟨t, rfl, rfl⟩, rfl⟩

theorem takes_startClass :
    Takes startClass w n ↔ ∃ c : ClassType, w = c.chars ∧ n = c.names := by
  constructor
  · rintro ⟨c, rest, m, names, rfl, h, hr, rfl⟩
    unfold startClass at h
    split at h
    · cases h
      obtain ⟨c, rfl, rfl⟩ := readsAll_singleton.mp hr
      exact ⟨c, rfl, rfl⟩
    · contradiction
  · rintro ⟨c, rfl, rfl⟩
    exact ⟨'L', _, _, _, rfl, rfl, readsAll_singleton.mpr ⟨c, rfl, rfl⟩, rfl⟩

theorem startReference_of_primitive {c : Char} {p : Primitive} (h : Primitive.ofCode? c = some p) :
    startReference c = .error (.expectedReference c) := by
  rw [← Primitive.code_of_ofCode? h]
  cases p <;> rfl

theorem takes_startType :
    Takes startType w n ↔ ∃ t : SignatureType, w = t.chars ∧ n = t.names := by
  constructor
  · rintro ⟨c, rest, m, names, rfl, h, hr, rfl⟩
    unfold startType at h
    split at h
    · next p hp =>
      cases h
      obtain ⟨rfl, rfl⟩ := hr
      exact ⟨.primitive p, by rw [SignatureType.chars, Primitive.code_of_ofCode? hp], rfl⟩
    · obtain ⟨r, hw, hn⟩ := takes_startReference.mp ⟨c, rest, m, names, rfl, h, hr, rfl⟩
      exact ⟨.reference r, hw, hn⟩
  · rintro ⟨t, rfl, rfl⟩
    cases t with
    | primitive p =>
      exact ⟨p.code, [], ⟨[], none⟩, [], rfl, by simp [startType, goOn], ⟨rfl, rfl⟩, rfl⟩
    | reference r =>
      obtain ⟨c, rest, m, names, hw, h, hr, hn⟩ := takes_startReference.mpr ⟨r, rfl, rfl⟩
      refine ⟨c, rest, m, names, hw, ?_, hr, hn⟩
      unfold startType
      split
      · next hp =>
        rw [startReference_of_primitive hp] at h
        contradiction
      · exact h

theorem followedBy_eq_ok {s : Step} {fs : List Frame} {m : Move} :
    followedBy s fs = .ok m ↔ ∃ m₀, s = .ok m₀ ∧ m = ⟨m₀.frames ++ fs, m₀.found⟩ := by
  cases s <;> simp [followedBy, eq_comm]

theorem takes_followedBy {take : Char → Step} {fs : List Frame} :
    Takes (fun c => followedBy (take c) fs) w n ↔
      ∃ w₁ w₂ n₁ n₂, w = w₁ ++ w₂ ∧ n = n₁ ++ n₂ ∧ Takes take w₁ n₁ ∧ ReadsAll fs w₂ n₂ := by
  constructor
  · rintro ⟨c, rest, m, names, rfl, h, hr, rfl⟩
    obtain ⟨m₀, ht, rfl⟩ := followedBy_eq_ok.mp h
    obtain ⟨w₁, w₂, n₁, n₂, rfl, rfl, h₁, h₂⟩ := readsAll_append.mp hr
    exact ⟨c :: w₁, w₂, m₀.names ++ n₁, n₂, rfl, by simp [Move.names],
      ⟨c, w₁, m₀, n₁, rfl, ht, h₁, rfl⟩, h₂⟩
  · rintro ⟨_, w₂, _, n₂, rfl, rfl, ⟨c, w₁, m, n₁, rfl, h, h₁, rfl⟩, h₂⟩
    exact ⟨c, w₁ ++ w₂, ⟨m.frames ++ fs, m.found⟩, n₁ ++ n₂, rfl,
      followedBy_eq_ok.mpr ⟨m, h, rfl⟩,
      readsAll_append.mpr ⟨w₁, w₂, n₁, n₂, rfl, rfl, h₁, h₂⟩, by simp [Move.names]⟩

end References

section Classes

variable {w : List Char} {n : List String} {path : List Char}

theorem takes_afterClass {found : Option (List Char)} :
    Takes (afterClass path found) w n ↔
      ∃ ms, w = membersChars ms ++ [';'] ∧
        n = (found.map dotted).toList ++ membersNames path ms := by
  constructor
  · rintro ⟨c, rest, m, names, rfl, h, hr, rfl⟩
    unfold afterClass at h
    split at h
    · cases h
      obtain ⟨name, as, ms, rfl, rfl⟩ := readsAll_singleton.mp hr
      exact ⟨⟨name, as⟩ :: ms, by simp [membersChars, classTail], rfl⟩
    · cases h
      obtain ⟨rfl, rfl⟩ := hr
      exact ⟨[], rfl, rfl⟩
    · contradiction
  · rintro ⟨ms, rfl, rfl⟩
    cases ms with
    | nil => exact ⟨';', [], ⟨[], found⟩, [], rfl, rfl, readsAll_nil, rfl⟩
    | cons m ms =>
      refine ⟨'.', _, ⟨[.innerName path], found⟩, _, rfl, rfl,
        readsAll_singleton.mpr ⟨m.name, m.arguments, ms, ?_, rfl⟩, rfl⟩
      simp [classTail]

theorem takes_inClassName {slashes : Bool} {read : List Char} :
    Takes (inClassName slashes read) w n ↔ (Frame.className slashes read).Reads w n := by
  constructor
  · rintro ⟨c, rest, m, names, rfl, h, hr, rfl⟩
    unfold inClassName at h
    split at h
    · next hc =>
      cases h
      obtain ⟨more, as, ms, hmore, rfl, rfl⟩ := readsAll_singleton.mp hr
      exact ⟨c :: more, as, ms, List.forall_mem_cons.mpr ⟨hc, hmore⟩, rfl, by simp [Move.names]⟩
    split at h
    · next hc =>
      cases h
      obtain ⟨_, _, _, _, rfl, rfl, ⟨as, has, rfl, rfl⟩, hms⟩ := hr
      obtain ⟨ms, rfl, rfl⟩ := readsAll_singleton.mp hms
      refine ⟨[], as, ms, by simp, ?_, ?_⟩
      · simp [hc, classTail, bracketed_arguments has]
      · simp [Move.names, classNames]
    · obtain ⟨ms, hw, hn⟩ := takes_afterClass.mp ⟨c, rest, m, names, rfl, h, hr, rfl⟩
      refine ⟨[], [], ms, by simp, ?_, ?_⟩
      · simpa [classTail, argumentsChars, bracketed] using hw
      · simpa [classNames, argumentsNames] using hn
  · rintro ⟨more, as, ms, hmore, rfl, rfl⟩
    cases more with
    | cons c more =>
      have hc : isNameChar slashes c = true := hmore c List.mem_cons_self
      refine ⟨c, more ++ classTail as ms, ⟨[.className slashes (read ++ [c])], none⟩, _, rfl, ?_,
        readsAll_singleton.mpr ⟨more, as, ms, fun d hd => hmore d (List.mem_cons_of_mem c hd), rfl,
          rfl⟩, by simp [Move.names]⟩
      exact if_pos hc
    | nil =>
      cases as with
      | cons a as =>
        refine ⟨'<', argumentsChars (a :: as) ++ ['>'] ++ (membersChars ms ++ [';']),
          ⟨[.firstArgument, .classRest read], some read⟩, _, ?_, ?_,
          readsAll_cons ⟨a :: as, by simp, rfl, rfl⟩ (readsAll_singleton.mpr ⟨ms, rfl, rfl⟩), ?_⟩
        · simp [classTail, bracketed_arguments]
        · cases slashes <;> rfl
        · simp [classNames, Move.names]
      | nil =>
        have h : Takes (afterClass read (some read)) (membersChars ms ++ [';'])
            (dotted read :: membersNames read ms) := takes_afterClass.mpr ⟨ms, rfl, rfl⟩
        obtain ⟨c, rest, m, names, hw, h, hr, hn⟩ := h
        refine ⟨c, rest, m, names, by simpa [classTail, argumentsChars, bracketed] using hw, ?_, hr,
          by simpa [classNames, argumentsNames] using hn⟩
        -- only a member or the end of the class can follow
        have hc : c = '.' ∨ c = ';' := by
          unfold afterClass at h
          split at h <;> simp_all
        rcases hc with rfl | rfl <;> cases slashes <;> exact h

theorem takes_outerName :
    Takes Frame.outerName.take w n ↔ Frame.outerName.Reads w n := by
  constructor
  · rintro ⟨c, rest, m, names, rfl, h, hr, rfl⟩
    simp only [Frame.take] at h
    split at h
    · next hc =>
      cases h
      obtain ⟨more, as, ms, hmore, rfl, rfl⟩ := readsAll_singleton.mp hr
      have hpath : ∀ d ∈ c :: more, isPathChar d = true :=
        List.forall_mem_cons.mpr ⟨hc, fun d hd => by
          simpa [isPathChar, isNameChar] using hmore d hd⟩
      refine ⟨(ClassType.outer ⟨c :: more, by simp, hpath⟩ as).nest ms, ?_, ?_⟩
      · simp [ClassType.inside_nest, ClassType.inside, classTail]
      · simp [ClassType.names_nest, ClassType.names, ClassType.path, classNames, Move.names]
    · contradiction
  · rintro ⟨c, rfl, rfl⟩
    obtain ⟨⟨chars, hne, hpath⟩, as, ms, rfl⟩ := c.exists_nest
    cases chars with
    | nil => contradiction
    | cons d more =>
      refine ⟨d, more ++ classTail as ms, ⟨[.className true [d]], none⟩, _, ?_,
        if_pos (hpath d List.mem_cons_self), readsAll_singleton.mpr ⟨more, as, ms, ?_, rfl, rfl⟩, ?_⟩
      · simp [ClassType.inside_nest, ClassType.inside, classTail]
      · intro e he
        simpa [isPathChar, isNameChar] using hpath e (List.mem_cons_of_mem d he)
      · simp [ClassType.names_nest, ClassType.names, ClassType.path, classNames, Move.names]

theorem takes_innerName :
    Takes (Frame.innerName path).take w n ↔ (Frame.innerName path).Reads w n := by
  constructor
  · rintro ⟨c, rest, m, names, rfl, h, hr, rfl⟩
    simp only [Frame.take] at h
    split at h
    · contradiction
    · next hc =>
      cases h
      obtain ⟨more, as, ms, hmore, rfl, rfl⟩ := readsAll_singleton.mp hr
      have hstop : ∀ d ∈ c :: more, isStop d = false :=
        List.forall_mem_cons.mpr ⟨by simpa using hc, fun d hd => by
          simpa [isNameChar] using hmore d hd⟩
      exact ⟨⟨c :: more, by simp, hstop⟩, as, ms, rfl, by simp [Move.names]⟩
  · rintro ⟨⟨chars, hne, hstop⟩, as, ms, rfl, rfl⟩
    cases chars with
    | nil => contradiction
    | cons d more =>
      refine ⟨d, more ++ classTail as ms, ⟨[.className false (path ++ ['$', d])], none⟩, _, rfl, ?_,
        readsAll_singleton.mpr ⟨more, as, ms, ?_, rfl, rfl⟩, by simp [Move.names]⟩
      · simp [Frame.take, hstop d List.mem_cons_self, goOn]
      · intro e he
        simpa [isNameChar] using hstop e (List.mem_cons_of_mem d he)

end Classes

section Arguments

variable {w : List Char} {n : List String}

/-- A character that starts a reference type does nothing else in a list of arguments. -/
theorem inArguments_of_startReference {c : Char} {m : Move} (h : startReference c = .ok m) :
    inArguments c = followedBy (startReference c) [.arguments] := by
  unfold startReference at h
  split at h <;> first | rfl | contradiction

theorem takes_inArguments : Takes inArguments w n ↔ Frame.arguments.Reads w n := by
  constructor
  · rintro ⟨c, rest, m, names, rfl, h, hr, rfl⟩
    unfold inArguments at h
    split at h
    · cases h
      obtain ⟨rfl, rfl⟩ := hr
      exact ⟨[], rfl, rfl⟩
    · cases h
      obtain ⟨as, rfl, rfl⟩ := readsAll_singleton.mp hr
      exact ⟨.any :: as, rfl, rfl⟩
    · cases h
      obtain ⟨_, _, _, _, rfl, rfl, ⟨r, rfl, rfl⟩, has⟩ := hr
      obtain ⟨as, rfl, rfl⟩ := readsAll_singleton.mp has
      exact ⟨.type .upper r :: as, by simp [argumentsChars, TypeArgument.chars, Bound.chars], rfl⟩
    · cases h
      obtain ⟨_, _, _, _, rfl, rfl, ⟨r, rfl, rfl⟩, has⟩ := hr
      obtain ⟨as, rfl, rfl⟩ := readsAll_singleton.mp has
      exact ⟨.type .lower r :: as, by simp [argumentsChars, TypeArgument.chars, Bound.chars], rfl⟩
    · obtain ⟨_, _, _, _, hw, hn, hstart, has⟩ :=
        takes_followedBy.mp ⟨c, rest, m, names, rfl, h, hr, rfl⟩
      obtain ⟨r, rfl, rfl⟩ := takes_startReference.mp hstart
      obtain ⟨as, rfl, rfl⟩ := readsAll_singleton.mp has
      refine ⟨.type .exact r :: as, ?_, hn⟩
      simp [hw, argumentsChars, TypeArgument.chars, Bound.chars]
  · rintro ⟨as, rfl, rfl⟩
    cases as with
    | nil => exact ⟨'>', [], _, [], rfl, rfl, readsAll_nil, rfl⟩
    | cons a as =>
      have has : Frame.arguments.Reads (argumentsChars as ++ ['>']) (argumentsNames as) :=
        ⟨as, rfl, rfl⟩
      cases a with
      | any => exact ⟨'*', _, _, _, rfl, rfl, readsAll_singleton.mpr has, rfl⟩
      | type bound r =>
        have hr : Frame.reference.Reads r.chars r.names := ⟨r, rfl, rfl⟩
        cases bound with
        | upper =>
          refine ⟨'+', _, _, _, ?_, rfl, readsAll_cons hr (readsAll_singleton.mpr has), rfl⟩
          simp [argumentsChars, TypeArgument.chars, Bound.chars]
        | lower =>
          refine ⟨'-', _, _, _, ?_, rfl, readsAll_cons hr (readsAll_singleton.mpr has), rfl⟩
          simp [argumentsChars, TypeArgument.chars, Bound.chars]
        | exact =>
          have hw : argumentsChars (.type .exact r :: as) ++ ['>'] =
              r.chars ++ (argumentsChars as ++ ['>']) := by
            simp [argumentsChars, TypeArgument.chars, Bound.chars]
          obtain ⟨c, rest, m, names, hc, h, hm, hn⟩ := takes_followedBy.mpr
            ⟨_, _, _, _, hw, rfl, takes_startReference.mpr ⟨r, rfl, rfl⟩,
              readsAll_singleton.mpr has⟩
          refine ⟨c, rest, m, names, hc, ?_, hm, hn⟩
          obtain ⟨m₀, hstart, -⟩ := followedBy_eq_ok.mp h
          exact (inArguments_of_startReference hstart).trans h

theorem takes_firstArgument :
    Takes Frame.firstArgument.take w n ↔ Frame.firstArgument.Reads w n := by
  constructor
  · rintro ⟨c, rest, m, names, rfl, h, hr, rfl⟩
    simp only [Frame.take] at h
    split at h
    · contradiction
    · next hc =>
      obtain ⟨as, hw, hn⟩ := takes_inArguments.mp ⟨c, rest, m, names, rfl, h, hr, rfl⟩
      refine ⟨as, ?_, hw, hn⟩
      rintro rfl
      exact hc (List.cons.inj hw).1
  · rintro ⟨as, has, rfl, rfl⟩
    obtain ⟨c, rest, m, names, hw, h, hr, hn⟩ := takes_inArguments.mpr ⟨as, rfl, rfl⟩
    refine ⟨c, rest, m, names, hw, ?_, hr, hn⟩
    have hc : c ≠ '>' := by
      rintro rfl
      cases as with
      | nil => contradiction
      | cons a as =>
        cases a with
        | any => simp [argumentsChars, TypeArgument.chars] at hw
        | type bound r =>
          cases bound <;> cases r <;>
            simp [argumentsChars, TypeArgument.chars, Bound.chars, ReferenceType.chars] at hw
    simp [Frame.take, hc, h]

theorem takes_variableRest :
    Takes Frame.variableRest.take w n ↔ Frame.variableRest.Reads w n := by
  constructor
  · rintro ⟨c, rest, m, names, rfl, h, hr, rfl⟩
    simp only [Frame.take] at h
    split at h
    · next hc =>
      cases h
      obtain ⟨more, hmore, rfl, rfl⟩ := readsAll_singleton.mp hr
      exact ⟨c :: more, List.forall_mem_cons.mpr ⟨by simpa using hc, hmore⟩, rfl, rfl⟩
    split at h
    · next hc =>
      cases h
      obtain ⟨rfl, rfl⟩ := hr
      exact ⟨[], by simp, by simp [hc], rfl⟩
    · contradiction
  · rintro ⟨more, hmore, rfl, rfl⟩
    cases more with
    | nil => exact ⟨';', [], _, [], rfl, rfl, readsAll_nil, rfl⟩
    | cons c more =>
      obtain ⟨hc, hmore⟩ := List.forall_mem_cons.mp hmore
      exact ⟨c, _, ⟨[.variableRest], none⟩, [], rfl, by simp [Frame.take, hc, goOn],
        readsAll_singleton.mpr ⟨more, hmore, rfl, rfl⟩, rfl⟩

theorem takes_variableName :
    Takes Frame.variableName.take w n ↔ Frame.variableName.Reads w n := by
  constructor
  · rintro ⟨c, rest, m, names, rfl, h, hr, rfl⟩
    simp only [Frame.take] at h
    split at h
    · contradiction
    · next hc =>
      cases h
      obtain ⟨more, hmore, rfl, rfl⟩ := readsAll_singleton.mp hr
      have hstop : ∀ d ∈ c :: more, isStop d = false :=
        List.forall_mem_cons.mpr ⟨by simpa using hc, hmore⟩
      exact ⟨⟨c :: more, by simp, hstop⟩, rfl, rfl⟩
  · rintro ⟨⟨chars, hne, hstop⟩, rfl, rfl⟩
    cases chars with
    | nil => contradiction
    | cons c more =>
      obtain ⟨hc, hmore⟩ := List.forall_mem_cons.mp hstop
      exact ⟨c, _, ⟨[.variableRest], none⟩, [], rfl, by simp [Frame.take, hc, goOn],
        readsAll_singleton.mpr ⟨more, hmore, rfl, rfl⟩, rfl⟩

end Arguments

end ClassUsage.Signature
