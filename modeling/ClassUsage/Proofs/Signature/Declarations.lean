import ClassUsage.Proofs.Signature.Types

/-!
Declarations, read a character at a time: type parameters with their bounds, and the signatures of
classes and of methods.
-/
namespace ClassUsage.Signature

section Parameters

variable {w : List Char} {n : List String}

theorem takes_parameterRest :
    Takes Frame.parameterRest.take w n ↔ Frame.parameterRest.Reads w n := by
  constructor
  · rintro ⟨c, rest, m, names, rfl, h, hr, rfl⟩
    simp only [Frame.take] at h
    split at h
    · next hc =>
      cases h
      obtain ⟨more, bound, rs, ps, hmore, hd, hs, rfl, rfl⟩ := readsAll_singleton.mp hr
      exact ⟨c :: more, bound, rs, ps, List.forall_mem_cons.mpr ⟨by simpa using hc, hmore⟩, hd, hs,
        rfl, rfl⟩
    split at h
    · next hc =>
      cases h
      obtain ⟨bound, rs, ps, hd, hs, rfl, rfl⟩ := readsAll_singleton.mp hr
      exact ⟨[], bound, rs, ps, by simp, hd, hs, by simp [hc], rfl⟩
    · contradiction
  · rintro ⟨more, bound, rs, ps, hmore, hd, hs, rfl, rfl⟩
    cases more with
    | nil =>
      exact ⟨':', _, _, _, rfl, rfl, readsAll_singleton.mpr ⟨bound, rs, ps, hd, hs, rfl, rfl⟩, rfl⟩
    | cons c more =>
      obtain ⟨hc, hmore⟩ := List.forall_mem_cons.mp hmore
      exact ⟨c, _, ⟨[.parameterRest], none⟩, _, rfl, by simp [Frame.take, hc, goOn],
        readsAll_singleton.mpr ⟨more, bound, rs, ps, hmore, hd, hs, rfl, rfl⟩, rfl⟩

theorem takes_startParameter :
    Takes startParameter w n ↔
      ∃ p ps, TypeParameter.separate (p :: ps) = true ∧ w = parametersTail (p :: ps) ∧
        n = (p :: ps).flatMap TypeParameter.names := by
  constructor
  · rintro ⟨c, rest, m, names, rfl, h, hr, rfl⟩
    unfold startParameter at h
    split at h
    · contradiction
    · next hc =>
      cases h
      obtain ⟨more, bound, rs, ps, hmore, hd, hs, rfl, rfl⟩ := readsAll_singleton.mp hr
      have hstop : ∀ d ∈ c :: more, isStop d = false :=
        List.forall_mem_cons.mpr ⟨by simpa using hc, hmore⟩
      refine ⟨⟨⟨c :: more, by simp, hstop⟩, bound, rs⟩, ps, separate_cons.mpr ⟨hd, hs⟩, ?_, rfl⟩
      simp [parametersTail_cons]
  · rintro ⟨⟨⟨chars, hne, hstop⟩, bound, rs⟩, ps, hps, rfl, rfl⟩
    cases chars with
    | nil => contradiction
    | cons c more =>
      obtain ⟨hd, hs⟩ := separate_cons.mp hps
      obtain ⟨hc, hmore⟩ := List.forall_mem_cons.mp hstop
      refine ⟨c, _, ⟨[.parameterRest], none⟩, _, parametersTail_cons _ _, ?_,
        readsAll_singleton.mpr ⟨more, bound, rs, ps, hmore, hd, hs, rfl, rfl⟩, rfl⟩
      simp [startParameter, hc, goOn]

theorem takes_inBounds : Takes inBounds w n ↔ Frame.bounds.Reads w n := by
  constructor
  · rintro ⟨c, rest, m, names, rfl, h, hr, rfl⟩
    unfold inBounds at h
    split at h
    · cases h
      obtain ⟨_, _, _, _, rfl, rfl, ⟨r, rfl, rfl⟩, hrs⟩ := hr
      obtain ⟨rs, ps, hs, rfl, rfl⟩ := readsAll_singleton.mp hrs
      exact ⟨r :: rs, ps, hs, by simp, by simp [Move.names]⟩
    · cases h
      obtain ⟨rfl, rfl⟩ := hr
      exact ⟨[], [], rfl, rfl, rfl⟩
    · obtain ⟨p, ps, hs, hw, hn⟩ := takes_startParameter.mp ⟨c, rest, m, names, rfl, h, hr, rfl⟩
      exact ⟨[], p :: ps, hs, hw, hn⟩
  · rintro ⟨rs, ps, hs, rfl, rfl⟩
    cases rs with
    | cons r rs =>
      refine ⟨':', _, ⟨[.reference, .bounds], none⟩, _, ?_, rfl,
        readsAll_cons ⟨r, rfl, rfl⟩ (readsAll_singleton.mpr ⟨rs, ps, hs, rfl, rfl⟩), ?_⟩
      · simp
      · simp [Move.names]
    | nil =>
      cases ps with
      | nil => exact ⟨'>', [], _, [], rfl, rfl, readsAll_nil, rfl⟩
      | cons p ps =>
        obtain ⟨c, rest, m, names, hw, h, hr, hn⟩ := takes_startParameter.mpr ⟨p, ps, hs, rfl, rfl⟩
        refine ⟨c, rest, m, names, hw, ?_, hr, hn⟩
        unfold inBounds
        split
        · contradiction
        · contradiction
        · exact h

theorem takes_firstParameter :
    Takes Frame.firstParameter.take w n ↔ Frame.firstParameter.Reads w n := by
  constructor
  · rintro ⟨c, rest, m, names, rfl, h, hr, rfl⟩
    simp only [Frame.take] at h
    split at h
    · contradiction
    · obtain ⟨p, ps, hs, hw, hn⟩ := takes_startParameter.mp ⟨c, rest, m, names, rfl, h, hr, rfl⟩
      exact ⟨p :: ps, by simp, hs, hw, hn⟩
  · rintro ⟨ps, hps, hs, rfl, rfl⟩
    cases ps with
    | nil => contradiction
    | cons p ps =>
      obtain ⟨c, rest, m, names, hw, h, hr, hn⟩ := takes_startParameter.mpr ⟨p, ps, hs, rfl, rfl⟩
      refine ⟨c, rest, m, names, hw, ?_, hr, hn⟩
      have hc : c ≠ '>' := by
        rintro rfl
        contradiction
      simp [Frame.take, hc, h]

/-- The characters that start a bound are those that start a reference type. -/
theorem startsBound_iff {c : Char} :
    (c = 'L' || c = 'T' || c = '[') = true ↔ ∃ m, startReference c = .ok m := by
  constructor
  · intro h
    simp only [Bool.or_eq_true, decide_eq_true_eq] at h
    rcases h with (rfl | rfl) | rfl <;> exact ⟨_, rfl⟩
  · rintro ⟨m, h⟩
    unfold startReference at h
    split at h <;> first | rfl | contradiction

theorem takes_classBound :
    Takes Frame.classBound.take w n ↔ Frame.classBound.Reads w n := by
  constructor
  · rintro ⟨c, rest, m, names, rfl, h, hr, rfl⟩
    simp only [Frame.take] at h
    split at h
    · obtain ⟨_, _, _, _, hw, hn, hstart, hbounds⟩ :=
        takes_followedBy.mp ⟨c, rest, m, names, rfl, h, hr, rfl⟩
      obtain ⟨r, rfl, rfl⟩ := takes_startReference.mp hstart
      obtain ⟨rs, ps, hs, rfl, rfl⟩ := readsAll_singleton.mp hbounds
      refine ⟨some r, rs, ps, by simp [Distinct], hs, ?_, ?_⟩
      · simp [hw, boundsChars]
      · simp [hn, boundsNames]
    · next hc =>
      obtain ⟨rs, ps, hs, hw, hn⟩ := takes_inBounds.mp ⟨c, rest, m, names, rfl, h, hr, rfl⟩
      refine ⟨none, rs, ps, ?_, hs, hw, hn⟩
      rintro - rfl q hq
      cases ps with
      | nil => simp at hq
      | cons p ps =>
        simp only [List.head?_cons, Option.mem_some_iff] at hq
        subst hq
        -- the parameter that follows starts with the character that is no start of a bound
        have hhead : p.name.chars.head? = some c := by
          rw [← head?_parametersTail p ps]
          exact congrArg List.head? hw.symm
        simp only [Bool.or_eq_true, decide_eq_true_eq, not_or] at hc
        simp [TypeParameter.looksLikeBound, hhead, hc]
  · rintro ⟨bound, rs, ps, hd, hs, rfl, rfl⟩
    cases bound with
    | some r =>
      have hbounds : Frame.bounds.Reads _ _ := ⟨rs, ps, hs, rfl, rfl⟩
      obtain ⟨c, rest, m, names, hw, h, hr, hn⟩ := takes_followedBy.mpr
        ⟨_, _, _, _, rfl, rfl, takes_startReference.mpr ⟨r, rfl, rfl⟩,
          readsAll_singleton.mpr hbounds⟩
      refine ⟨c, rest, m, names, by simpa [boundsChars] using hw, ?_, hr,
        by simpa [boundsNames] using hn⟩
      obtain ⟨m₀, hstart, -⟩ := followedBy_eq_ok.mp h
      simp only [Frame.take, startsBound_iff.mpr ⟨m₀, hstart⟩, if_true]
      exact h
    | none =>
      obtain ⟨c, rest, m, names, hw, h, hr, hn⟩ := takes_inBounds.mpr ⟨rs, ps, hs, rfl, rfl⟩
      refine ⟨c, rest, m, names, by simpa [boundsChars] using hw, ?_, hr,
        by simpa [boundsNames] using hn⟩
      have hc : (c = 'L' || c = 'T' || c = '[') = false := by
        cases rs with
        | cons r rs =>
          simp only [List.flatMap_cons, List.cons_append, List.cons.injEq] at hw
          simp [← hw.1]
        | nil =>
          cases ps with
          | nil =>
            simp only [List.flatMap_nil, List.nil_append, parametersTail, List.cons.injEq] at hw
            simp [← hw.1]
          | cons p ps =>
            have hlike := hd rfl rfl p rfl
            have hhead : p.name.chars.head? = some c := by
              rw [← head?_parametersTail p ps]
              exact congrArg List.head? hw
            simp only [TypeParameter.looksLikeBound, hhead, Option.some.injEq,
              Bool.or_eq_false_iff] at hlike ⊢
            refine ⟨hlike, ?_⟩
            have hstop := p.name.no_stop c (List.mem_of_mem_head? hhead)
            rw [decide_eq_false_iff_not]
            rintro rfl
            contradiction
      simp [Frame.take, hc, h]

end Parameters

section Declarations

variable {w : List Char} {n : List String}

theorem takes_superTypes :
    Frame.superTypes.Reads w n ↔ Takes Frame.superTypes.take w n ∨ w = [] ∧ n = [] := by
  have hmore : Takes Frame.superTypes.take w n ↔
      ∃ (c : ClassType) (cs : List ClassType),
        w = (c :: cs).flatMap ClassType.chars ∧ n = (c :: cs).flatMap ClassType.names := by
    refine takes_followedBy.trans ⟨?_, ?_⟩
    · rintro ⟨_, _, _, _, rfl, rfl, hc, hcs⟩
      obtain ⟨c, rfl, rfl⟩ := takes_startClass.mp hc
      obtain ⟨cs, rfl, rfl⟩ := readsAll_singleton.mp hcs
      exact ⟨c, cs, rfl, rfl⟩
    · rintro ⟨c, cs, rfl, rfl⟩
      exact ⟨_, _, _, _, rfl, rfl, takes_startClass.mpr ⟨c, rfl, rfl⟩,
        readsAll_singleton.mpr ⟨cs, rfl, rfl⟩⟩
  rw [hmore]
  constructor
  · rintro ⟨cs, rfl, rfl⟩
    cases cs with
    | nil => exact .inr ⟨rfl, rfl⟩
    | cons c cs => exact .inl ⟨c, cs, rfl, rfl⟩
  · rintro (⟨c, cs, rfl, rfl⟩ | ⟨rfl, rfl⟩)
    · exact ⟨c :: cs, rfl, rfl⟩
    · exact ⟨[], rfl, rfl⟩

theorem takes_classSignature :
    Takes Frame.classSignature.take w n ↔ Frame.classSignature.Reads w n := by
  constructor
  · rintro ⟨c, rest, m, names, rfl, h, hr, rfl⟩
    simp only [Frame.take] at h
    split at h
    · next hc =>
      cases h
      obtain ⟨_, _, _, _, rfl, rfl, ⟨ps, hps, hs, rfl, rfl⟩, hr⟩ := hr
      obtain ⟨_, _, _, _, rfl, rfl, ⟨c, rfl, rfl⟩, hr⟩ := hr
      obtain ⟨cs, rfl, rfl⟩ := readsAll_singleton.mp hr
      refine ⟨⟨ps, c, cs⟩, hs, ?_, ?_⟩
      · simp [ClassSignature.chars, typeParametersChars_of_ne_nil hps, hc]
      · simp [ClassSignature.names, Move.names]
    · obtain ⟨_, _, _, _, hw, hn, hc, hcs⟩ :=
        takes_followedBy.mp ⟨c, rest, m, names, rfl, h, hr, rfl⟩
      obtain ⟨c, rfl, rfl⟩ := takes_startClass.mp hc
      obtain ⟨cs, rfl, rfl⟩ := readsAll_singleton.mp hcs
      exact ⟨⟨[], c, cs⟩, rfl, by simp [hw, ClassSignature.chars, typeParametersChars, bracketed],
        by simp [hn, ClassSignature.names]⟩
  · rintro ⟨⟨ps, c, cs⟩, hs, rfl, rfl⟩
    cases ps with
    | cons p ps =>
      refine ⟨'<', _, ⟨[.firstParameter, .classType, .superTypes], none⟩, _, ?_, rfl,
        readsAll_cons ⟨p :: ps, by simp, hs, rfl, rfl⟩ (readsAll_cons ⟨c, rfl, rfl⟩
          (readsAll_singleton.mpr ⟨cs, rfl, rfl⟩)), ?_⟩
      · simp [ClassSignature.chars, typeParametersChars_of_ne_nil]
      · simp [ClassSignature.names, Move.names]
    | nil =>
      have hcs : Frame.superTypes.Reads _ _ := ⟨cs, rfl, rfl⟩
      obtain ⟨d, rest, m, names, hw, h, hr, hn⟩ := takes_followedBy.mpr
        ⟨_, _, _, _, rfl, rfl, takes_startClass.mpr ⟨c, rfl, rfl⟩, readsAll_singleton.mpr hcs⟩
      refine ⟨d, rest, m, names, ?_, ?_, hr, ?_⟩
      · simpa [ClassSignature.chars, typeParametersChars, bracketed] using hw
      · have hd : d ≠ '<' := by
          rintro rfl
          simp [ClassType.chars] at hw
        simp only [Frame.take, hd, if_false]
        exact h
      · simpa [ClassSignature.names] using hn

theorem takes_openParameterList :
    Takes openParameterList w n ↔ Frame.parameterList.Reads w n := by
  constructor
  · rintro ⟨c, rest, m, names, rfl, h, hr, rfl⟩
    unfold openParameterList at h
    split at h
    · cases h
      obtain ⟨_, _, _, _, rfl, rfl, ⟨ps, rfl, rfl⟩, hr⟩ := hr
      obtain ⟨_, _, _, _, rfl, rfl, ⟨r, rfl, rfl⟩, hr⟩ := hr
      obtain ⟨ts, rfl, rfl⟩ := readsAll_singleton.mp hr
      exact ⟨ps, r, ts, by simp [openedChars], by simp [openedNames, Move.names]⟩
    · contradiction
  · rintro ⟨ps, r, ts, rfl, rfl⟩
    refine ⟨'(', _, ⟨[.parameters, .result, .throws], none⟩, _, ?_, rfl,
      readsAll_cons ⟨ps, rfl, rfl⟩ (readsAll_cons ⟨r, rfl, rfl⟩
        (readsAll_singleton.mpr ⟨ts, rfl, rfl⟩)), ?_⟩
    · simp [openedChars]
    · simp [openedNames, Move.names]

theorem takes_methodSignature :
    Takes Frame.methodSignature.take w n ↔ Frame.methodSignature.Reads w n := by
  constructor
  · rintro ⟨c, rest, m, names, rfl, h, hr, rfl⟩
    simp only [Frame.take] at h
    split at h
    · next hc =>
      cases h
      obtain ⟨_, _, _, _, rfl, rfl, ⟨ps, hps, hs, rfl, rfl⟩, hr⟩ := hr
      obtain ⟨qs, r, ts, rfl, rfl⟩ := readsAll_singleton.mp hr
      refine ⟨⟨ps, qs, r, ts⟩, hs, ?_, ?_⟩
      · simp [MethodSignature.chars, typeParametersChars_of_ne_nil hps, openedChars, throwsChars, hc]
      · simp [MethodSignature.names, openedNames, Move.names]
    · obtain ⟨qs, r, ts, hw, hn⟩ := takes_openParameterList.mp ⟨c, rest, m, names, rfl, h, hr, rfl⟩
      exact ⟨⟨[], qs, r, ts⟩, rfl, hw, by simpa [MethodSignature.names, openedNames] using hn⟩
  · rintro ⟨⟨ps, qs, r, ts⟩, hs, rfl, rfl⟩
    cases ps with
    | cons p ps =>
      refine ⟨'<', _, ⟨[.firstParameter, .parameterList], none⟩, _, ?_, rfl,
        readsAll_cons ⟨p :: ps, by simp, hs, rfl, rfl⟩
          (readsAll_singleton.mpr ⟨qs, r, ts, rfl, rfl⟩), ?_⟩
      · simp [MethodSignature.chars, typeParametersChars_of_ne_nil, openedChars, throwsChars]
      · simp [MethodSignature.names, openedNames, Move.names]
    | nil =>
      obtain ⟨c, rest, m, names, hw, h, hr, hn⟩ := takes_openParameterList.mpr ⟨qs, r, ts, rfl, rfl⟩
      refine ⟨c, rest, m, names, hw, ?_, hr, by simpa [MethodSignature.names, openedNames] using hn⟩
      have hc : c ≠ '<' := by
        rintro rfl
        contradiction
      simp [Frame.take, hc, h]

theorem takes_parameters : Takes Frame.parameters.take w n ↔ Frame.parameters.Reads w n := by
  constructor
  · rintro ⟨c, rest, m, names, rfl, h, hr, rfl⟩
    simp only [Frame.take] at h
    split at h
    · next hc =>
      cases h
      obtain ⟨rfl, rfl⟩ := hr
      exact ⟨[], by simp [hc], rfl⟩
    · obtain ⟨_, _, _, _, hw, hn, ht, hts⟩ :=
        takes_followedBy.mp ⟨c, rest, m, names, rfl, h, hr, rfl⟩
      obtain ⟨t, rfl, rfl⟩ := takes_startType.mp ht
      obtain ⟨ts, rfl, rfl⟩ := readsAll_singleton.mp hts
      exact ⟨t :: ts, by simp [hw], by simp [hn]⟩
  · rintro ⟨ts, rfl, rfl⟩
    cases ts with
    | nil => exact ⟨')', [], _, [], rfl, rfl, readsAll_nil, rfl⟩
    | cons t ts =>
      have hts : Frame.parameters.Reads _ _ := ⟨ts, rfl, rfl⟩
      obtain ⟨c, rest, m, names, hw, h, hr, hn⟩ := takes_followedBy.mpr
        ⟨_, _, _, _, rfl, rfl, takes_startType.mpr ⟨t, rfl, rfl⟩, readsAll_singleton.mpr hts⟩
      refine ⟨c, rest, m, names, by simpa using hw, ?_, hr, by simpa using hn⟩
      have hc : c ≠ ')' := by
        rintro rfl
        contradiction
      simp only [Frame.take, hc, if_false]
      exact h

theorem takes_result : Takes Frame.result.take w n ↔ Frame.result.Reads w n := by
  constructor
  · rintro ⟨c, rest, m, names, rfl, h, hr, rfl⟩
    simp only [Frame.take] at h
    split at h
    · next hc =>
      cases h
      obtain ⟨rfl, rfl⟩ := hr
      exact ⟨none, by simp [hc], rfl⟩
    · obtain ⟨t, hw, hn⟩ := takes_startType.mp ⟨c, rest, m, names, rfl, h, hr, rfl⟩
      exact ⟨some t, hw, hn⟩
  · rintro ⟨t, rfl, rfl⟩
    cases t with
    | none => exact ⟨'V', [], _, [], rfl, rfl, readsAll_nil, rfl⟩
    | some t =>
      obtain ⟨c, rest, m, names, hw, h, hr, hn⟩ := takes_startType.mpr ⟨t, rfl, rfl⟩
      refine ⟨c, rest, m, names, hw, ?_, hr, hn⟩
      have hc : c ≠ 'V' := by
        rintro rfl
        contradiction
      simp [Frame.take, hc, h]

theorem takes_throws :
    Frame.throws.Reads w n ↔ Takes Frame.throws.take w n ∨ w = [] ∧ n = [] := by
  constructor
  · rintro ⟨ts, rfl, rfl⟩
    cases ts with
    | nil => exact .inr ⟨rfl, rfl⟩
    | cons t ts =>
      exact .inl ⟨'^', _, ⟨[.thrown, .throws], none⟩, _, rfl, rfl,
        readsAll_cons ⟨t, rfl, rfl⟩ (readsAll_singleton.mpr ⟨ts, rfl, rfl⟩), rfl⟩
  · rintro (⟨c, rest, m, names, rfl, h, hr, rfl⟩ | ⟨rfl, rfl⟩)
    · simp only [Frame.take] at h
      split at h
      · next hc =>
        cases h
        obtain ⟨_, _, _, _, rfl, rfl, ⟨t, rfl, rfl⟩, hr⟩ := hr
        obtain ⟨ts, rfl, rfl⟩ := readsAll_singleton.mp hr
        exact ⟨t :: ts, by simp [throwsChars, hc], by simp [Move.names]⟩
      · contradiction
    · exact ⟨[], rfl, rfl⟩

theorem takes_thrown : Takes Frame.thrown.take w n ↔ Frame.thrown.Reads w n := by
  constructor
  · rintro ⟨c, rest, m, names, rfl, h, hr, rfl⟩
    simp only [Frame.take] at h
    split at h
    · next hc =>
      cases h
      obtain ⟨c, rfl, rfl⟩ := readsAll_singleton.mp hr
      exact ⟨.object c, by simp [hc, Thrown.type, ReferenceType.chars], rfl⟩
    split at h
    · next hc =>
      cases h
      obtain ⟨name, rfl, rfl⟩ := readsAll_singleton.mp hr
      exact ⟨.typeVariable name, by simp [hc, Thrown.type, ReferenceType.chars], rfl⟩
    · contradiction
  · rintro ⟨t, rfl, rfl⟩
    cases t with
    | object c => exact ⟨'L', _, _, _, rfl, rfl, readsAll_singleton.mpr ⟨c, rfl, rfl⟩, rfl⟩
    | typeVariable name =>
      exact ⟨'T', _, _, _, rfl, rfl, readsAll_singleton.mpr ⟨name, rfl, rfl⟩, rfl⟩

end Declarations

end ClassUsage.Signature
