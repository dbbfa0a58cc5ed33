import ClassUsage.Proofs.Descriptor.Decoding
import ClassUsage.Proofs.Signature.Locality

/-!
Signatures read by recursive descent. Every part of a signature has a reader, which calls those of
the parts in it at the place it has got to; lists are read by readers that call themselves. The
scanner does what these calls do. They come to an end whatever the text is: each starts further on
than the one it is made from, or at the same place with a reader of a lower rank, so that the length
of the text bounds how deep they are nested.
-/
namespace ClassUsage.Signature

/-- What can be read at any place of a text. The last four go on with what others have started. -/
inductive Reader where
  | type
  | reference
  | classType
  | typeVariable
  | typeArguments
  | typeParameters
  /-- A field type as it is written in a descriptor. -/
  | fieldType
  /-- More type arguments, up to the bracket behind them. -/
  | arguments
  /-- What follows the class `path` and its type arguments. -/
  | members (path : List Char)
  /-- More bounds of a type parameter, and all parameters behind it. -/
  | bounds
  /-- What follows some of the brackets of a field type, which began at `start`. -/
  | element (start : List Char)
  deriving DecidableEq, Repr

/-- Read on behind a certain character. -/
def opened (c : Char) (fs : List Frame) : List Char → Outcome
  | [] => .error ⟨[], .unexpectedEnd⟩
  | d :: s => if d = c then scan fs ∅ s else .error ⟨d :: s, .expected c⟩

def readFieldType (s : List Char) : Outcome :=
  match FieldType.read s with
  | .ok (t, rest) => .ok (.ofList t.names, rest)
  | .error f => .error f

def readElement (s : List Char) : Outcome :=
  match Element.read s with
  | .ok (e, rest) => .ok (.ofList e.names, rest)
  | .error f => .error f

def readBehindBrackets (start s : List Char) : Outcome :=
  match s.dropWhile (· == '[') with
  | [] => .error ⟨start, .missingElementType⟩
  | c :: rest => readElement (c :: rest)

/-- What is read of a text from its start on. -/
def Reader.read : Reader → List Char → Outcome
  | .type => scan [.type] ∅
  | .reference => scan [.reference] ∅
  | .classType => scan [.classType] ∅
  | .typeVariable => opened 'T' [.variableName]
  | .typeArguments => opened '<' [.firstArgument]
  | .typeParameters => opened '<' [.firstParameter]
  | .fieldType => readFieldType
  | .arguments => scan [.arguments] ∅
  | .members path => scan [.classRest path] ∅
  | .bounds => scan [.bounds] ∅
  | .element start => readBehindBrackets start

section Calls

/-- The outcome of a call, if it comes to an end. -/
abbrev Answer := Option Outcome

def finish (rest : List Char) : Answer := some (.ok (∅, rest))

def refuse (rest : List Char) (reason : Reason) : Answer := some (.error ⟨rest, reason⟩)

/-- Make a call behind what another one has read. -/
def follow (first : Answer) (next : List Char → Answer) : Answer :=
  match first with
  | some (.ok (names, rest)) => (next rest).map (adding names)
  | some (.error f) => some (.error f)
  | none => none

def expect (c : Char) (next : List Char → Answer) : List Char → Answer
  | [] => refuse [] .unexpectedEnd
  | d :: s => if d = c then next s else refuse (d :: s) (.expected c)

/-- Read a name, and go on with it behind it. -/
def withName (slashes : Bool) (next : List Char → List Char → Answer) (s : List Char) : Answer :=
  if s.takeWhile (isNameChar slashes) = [] then refuse s .missingIdentifier
  else next (s.takeWhile (isNameChar slashes)) (s.dropWhile (isNameChar slashes))

variable (call : Reader → List Char → Answer)

def typeCalls : List Char → Answer
  | [] => refuse [] .unexpectedEnd
  | c :: s => if (Primitive.ofCode? c).isSome then finish s else call .reference (c :: s)

def referenceCalls : List Char → Answer
  | [] => refuse [] .unexpectedEnd
  | 'L' :: s => call .classType ('L' :: s)
  | 'T' :: s => call .typeVariable ('T' :: s)
  | '[' :: s => call .type s
  | c :: s => refuse (c :: s) (.expectedReference c)

/-- A class has been named: its type arguments, if any, come before its members. -/
def classCalls (path s : List Char) : Answer :=
  (if s.head? = some '<' then follow (call .typeArguments s) (call (.members path))
  else call (.members path) s).map (adding (.singleton (dotted path)))

def membersCalls (path : List Char) : List Char → Answer
  | '.' :: s => withName false (fun name => classCalls call (path ++ '$' :: name)) s
  | s => expect ';' finish s

def firstArgumentCalls : List Char → Answer
  | '>' :: s => refuse ('>' :: s) .emptyTypeArguments
  | s => call .arguments s

def argumentsCalls : List Char → Answer
  | [] => refuse [] .unexpectedEnd
  | '>' :: s => finish s
  | '*' :: s => call .arguments s
  | '+' :: s => follow (call .reference s) (call .arguments)
  | '-' :: s => follow (call .reference s) (call .arguments)
  | c :: s => follow (call .reference (c :: s)) (call .arguments)

/-- What follows the colon of a type parameter. -/
def classBoundCalls (s : List Char) : Answer :=
  if s.head? = some 'L' ∨ s.head? = some 'T' ∨ s.head? = some '[' then
    follow (call .reference s) (call .bounds)
  else call .bounds s

def parameterCalls : List Char → Answer :=
  withName false fun _ => expect ':' (classBoundCalls call)

def firstParameterCalls : List Char → Answer
  | [] => refuse [] .unexpectedEnd
  | '>' :: s => refuse ('>' :: s) .emptyTypeParameters
  | c :: s => parameterCalls call (c :: s)

def boundsCalls : List Char → Answer
  | [] => refuse [] .unexpectedEnd
  | ':' :: s => follow (call .reference s) (call .bounds)
  | '>' :: s => finish s
  | c :: s => parameterCalls call (c :: s)

def elementCalls (start : List Char) : List Char → Answer
  | [] => refuse start .missingElementType
  | '[' :: s => call (.element start) s
  | c :: s => some (readElement (c :: s))

/-- What a reader does, with the answers to the calls it makes. -/
def Reader.body : Reader → List Char → Answer
  | .type => typeCalls call
  | .reference => referenceCalls call
  | .classType => expect 'L' (withName true (classCalls call))
  | .typeVariable => expect 'T' (withName false fun _ => expect ';' finish)
  | .typeArguments => expect '<' (firstArgumentCalls call)
  | .typeParameters => expect '<' (firstParameterCalls call)
  | .fieldType => fun s => call (.element s) s
  | .arguments => argumentsCalls call
  | .members path => membersCalls call path
  | .bounds => boundsCalls call
  | .element start => elementCalls call start

end Calls

/-- The answer of a reader, or nothing if calls would have to be nested deeper than this. -/
def Reader.descend : Nat → Reader → List Char → Answer
  | 0 => fun _ _ => none
  | depth + 1 => Reader.body (descend depth)

section Consumption

theorem selfDelimiting_opened {c : Char} {f : Frame} (hf : f.delimited = true) :
    SelfDelimiting (opened c [f]) := by
  intro s names rest h
  cases s with
  | nil => contradiction
  | cons d s =>
    by_cases hd : d = c
    · subst hd
      simp only [opened, if_true] at h
      obtain ⟨part, -, hs, hall⟩ := selfDelimiting_scan hf s names rest h
      refine ⟨d :: part, by simp, by simp [hs], ?_⟩
      intro more
      simpa [opened] using hall more
    · simp [opened, hd] at h

theorem selfDelimiting_readFieldType : SelfDelimiting readFieldType := by
  intro s names rest h
  unfold readFieldType at h
  split at h
  · next t behind ht =>
    cases h
    refine ⟨t.chars, ?_, FieldType.chars_of_read ht, ?_⟩
    · obtain ⟨c, more, hc, -⟩ := t.chars_eq_cons
      simp [hc]
    · intro more
      simp [readFieldType, t.read_chars more]
  · contradiction

/-- A field type is what stands behind its brackets. -/
theorem readFieldType_eq (s : List Char) : readFieldType s = readBehindBrackets s s := by
  simp only [readFieldType, FieldType.read, readBehindBrackets, readElement]
  cases s.dropWhile (· == '[') with
  | nil => rfl
  | cons c rest =>
    dsimp only
    cases Element.read (c :: rest) with
    | ok p => rfl
    | error f => rfl

/-- Where a field type began only matters if it is refused. -/
theorem readBehindBrackets_eq_ok {start s rest : List Char} {names : NameSet} :
    readBehindBrackets start s = .ok (names, rest) ↔ readFieldType s = .ok (names, rest) := by
  rw [readFieldType_eq]
  unfold readBehindBrackets
  split <;> simp

theorem selfDelimiting_readBehindBrackets (start : List Char) :
    SelfDelimiting (readBehindBrackets start) := by
  intro s names rest h
  obtain ⟨part, hpart, hs, hall⟩ :=
    selfDelimiting_readFieldType s names rest (readBehindBrackets_eq_ok.mp h)
  exact ⟨part, hpart, hs, fun more => readBehindBrackets_eq_ok.mpr (hall more)⟩

theorem Reader.selfDelimiting (r : Reader) : SelfDelimiting r.read := by
  cases r with
  | type | reference | classType | arguments | members path | bounds =>
    exact selfDelimiting_scan rfl
  | typeVariable | typeArguments | typeParameters => exact selfDelimiting_opened rfl
  | fieldType => exact selfDelimiting_readFieldType
  | element start => exact selfDelimiting_readBehindBrackets start

end Consumption

section Scanning

variable {f g : Frame} {c : Char} {fs : List Frame} {s : List Char}

theorem scan_congr (h : f.take c = g.take c) (s : List Char) :
    scan [f] ∅ (c :: s) = scan [g] ∅ (c :: s) := by
  rw [scan, scan, h]

/-- A frame that does with a character what another does, and then expects more. -/
theorem scan_followedBy (h : f.take c = followedBy (g.take c) fs) (s : List Char) :
    scan [f] ∅ (c :: s) = scan (g :: fs) ∅ (c :: s) := by
  simp only [scan, h]
  cases g.take c with
  | ok m => simp [followedBy]
  | error r => rfl

/-- A frame that can take one character only reads on behind it. -/
theorem scan_eq_opened (hend : f.atEnd = some .unexpectedEnd) (htake : f.take c = goOn fs)
    (hother : ∀ d rest, s = d :: rest → d ≠ c → f.take d = .error (.expected c)) :
    scan [f] ∅ s = opened c fs s := by
  cases s with
  | nil => simp [scan, opened, hend]
  | cons d s =>
    by_cases hd : d = c
    · subst hd
      simp [scan, opened, htake, goOn, addFound]
    · simp [scan, opened, hd, hother d s rfl hd]

/-- A name is read up to the first character that cannot be in it. -/
theorem scan_name {slashes : Bool} {more : List Char → Frame}
    (hmore : ∀ read c, isNameChar slashes c = true →
      (more read).take c = goOn [more (read ++ [c])]) (read s : List Char) :
    scan [more read] ∅ s =
      scan [more (read ++ s.takeWhile (isNameChar slashes))] ∅
        (s.dropWhile (isNameChar slashes)) := by
  induction s generalizing read with
  | nil => simp
  | cons c s ih =>
    by_cases hc : isNameChar slashes c = true
    · simp only [List.takeWhile_cons_of_pos hc, List.dropWhile_cons_of_pos hc]
      rw [scan, hmore read c hc]
      simpa [goOn, addFound] using ih (read ++ [c])
    · simp [hc]

/-- What may follow a class does not depend on whether it has just been named. -/
theorem afterClass_cases (path : List Char) (c : Char) :
    (∃ fs, ∀ found, afterClass path found c = .ok ⟨fs, found⟩) ∨
      ∃ r, ∀ found, afterClass path found c = .error r := by
  by_cases hdot : c = '.'
  · subst hdot
    exact .inl ⟨[.innerName path], fun _ => rfl⟩
  by_cases hend : c = ';'
  · subst hend
    exact .inl ⟨[], fun _ => rfl⟩
  · exact .inr ⟨.expected ';', fun _ => by simp [afterClass]⟩

theorem isNameChar_false (c : Char) : isNameChar false c = !isStop c := by
  simp [isNameChar]

theorem take_className {slashes : Bool} (read : List Char) (hc : isNameChar slashes c = true) :
    (Frame.className slashes read).take c = goOn [.className slashes (read ++ [c])] := if_pos hc

end Scanning

section Answers

variable {s : List Char}

theorem finish_eq (s : List Char) : finish s = some (scan [] ∅ s) := by
  simp [finish, scan]

theorem expect_eq {c : Char} {next : List Char → Answer} {fs : List Frame}
    (h : ∀ rest, s = c :: rest → next rest = some (scan fs ∅ rest)) :
    expect c next s = some (opened c fs s) := by
  cases s with
  | nil => rfl
  | cons d s =>
    by_cases hd : d = c
    · subst hd
      simp [expect, opened, h s rfl]
    · simp [expect, opened, hd, refuse]

theorem follow_some {first : Outcome} {next : List Char → Answer} {next' : List Char → Outcome}
    (h : ∀ names rest, first = .ok (names, rest) → next rest = some (next' rest)) :
    follow (some first) next = some (andThen first next') := by
  cases first with
  | ok p => simp [follow, andThen, h p.1 p.2 rfl]
  | error f => rfl

theorem follow_scan {answer : Answer} {next : List Char → Answer} {f : Frame} {fs : List Frame}
    (hf : f.delimited = true) (hanswer : answer = some (scan [f] ∅ s))
    (hnext : ∀ rest, rest.length < s.length → next rest = some (scan fs ∅ rest)) :
    follow answer next = some (scan (f :: fs) ∅ s) := by
  have hseq : scan ([f] ++ fs) ∅ s = andThen (scan [f] ∅ s) (scan fs ∅) :=
    scan_append (by simpa using hf) ∅ s
  rw [← List.singleton_append, hseq, hanswer]
  apply follow_some
  intro names rest h
  exact hnext rest ((selfDelimiting_scan hf).length_lt h)

/-- Names are read alike, whichever frames stand for the rest of one. -/
theorem withName_eq {slashes : Bool} (more : List Char → Frame)
    {next : List Char → List Char → Answer} {f : Frame}
    (hend : s = [] → f.atEnd = some .missingIdentifier)
    (hstart : ∀ c rest, s = c :: rest → f.take c =
      if isNameChar slashes c = true then goOn [more [c]] else .error .missingIdentifier)
    (hmore : ∀ read c, isNameChar slashes c = true →
      (more read).take c = goOn [more (read ++ [c])])
    (hnext : ∀ name rest, rest.length < s.length →
      (∀ c ∈ rest.head?, isNameChar slashes c = false) →
        next name rest = some (scan [more name] ∅ rest)) :
    withName slashes next s = some (scan [f] ∅ s) := by
  cases s with
  | nil => simp [withName, refuse, scan, hend rfl]
  | cons c s =>
    by_cases hc : isNameChar slashes c = true
    · have hshorter : (s.dropWhile (isNameChar slashes)).length < (c :: s).length :=
        Nat.lt_succ_of_le (List.dropWhile_suffix (isNameChar slashes)).length_le
      have hhead : ∀ d ∈ (s.dropWhile (isNameChar slashes)).head?,
          isNameChar slashes d = false := by
        intro d hd
        have := List.head?_dropWhile_not (isNameChar slashes) s
        rw [Option.mem_def.mp hd] at this
        simpa using this
      have hname := scan_name hmore [c] s
      simp only [withName, List.takeWhile_cons_of_pos hc, List.dropWhile_cons_of_pos hc]
      rw [if_neg (by simp), hnext _ _ hshorter hhead, scan, hstart c s rfl, if_pos hc]
      simpa [goOn, addFound] using hname.symm
    · simp [withName, hc, refuse, scan, hstart c s rfl]

end Answers

section Readers

variable {call : Reader → List Char → Answer} {s : List Char} {n : Nat}

/-- Calls at texts shorter than this are answered as the scanner does. -/
def Answers (call : Reader → List Char → Answer) (n : Nat) : Prop :=
  ∀ (r : Reader) (s : List Char), s.length < n → call r s = some (r.read s)

theorem Answers.mono {m : Nat} (h : Answers call n) (hm : m ≤ n) : Answers call m := by
  intro r s hs
  exact h r s (by omega)

/-- A reference type, and what a list goes on with behind it. -/
theorem follow_reference {next : Reader} {f : Frame} (hnext : next.read = scan [f] ∅)
    (hcall : Answers call s.length)
    (hsame : call .reference s = some (scan [.reference] ∅ s)) :
    follow (call .reference s) (call next) = some (scan [.reference, f] ∅ s) := by
  apply follow_scan rfl hsame
  intro rest hrest
  rw [hcall next rest hrest, hnext]

theorem typeCalls_eq (hsame : call .reference s = some (scan [.reference] ∅ s)) :
    typeCalls call s = some (scan [.type] ∅ s) := by
  cases s with
  | nil => rfl
  | cons c s =>
    rw [typeCalls]
    cases hp : Primitive.ofCode? c with
    | some p => simp [scan, Frame.take, startType, hp, finish, goOn, addFound]
    | none =>
      have htake : Frame.type.take c = Frame.reference.take c := by
        simp [Frame.take, startType, hp]
      rw [scan_congr htake]
      exact hsame

theorem referenceCalls_eq (hcall : Answers call s.length)
    (hclass : call .classType s = some (Reader.classType.read s))
    (hvariable : call .typeVariable s = some (Reader.typeVariable.read s)) :
    referenceCalls call s = some (scan [.reference] ∅ s) := by
  unfold referenceCalls
  split
  · rfl
  · exact hclass
  · exact hvariable
  · exact hcall .type _ (by simp)
  · simp [refuse, scan, Frame.take, startReference]

theorem classCalls_eq {slashes : Bool} (hcall : Answers call n) (hs : s.length < n)
    (path : List Char) (hhead : ∀ c ∈ s.head?, isNameChar slashes c = false) :
    classCalls call path s = some (scan [.className slashes path] ∅ s) := by
  have hmembers := hcall (.members path)
  cases s with
  | nil =>
    simp only [classCalls, List.head?_nil, reduceCtorEq, if_false, hmembers [] hs]
    rfl
  | cons c s =>
    have hc : isNameChar slashes c = false := hhead c rfl
    have hstep : inClassName slashes path c =
        if c = '<' then .ok ⟨[.firstArgument, .classRest path], some path⟩
        else afterClass path (some path) c :=
      if_neg (by simpa [isNameChar] using hc)
    simp only [classCalls, List.head?_cons, Option.some.injEq, scan, Frame.take, hstep]
    by_cases hopen : c = '<'
    · subst hopen
      have harguments : call .typeArguments ('<' :: s) = some (scan [.firstArgument] ∅ s) :=
        hcall .typeArguments _ hs
      have hrest : ∀ rest, rest.length < s.length →
          call (.members path) rest = some (scan [.classRest path] ∅ rest) := by
        intro rest hrest
        simp only [List.length_cons] at hs
        exact hmembers rest (by omega)
      rw [if_pos rfl, follow_scan rfl harguments hrest, if_pos rfl]
      exact congrArg some (scan_known _ _ s).symm
    · rw [if_neg hopen, if_neg hopen, hmembers _ hs]
      simp only [Reader.read, scan, Frame.take, Option.map_some, Option.some.injEq]
      rcases afterClass_cases path c with ⟨fs, hafter⟩ | ⟨r, hafter⟩
      · simp only [hafter]
        exact (scan_known _ _ s).symm
      · simp only [hafter]
        rfl

theorem classType_body (hcall : Answers call s.length) :
    expect 'L' (withName true (classCalls call)) s = some (scan [.classType] ∅ s) := by
  have hopened : scan [.classType] ∅ s = opened 'L' [.outerName] s := by
    apply scan_eq_opened rfl rfl
    intro d rest _ hd
    simp [Frame.take, startClass]
  rw [hopened]
  apply expect_eq
  rintro rest rfl
  refine withName_eq (Frame.className true) ?_ ?_ ?_ ?_
  · intro _
    rfl
  · intro c _ _
    simp [Frame.take, isPathChar, isNameChar]
  · intro read c hc
    exact take_className read hc
  · intro name behind hbehind hhead
    exact classCalls_eq hcall (Nat.lt_succ_of_lt hbehind) name hhead

theorem membersCalls_eq (hcall : Answers call s.length) (path : List Char) :
    membersCalls call path s = some (scan [.classRest path] ∅ s) := by
  unfold membersCalls
  split
  · next s =>
    have hname : withName false (fun name => classCalls call (path ++ '$' :: name)) s =
        some (scan [.innerName path] ∅ s) := by
      refine withName_eq (fun name => .className false (path ++ '$' :: name)) ?_ ?_ ?_ ?_
      · intro _
        rfl
      · intro c _ _
        cases hc : isStop c <;> simp [Frame.take, isNameChar_false, hc]
      · intro read c hc
        simpa using take_className (path ++ '$' :: read) hc
      · intro name rest hrest hhead
        exact classCalls_eq hcall (Nat.lt_succ_of_lt hrest) _ hhead
    rw [hname]
    rfl
  · next hdot =>
    have hsemicolon : scan [.classRest path] ∅ s = opened ';' [] s := by
      apply scan_eq_opened rfl rfl
      rintro d rest rfl hd
      have hne : d ≠ '.' := by
        rintro rfl
        exact hdot rest rfl
      simp [Frame.take, afterClass]
    rw [hsemicolon]
    exact expect_eq fun s _ => finish_eq s

theorem typeVariable_body :
    expect 'T' (withName false fun _ => expect ';' finish) s =
      some (opened 'T' [.variableName] s) := by
  apply expect_eq
  rintro rest rfl
  refine withName_eq (fun _ => .variableRest) ?_ ?_ ?_ ?_
  · intro _
    rfl
  · intro c _ _
    cases hc : isStop c <;> simp [Frame.take, isNameChar_false, hc]
  · intro _ c hc
    exact if_pos (by simpa [isNameChar_false] using hc)
  · intro _ behind _ hhead
    have hsemicolon : scan [.variableRest] ∅ behind = opened ';' [] behind := by
      apply scan_eq_opened rfl rfl
      rintro d more rfl hd
      have hstop : isStop d = true := by simpa [isNameChar_false] using hhead d rfl
      simp [Frame.take, hstop, hd]
    rw [hsemicolon]
    exact expect_eq fun s _ => finish_eq s

theorem typeArguments_body (hcall : Answers call s.length) :
    expect '<' (firstArgumentCalls call) s = some (opened '<' [.firstArgument] s) := by
  apply expect_eq
  rintro rest rfl
  unfold firstArgumentCalls
  split
  · rfl
  · next hclose =>
    rw [hcall .arguments rest (by simp)]
    cases rest with
    | nil => rfl
    | cons c rest =>
      have hc : c ≠ '>' := by
        rintro rfl
        exact hclose rest rfl
      have htake : Frame.firstArgument.take c = Frame.arguments.take c := if_neg hc
      rw [scan_congr htake]
      rfl

theorem argumentsCalls_eq (hcall : Answers call s.length)
    (hsame : call .reference s = some (scan [.reference] ∅ s)) :
    argumentsCalls call s = some (scan [.arguments] ∅ s) := by
  unfold argumentsCalls
  split
  · rfl
  · exact finish_eq _
  · exact hcall .arguments _ (by simp)
  · next s => exact follow_reference rfl (hcall.mono (by simp)) (hcall .reference s (by simp))
  · next s => exact follow_reference rfl (hcall.mono (by simp)) (hcall .reference s (by simp))
  · next c s _ _ _ _ =>
    have htake : Frame.arguments.take c = followedBy (Frame.reference.take c) [.arguments] := by
      simp [Frame.take, inArguments]
    rw [scan_followedBy htake]
    exact follow_reference rfl hcall hsame

theorem classBoundCalls_eq (hcall : Answers call n) (hs : s.length < n) :
    classBoundCalls call s = some (scan [.classBound] ∅ s) := by
  unfold classBoundCalls
  cases s with
  | nil =>
    simp only [List.head?_nil, reduceCtorEq, or_self, if_false]
    exact hcall .bounds [] hs
  | cons c s =>
    simp only [List.head?_cons, Option.some.injEq]
    split
    · next hc =>
      have htake : Frame.classBound.take c = followedBy (Frame.reference.take c) [.bounds] :=
        if_pos (by simpa [or_assoc] using hc)
      rw [scan_followedBy htake]
      exact follow_reference rfl (hcall.mono (Nat.le_of_lt hs)) (hcall .reference _ hs)
    · next hc =>
      have htake : Frame.classBound.take c = Frame.bounds.take c :=
        if_neg (by simpa [or_assoc] using hc)
      rw [scan_congr htake]
      exact hcall .bounds _ hs

theorem parameterCalls_eq {f : Frame} {c : Char} (htake : f.take c = startParameter c)
    (hcall : Answers call (c :: s).length) :
    parameterCalls call (c :: s) = some (scan [f] ∅ (c :: s)) := by
  refine withName_eq (fun _ => .parameterRest) nofun ?_ ?_ ?_
  · intro d rest hd
    obtain ⟨rfl, -⟩ := List.cons.inj hd
    cases hc : isStop c <;> simp [htake, startParameter, isNameChar_false, hc]
  · intro _ d hd
    exact if_pos (by simpa [isNameChar_false] using hd)
  · intro _ behind hbehind hhead
    have hcolon : scan [.parameterRest] ∅ behind = opened ':' [.classBound] behind := by
      apply scan_eq_opened rfl rfl
      rintro d more rfl hd
      have hstop : isStop d = true := by simpa [isNameChar_false] using hhead d rfl
      simp [Frame.take, hstop, hd]
    rw [hcolon]
    apply expect_eq
    rintro rest rfl
    exact classBoundCalls_eq hcall (Nat.lt_of_succ_lt hbehind)

theorem typeParameters_body (hcall : Answers call s.length) :
    expect '<' (firstParameterCalls call) s = some (opened '<' [.firstParameter] s) := by
  apply expect_eq
  rintro rest rfl
  unfold firstParameterCalls
  split
  · rfl
  · rfl
  · next c rest hclose =>
    have htake : Frame.firstParameter.take c = startParameter c := if_neg hclose
    exact parameterCalls_eq htake (hcall.mono (by simp))

theorem boundsCalls_eq (hcall : Answers call s.length) :
    boundsCalls call s = some (scan [.bounds] ∅ s) := by
  unfold boundsCalls
  split
  · rfl
  · next s => exact follow_reference rfl (hcall.mono (by simp)) (hcall .reference s (by simp))
  · exact finish_eq _
  · next c s _ _ =>
    have htake : Frame.bounds.take c = startParameter c := by
      simp [Frame.take, inBounds]
    exact parameterCalls_eq htake hcall

theorem elementCalls_eq (hcall : Answers call s.length) (start : List Char) :
    elementCalls call start s = some (readBehindBrackets start s) := by
  unfold elementCalls
  split
  · rfl
  · next s => exact hcall (.element start) s (by simp)
  · next c s hbracket =>
    have hdrop : (c :: s).dropWhile (· == '[') = c :: s :=
      List.dropWhile_cons_of_neg (by simpa using hbracket)
    rw [readBehindBrackets, hdrop]

/-- How many calls can be made from this reader before something is read. -/
def Reader.rank : Reader → Nat
  | .type => 2
  | .arguments => 2
  | .reference => 1
  | .fieldType => 1
  | _ => 0

theorem Reader.rank_le (r : Reader) : r.rank ≤ 2 := by
  cases r <;> simp [rank]

/-- A reader does what the scanner does if its calls do: those that start further on in the text, and
those to readers of a lower rank. -/
theorem Reader.body_eq {r : Reader} (hcall : Answers call s.length)
    (hsame : ∀ q : Reader, q.rank < r.rank → call q s = some (q.read s)) :
    r.body call s = some (r.read s) := by
  cases r with
  | type => exact typeCalls_eq (hsame .reference (by decide))
  | reference =>
    exact referenceCalls_eq hcall (hsame .classType (by decide)) (hsame .typeVariable (by decide))
  | classType => exact classType_body hcall
  | typeVariable => exact typeVariable_body
  | typeArguments => exact typeArguments_body hcall
  | typeParameters => exact typeParameters_body hcall
  | fieldType =>
    have helement := hsame (.element s) Nat.zero_lt_one
    rw [Reader.read, ← readFieldType_eq] at helement
    exact helement
  | arguments => exact argumentsCalls_eq hcall (hsame .reference (by decide))
  | members path => exact membersCalls_eq hcall path
  | bounds => exact boundsCalls_eq hcall
  | element start => exact elementCalls_eq hcall start

/-- Every call comes to an end, with the outcome that the scanner has. -/
theorem Reader.descend_eq {r : Reader} {depth : Nat} (h : 3 * s.length + r.rank < depth) :
    r.descend depth s = some (r.read s) := by
  induction depth generalizing r s with
  | zero => omega
  | succ depth ih =>
    apply Reader.body_eq
    · intro q rest hrest
      -- a character less to read makes up for any rank
      have hq := q.rank_le
      exact ih (by omega)
    · intro q hq
      exact ih (by omega)

end Readers

end ClassUsage.Signature
