import ClassUsage.Signature.Scanner

/-!
What each frame of the scanner stands for: texts of the grammar, with the class names in them in the
order in which they are completed. A stack stands for one such text after the other.
-/
namespace ClassUsage.Signature

/-- A class named inside another one, with its type arguments. -/
structure Member where
  name : Identifier
  arguments : List TypeArgument

def membersChars : List Member → List Char
  | [] => []
  | m :: rest =>
    '.' :: (m.name.chars ++ (bracketed (argumentsChars m.arguments) ++ membersChars rest))

/-- The names of classes that are nested one in the other, the first in the class `path`. -/
def membersNames (path : List Char) : List Member → List String
  | [] => []
  | m :: rest =>
    dotted (path ++ '$' :: m.name.chars) ::
      (argumentsNames m.arguments ++ membersNames (path ++ '$' :: m.name.chars) rest)

/-- The class reached from `c` by going from class to member. -/
def ClassType.nest (c : ClassType) : List Member → ClassType
  | [] => c
  | m :: rest => (ClassType.member c m.name m.arguments).nest rest

namespace ClassType

theorem nest_append (c : ClassType) (ms ns : List Member) :
    c.nest (ms ++ ns) = (c.nest ms).nest ns := by
  induction ms generalizing c with
  | nil => rfl
  | cons m ms ih => exact ih _

theorem inside_nest (c : ClassType) (ms : List Member) :
    (c.nest ms).inside = c.inside ++ membersChars ms := by
  induction ms generalizing c with
  | nil => simp [nest, membersChars]
  | cons m ms ih => simp [nest, ih, inside, membersChars]

theorem names_nest (c : ClassType) (ms : List Member) :
    (c.nest ms).names = c.names ++ membersNames c.path ms := by
  induction ms generalizing c with
  | nil => simp [nest, membersNames]
  | cons m ms ih => simp [nest, ih, names, path, membersNames]

theorem exists_nest : ∀ c : ClassType, ∃ name arguments ms, c = (outer name arguments).nest ms
  | .outer name arguments => ⟨name, arguments, [], rfl⟩
  | .member enclosing name arguments => by
    obtain ⟨o, as, ms, h⟩ := exists_nest enclosing
    refine ⟨o, as, ms ++ [⟨name, arguments⟩], ?_⟩
    rw [nest_append, ← h]
    rfl

end ClassType

/-- What follows the name of a class in its type. -/
def classTail (arguments : List TypeArgument) (ms : List Member) : List Char :=
  bracketed (argumentsChars arguments) ++ (membersChars ms ++ [';'])

/-- A class goes by its whole path, and so do its members. -/
def classNames (path : List Char) (arguments : List TypeArgument) (ms : List Member) :
    List String :=
  dotted path :: (argumentsNames arguments ++ membersNames path ms)

/-- What a class name can hold after its first character. -/
def isNameChar (slashes : Bool) (c : Char) : Bool := !isStop c || (slashes && c = '/')

/-- What follows the colon of a type parameter. -/
def boundsChars (bound : Option ReferenceType) (rs : List ReferenceType) : List Char :=
  bound.elim [] ReferenceType.chars ++ rs.flatMap fun r => ':' :: r.chars

def boundsNames (bound : Option ReferenceType) (rs : List ReferenceType) : List String :=
  bound.elim [] ReferenceType.names ++ rs.flatMap ReferenceType.names

/-- After a parameter with these bounds, the first of `ps` is not taken for one more bound. -/
def Distinct (bound : Option ReferenceType) (rs : List ReferenceType) (ps : List TypeParameter) :
    Prop :=
  bound = none → rs = [] → ∀ q ∈ ps.head?, q.looksLikeBound = false

/-- Type parameters up to the bracket behind the last one. -/
def parametersTail (ps : List TypeParameter) : List Char :=
  ps.flatMap TypeParameter.chars ++ ['>']

def throwsChars (ts : List Thrown) : List Char := ts.flatMap fun t => '^' :: t.type.chars

/-- A method signature from its parameters on. -/
def openedChars (ps : List SignatureType) (result : Option SignatureType) (ts : List Thrown) :
    List Char :=
  '(' :: (ps.flatMap SignatureType.chars ++
    ')' :: (result.elim ['V'] SignatureType.chars ++ throwsChars ts))

def openedNames (ps : List SignatureType) (result : Option SignatureType) (ts : List Thrown) :
    List String :=
  ps.flatMap SignatureType.names ++ result.elim [] SignatureType.names ++
    ts.flatMap fun t => t.type.names

/-- The texts a frame stands for, and the names in them. -/
def Frame.Reads : Frame → List Char → List String → Prop
  | .type, w, n => ∃ t : SignatureType, w = t.chars ∧ n = t.names
  | .reference, w, n => ∃ r : ReferenceType, w = r.chars ∧ n = r.names
  | .classType, w, n => ∃ c : ClassType, w = c.chars ∧ n = c.names
  | .outerName, w, n => ∃ c : ClassType, w = c.inside ++ [';'] ∧ n = c.names
  | .innerName path, w, n =>
    ∃ (name : Identifier) (as : List TypeArgument) (ms : List Member),
      w = name.chars ++ classTail as ms ∧ n = classNames (path ++ '$' :: name.chars) as ms
  | .className slashes read, w, n =>
    ∃ more as ms, (∀ c ∈ more, isNameChar slashes c = true) ∧ w = more ++ classTail as ms ∧
      n = classNames (read ++ more) as ms
  | .classRest path, w, n => ∃ ms, w = membersChars ms ++ [';'] ∧ n = membersNames path ms
  | .firstArgument, w, n =>
    ∃ as, as ≠ [] ∧ w = argumentsChars as ++ ['>'] ∧ n = argumentsNames as
  | .arguments, w, n => ∃ as, w = argumentsChars as ++ ['>'] ∧ n = argumentsNames as
  | .variableName, w, n => ∃ name : Identifier, w = name.chars ++ [';'] ∧ n = []
  | .variableRest, w, n =>
    ∃ more : List Char, (∀ c ∈ more, isStop c = false) ∧ w = more ++ [';'] ∧ n = []
  | .firstParameter, w, n =>
    ∃ ps, ps ≠ [] ∧ TypeParameter.separate ps = true ∧ w = parametersTail ps ∧
      n = ps.flatMap TypeParameter.names
  | .parameterRest, w, n =>
    ∃ (more : List Char) (bound : Option ReferenceType) (rs : List ReferenceType)
      (ps : List TypeParameter),
      (∀ c ∈ more, isStop c = false) ∧ Distinct bound rs ps ∧ TypeParameter.separate ps = true ∧
        w = more ++ ':' :: (boundsChars bound rs ++ parametersTail ps) ∧
        n = boundsNames bound rs ++ ps.flatMap TypeParameter.names
  | .classBound, w, n =>
    ∃ (bound : Option ReferenceType) (rs : List ReferenceType) (ps : List TypeParameter),
      Distinct bound rs ps ∧ TypeParameter.separate ps = true ∧
        w = boundsChars bound rs ++ parametersTail ps ∧
        n = boundsNames bound rs ++ ps.flatMap TypeParameter.names
  | .bounds, w, n =>
    ∃ (rs : List ReferenceType) (ps : List TypeParameter), TypeParameter.separate ps = true ∧
      w = rs.flatMap (fun r => ':' :: r.chars) ++ parametersTail ps ∧
      n = rs.flatMap ReferenceType.names ++ ps.flatMap TypeParameter.names
  | .classSignature, w, n =>
    ∃ s : ClassSignature, TypeParameter.separate s.typeParameters = true ∧ w = s.chars ∧
      n = s.names
  | .superTypes, w, n =>
    ∃ cs : List ClassType, w = cs.flatMap ClassType.chars ∧ n = cs.flatMap ClassType.names
  | .methodSignature, w, n =>
    ∃ m : MethodSignature, TypeParameter.separate m.typeParameters = true ∧ w = m.chars ∧
      n = m.names
  | .parameterList, w, n => ∃ ps r ts, w = openedChars ps r ts ∧ n = openedNames ps r ts
  | .parameters, w, n =>
    ∃ ps : List SignatureType,
      w = ps.flatMap SignatureType.chars ++ [')'] ∧ n = ps.flatMap SignatureType.names
  | .result, w, n =>
    ∃ r : Option SignatureType,
      w = r.elim ['V'] SignatureType.chars ∧ n = r.elim [] SignatureType.names
  | .throws, w, n =>
    ∃ ts : List Thrown, w = throwsChars ts ∧ n = ts.flatMap fun t => t.type.names
  | .thrown, w, n => ∃ t : Thrown, w = t.type.chars ∧ n = t.type.names

/-- The texts a stack stands for: one for each frame, the innermost first. -/
def ReadsAll : List Frame → List Char → List String → Prop
  | [], w, n => w = [] ∧ n = []
  | f :: fs, w, n =>
    ∃ w₁ w₂ n₁ n₂, w = w₁ ++ w₂ ∧ n = n₁ ++ n₂ ∧ f.Reads w₁ n₁ ∧ ReadsAll fs w₂ n₂

/-- The name that a move completes. -/
def Move.names (m : Move) : List String := (m.found.map dotted).toList

/-- A first character is taken, and what that leaves stands for the rest of the text. -/
def Takes (take : Char → Step) (w : List Char) (n : List String) : Prop :=
  ∃ c rest m names, w = c :: rest ∧ take c = .ok m ∧ ReadsAll m.frames rest names ∧
    n = m.names ++ names

theorem readsAll_nil : ReadsAll [] [] [] := ⟨rfl, rfl⟩

theorem readsAll_cons {f : Frame} {fs : List Frame} {w₁ w₂ : List Char} {n₁ n₂ : List String}
    (hf : f.Reads w₁ n₁) (hfs : ReadsAll fs w₂ n₂) : ReadsAll (f :: fs) (w₁ ++ w₂) (n₁ ++ n₂) :=
  ⟨w₁, w₂, n₁, n₂, rfl, rfl, hf, hfs⟩

@[simp] theorem readsAll_singleton {f : Frame} {w : List Char} {n : List String} :
    ReadsAll [f] w n ↔ f.Reads w n := by
  constructor
  · rintro ⟨w, _, n, _, rfl, rfl, hf, rfl, rfl⟩
    simpa using hf
  · intro hf
    simpa using readsAll_cons hf readsAll_nil

theorem readsAll_append {fs gs : List Frame} {w : List Char} {n : List String} :
    ReadsAll (fs ++ gs) w n ↔
      ∃ w₁ w₂ n₁ n₂, w = w₁ ++ w₂ ∧ n = n₁ ++ n₂ ∧ ReadsAll fs w₁ n₁ ∧ ReadsAll gs w₂ n₂ := by
  induction fs generalizing w n with
  | nil =>
    constructor
    · intro h
      exact ⟨[], w, [], n, rfl, rfl, readsAll_nil, h⟩
    · rintro ⟨_, w, _, n, rfl, rfl, ⟨rfl, rfl⟩, h⟩
      exact h
  | cons f fs ih =>
    constructor
    · rintro ⟨w₁, w', n₁, n', rfl, rfl, hf, h⟩
      obtain ⟨w₂, w₃, n₂, n₃, rfl, rfl, hfs, hgs⟩ := ih.mp h
      exact ⟨w₁ ++ w₂, w₃, n₁ ++ n₂, n₃, by simp, by simp, readsAll_cons hf hfs, hgs⟩
    · rintro ⟨w', w₃, n', n₃, rfl, rfl, ⟨w₁, w₂, n₁, n₂, rfl, rfl, hf, hfs⟩, hgs⟩
      exact ⟨w₁, w₂ ++ w₃, n₁, n₂ ++ n₃, by simp, by simp, hf,
        ih.mpr ⟨w₂, w₃, n₂, n₃, rfl, rfl, hfs, hgs⟩⟩

theorem ReferenceType.chars_ne_nil (r : ReferenceType) : r.chars ≠ [] := by
  cases r <;> simp [chars]

theorem argumentsChars_ne_nil {as : List TypeArgument} (h : as ≠ []) : argumentsChars as ≠ [] := by
  cases as with
  | nil => contradiction
  | cons a as => cases a <;> simp [argumentsChars, TypeArgument.chars, ReferenceType.chars_ne_nil]

theorem bracketed_arguments {as : List TypeArgument} (h : as ≠ []) :
    bracketed (argumentsChars as) = '<' :: (argumentsChars as ++ ['>']) := by
  simp [bracketed, argumentsChars_ne_nil h]

theorem separate_cons {p : TypeParameter} {ps : List TypeParameter} :
    TypeParameter.separate (p :: ps) = true ↔
      Distinct p.classBound p.interfaceBounds ps ∧ TypeParameter.separate ps = true := by
  cases ps with
  | nil => simp [TypeParameter.separate, Distinct]
  | cons q ps =>
    simp only [TypeParameter.separate, TypeParameter.unbounded, Bool.and_eq_true,
      Bool.not_eq_true', Bool.and_eq_false_iff, and_congr_left_iff, Distinct, List.head?_cons,
      Option.mem_some_iff, forall_eq']
    intro _
    cases p.classBound <;> cases p.interfaceBounds <;> simp

theorem parametersTail_cons (p : TypeParameter) (ps : List TypeParameter) :
    parametersTail (p :: ps) =
      p.name.chars ++ ':' :: (boundsChars p.classBound p.interfaceBounds ++ parametersTail ps) := by
  simp [parametersTail, TypeParameter.chars, boundsChars]

theorem head?_parametersTail (p : TypeParameter) (ps : List TypeParameter) :
    (parametersTail (p :: ps)).head? = p.name.chars.head? := by
  rw [parametersTail_cons, List.head?_append, List.head?_eq_some_head p.name.ne_nil]
  rfl

theorem typeParametersChars_of_ne_nil {ps : List TypeParameter} (h : ps ≠ []) :
    typeParametersChars ps = '<' :: parametersTail ps := by
  have hne : ps.flatMap TypeParameter.chars ≠ [] := by
    cases ps with
    | nil => contradiction
    | cons p ps => simp [TypeParameter.chars]
  simp [typeParametersChars, bracketed, hne, parametersTail]

end ClassUsage.Signature
