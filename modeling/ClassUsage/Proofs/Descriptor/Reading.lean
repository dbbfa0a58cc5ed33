import ClassUsage.TypeConstant

/-!
What is read from a descriptor is what was written there: the text is the written form of the tree
that is read, followed by what is left. A type constant with a checked descriptor stands for the
classes that the descriptor names, unless it is that of a method.
-/
namespace ClassUsage

section Reading

variable {s rest : List Char}

theorem Element.chars_of_read {e : Element} (h : Element.read s = .ok (e, rest)) :
    s = e.chars ++ rest := by
  unfold Element.read at h
  split at h
  · contradiction
  · next behind =>
    split at h
    · contradiction
    · next c left hd =>
      split at h
      · contradiction
      · cases h
        have hc : c = ';' := by
          have := List.head?_dropWhile_not (· != ';') behind
          rw [hd] at this
          simpa using this
        have hsplit := List.takeWhile_append_dropWhile (p := (· != ';')) (l := behind)
        rw [hd, hc] at hsplit
        simpa [Element.chars] using hsplit.symm
  · next c behind _ =>
    split at h
    · next p hp =>
      cases h
      simp [Element.chars, Primitive.code_of_ofCode? hp]
    · contradiction

theorem FieldType.chars_of_read {t : FieldType} (h : FieldType.read s = .ok (t, rest)) :
    s = t.chars ++ rest := by
  unfold FieldType.read at h
  split at h
  · contradiction
  · next c left hd =>
    split at h
    · next e behind he =>
      cases h
      have hbrackets : s.takeWhile (· == '[') = List.replicate (s.takeWhile (· == '[')).length '[' := by
        apply List.eq_replicate_of_mem
        intro d hd
        simpa using List.all_eq_true.mp List.all_takeWhile d hd
      calc s = s.takeWhile (· == '[') ++ s.dropWhile (· == '[') :=
            (List.takeWhile_append_dropWhile).symm
        _ = s.takeWhile (· == '[') ++ (e.chars ++ rest) := by rw [hd, Element.chars_of_read he]
        _ = _ := by
          rw [FieldType.chars, List.append_assoc, ← hbrackets]
    · contradiction

theorem chars_of_readParameters {ts : List FieldType} (h : readParameters s = .ok (ts, rest)) :
    s = ts.flatMap FieldType.chars ++ ')' :: rest := by
  fun_induction readParameters s generalizing ts rest with
  | case1 => contradiction
  | case2 rest => cases h; rfl
  | case3 => contradiction
  | case4 => contradiction
  | case5 s _ _ t behind ht ts' left hts ih =>
    cases h
    rw [FieldType.chars_of_read ht, ih hts]
    simp

theorem ReturnType.chars_of_read {t : ReturnType} (h : ReturnType.read s = .ok (t, rest)) :
    s = t.chars ++ rest := by
  unfold ReturnType.read at h
  split at h
  · contradiction
  · cases h
    rfl
  · split at h
    · next ht =>
      cases h
      exact FieldType.chars_of_read ht
    · contradiction

theorem ReturnType.chars_of_readAll {t : ReturnType} (h : ReturnType.readAll s = .ok t) :
    s = t.chars := by
  unfold ReturnType.readAll at h
  split at h
  · next ht =>
    cases h
    simpa using ReturnType.chars_of_read ht
  · contradiction
  · contradiction

theorem MethodType.chars_of_readAll {m : MethodType} (h : MethodType.readAll s = .ok m) :
    s = m.chars := by
  unfold MethodType.readAll at h
  split at h
  · split at h
    · contradiction
    · next hts =>
      split at h
      · next hr =>
        cases h
        rw [chars_of_readParameters hts, ReturnType.chars_of_readAll hr]
        rfl
      · contradiction
  · contradiction

theorem Descriptor.chars_of_readAll {d : Descriptor} (h : Descriptor.readAll s = .ok d) :
    s = d.chars := by
  unfold Descriptor.readAll at h
  split at h
  · contradiction
  · split at h
    · next hm =>
      cases h
      exact MethodType.chars_of_readAll hm
    · contradiction
  · split at h
    · next ht =>
      cases h
      exact ReturnType.chars_of_readAll ht
    · contradiction

end Reading

theorem Descriptor.chars_of_parse {text : String} {d : Descriptor}
    (h : Descriptor.parse text = .ok d) : text.toList = d.chars :=
  Descriptor.chars_of_readAll (mapError_eq_ok.mp h)

section TypeConstants

/-- The text is a method descriptor, if it is a descriptor at all. -/
def IsMethodDescriptor (text : String) : Prop := text.toList.head? = some '('

/-- The classes that the accepted descriptor `text` names. -/
def DescriptorNames (text x : String) : Prop := ∃ names, decodeDescriptor text = .ok names ∧ x ∈ names

theorem decodeDescriptor_of_parse {text : String} {d : Descriptor}
    (h : Descriptor.parse text = .ok d) : decodeDescriptor text = .ok (.ofList d.names) := by
  simp [decodeDescriptor, h, Except.map]

theorem descriptorNames_of_parse {text x : String} {d : Descriptor}
    (h : Descriptor.parse text = .ok d) : DescriptorNames text x ↔ x ∈ d.names := by
  simp [DescriptorNames, decodeDescriptor_of_parse h]

theorem ReturnType.head_ne_paren (t : ReturnType) : t.chars.head? ≠ some '(' := by
  rcases t with _ | ⟨n, e⟩
  · decide
  · cases n with
    | zero =>
      cases e with
      | primitive p => cases p <;> decide
      | object name => simp [chars, FieldType.chars, Element.chars]
    | succ n => simp [chars, FieldType.chars, List.replicate_succ]

/-- The sort of the type that a descriptor is that of. -/
def Descriptor.sort : Descriptor → TypeSort
  | .method _ => .method
  | .plain .void => .void
  | .plain (.value ⟨0, .primitive p⟩) => p.sort
  | .plain (.value ⟨0, .object _⟩) => .object
  | .plain (.value ⟨_ + 1, _⟩) => .array

/-- What an array is made of is neither an array, nor void, nor a method. -/
theorem Element.sort_not_mem (e : Element) :
    (Descriptor.plain (.value ⟨0, e⟩)).sort ∉ [TypeSort.array, .void, .method] := by
  cases e with
  | primitive p => cases p <;> decide
  | object name => simp [Descriptor.sort]

namespace TypeConstant

/-- The first character tells the sort of every descriptor. -/
theorem sort_of_chars {t : TypeConstant} {d : Descriptor} (h : t.descriptor.toList = d.chars) :
    t.sort = .ok d.sort := by
  cases d with
  | method m => simp [sort, h, Descriptor.chars, MethodType.chars, Descriptor.sort]
  | plain r =>
    cases r with
    | void => simp [sort, h, Descriptor.chars, ReturnType.chars, Descriptor.sort]
    | value f =>
      obtain ⟨n, e⟩ := f
      cases n with
      | succ n =>
        simp [sort, h, Descriptor.chars, ReturnType.chars, FieldType.chars, List.replicate_succ,
          Descriptor.sort]
      | zero =>
        have he : t.descriptor.toList = e.chars := by
          simpa [Descriptor.chars, ReturnType.chars, FieldType.chars] using h
        cases e with
        | primitive p =>
          cases p <;> simp [sort, he, Element.chars, Primitive.code, Primitive.ofCode?,
            Descriptor.sort]
        | object name => simp [sort, he, Element.chars, Descriptor.sort]

/-- The classes of a type that is no array. -/
def elementNames (e : TypeConstant) : Except TypeFault NameSet :=
  match e.sort with
  | .ok .object => .ok (.singleton (dotted e.inside))
  | .ok _ => .ok ∅
  | .error f => .error f

theorem classNames_eq (t : TypeConstant) :
    t.classNames = match t.sort with
      | .ok .array => t.elementType.elementNames
      | _ => t.elementNames := rfl

theorem elementNames_of_element {t : TypeConstant} {e : Element}
    (h : t.descriptor.toList = e.chars) : t.elementNames = .ok (.ofList e.names) := by
  have hsort := sort_of_chars (d := .plain (.value ⟨0, e⟩)) h
  cases e with
  | primitive p =>
    simp only [elementNames, hsort, Descriptor.sort]
    cases p <;> rfl
  | object name =>
    have hinside : t.inside = name.chars := by simp [inside, h, Element.chars]
    simp only [elementNames, hsort, Descriptor.sort, hinside]
    rfl

theorem dropWhile_brackets (n : Nat) (e : Element) :
    (List.replicate n '[' ++ e.chars).dropWhile (· == '[') = e.chars := by
  induction n with
  | zero =>
    cases e with
    | primitive p => cases p <;> rfl
    | object name => rfl
  | succ n ih => simpa [List.replicate_succ] using ih

theorem classNames_of_returnType {t : TypeConstant} {r : ReturnType}
    (h : t.descriptor.toList = r.chars) : t.classNames = .ok (.ofList r.names) := by
  have hsort := sort_of_chars (d := .plain r) h
  rw [classNames_eq]
  rcases r with _ | ⟨n, e⟩
  · simp only [hsort, Descriptor.sort, elementNames]
    rfl
  · cases n with
    | zero =>
      split
      · next harray =>
        have hsame := Except.ok.inj (hsort.symm.trans harray)
        exact absurd (hsame ▸ List.mem_cons_self) e.sort_not_mem
      · exact elementNames_of_element h
    | succ n =>
      have helement : t.elementType.descriptor.toList = e.chars := by
        simp only [elementType, h, ReturnType.chars, FieldType.chars, String.toList_ofList]
        exact dropWhile_brackets (n + 1) e
      simp only [hsort, Descriptor.sort]
      exact elementNames_of_element helement

theorem classNames_of_method {t : TypeConstant} {m : MethodType}
    (h : t.descriptor.toList = m.chars) : t.classNames = .ok ∅ := by
  have hsort := sort_of_chars (d := .method m) h
  simp only [classNames_eq, hsort, Descriptor.sort, elementNames]

/-- A checked type constant stands for the classes its descriptor names, and for none if it is a
method type. -/
theorem mem_classNames_iff {text x : String} {t : TypeConstant}
    (h : TypeConstant.ofDescriptor text = .ok t) :
    (∃ names, t.classNames = .ok names ∧ x ∈ names) ↔
      ¬ IsMethodDescriptor text ∧ DescriptorNames text x := by
  unfold ofDescriptor at h
  cases hp : Descriptor.parse text with
  | error e =>
    rw [hp] at h
    contradiction
  | ok d =>
    rw [hp] at h
    cases h
    have hchars := Descriptor.chars_of_parse hp
    rw [descriptorNames_of_parse hp]
    cases d with
    | plain r =>
      have hplain : ¬ IsMethodDescriptor text := by
        rw [IsMethodDescriptor, hchars]
        exact r.head_ne_paren
      have hnames := classNames_of_returnType (t := ⟨text⟩) hchars
      simp [hnames, hplain, Descriptor.names]
    | method m =>
      have hmethod : IsMethodDescriptor text := by
        rw [IsMethodDescriptor, hchars]
        rfl
      have hnames := classNames_of_method (t := ⟨text⟩) hchars
      simp [hnames, hmethod]

theorem classNames_of_chars {t : TypeConstant} {d : Descriptor}
    (h : t.descriptor.toList = d.chars) : ∃ names, t.classNames = .ok names := by
  cases d with
  | method m => exact ⟨_, classNames_of_method h⟩
  | plain r => exact ⟨_, classNames_of_returnType h⟩

/-- A type constant that was checked has the descriptor it was made from. -/
theorem chars_of_ofDescriptor {text : String} {t : TypeConstant} (h : ofDescriptor text = .ok t) :
    ∃ d : Descriptor, t.descriptor.toList = d.chars := by
  cases hp : Descriptor.parse text with
  | error e => simp [ofDescriptor, hp, Except.map] at h
  | ok d =>
    simp only [ofDescriptor, hp, Except.map] at h
    cases h
    exact ⟨d, Descriptor.chars_of_parse hp⟩

end TypeConstant

end TypeConstants

end ClassUsage
