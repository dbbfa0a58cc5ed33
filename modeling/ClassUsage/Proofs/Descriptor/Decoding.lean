import Mathlib.Logic.ExistsUnique
import ClassUsage.Proofs.Descriptor.Reading

/-!
Decoding a descriptor accepts exactly the written forms of descriptors and gives the classes that the
tree names; a method descriptor names the classes of the parts it is split into. Where a text is
refused, the characters before the fault still start some descriptor.
-/
namespace ClassUsage

section Written

/-- A run of characters of one kind ends before the first character that is not of it. -/
theorem span_exact {kind : Char → Bool} {run : List Char} (hrun : ∀ c ∈ run, kind c = true)
    (rest : List Char) (hrest : ∀ c ∈ rest.head?, kind c = false) :
    (run ++ rest).takeWhile kind = run ∧ (run ++ rest).dropWhile kind = rest := by
  rw [List.takeWhile_append_of_pos hrun, List.dropWhile_append_of_pos hrun]
  cases rest with
  | nil => simp
  | cons c rest =>
    have hc : kind c = false := hrest c rfl
    simp [hc]

/-- Whatever follows an element type, it is read up to its own end. -/
theorem Element.read_chars (e : Element) (rest : List Char) :
    Element.read (e.chars ++ rest) = .ok (e, rest) := by
  cases e with
  | primitive p => cases p <;> rfl
  | object name =>
    have hchars : (object name).chars ++ rest = 'L' :: (name.chars ++ ';' :: rest) := by
      simp [chars]
    have hname : ∀ c ∈ name.chars, (c != ';') = true := by
      intro c hc
      have hne : c ≠ ';' := fun h => name.no_semicolon (h ▸ hc)
      simpa using hne
    obtain ⟨htake, hdrop⟩ := span_exact hname (';' :: rest) (by simp)
    rw [hchars]
    unfold Element.read
    simp only [hdrop]
    simp [htake, name.ne_nil]

/-- The first character of an element type is none that has a meaning of its own. -/
theorem Element.chars_eq_cons (e : Element) :
    ∃ c more, e.chars = c :: more ∧ c ≠ '[' ∧ c ≠ ')' ∧ c ≠ 'V' := by
  cases e with
  | primitive p => exact ⟨p.code, [], rfl, by cases p <;> decide⟩
  | object name => exact ⟨'L', _, rfl, by decide⟩

theorem FieldType.chars_eq_cons (t : FieldType) :
    ∃ c more, t.chars = c :: more ∧ c ≠ ')' ∧ c ≠ 'V' := by
  obtain ⟨n, e⟩ := t
  cases n with
  | zero =>
    obtain ⟨c, more, he, -, hparen, hvoid⟩ := e.chars_eq_cons
    exact ⟨c, more, he, hparen, hvoid⟩
  | succ n => exact ⟨'[', _, rfl, by decide⟩

theorem FieldType.read_chars (t : FieldType) (rest : List Char) :
    FieldType.read (t.chars ++ rest) = .ok (t, rest) := by
  obtain ⟨n, e⟩ := t
  obtain ⟨c, more, he, hc, -⟩ := e.chars_eq_cons
  have hrun : ∀ d ∈ List.replicate n '[', (d == '[') = true := by
    intro d hd
    simpa using List.eq_of_mem_replicate hd
  obtain ⟨htake, hdrop⟩ := span_exact hrun (e.chars ++ rest) (by simpa [he] using hc)
  have hread : Element.read (c :: (more ++ rest)) = .ok (e, rest) := by
    rw [← List.cons_append, ← he]
    exact e.read_chars rest
  rw [he, List.cons_append] at hdrop htake
  simp only [chars, List.append_assoc, he, List.cons_append, FieldType.read, hdrop, hread, htake,
    List.length_replicate]

theorem readParameters_chars (ts : List FieldType) (rest : List Char) :
    readParameters (ts.flatMap FieldType.chars ++ ')' :: rest) = .ok (ts, rest) := by
  induction ts with
  | nil => simp [readParameters]
  | cons t ts ih =>
    obtain ⟨c, more, ht, hparen, -⟩ := t.chars_eq_cons
    have hread := t.read_chars (ts.flatMap FieldType.chars ++ ')' :: rest)
    rw [List.flatMap_cons, List.append_assoc]
    rw [ht, List.cons_append] at hread ⊢
    unfold readParameters
    split
    · contradiction
    · next h => exact absurd (List.cons.inj h).1 hparen
    · split
      · next h =>
        rw [hread] at h
        contradiction
      · next h =>
        rw [hread] at h
        cases h
        rw [ih]

theorem ReturnType.read_chars (t : ReturnType) (rest : List Char) :
    ReturnType.read (t.chars ++ rest) = .ok (t, rest) := by
  cases t with
  | void => rfl
  | value t =>
    obtain ⟨c, more, ht, -, hvoid⟩ := t.chars_eq_cons
    have hread := t.read_chars rest
    rw [chars]
    rw [ht, List.cons_append] at hread ⊢
    unfold ReturnType.read
    split
    · contradiction
    · next h => exact absurd (List.cons.inj h).1 hvoid
    · rw [hread]

theorem ReturnType.readAll_chars (t : ReturnType) : ReturnType.readAll t.chars = .ok t := by
  have hread := t.read_chars []
  rw [List.append_nil] at hread
  simp [ReturnType.readAll, hread]

theorem MethodType.readAll_chars (m : MethodType) : MethodType.readAll m.chars = .ok m := by
  simp [MethodType.readAll, MethodType.chars, readParameters_chars, ReturnType.readAll_chars]

theorem Descriptor.readAll_chars (d : Descriptor) : Descriptor.readAll d.chars = .ok d := by
  cases d with
  | method m =>
    have hread := m.readAll_chars
    rw [MethodType.chars] at hread
    simp [Descriptor.readAll, chars, MethodType.chars, hread]
  | plain t =>
    have hread := t.readAll_chars
    have hhead := t.head_ne_paren
    rw [chars]
    unfold Descriptor.readAll
    split
    · next h =>
      rw [h] at hread
      contradiction
    · next h =>
      rw [h] at hhead
      contradiction
    · rw [hread]

end Written

theorem Descriptor.parse_eq_ok_iff {text : String} {d : Descriptor} :
    Descriptor.parse text = .ok d ↔ d.render = text := by
  constructor
  · intro h
    rw [Descriptor.render, ← Descriptor.chars_of_parse h, String.ofList_toList]
  · rintro rfl
    apply mapError_eq_ok.mpr
    rw [Descriptor.render, String.toList_ofList]
    exact d.readAll_chars

theorem Descriptor.render_injective {d e : Descriptor} (h : d.render = e.render) : d = e := by
  have hd := Descriptor.parse_eq_ok_iff.mpr h
  have he := Descriptor.parse_eq_ok_iff.mpr (rfl : e.render = e.render)
  rw [hd] at he
  exact Except.ok.inj he

section Refused

variable {s : List Char} {f : Failure}

/-- An element type is refused as a whole. -/
theorem Element.rest_of_read_error (h : Element.read s = .error f) : f.rest = s := by
  unfold Element.read at h
  split at h
  · cases h
    rfl
  · split at h
    · cases h
      rfl
    · split at h <;> cases h
      rfl
  · split at h <;> cases h
    rfl

/-- A field type is refused behind some of the brackets it starts with. -/
theorem FieldType.brackets_of_read_error (h : FieldType.read s = .error f) :
    ∃ n, s = List.replicate n '[' ++ f.rest := by
  unfold FieldType.read at h
  split at h
  · cases h
    exact ⟨0, rfl⟩
  · next c rest hd =>
    split at h
    · contradiction
    · next he =>
      cases h
      have hrun : ∀ d ∈ s.takeWhile (· == '['), d = '[' := by
        intro d hd
        simpa using List.all_eq_true.mp List.all_takeWhile d hd
      refine ⟨(s.takeWhile (· == '[')).length, ?_⟩
      rw [Element.rest_of_read_error he, ← hd, ← List.eq_replicate_of_mem hrun,
        List.takeWhile_append_dropWhile]

/-- Parameters are refused behind some that could be read. -/
theorem parameters_of_read_error (h : readParameters s = .error f) :
    ∃ (ts : List FieldType) (n : Nat),
      s = ts.flatMap FieldType.chars ++ (List.replicate n '[' ++ f.rest) := by
  fun_induction readParameters s with
  | case1 =>
    cases h
    exact ⟨[], 0, rfl⟩
  | case2 => contradiction
  | case3 s _ _ g hread =>
    cases h
    obtain ⟨n, hn⟩ := FieldType.brackets_of_read_error hread
    exact ⟨[], n, hn⟩
  | case4 s _ _ t rest hread g hrest ih =>
    cases h
    obtain ⟨ts, n, hts⟩ := ih hrest
    refine ⟨t :: ts, n, ?_⟩
    rw [FieldType.chars_of_read hread, hts, List.flatMap_cons, List.append_assoc]
  | case5 => contradiction

/-- What stands before the place at fault is the start of a written tree. -/
def StartsWritten {α : Type} (chars : α → List Char) (s : List Char) (f : Failure) : Prop :=
  ∃ read more a, s = read ++ f.rest ∧ read ++ more = chars a

/-- Any number of brackets is the start of a field type. -/
theorem brackets_start (n : Nat) :
    List.replicate n '[' ++ ['I'] = (ReturnType.value ⟨n, .primitive .int⟩).chars := rfl

theorem ReturnType.starts_of_read_error (h : ReturnType.read s = .error f) :
    StartsWritten ReturnType.chars s f := by
  unfold ReturnType.read at h
  split at h
  · cases h
    exact ⟨[], _, .void, rfl, rfl⟩
  · contradiction
  · split at h
    · contradiction
    · next hread =>
      cases h
      obtain ⟨n, hn⟩ := FieldType.brackets_of_read_error hread
      exact ⟨_, _, _, hn, brackets_start n⟩

theorem ReturnType.starts_of_readAll_error (h : ReturnType.readAll s = .error f) :
    StartsWritten ReturnType.chars s f := by
  unfold ReturnType.readAll at h
  split at h
  · contradiction
  · next t rest _ hread =>
    cases h
    exact ⟨t.chars, [], t, chars_of_read hread, List.append_nil _⟩
  · next hread =>
    cases h
    exact starts_of_read_error hread

theorem MethodType.starts_of_readAll_error {rest : List Char}
    (h : MethodType.readAll ('(' :: rest) = .error f) :
    StartsWritten MethodType.chars ('(' :: rest) f := by
  simp only [MethodType.readAll] at h
  split at h
  · next hparameters =>
    cases h
    obtain ⟨ts, n, rfl⟩ := parameters_of_read_error hparameters
    -- the parameter under way becomes an array of integers, and the list is closed
    refine ⟨'(' :: (ts.flatMap FieldType.chars ++ List.replicate n '['), 'I' :: ')' :: ['V'],
      ⟨ts ++ [⟨n, .primitive .int⟩], .void⟩, by simp, ?_⟩
    simp [MethodType.chars, ReturnType.chars, FieldType.chars, Element.chars, Primitive.code]
  · next ts behind hparameters =>
    split at h
    · contradiction
    · next hresult =>
      cases h
      obtain ⟨read, more, t, rfl, ht⟩ := ReturnType.starts_of_readAll_error hresult
      refine ⟨'(' :: (ts.flatMap FieldType.chars ++ ')' :: read), more, ⟨ts, t⟩, ?_, ?_⟩
      · simp [chars_of_readParameters hparameters]
      · simp [MethodType.chars, ht]

theorem Descriptor.starts_of_readAll_error (h : Descriptor.readAll s = .error f) :
    StartsWritten Descriptor.chars s f := by
  unfold Descriptor.readAll at h
  split at h
  · cases h
    exact ⟨[], _, .plain .void, rfl, rfl⟩
  · split at h
    · contradiction
    · next hread =>
      cases h
      obtain ⟨read, more, m, hs, hm⟩ := MethodType.starts_of_readAll_error hread
      exact ⟨read, more, .method m, hs, hm⟩
  · split at h
    · contradiction
    · next hread =>
      cases h
      obtain ⟨read, more, t, hs, ht⟩ := ReturnType.starts_of_readAll_error hread
      exact ⟨read, more, .plain t, hs, ht⟩

end Refused

section Decoding

variable {text : String}

theorem decodeDescriptor_eq_ok_iff {names : NameSet} :
    decodeDescriptor text = .ok names ↔
      ∃ d : Descriptor, d.render = text ∧ names = .ofList d.names := by
  constructor
  · intro h
    cases hp : Descriptor.parse text with
    | error e =>
      simp [decodeDescriptor, hp, Except.map] at h
    | ok d =>
      rw [decodeDescriptor_of_parse hp] at h
      cases h
      exact ⟨d, Descriptor.parse_eq_ok_iff.mp hp, rfl⟩
  · rintro ⟨d, hd, rfl⟩
    exact decodeDescriptor_of_parse (Descriptor.parse_eq_ok_iff.mpr hd)

theorem decodeDescriptor_eq_error {e : DecodingError} (h : decodeDescriptor text = .error e) :
    ∃ f, Descriptor.readAll text.toList = .error f ∧ e = f.locate text := by
  apply mapError_eq_error.mp
  change Descriptor.parse text = .error e
  cases hp : Descriptor.parse text with
  | ok d => simp [decodeDescriptor, hp, Except.map] at h
  | error e' => simpa [decodeDescriptor, hp, Except.map] using h

/-- A descriptor is refused behind characters that some accepted descriptor starts with. -/
theorem continued_of_error {e : DecodingError} (h : decodeDescriptor text = .error e) :
    e.position ≤ text.length ∧ Continued decodeDescriptor (text.toList.take e.position) := by
  obtain ⟨f, hf, rfl⟩ := decodeDescriptor_eq_error h
  obtain ⟨read, more, d, hread, hd⟩ := Descriptor.starts_of_readAll_error hf
  refine ⟨f.position_le text, ?_⟩
  rw [Failure.take_position hread]
  refine ⟨d.render, _, decodeDescriptor_eq_ok_iff.mpr ⟨d, rfl, rfl⟩, more, ?_⟩
  rw [hd, Descriptor.render, String.toList_ofList]

/-- A text can be split exactly if it is a written method type. -/
theorem MethodType.parse_eq_ok_iff {m : MethodType} :
    MethodType.parse text = .ok m ↔ (Descriptor.method m).render = text := by
  constructor
  · intro h
    have hchars := MethodType.chars_of_readAll (mapError_eq_ok.mp h)
    rw [Descriptor.render, Descriptor.chars, ← hchars, String.ofList_toList]
  · rintro rfl
    apply mapError_eq_ok.mpr
    rw [Descriptor.render, String.toList_ofList]
    exact m.readAll_chars

theorem splitMethodDescriptor_eq_ok {parts : List String} {ret : String}
    (h : splitMethodDescriptor text = .ok (parts, ret)) :
    ∃ m : MethodType, (Descriptor.method m).render = text ∧
      parts = m.parameters.map FieldType.render ∧ ret = m.result.render := by
  cases hp : MethodType.parse text with
  | error e => simp [splitMethodDescriptor, hp, Except.map] at h
  | ok m =>
    simp only [splitMethodDescriptor, hp, Except.map] at h
    cases h
    exact ⟨m, MethodType.parse_eq_ok_iff.mp hp, rfl, rfl⟩

theorem descriptorNames_render {d : Descriptor} {x : String} :
    DescriptorNames d.render x ↔ x ∈ d.names :=
  descriptorNames_of_parse (Descriptor.parse_eq_ok_iff.mpr rfl)

theorem descriptorNames_method {m : MethodType} {x : String} :
    DescriptorNames (Descriptor.method m).render x ↔
      (∃ t ∈ m.parameters, DescriptorNames t.render x) ∨ DescriptorNames m.result.render x := by
  have hparameter : ∀ t : FieldType, DescriptorNames t.render x ↔ x ∈ t.names := by
    intro t
    exact descriptorNames_render (d := .plain (.value t))
  have hresult : DescriptorNames m.result.render x ↔ x ∈ m.result.names :=
    descriptorNames_render (d := .plain m.result)
  rw [descriptorNames_render, hresult]
  simp [Descriptor.names, MethodType.names, hparameter]

/-- The parts of a method descriptor are descriptors, and together they name what it names. -/
theorem descriptorNames_split {parts : List String} {ret : String}
    (h : splitMethodDescriptor text = .ok (parts, ret)) :
    (∀ part ∈ parts ++ [ret], ∃ names, decodeDescriptor part = .ok names) ∧
      ∀ x, DescriptorNames text x ↔ ∃ part ∈ parts ++ [ret], DescriptorNames part x := by
  obtain ⟨m, rfl, rfl, rfl⟩ := splitMethodDescriptor_eq_ok h
  constructor
  · intro part hpart
    rcases List.mem_append.mp hpart with hpart | hpart
    · obtain ⟨t, -, rfl⟩ := List.mem_map.mp hpart
      exact ⟨_, decodeDescriptor_eq_ok_iff.mpr ⟨.plain (.value t), rfl, rfl⟩⟩
    · rw [List.mem_singleton.mp hpart]
      exact ⟨_, decodeDescriptor_eq_ok_iff.mpr ⟨.plain m.result, rfl, rfl⟩⟩
  · intro x
    rw [descriptorNames_method]
    constructor
    · rintro (⟨t, ht, hx⟩ | hx)
      · exact ⟨t.render, List.mem_append_left _ (List.mem_map_of_mem ht), hx⟩
      · exact ⟨m.result.render, List.mem_append_right _ List.mem_cons_self, hx⟩
    · rintro ⟨part, hpart, hx⟩
      rcases List.mem_append.mp hpart with hpart | hpart
      · obtain ⟨t, ht, rfl⟩ := List.mem_map.mp hpart
        exact .inl ⟨t, ht, hx⟩
      · rw [List.mem_singleton.mp hpart] at hx
        exact .inr hx

/-- A descriptor is accepted exactly if it is the written form of a tree, which is then the only one,
and the classes found are those that the tree names; for a method, those of its parts. The error of a
text that is refused holds the whole text, and what stands before its position can be completed. -/
theorem descriptor_decoding_exact :
    (∀ d : Descriptor, decodeDescriptor d.render = .ok (.ofList d.names)) ∧
    (∀ text : String, (∃ names, decodeDescriptor text = .ok names) ↔
      ∃! d : Descriptor, d.render = text) ∧
    (∀ (text : String) (parts : List String) (ret : String),
      splitMethodDescriptor text = .ok (parts, ret) →
        (∀ part ∈ parts ++ [ret], ∃ names, decodeDescriptor part = .ok names) ∧
        ∀ x, DescriptorNames text x ↔ ∃ part ∈ parts ++ [ret], DescriptorNames part x) ∧
    ∀ (text : String) (e : DecodingError), decodeDescriptor text = .error e →
      e.text = text ∧ e.position ≤ text.length ∧
        Continued decodeDescriptor (text.toList.take e.position) := by
  refine ⟨?_, ?_, ?_, ?_⟩
  · intro d
    exact decodeDescriptor_eq_ok_iff.mpr ⟨d, rfl, rfl⟩
  · intro text
    constructor
    · rintro ⟨names, h⟩
      obtain ⟨d, hd, -⟩ := decodeDescriptor_eq_ok_iff.mp h
      refine ⟨d, hd, ?_⟩
      intro d' hd'
      have hsame : Except.ok d' = (Except.ok d : Except DecodingError Descriptor) := by
        rw [← Descriptor.parse_eq_ok_iff.mpr hd', ← Descriptor.parse_eq_ok_iff.mpr hd]
      exact Except.ok.inj hsame
    · rintro ⟨d, hd, -⟩
      exact ⟨_, decodeDescriptor_eq_ok_iff.mpr ⟨d, hd, rfl⟩⟩
  · intro text parts ret h
    exact descriptorNames_split h
  · intro text e h
    obtain ⟨f, -, rfl⟩ := decodeDescriptor_eq_error h
    exact ⟨rfl, continued_of_error h⟩

/-- Class names that hold the characters of a parameter list, and a list that breaks off. -/
theorem descriptor_decoding_samples :
    (splitMethodDescriptor "(La(b)/C;[[Lc[;)V" = .ok (["La(b)/C;", "[[Lc[;"], "V") ∧
      (∀ x, DescriptorNames "(La(b)/C;[[Lc[;)V" x ↔
        ∃ part ∈ ["La(b)/C;", "[[Lc[;"] ++ ["V"], DescriptorNames part x)) ∧
    decodeDescriptor "(La/B;[[" = .error ⟨"(La/B;[[", 6, .missingElementType⟩ ∧
      Continued decodeDescriptor ("(La/B;[[".toList.take 6) := by
  have hmethod : MethodType.readAll "(La(b)/C;[[Lc[;)V".toList =
      .ok ⟨[⟨0, .object ⟨"a(b)/C".toList, by simp, by simp⟩⟩,
        ⟨2, .object ⟨"c[".toList, by simp, by simp⟩⟩], .void⟩ := by
    cbv
  have hsplit : splitMethodDescriptor "(La(b)/C;[[Lc[;)V" = .ok (["La(b)/C;", "[[Lc[;"], "V") := by
    rw [splitMethodDescriptor, MethodType.parse, hmethod]
    rfl
  have hbroken : Descriptor.readAll "(La/B;[[".toList = .error ⟨['[', '['], .missingElementType⟩ := by
    cbv
  have herror : decodeDescriptor "(La/B;[[" = .error ⟨"(La/B;[[", 6, .missingElementType⟩ := by
    rw [decodeDescriptor, Descriptor.parse, hbroken]
    rfl
  exact ⟨⟨hsplit, (descriptor_decoding_exact.2.2.1 _ _ _ hsplit).2⟩, herror,
    (descriptor_decoding_exact.2.2.2 _ _ herror).2.2⟩

end Decoding

end ClassUsage
