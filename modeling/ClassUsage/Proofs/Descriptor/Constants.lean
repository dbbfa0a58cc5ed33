import ClassUsage.Collector
import ClassUsage.Proofs.Descriptor.Splitting

/-!
Type constants that were checked. The accessors cut pieces out of a text without reading it again:
the brackets at its start, what is left behind them, what stands between its first and its last
character. Of a descriptor that was accepted these pieces are parts of its tree, so no accessor
fails, and a collector is given the classes that the descriptor names.
-/
namespace ClassUsage

namespace Descriptor

def dimensions : Descriptor → Nat
  | .plain (.value t) => t.dimensions
  | _ => 0

/-- The type under all array dimensions. -/
def elementType : Descriptor → Descriptor
  | .plain (.value t) => .plain (.value ⟨0, t.element⟩)
  | d => d

theorem chars_eq_brackets (d : Descriptor) :
    d.chars = List.replicate d.dimensions '[' ++ d.elementType.chars := by
  cases d with
  | method m => rfl
  | plain r => cases r <;> rfl

theorem dimensions_elementType (d : Descriptor) : d.elementType.dimensions = 0 := by
  cases d with
  | method m => rfl
  | plain r => cases r <;> rfl

/-- The brackets that are counted are all there are. -/
theorem head_elementType_ne (d : Descriptor) : ∀ c ∈ d.elementType.chars.head?, c ≠ '[' := by
  cases d with
  | method m => simp [elementType, chars, MethodType.chars]
  | plain r =>
    cases r with
    | void => simp [elementType, chars, ReturnType.chars]
    | value t =>
      obtain ⟨c, more, hchars, hc, -⟩ := t.element.chars_eq_cons
      have helement : (plain (.value t)).elementType.chars = c :: more := hchars
      simpa [helement] using hc

theorem elementType_of_dimensions {d : Descriptor} (h : d.dimensions = 0) : d.elementType = d := by
  cases d with
  | method m => rfl
  | plain r =>
    cases r with
    | void => rfl
    | value t =>
      obtain ⟨n, e⟩ := t
      cases h
      rfl

/-- What is under the dimensions of an array is a primitive or an object type. -/
theorem sort_elementType {d : Descriptor} (h : 0 < d.dimensions) :
    d.elementType.sort ∉ [TypeSort.array, .void, .method] := by
  cases d with
  | method m => simp [dimensions] at h
  | plain r =>
    cases r with
    | void => simp [dimensions] at h
    | value t => exact t.element.sort_not_mem

theorem sort_eq_array_iff (d : Descriptor) : d.sort = .array ↔ 0 < d.dimensions := by
  cases d with
  | method m => simp [sort, dimensions]
  | plain r =>
    cases r with
    | void => simp [sort, dimensions]
    | value t =>
      obtain ⟨n, e⟩ := t
      cases n with
      | zero =>
        have harray : (plain (.value ⟨0, e⟩)).sort ≠ .array := by
          intro h
          exact e.sort_not_mem (h ▸ List.mem_cons_self)
        simp [dimensions, harray]
      | succ n => simp [sort, dimensions]

theorem render_of_chars {text : String} {d : Descriptor} (h : text.toList = d.chars) :
    d.render = text := by
  rw [render, ← h, String.ofList_toList]

end Descriptor

/-- The word in source code for a type that is written as one letter. -/
inductive Keyword : String → String → Prop where
  | void : Keyword "V" "void"
  | primitive (p : Primitive) : Keyword (String.ofList [p.code]) p.keyword

def Element.word : Element → String
  | .primitive p => p.keyword
  | .object name => dotted name.chars

/-- The word in source code for a type under its array dimensions. -/
def ReturnType.word : ReturnType → String
  | .void => "void"
  | .value t => t.element.word

namespace TypeConstant

/-- A constant that was checked holds the text it was made from, which is a written tree. -/
theorem ofDescriptor_eq_ok_iff {text : String} {t : TypeConstant} :
    ofDescriptor text = .ok t ↔
      t.descriptor = text ∧ ∃ d : Descriptor, t.descriptor.toList = d.chars := by
  constructor
  · intro h
    refine ⟨?_, chars_of_ofDescriptor h⟩
    rw [ofDescriptor] at h
    cases hp : Descriptor.parse text with
    | error e =>
      rw [hp] at h
      contradiction
    | ok d =>
      rw [hp] at h
      cases h
      rfl
  · intro h
    obtain ⟨rfl, d, hd⟩ := h
    rw [ofDescriptor, Descriptor.parse_eq_ok_iff.mpr (Descriptor.render_of_chars hd)]
    rfl

section Accessors

variable {t : TypeConstant} {d : Descriptor} {r : ReturnType}

/-- Counting the brackets and cutting them off are the two halves of one split, which falls where the
tree has it. -/
theorem brackets_of_chars (h : t.descriptor.toList = d.chars) :
    t.dimensions = d.dimensions ∧ t.elementType.descriptor.toList = d.elementType.chars := by
  have hrun : ∀ c ∈ List.replicate d.dimensions '[', (c == '[') = true := by
    intro c hc
    simpa using List.eq_of_mem_replicate hc
  have hrest : ∀ c ∈ d.elementType.chars.head?, (c == '[') = false := by
    intro c hc
    simpa using d.head_elementType_ne c hc
  obtain ⟨htake, hdrop⟩ := span_exact hrun d.elementType.chars hrest
  rw [← d.chars_eq_brackets, ← h] at htake hdrop
  constructor
  · rw [dimensions, htake, List.length_replicate]
  · rw [elementType, String.toList_ofList, hdrop]

/-- The type under the dimensions of a checked type could itself be checked. -/
theorem ofDescriptor_elementType (h : t.descriptor.toList = d.chars) :
    ofDescriptor t.elementType.descriptor = .ok t.elementType := by
  have helement := (brackets_of_chars h).2
  exact ofDescriptor_eq_ok_iff.mpr ⟨rfl, d.elementType, helement⟩

theorem descriptor_eq_brackets (h : t.descriptor.toList = d.chars) :
    String.ofList (List.replicate t.dimensions '[') ++ t.elementType.descriptor = t.descriptor := by
  obtain ⟨hdimensions, helement⟩ := brackets_of_chars h
  apply String.toList_inj.mp
  rw [String.toList_append, String.toList_ofList, hdimensions, helement, h, d.chars_eq_brackets]

theorem exists_internalName (h : t.descriptor.toList = d.chars) :
    ∃ name, t.internalName = .ok name := by
  rw [internalName, sort_of_chars h]
  cases d.sort <;> exact ⟨_, rfl⟩

theorem elementName_of_chars (h : t.descriptor.toList = (Descriptor.plain r).elementType.chars) :
    t.elementName = .ok r.word := by
  have hsort := sort_of_chars h
  cases r with
  | void =>
    simp only [elementName, hsort, Descriptor.elementType, Descriptor.sort]
    simp [primitiveKeyword, h, Descriptor.elementType, Descriptor.chars, ReturnType.chars,
      ReturnType.word]
  | value f =>
    obtain ⟨n, e⟩ := f
    have he : t.descriptor.toList = e.chars := h
    cases e with
    | primitive p =>
      simp only [elementName, hsort, Descriptor.elementType, Descriptor.sort]
      cases p <;> simp [primitiveKeyword, he, Element.chars, Primitive.sort, Primitive.code,
        Primitive.ofCode?, ReturnType.word, Element.word]
    | object name =>
      have hinside : t.inside = name.chars := by simp [inside, he, Element.chars]
      simp only [elementName, hsort, Descriptor.elementType, Descriptor.sort, hinside]
      rfl

theorem dimensions_elementType (h : t.descriptor.toList = d.chars) :
    t.elementType.dimensions = 0 := by
  have helement := (brackets_of_chars h).2
  rw [(brackets_of_chars helement).1, d.dimensions_elementType]

theorem sort_elementType (h : t.descriptor.toList = d.chars) (hpos : 0 < t.dimensions) :
    t.elementType.sort ≠ .ok .void ∧ t.elementType.sort ≠ .ok .method := by
  obtain ⟨hdimensions, helement⟩ := brackets_of_chars h
  have hsort := Descriptor.sort_elementType (hdimensions ▸ hpos)
  rw [sort_of_chars helement]
  simp only [List.mem_cons, not_or] at hsort
  exact ⟨fun h => hsort.2.1 (Except.ok.inj h), fun h => hsort.2.2.1 (Except.ok.inj h)⟩

theorem sourceName_of_not_array (h : t.sort ≠ .ok .array) : t.sourceName = t.elementName := by
  rw [sourceName]
  split
  · contradiction
  · rfl

/-- A type is called by the word for what is under its dimensions, with a pair of brackets for each. -/
theorem sourceName_of_chars (h : t.descriptor.toList = (Descriptor.plain r).chars) :
    t.sourceName = .ok (r.word ++ String.join (List.replicate t.dimensions "[]")) := by
  have hsort := sort_of_chars h
  have harray := (Descriptor.plain r).sort_eq_array_iff
  obtain ⟨hdimensions, helement⟩ := brackets_of_chars h
  rw [← hdimensions] at harray
  by_cases hpos : 0 < t.dimensions
  · rw [sourceName, hsort, harray.mpr hpos, elementName_of_chars helement]
    rfl
  · -- without dimensions the type is its own element type
    have hzero : t.dimensions = 0 := by omega
    have hscalar := Descriptor.elementType_of_dimensions (hdimensions.symm.trans hzero)
    have hname : t.elementName = .ok r.word := by
      apply elementName_of_chars
      rw [hscalar, h]
    have hnot : t.sort ≠ .ok .array := by
      intro hs
      exact hpos (harray.mp (Except.ok.inj (hsort.symm.trans hs)))
    rw [sourceName_of_not_array hnot, hname, hzero]
    simp

theorem exists_sourceName (h : t.descriptor.toList = d.chars) : ∃ name, t.sourceName = .ok name := by
  cases d with
  | plain r => exact ⟨_, sourceName_of_chars h⟩
  | method m =>
    have hsort := sort_of_chars h
    refine ⟨t.descriptor, ?_⟩
    simp only [sourceName, elementName, hsort, Descriptor.sort]

end Accessors

section Collecting

variable {t : TypeConstant}

/-- Taking up a type constant adds the classes it stands for. -/
theorem takeUp_constant {names : NameSet} (h : t.classNames = .ok names) (known : NameSet) :
    takeUp known [.constant (.type t)] = ⟨known ∪ names, names.newIn known, none⟩ := by
  have hresolve : (Mention.constant (.type t)).resolve = .ok names := mapError_eq_ok.mpr h
  simp [takeUp, hresolve]

theorem takeUp_method {m : MethodType} (h : t.descriptor.toList = m.chars) (known : NameSet) :
    takeUp known [.constant (.type t)] = ⟨known, [], none⟩ := by
  rw [takeUp_constant (classNames_of_method h), NameSet.union_empty]
  rfl

end Collecting

end TypeConstant

/-- A type that is no method names one class, which is the word for it, or else the word is a
keyword. -/
theorem ReturnType.word_cases (r : ReturnType) :
    NameSet.ofList r.names = .singleton r.word ∨
      NameSet.ofList r.names = ∅ ∧ Keyword (Descriptor.plain r).elementType.render r.word := by
  cases r with
  | void => exact .inr ⟨rfl, .void⟩
  | value t =>
    obtain ⟨n, e⟩ := t
    cases e with
    | primitive p => exact .inr ⟨rfl, .primitive p⟩
    | object name => exact .inl rfl

/-- A type constant that was checked answers to all accessors. It is written as its dimensions and its
element type, which could be checked as well, has no dimensions, and under some is neither void nor a
method. A collector is given the classes that the descriptor names, but none of a method; and the type
is called by the one class it names or else by a keyword, with a pair of brackets for each dimension. -/
theorem typeConstant_follows_descriptor (text : String) (t : TypeConstant)
    (h : TypeConstant.ofDescriptor text = .ok t) :
    (∃ sort, t.sort = .ok sort) ∧ (∃ name, t.internalName = .ok name) ∧
    (∃ name, t.sourceName = .ok name) ∧
    String.ofList (List.replicate t.dimensions '[') ++ t.elementType.descriptor = text ∧
    TypeConstant.ofDescriptor t.elementType.descriptor = .ok t.elementType ∧
    t.elementType.dimensions = 0 ∧
    (0 < t.dimensions → t.elementType.sort ≠ .ok .void ∧ t.elementType.sort ≠ .ok .method) ∧
    ∃ names, decodeDescriptor text = .ok names ∧
      (IsMethodDescriptor text →
        ∀ known, takeUp known [.constant (.type t)] = ⟨known, [], none⟩) ∧
      (¬ IsMethodDescriptor text →
        (∀ known, takeUp known [.constant (.type t)] =
          ⟨known ∪ names, names.newIn known, none⟩) ∧
        ∃ base, t.sourceName = .ok (base ++ String.join (List.replicate t.dimensions "[]")) ∧
          (names = .singleton base ∨ names = ∅ ∧ Keyword t.elementType.descriptor base)) := by
  obtain ⟨rfl, d, hd⟩ := TypeConstant.ofDescriptor_eq_ok_iff.mp h
  refine ⟨⟨_, TypeConstant.sort_of_chars hd⟩, TypeConstant.exists_internalName hd,
    TypeConstant.exists_sourceName hd, TypeConstant.descriptor_eq_brackets hd,
    TypeConstant.ofDescriptor_elementType hd, TypeConstant.dimensions_elementType hd,
    TypeConstant.sort_elementType hd, .ofList d.names,
    decodeDescriptor_eq_ok_iff.mpr ⟨d, Descriptor.render_of_chars hd, rfl⟩, ?_⟩
  cases d with
  | method m =>
    have hmethod : IsMethodDescriptor t.descriptor := by
      rw [IsMethodDescriptor, hd]
      rfl
    exact ⟨fun _ => TypeConstant.takeUp_method hd, fun hplain => absurd hmethod hplain⟩
  | plain r =>
    have hplain : ¬ IsMethodDescriptor t.descriptor := by
      rw [IsMethodDescriptor, hd]
      exact r.head_ne_paren
    have hnames := TypeConstant.classNames_of_returnType hd
    refine ⟨fun hmethod => absurd hmethod hplain, fun _ => ⟨TypeConstant.takeUp_constant hnames,
      r.word, TypeConstant.sourceName_of_chars hd, ?_⟩⟩
    rw [← Descriptor.render_of_chars (TypeConstant.brackets_of_chars hd).2]
    exact r.word_cases

/-- `[[Lp/C;` -/
def objectGrid : FieldType := ⟨2, .object ⟨['p', '/', 'C'], by decide, by decide⟩⟩

/-- An array of objects, and a method that takes one. -/
theorem typeConstant_follows_descriptor_samples :
    (TypeConstant.mk "[[Lp/C;").elementType.sort ≠ .ok .void ∧
    (∃ base, (TypeConstant.mk "[[Lp/C;").sourceName = .ok (base ++ "[][]") ∧
      (.ofList ["p.C"] = NameSet.singleton base ∨ NameSet.ofList ["p.C"] = ∅ ∧
        Keyword "Lp/C;" base)) ∧
    ∀ known, takeUp known [.constant (.type ⟨"([[Lp/C;)V"⟩)] = ⟨known, [], none⟩ := by
  have hgrid : TypeConstant.ofDescriptor "[[Lp/C;" = .ok ⟨"[[Lp/C;"⟩ :=
    TypeConstant.ofDescriptor_eq_ok_iff.mpr ⟨rfl, .plain (.value objectGrid), by decide⟩
  have hmethod : TypeConstant.ofDescriptor "([[Lp/C;)V" = .ok ⟨"([[Lp/C;)V"⟩ :=
    TypeConstant.ofDescriptor_eq_ok_iff.mpr ⟨rfl, .method ⟨[objectGrid], .void⟩, by decide⟩
  obtain ⟨-, -, -, -, -, -, helement, names, hnames, -, hcalled⟩ :=
    typeConstant_follows_descriptor _ _ hgrid
  obtain ⟨-, -, -, -, -, -, -, -, -, hnothing, -⟩ := typeConstant_follows_descriptor _ _ hmethod
  have hone : decodeDescriptor "[[Lp/C;" = .ok (.ofList ["p.C"]) :=
    decodeDescriptor_eq_ok_iff.mpr ⟨.plain (.value objectGrid), by decide, by decide⟩
  obtain rfl := Except.ok.inj (hone.symm.trans hnames)
  have hfield : ¬ IsMethodDescriptor "[[Lp/C;" :=
    (ReturnType.value objectGrid).not_isMethodDescriptor
  exact ⟨(helement (by decide)).1, (hcalled hfield).2, hnothing rfl⟩

end ClassUsage
