import ClassUsage.Proofs.Descriptor.Constants

/-!
Types by internal name. An array goes by its descriptor and a class by its bare name, which is put
between `L` and `;` to make a descriptor and is cut out of it by position. The two ways are each
other's inverse, on exactly the names that can be told apart.
-/
namespace ClassUsage

/-- The text starts as the descriptor of an array does. -/
def StartsAsArray (text : String) : Prop := text.toList.head? = some '['

/-- What can stand between the first and the last character of the descriptor of a class. -/
def IsBareName (text : String) : Prop := text ≠ "" ∧ ';' ∉ text.toList

instance : DecidablePred StartsAsArray := fun text =>
  inferInstanceAs (Decidable (text.toList.head? = some '['))

instance : DecidablePred IsBareName := fun text =>
  inferInstanceAs (Decidable (text ≠ "" ∧ ';' ∉ text.toList))

namespace Descriptor

variable {d : Descriptor}

theorem eq_object_of_sort (h : d.sort = .object) :
    ∃ name : InternalName, d = .plain (.value ⟨0, .object name⟩) := by
  cases d with
  | method m => contradiction
  | plain r =>
    cases r with
    | void => contradiction
    | value t =>
      obtain ⟨n, e⟩ := t
      cases n with
      | succ n => contradiction
      | zero =>
        cases e with
        | object name => exact ⟨name, rfl⟩
        | primitive p => cases p <;> contradiction

/-- Only arrays are written with a bracket at the start. -/
theorem head_eq_bracket_iff (d : Descriptor) : d.chars.head? = some '[' ↔ d.sort = .array := by
  rw [sort_eq_array_iff, chars_eq_brackets]
  cases hn : d.dimensions with
  | zero =>
    have hhead : d.elementType.chars.head? ≠ some '[' := by
      intro h
      exact d.head_elementType_ne '[' h rfl
    simpa using hhead
  | succ n => simp [List.replicate_succ]

end Descriptor

namespace TypeConstant

variable {t : TypeConstant} {d : Descriptor} {name text : String}

section Classes

/-- The descriptor of the class of that name. -/
def ofBareName (name : String) : TypeConstant := ⟨String.ofList ('L' :: (name.toList ++ [';']))⟩

theorem toList_ofBareName (name : String) :
    (ofBareName name).descriptor.toList = 'L' :: (name.toList ++ [';']) := String.toList_ofList

theorem sort_ofBareName (name : String) : (ofBareName name).sort = .ok .object := by
  simp [sort, toList_ofBareName]

/-- What was put between the two characters is cut out again, whatever it is. -/
theorem internalName_ofBareName (name : String) : (ofBareName name).internalName = .ok name := by
  have hinside : (ofBareName name).inside = name.toList := by simp [inside, toList_ofBareName]
  simp only [internalName, sort_ofBareName, hinside, String.ofList_toList]

/-- The result is a descriptor for just those names that a descriptor can hold. -/
theorem chars_ofBareName_iff :
    (∃ d : Descriptor, (ofBareName name).descriptor.toList = d.chars) ↔ IsBareName name := by
  constructor
  · rintro ⟨d, hd⟩
    have hsort : d.sort = .object :=
      Except.ok.inj ((sort_of_chars hd).symm.trans (sort_ofBareName name))
    obtain ⟨held, rfl⟩ := Descriptor.eq_object_of_sort hsort
    have hchars : name.toList = held.chars := by
      have hbetween : 'L' :: (name.toList ++ [';']) = 'L' :: (held.chars ++ [';']) := by
        rw [← toList_ofBareName]
        exact hd
      exact List.append_cancel_right (List.cons.inj hbetween).2
    refine ⟨?_, hchars ▸ held.no_semicolon⟩
    rintro rfl
    exact held.ne_nil hchars.symm
  · rintro ⟨hne, hclean⟩
    have hchars : name.toList ≠ [] := fun h => hne (String.toList_eq_nil_iff.mp h)
    exact ⟨.plain (.value ⟨0, .object ⟨name.toList, hchars, hclean⟩⟩), toList_ofBareName name⟩

/-- A class is the type of the name that is cut out of its descriptor. -/
theorem eq_ofBareName (h : t.descriptor.toList = d.chars) (hsort : t.sort = .ok .object) :
    ∃ name, IsBareName name ∧ t = ofBareName name := by
  obtain ⟨held, rfl⟩ :=
    Descriptor.eq_object_of_sort (Except.ok.inj ((sort_of_chars h).symm.trans hsort))
  have hsame : t = ofBareName (String.ofList held.chars) := by
    have htext : t.descriptor = (ofBareName (String.ofList held.chars)).descriptor := by
      apply String.toList_inj.mp
      rw [h, toList_ofBareName, String.toList_ofList]
      rfl
    cases t
    exact congrArg mk htext
  exact ⟨_, chars_ofBareName_iff.mp ⟨_, hsame ▸ h⟩, hsame⟩

end Classes

section Names

theorem ofInternalName_array (h : StartsAsArray name) : ofInternalName name = ofDescriptor name :=
  if_pos h

theorem ofInternalName_class (h : ¬ StartsAsArray name) :
    ofInternalName name = ofDescriptor (ofBareName name).descriptor := if_neg h

theorem sort_of_startsAsArray (h : ofDescriptor name = .ok t) (harray : StartsAsArray name) :
    t.sort = .ok .array := by
  obtain ⟨rfl, d, hd⟩ := ofDescriptor_eq_ok_iff.mp h
  rw [StartsAsArray, hd] at harray
  rw [sort_of_chars hd, d.head_eq_bracket_iff.mp harray]

/-- An array goes by its descriptor. -/
theorem internalName_of_array (hsort : t.sort = .ok .array) : t.internalName = .ok t.descriptor := by
  simp only [internalName, hsort]

/-- There is a type of a name if the name is an array descriptor, or else a bare name; and then it is
the type that goes by the name. -/
theorem ofInternalName_eq_ok_iff : ofInternalName name = .ok t ↔
    (StartsAsArray name ∧ ofDescriptor name = .ok t) ∨
      (¬ StartsAsArray name ∧ IsBareName name ∧ t = ofBareName name) := by
  by_cases harray : StartsAsArray name
  · simp [ofInternalName_array harray, harray]
  · rw [ofInternalName_class harray, ofDescriptor_eq_ok_iff]
    simp only [harray, false_and, false_or, not_false_eq_true, true_and]
    constructor
    · rintro ⟨htext, d, hd⟩
      have hsame : t = ofBareName name := by
        cases t
        exact congrArg mk htext
      exact ⟨chars_ofBareName_iff.mp ⟨d, hsame ▸ hd⟩, hsame⟩
    · rintro ⟨hbare, rfl⟩
      exact ⟨rfl, chars_ofBareName_iff.mpr hbare⟩

theorem exists_ofInternalName_iff : (∃ t, ofInternalName name = .ok t) ↔
    (StartsAsArray name ∧ ∃ names, decodeDescriptor name = .ok names) ∨
      (¬ StartsAsArray name ∧ IsBareName name) := by
  have hdecode : (∃ t, ofDescriptor name = .ok t) ↔ ∃ names, decodeDescriptor name = .ok names := by
    unfold ofDescriptor decodeDescriptor
    cases Descriptor.parse name <;> simp [Except.map]
  simp only [ofInternalName_eq_ok_iff, exists_or, exists_and_left, hdecode, exists_eq, and_true]

end Names

end TypeConstant

open TypeConstant in
/-- There is a type of an internal name just if the name starts with a bracket and is a descriptor, or
starts with none, is not empty and holds no semicolon. The type goes by that name, and is an array or a
class. In turn every array is the type of its internal name, and so is every class whose name does not
start with a bracket. -/
theorem internalNames_and_types :
    (∀ name : String,
      ((∃ t, ofInternalName name = .ok t) ↔
        (StartsAsArray name ∧ ∃ names, decodeDescriptor name = .ok names) ∨
          (¬ StartsAsArray name ∧ name ≠ "" ∧ ';' ∉ name.toList)) ∧
      ∀ t, ofInternalName name = .ok t →
        t.internalName = .ok name ∧ (StartsAsArray name → t.sort = .ok .array) ∧
          (¬ StartsAsArray name → t.sort = .ok .object)) ∧
    ∀ text t, ofDescriptor text = .ok t →
      (t.sort = .ok .array ∨
        t.sort = .ok .object ∧ ∀ name, t.internalName = .ok name → ¬ StartsAsArray name) →
      ∃ name, t.internalName = .ok name ∧ ofInternalName name = .ok t := by
  refine ⟨fun name => ⟨exists_ofInternalName_iff, ?_⟩, ?_⟩
  · intro t h
    rcases ofInternalName_eq_ok_iff.mp h with ⟨harray, htype⟩ | ⟨hclass, -, rfl⟩
    · have hsort := sort_of_startsAsArray htype harray
      obtain ⟨rfl, -⟩ := ofDescriptor_eq_ok_iff.mp htype
      exact ⟨internalName_of_array hsort, fun _ => hsort, fun hnot => absurd harray hnot⟩
    · exact ⟨internalName_ofBareName name, fun harray => absurd harray hclass,
        fun _ => sort_ofBareName name⟩
  · intro text t h hsort
    obtain ⟨rfl, d, hd⟩ := ofDescriptor_eq_ok_iff.mp h
    rcases hsort with hsort | ⟨hsort, hname⟩
    · have harray : StartsAsArray t.descriptor := by
        rw [StartsAsArray, hd, d.head_eq_bracket_iff]
        exact Except.ok.inj ((sort_of_chars hd).symm.trans hsort)
      exact ⟨_, internalName_of_array hsort, ofInternalName_eq_ok_iff.mpr (.inl ⟨harray, h⟩)⟩
    · obtain ⟨name, hbare, rfl⟩ := eq_ofBareName hd hsort
      have hcut := internalName_ofBareName name
      exact ⟨name, hcut, ofInternalName_eq_ok_iff.mpr (.inr ⟨hname name hcut, hbare, rfl⟩)⟩

/-- A name that ends in a bracket, one that holds a semicolon, and an array. -/
theorem internalNames_and_types_samples :
    (TypeConstant.ofBareName "p/C[").internalName = .ok "p/C[" ∧
    (TypeConstant.ofBareName "p/C[").sort = .ok .object ∧
    (¬ ∃ t, TypeConstant.ofInternalName "p/C;" = .ok t) ∧
    ∃ name, (TypeConstant.mk "[[Lp/C;").internalName = .ok name ∧
      TypeConstant.ofInternalName name = .ok ⟨"[[Lp/C;"⟩ := by
  obtain ⟨hnames, htypes⟩ := internalNames_and_types
  have hclass : ¬ StartsAsArray "p/C[" := by decide
  have hbracket : TypeConstant.ofInternalName "p/C[" = .ok (.ofBareName "p/C[") :=
    TypeConstant.ofInternalName_eq_ok_iff.mpr (.inr ⟨hclass, by decide, rfl⟩)
  obtain ⟨hname, -, hsort⟩ := (hnames "p/C[").2 _ hbracket
  have hgrid : TypeConstant.ofDescriptor "[[Lp/C;" = .ok ⟨"[[Lp/C;"⟩ :=
    TypeConstant.ofDescriptor_eq_ok_iff.mpr ⟨rfl, .plain (.value objectGrid), by decide⟩
  refine ⟨hname, hsort hclass, ?_, htypes _ _ hgrid (.inl rfl)⟩
  rw [(hnames "p/C;").1]
  rintro (⟨harray, -⟩ | ⟨-, hbare⟩)
  · exact absurd harray (by decide)
  · exact absurd hbare (by decide)

end ClassUsage
