import Mathlib.Data.Set.List
import ClassUsage.Proofs.Descriptor.Decoding

/-!
Method descriptors taken apart and put together. Nothing stands between parameters, and the name of a
class may hold parentheses, brackets and the letters of primitive types; but a field descriptor shows
where it ends, so the parts that were put together are the parts that are found.
-/
namespace ClassUsage

/-- The descriptor of a field: neither void nor that of a method. -/
def IsFieldDescriptor (text : String) : Prop :=
  (∃ names, decodeDescriptor text = .ok names) ∧ text ≠ "V" ∧ ¬ IsMethodDescriptor text

/-- What a method can return: a value of a field's type, or nothing. -/
def IsReturnDescriptor (text : String) : Prop := text = "V" ∨ IsFieldDescriptor text

def joinMethodDescriptor (parameters : List String) (ret : String) : String :=
  "(" ++ String.join parameters ++ ")" ++ ret

section Parts

variable {text : String}

/-- A tree that is written as `V` is no field type. -/
theorem FieldType.render_ne_void (t : FieldType) : t.render ≠ "V" := by
  obtain ⟨c, more, ht, -, hvoid⟩ := t.chars_eq_cons
  intro h
  have hchars : t.chars = ['V'] := by
    have := congrArg String.toList h
    rwa [FieldType.render, String.toList_ofList] at this
  rw [ht] at hchars
  exact hvoid (List.cons.inj hchars).1

theorem ReturnType.not_isMethodDescriptor (r : ReturnType) : ¬ IsMethodDescriptor r.render := by
  rw [IsMethodDescriptor, ReturnType.render, String.toList_ofList]
  exact r.head_ne_paren

theorem isMethodDescriptor_render (m : MethodType) :
    IsMethodDescriptor (Descriptor.method m).render := by
  rw [IsMethodDescriptor, Descriptor.render, String.toList_ofList]
  rfl

/-- Field descriptors are the written forms of field types. -/
theorem isFieldDescriptor_iff : IsFieldDescriptor text ↔ ∃ t : FieldType, t.render = text := by
  constructor
  · intro h
    obtain ⟨⟨names, hdecode⟩, hvoid, hmethod⟩ := h
    obtain ⟨d, hd, -⟩ := decodeDescriptor_eq_ok_iff.mp hdecode
    cases d with
    | method m => exact absurd (hd ▸ isMethodDescriptor_render m) hmethod
    | plain r =>
      cases r with
      | void => exact absurd hd.symm hvoid
      | value t => exact ⟨t, hd⟩
  · intro h
    obtain ⟨t, rfl⟩ := h
    have hdecode := decodeDescriptor_eq_ok_iff.mpr ⟨.plain (.value t), rfl, rfl⟩
    exact ⟨⟨_, hdecode⟩, t.render_ne_void, (ReturnType.value t).not_isMethodDescriptor⟩

theorem isReturnDescriptor_iff : IsReturnDescriptor text ↔ ∃ r : ReturnType, r.render = text := by
  constructor
  · intro h
    rcases h with h | h
    · exact ⟨.void, h.symm⟩
    · obtain ⟨t, ht⟩ := isFieldDescriptor_iff.mp h
      exact ⟨.value t, ht⟩
  · intro h
    obtain ⟨r, rfl⟩ := h
    cases r with
    | void => exact .inl rfl
    | value t => exact .inr (isFieldDescriptor_iff.mpr ⟨t, rfl⟩)

/-- Lists of field descriptors are written, entry by entry, from lists of field types. -/
theorem parameters_iff {parameters : List String} :
    (∀ p ∈ parameters, IsFieldDescriptor p) ↔
      ∃ ts : List FieldType, ts.map FieldType.render = parameters := by
  have hrange := congrArg (parameters ∈ ·) (Set.range_list_map FieldType.render)
  simp only [isFieldDescriptor_iff]
  exact (Iff.of_eq hrange).symm

end Parts

/-- A method type is written as the parts it has, joined. -/
theorem MethodType.render_eq_join (m : MethodType) :
    (Descriptor.method m).render =
      joinMethodDescriptor (m.parameters.map FieldType.render) m.result.render := by
  apply String.toList_inj.mp
  simp [joinMethodDescriptor, Descriptor.render, Descriptor.chars, MethodType.chars,
    ReturnType.render, FieldType.render, String.toList_join, List.flatMap_map]

theorem splitMethodDescriptor_render (m : MethodType) :
    splitMethodDescriptor (Descriptor.method m).render =
      .ok (m.parameters.map FieldType.render, m.result.render) := by
  have hparse : MethodType.parse (Descriptor.method m).render = .ok m :=
    MethodType.parse_eq_ok_iff.mpr rfl
  simp [splitMethodDescriptor, hparse, Except.map]

/-- A text is split into field descriptors and a return descriptor exactly if it is those parts
joined: what was split can be joined to the same text, and what was joined is split into the same
parts. -/
theorem split_iff_joined (text : String) (parameters : List String) (ret : String) :
    splitMethodDescriptor text = .ok (parameters, ret) ↔
      joinMethodDescriptor parameters ret = text ∧
        (∀ p ∈ parameters, IsFieldDescriptor p) ∧ IsReturnDescriptor ret := by
  constructor
  · intro h
    obtain ⟨m, hm, rfl, rfl⟩ := splitMethodDescriptor_eq_ok h
    have hparameters := parameters_iff.mpr ⟨m.parameters, rfl⟩
    have hret := isReturnDescriptor_iff.mpr ⟨m.result, rfl⟩
    exact ⟨m.render_eq_join.symm.trans hm, hparameters, hret⟩
  · intro h
    obtain ⟨hjoin, hparameters, hret⟩ := h
    obtain ⟨ts, rfl⟩ := parameters_iff.mp hparameters
    obtain ⟨r, rfl⟩ := isReturnDescriptor_iff.mp hret
    have hrender := MethodType.render_eq_join ⟨ts, r⟩
    rw [← hjoin, ← hrender]
    exact splitMethodDescriptor_render ⟨ts, r⟩

/-- Class names that look like the end of a parameter list, like its start and like nothing returned:
`(La)V;[[L(I;J)[LV;` -/
def lookalikes : MethodType where
  parameters :=
    [⟨0, .object ⟨['a', ')', 'V'], by decide, by decide⟩⟩,
      ⟨2, .object ⟨['(', 'I'], by decide, by decide⟩⟩, ⟨0, .primitive .long⟩]
  result := .value ⟨1, .object ⟨['V'], by decide, by decide⟩⟩

theorem split_iff_joined_lookalikes :
    splitMethodDescriptor "(La)V;[[L(I;J)[LV;" = .ok (["La)V;", "[[L(I;", "J"], "[LV;") := by
  apply (split_iff_joined _ _ _).mpr
  refine ⟨by decide, parameters_iff.mpr ⟨lookalikes.parameters, by decide⟩, ?_⟩
  exact isReturnDescriptor_iff.mpr ⟨lookalikes.result, by decide⟩

end ClassUsage
