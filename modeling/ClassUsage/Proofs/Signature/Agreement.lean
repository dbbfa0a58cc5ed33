import ClassUsage.Proofs.Descriptor.Splitting
import ClassUsage.Proofs.Signature.Decoding

/-!
Descriptors read as signatures. A descriptor ends the name of a class at the next semicolon, a
signature at any character that has a meaning of its own there. Where no class name holds one of
these, both readings give the same classes; for a field descriptor, only there.
-/
namespace ClassUsage

open Signature

/-- The characters, other than the semicolon, that a signature does not take as part of the name of
an outermost class. -/
def endsPath (c : Char) : Bool := c = '.' || c = '[' || c = '<' || c = '>' || c = ':'

/-- The name of a class that is read alike in descriptors and in signatures. -/
def InternalName.Plain (name : InternalName) : Prop := ∀ c ∈ name.chars, endsPath c = false

def Element.internalNames : Element → List InternalName
  | .primitive _ => []
  | .object name => [name]

def ReturnType.internalNames : ReturnType → List InternalName
  | .void => []
  | .value t => t.element.internalNames

/-- The class names in a descriptor, as they are written there. -/
def Descriptor.internalNames : Descriptor → List InternalName
  | .plain r => r.internalNames
  | .method m => m.parameters.flatMap (·.element.internalNames) ++ m.result.internalNames

/-- All class names in the descriptor `text` are plain. -/
def PlainNames (text : String) : Prop :=
  ∀ d : Descriptor, d.render = text → ∀ name ∈ d.internalNames, name.Plain

theorem plainNames_render {d : Descriptor} :
    PlainNames d.render ↔ ∀ name ∈ d.internalNames, name.Plain := by
  constructor
  · intro h
    exact h d rfl
  · intro h e he
    rw [Descriptor.render_injective he]
    exact h

section Reading

theorem isPathChar_iff {c : Char} : isPathChar c = true ↔ c ≠ ';' ∧ endsPath c = false := by
  by_cases hslash : c = '/'
  · subst hslash
    decide
  · grind [isPathChar, isStop, endsPath]

/-- A plain name can be that of an outermost class, and no other can. -/
theorem InternalName.plain_iff {name : InternalName} :
    name.Plain ↔ ∀ c ∈ name.chars, isPathChar c = true := by
  constructor
  · intro h c hc
    have hne : c ≠ ';' := fun e => name.no_semicolon (e ▸ hc)
    exact isPathChar_iff.mpr ⟨hne, h c hc⟩
  · intro h c hc
    exact (isPathChar_iff.mp (h c hc)).2

/-- The class with a plain name, as a signature has it. -/
def InternalName.outermost (name : InternalName) (h : name.Plain) : ClassType :=
  .outer ⟨name.chars, name.ne_nil, InternalName.plain_iff.mp h⟩ []

theorem InternalName.inside_outermost (name : InternalName) (h : name.Plain) :
    (name.outermost h).inside = name.chars := by
  simp [outermost, ClassType.inside, argumentsChars, bracketed]

theorem Element.readAsType {e : Element} (h : ∀ name ∈ e.internalNames, name.Plain) :
    Frame.type.Reads e.chars e.names := by
  cases e with
  | primitive p => exact ⟨.primitive p, rfl, rfl⟩
  | object name =>
    have hplain := h name List.mem_cons_self
    refine ⟨.reference (.object (name.outermost hplain)), ?_, rfl⟩
    rw [SignatureType.chars, ReferenceType.chars, name.inside_outermost, chars]

/-- A signature reads the dimensions of an array one by one. -/
theorem FieldType.readAsType {t : FieldType} (h : ∀ name ∈ t.element.internalNames, name.Plain) :
    Frame.type.Reads t.chars t.names := by
  obtain ⟨n, e⟩ := t
  induction n with
  | zero => exact e.readAsType h
  | succ n ih =>
    obtain ⟨s, hchars, hnames⟩ := ih h
    refine ⟨.reference (.array s), ?_, hnames⟩
    rw [SignatureType.chars, ReferenceType.chars, ← hchars]
    rfl

theorem readAsParameters {ts : List FieldType}
    (h : ∀ t ∈ ts, ∀ name ∈ t.element.internalNames, name.Plain) :
    Frame.parameters.Reads (ts.flatMap FieldType.chars ++ [')']) (ts.flatMap FieldType.names) := by
  induction ts with
  | nil => exact ⟨[], rfl, rfl⟩
  | cons t ts ih =>
    obtain ⟨ht, hts⟩ := List.forall_mem_cons.mp h
    obtain ⟨s, hchars, hnames⟩ := FieldType.readAsType ht
    obtain ⟨ss, hrest, hothers⟩ := ih hts
    refine ⟨s :: ss, ?_, ?_⟩
    · rw [List.flatMap_cons, List.append_assoc, hrest, hchars, List.flatMap_cons, List.append_assoc]
    · rw [List.flatMap_cons, List.flatMap_cons, hnames, hothers]

theorem ReturnType.readAsResult {r : ReturnType} (h : ∀ name ∈ r.internalNames, name.Plain) :
    Frame.result.Reads r.chars r.names := by
  cases r with
  | void => exact ⟨none, rfl, rfl⟩
  | value t =>
    obtain ⟨s, hchars, hnames⟩ := FieldType.readAsType h
    exact ⟨some s, hchars, hnames⟩

/-- A method type is read as a signature that declares no type parameters and nothing thrown. -/
theorem MethodType.readAsSignature {m : MethodType}
    (h : ∀ name ∈ (Descriptor.method m).internalNames, name.Plain) :
    Frame.methodSignature.Reads m.chars m.names := by
  obtain ⟨hparameters, hresult⟩ := List.forall_mem_append.mp h
  obtain ⟨ss, hlist, hnames⟩ := readAsParameters (List.forall_mem_flatMap.mp hparameters)
  obtain ⟨r, hchars, hothers⟩ := m.result.readAsResult hresult
  refine ⟨⟨[], ss, r, []⟩, rfl, ?_, ?_⟩
  · calc
      m.chars = '(' :: ((m.parameters.flatMap FieldType.chars ++ [')']) ++ m.result.chars) := by
        simp [chars]
      _ = '(' :: ((ss.flatMap SignatureType.chars ++ [')']) ++
          r.elim ['V'] SignatureType.chars) := by
        rw [hlist, hchars]
      _ = _ := by simp [MethodSignature.chars, typeParametersChars, bracketed]
  · simp [names, MethodSignature.names, hnames, hothers]

end Reading

section Divergence

theorem length_dotted (name : List Char) : (dotted name).length = name.length := by
  simp [dotted]

/-- A class type that is written like a name and names nothing else is that of an outermost class. -/
theorem Signature.ClassType.path_of_inside {c : ClassType} {chars : List Char}
    (hinside : c.inside = chars) (hnames : ∀ x ∈ c.names, x = dotted chars) :
    ∀ x ∈ chars, isPathChar x = true := by
  obtain ⟨name, arguments, ms, rfl⟩ := c.exists_nest
  have hchars : chars = name.chars ++ (bracketed (argumentsChars arguments) ++ membersChars ms) := by
    rw [← hinside, ClassType.inside_nest, ClassType.inside, List.append_assoc]
  have hname : dotted name.chars = dotted chars := by
    apply hnames
    simp [ClassType.names_nest, ClassType.names]
  have hlength : name.chars.length = chars.length := by
    rw [← length_dotted, hname, length_dotted]
  -- the name takes up all there is, so neither arguments nor members follow it
  have hnothing : (bracketed (argumentsChars arguments) ++ membersChars ms).length = 0 := by
    have hsum := congrArg List.length hchars
    rw [List.length_append] at hsum
    omega
  rw [hchars, List.length_eq_zero_iff.mp hnothing, List.append_nil]
  exact name.path

/-- A signature that is written like an array of objects is one. -/
theorem Signature.SignatureType.class_of_chars {s : SignatureType} {n : Nat} {name : InternalName}
    (h : s.chars = (FieldType.mk n (.object name)).chars) :
    ∃ c : ClassType, c.inside = name.chars ∧ c.names = s.names := by
  induction n generalizing s with
  | zero =>
    have hchars : s.chars = 'L' :: (name.chars ++ [';']) := h
    cases s with
    | primitive p => simp [chars] at hchars
    | reference r =>
      cases r with
      | object c => exact ⟨c, List.append_cancel_right (List.cons.inj hchars).2, rfl⟩
      | typeVariable _ => simp [chars, ReferenceType.chars] at hchars
      | array _ => simp [chars, ReferenceType.chars] at hchars
  | succ n ih =>
    have hchars : s.chars = '[' :: (FieldType.mk n (.object name)).chars := h
    cases s with
    | primitive p => cases p <;> simp [chars, Primitive.code] at hchars
    | reference r =>
      cases r with
      | object _ => simp [chars, ReferenceType.chars] at hchars
      | typeVariable _ => simp [chars, ReferenceType.chars] at hchars
      | array component =>
        obtain ⟨c, hinside, hnames⟩ := ih (List.cons.inj hchars).2
        exact ⟨c, hinside, hnames⟩

/-- If reading a field type as a signature gives the same classes, the name in it is plain. -/
theorem FieldType.plain_of_reads {t : FieldType} {n : List String} (hreads : Frame.type.Reads t.chars n)
    (hnames : NameSet.ofList t.names = .ofList n) :
    ∀ name ∈ t.element.internalNames, name.Plain := by
  obtain ⟨s, hchars, rfl⟩ := hreads
  obtain ⟨k, e⟩ := t
  cases e with
  | primitive p => exact nofun
  | object name =>
    obtain ⟨c, hinside, hc⟩ := SignatureType.class_of_chars hchars.symm
    have honly : ∀ x ∈ c.names, x = dotted name.chars := by
      intro x hx
      have hmem : x ∈ NameSet.ofList s.names := NameSet.mem_ofList.mpr (hc ▸ hx)
      rw [← hnames, NameSet.mem_ofList] at hmem
      exact List.mem_singleton.mp hmem
    intro name' hname'
    rw [List.mem_singleton.mp hname']
    exact InternalName.plain_iff.mpr (c.path_of_inside hinside honly)

end Divergence

/-- A descriptor whose class names are plain is accepted as a signature as well, that of a field as a
type and that of a method as a method signature, with the same classes. With any other class name a
field descriptor is refused or names other classes; those of a method can still be the same, since what
one name lacks another may add. -/
theorem decoders_agree_on_plain_names (text : String) (names : NameSet)
    (h : decodeDescriptor text = .ok names) :
    (IsFieldDescriptor text → (decodeSignature .type text = .ok names ↔ PlainNames text)) ∧
    (IsMethodDescriptor text → PlainNames text → decodeSignature .method text = .ok names) := by
  obtain ⟨d, rfl, rfl⟩ := decodeDescriptor_eq_ok_iff.mp h
  have htext : d.render.toList = d.chars := String.toList_ofList
  rw [plainNames_render, decodeSignature_eq_ok_iff, decodeSignature_eq_ok_iff, htext]
  constructor
  · intro hfield
    obtain ⟨t, ht⟩ := isFieldDescriptor_iff.mp hfield
    obtain rfl : d = .plain (.value t) := Descriptor.render_injective ht.symm
    constructor
    · intro hreads
      obtain ⟨n, hreads, hnames⟩ := hreads
      exact t.plain_of_reads hreads hnames
    · intro hplain
      exact ⟨_, t.readAsType hplain, rfl⟩
  · intro hmethod hplain
    cases d with
    | plain r => exact absurd hmethod r.not_isMethodDescriptor
    | method m => exact ⟨_, m.readAsSignature hplain, rfl⟩

/-- `[Lp.C;` -/
def dottedArray : FieldType := ⟨1, .object ⟨['p', '.', 'C'], by decide, by decide⟩⟩

/-- The signature names `p` and its member `C` where the descriptor names one class. -/
theorem decoders_agree_on_plain_names_samples :
    decodeSignature .method "(La)V;[[L(I;J)[LV;" = .ok (.ofList ["a)V", "(I", "V"]) ∧
      decodeSignature .type "[Lp.C;" ≠ .ok (.ofList ["p.C"]) := by
  have hmethod : decodeDescriptor "(La)V;[[L(I;J)[LV;" = .ok (.ofList ["a)V", "(I", "V"]) :=
    decodeDescriptor_eq_ok_iff.mpr ⟨.method lookalikes, by decide, by decide⟩
  have hplain : PlainNames "(La)V;[[L(I;J)[LV;" := by
    apply plainNames_render (d := .method lookalikes).mpr
    simp [lookalikes, Descriptor.internalNames, ReturnType.internalNames, Element.internalNames,
      InternalName.Plain, endsPath]
  have hfield : decodeDescriptor "[Lp.C;" = .ok (.ofList ["p.C"]) :=
    decodeDescriptor_eq_ok_iff.mpr ⟨.plain (.value dottedArray), by decide, by decide⟩
  have hdotted : ¬ PlainNames "[Lp.C;" := by
    intro h
    have hname := plainNames_render (d := .plain (.value dottedArray)).mp h _ List.mem_cons_self
    simpa [endsPath] using hname '.' (by simp)
  constructor
  · exact (decoders_agree_on_plain_names _ _ hmethod).2 rfl hplain
  · intro h
    have hagree := (decoders_agree_on_plain_names _ _ hfield).1
      (isFieldDescriptor_iff.mpr ⟨dottedArray, by decide⟩)
    exact hdotted (hagree.mp h)

end ClassUsage
