import ClassUsage.Proofs.Descriptor.Decoding
import ClassUsage.Proofs.Signature.Decoding

/-!
What is left of a signature without its generic part. A class type keeps the name of its class, with
those of the classes around it; so the descriptor that is left can be decoded, and names only classes
that the signature names. An element with a signature may therefore do without its descriptor.
-/
namespace ClassUsage

/-- The signature `text` and the descriptor `desc` are accepted, and all that the descriptor names is
named by the signature. -/
def Covers (kind : SignatureKind) (text desc : String) : Prop :=
  ∃ all names, decodeSignature kind text = .ok all ∧ decodeDescriptor desc = .ok names ∧
    ∀ x ∈ names, x ∈ all

namespace Signature

/-- The element type under all dimensions of an array; any other type is its own. -/
def SignatureType.innermost : SignatureType → SignatureType
  | .reference (.array component) => component.innermost
  | t => t

/-- However its type arguments are spread over the classes around it, a class is named by its whole
path. -/
theorem ClassType.dotted_path_mem_names (c : ClassType) : dotted c.path ∈ c.names := by
  cases c with
  | outer name arguments => simp [path, names]
  | member enclosing name arguments => simp [path, names]

theorem SignatureType.erase_array (component : SignatureType) :
    (reference (.array component)).erase =
      component.erase.map fun t => ⟨t.dimensions + 1, t.element⟩ := by
  rw [erase, ReferenceType.erase]

/-- Only type variables, and arrays of them, leave no descriptor. -/
theorem SignatureType.erase_eq_none_iff (t : SignatureType) :
    t.erase = none ↔ ∃ name, t.innermost = .reference (.typeVariable name) := by
  induction t using SignatureType.innermost.induct with
  | case1 component ih =>
    rw [erase_array, Option.map_eq_none_iff, ih]
    rfl
  | case2 t hscalar =>
    cases t with
    | primitive p => exact ⟨nofun, nofun⟩
    | reference r =>
      cases r with
      | object c => exact ⟨nofun, nofun⟩
      | typeVariable name => exact ⟨fun _ => ⟨name, rfl⟩, fun _ => rfl⟩
      | array component => exact absurd rfl (hscalar component)

theorem SignatureType.names_of_erase {t : SignatureType} {f : FieldType} (h : t.erase = some f) :
    ∀ x ∈ f.names, x ∈ t.names := by
  -- one dimension at a time, down to a class whose path is one of its names
  induction t using SignatureType.innermost.induct generalizing f with
  | case1 component ih =>
    rw [erase_array] at h
    obtain ⟨g, hg, rfl⟩ := Option.map_eq_some_iff.mp h
    have hcomponent := ih hg
    exact hcomponent
  | case2 t hscalar =>
    cases t with
    | primitive p =>
      cases h
      exact nofun
    | reference r =>
      cases r with
      | object c =>
        cases h
        intro x hx
        have hname : x = dotted c.path := List.mem_singleton.mp hx
        rw [hname]
        exact c.dotted_path_mem_names
      | typeVariable name => cases h
      | array component => exact absurd rfl (hscalar component)

theorem erase_parameters {ps : List SignatureType} (h : ∀ p ∈ ps, p.erase ≠ none) :
    ∃ fs, ps.mapM SignatureType.erase = some fs ∧
      ∀ x ∈ fs.flatMap FieldType.names, x ∈ ps.flatMap SignatureType.names := by
  induction ps with
  | nil => exact ⟨[], rfl, nofun⟩
  | cons p ps ih =>
    obtain ⟨hp, hps⟩ := List.forall_mem_cons.mp h
    obtain ⟨f, hf⟩ := Option.ne_none_iff_exists'.mp hp
    obtain ⟨fs, hfs, hrest⟩ := ih hps
    refine ⟨f :: fs, by simp [hf, hfs], ?_⟩
    intro x hx
    rcases List.mem_append.mp hx with hx | hx
    · exact List.mem_append_left _ (p.names_of_erase hf x hx)
    · exact List.mem_append_right _ (hrest x hx)

namespace MethodSignature

/-- A method type names what its parts do, so it is enough to cover each of them. -/
theorem names_of_parts {m : MethodSignature} {fs : List FieldType} {r : ReturnType}
    (hparameters : ∀ x ∈ fs.flatMap FieldType.names, x ∈ m.parameters.flatMap SignatureType.names)
    (hresult : ∀ x ∈ r.names, x ∈ m.result.elim [] SignatureType.names) :
    ∀ x ∈ (MethodType.mk fs r).names, x ∈ m.names := by
  intro x hx
  have hparts : x ∈ m.parameters.flatMap SignatureType.names ++
      m.result.elim [] SignatureType.names := by
    rcases List.mem_append.mp hx with hx | hx
    · exact List.mem_append_left _ (hparameters x hx)
    · exact List.mem_append_right _ (hresult x hx)
  rw [names, List.append_assoc (m.typeParameters.flatMap TypeParameter.names)]
  exact List.mem_append_left _ (List.mem_append_right _ hparts)

theorem erase_of_parts {m : MethodSignature} (hparameters : ∀ p ∈ m.parameters, p.erase ≠ none)
    (hresult : ∀ t ∈ m.result, t.erase ≠ none) :
    ∃ e, m.erase = some e ∧ ∀ x ∈ e.names, x ∈ m.names := by
  obtain ⟨fs, hfs, hnames⟩ := erase_parameters hparameters
  cases hr : m.result with
  | none => exact ⟨⟨fs, .void⟩, by simp [erase, hfs, hr], names_of_parts hnames nofun⟩
  | some t =>
    obtain ⟨f, hf⟩ := Option.ne_none_iff_exists'.mp (hresult t hr)
    refine ⟨⟨fs, .value f⟩, by simp [erase, hfs, hr, hf], names_of_parts hnames ?_⟩
    rw [hr]
    exact t.names_of_erase hf

end MethodSignature

end Signature

open Signature

/-- A signature covers the descriptor of a tree if it names what the tree names. -/
theorem covers_render {kind : SignatureKind} {text : String} {all : List String} (d : Descriptor)
    (htext : decodeSignature kind text = .ok (.ofList all)) (hnames : ∀ x ∈ d.names, x ∈ all) :
    Covers kind text d.render := by
  refine ⟨_, _, htext, decodeDescriptor_eq_ok_iff.mpr ⟨d, rfl, rfl⟩, ?_⟩
  intro x hx
  exact NameSet.mem_ofList.mpr (hnames x (NameSet.mem_ofList.mp hx))

/-- Erasure leaves a descriptor of every type but type variables and arrays of them, and the signature
covers it. So does the signature of a method if erasure leaves something of each parameter and of the
result. -/
theorem signature_covers_erasure :
    (∀ t : SignatureType,
      (t.erase = none ↔ ∃ name, t.innermost = .reference (.typeVariable name)) ∧
        ∀ f, t.erase = some f → Covers .type t.render f.render) ∧
    (∀ m : MethodSignature, TypeParameter.separate m.typeParameters = true →
      (∀ p ∈ m.parameters, p.erase ≠ none) → (∀ t ∈ m.result, t.erase ≠ none) →
        ∃ e, m.erase = some e ∧ Covers .method m.render (Descriptor.method e).render) := by
  constructor
  · intro t
    refine ⟨t.erase_eq_none_iff, ?_⟩
    intro f hf
    have htext := decode_typeSignature_iff.mpr ⟨t, rfl, rfl⟩
    exact covers_render (.plain (.value f)) htext (t.names_of_erase hf)
  · intro m hseparate hparameters hresult
    obtain ⟨e, he, hnames⟩ := MethodSignature.erase_of_parts hparameters hresult
    have htext := decode_methodSignature_iff.mpr ⟨m, hseparate, rfl, rfl⟩
    exact ⟨e, he, covers_render (.method e) htext hnames⟩

/-- `[Lp/B<*>.D;` -/
def memberArray : SignatureType := .reference (.array (.reference (.object boundedPair.superclass)))

/-- `<T:>([Lp/B<*>.D;I)Lp/B<*>.D;^Lp/E;^TT;` -/
def memberMethod : MethodSignature :=
  { throwingMethod with
    parameters := [memberArray, .primitive .int]
    result := some (.reference (.object boundedPair.superclass)) }

theorem signature_covers_erasure_members :
    Covers .type "[Lp/B<*>.D;" "[Lp/B$D;" ∧
      Covers .method "<T:>([Lp/B<*>.D;I)Lp/B<*>.D;^Lp/E;^TT;" "([Lp/B$D;I)Lp/B$D;" := by
  obtain ⟨htypes, hmethods⟩ := signature_covers_erasure
  constructor
  · exact (htypes memberArray).2 _ rfl
  · have hparameters : ∀ p ∈ memberMethod.parameters, p.erase ≠ none := by
      simp [memberMethod, memberArray, SignatureType.erase, ReferenceType.erase]
    have hresult : ∀ t ∈ memberMethod.result, t.erase ≠ none := by
      simp [memberMethod, SignatureType.erase, ReferenceType.erase]
    obtain ⟨e, he, hcovers⟩ := hmethods memberMethod rfl hparameters hresult
    cases he
    exact hcovers

end ClassUsage
