import Mathlib.Logic.ExistsUnique
import ClassUsage.Proofs.Signature.Acceptance
import ClassUsage.Proofs.Signature.Unambiguous

/-!
Decoding a signature accepts exactly the written forms of its trees and gives the classes that the
tree names. Each accepted text is the written form of one tree; where type parameters are declared,
of one in which none could be taken for the bound of the one before it.
-/
namespace ClassUsage

open Signature

def Signature.SignatureType.render (t : SignatureType) : String := String.ofList t.chars

def Signature.ClassSignature.render (s : ClassSignature) : String := String.ofList s.chars

def Signature.MethodSignature.render (m : MethodSignature) : String := String.ofList m.chars

/-- A signature is decoded exactly if the frame it starts with stands for the whole text. -/
theorem decodeSignature_eq_ok_iff {kind : SignatureKind} {text : String} {names : NameSet} :
    decodeSignature kind text = .ok names ↔
      ∃ n, kind.start.Reads text.toList n ∧ names = .ofList n := by
  rw [← scanAll_eq_ok_iff]
  exact mapError_eq_ok

theorem render_eq_iff {chars : List Char} {text : String} :
    String.ofList chars = text ↔ text.toList = chars := by
  constructor
  · rintro rfl
    exact String.toList_ofList
  · rintro rfl
    exact String.ofList_toList

theorem decode_typeSignature_iff {text : String} {names : NameSet} :
    decodeSignature .type text = .ok names ↔
      ∃ t : SignatureType, t.render = text ∧ names = .ofList t.names := by
  rw [decodeSignature_eq_ok_iff]
  constructor
  · rintro ⟨_, ⟨t, ht, rfl⟩, rfl⟩
    exact ⟨t, render_eq_iff.mpr ht, rfl⟩
  · rintro ⟨t, ht, rfl⟩
    exact ⟨_, ⟨t, render_eq_iff.mp ht, rfl⟩, rfl⟩

theorem decode_classSignature_iff {text : String} {names : NameSet} :
    decodeSignature .classFile text = .ok names ↔
      ∃ s : ClassSignature, TypeParameter.separate s.typeParameters = true ∧ s.render = text ∧
        names = .ofList s.names := by
  rw [decodeSignature_eq_ok_iff]
  constructor
  · rintro ⟨_, ⟨s, hsep, hs, rfl⟩, rfl⟩
    exact ⟨s, hsep, render_eq_iff.mpr hs, rfl⟩
  · rintro ⟨s, hsep, hs, rfl⟩
    exact ⟨_, ⟨s, hsep, render_eq_iff.mp hs, rfl⟩, rfl⟩

theorem decode_methodSignature_iff {text : String} {names : NameSet} :
    decodeSignature .method text = .ok names ↔
      ∃ m : MethodSignature, TypeParameter.separate m.typeParameters = true ∧ m.render = text ∧
        names = .ofList m.names := by
  rw [decodeSignature_eq_ok_iff]
  constructor
  · rintro ⟨_, ⟨m, hsep, hm, rfl⟩, rfl⟩
    exact ⟨m, hsep, render_eq_iff.mpr hm, rfl⟩
  · rintro ⟨m, hsep, hm, rfl⟩
    exact ⟨_, ⟨m, hsep, render_eq_iff.mp hm, rfl⟩, rfl⟩

/-- A type signature is accepted exactly if it is the written form of a type, which is then the only
one, and the classes found are those that the type names. -/
theorem typeSignature_decoding_exact :
    (∀ t : SignatureType, decodeSignature .type t.render = .ok (.ofList t.names)) ∧
    (∀ text : String, (∃ names, decodeSignature .type text = .ok names) ↔
      ∃! t : SignatureType, t.render = text) := by
  constructor
  · intro t
    exact decode_typeSignature_iff.mpr ⟨t, rfl, rfl⟩
  · intro text
    constructor
    · rintro ⟨names, h⟩
      obtain ⟨t, rfl, rfl⟩ := decode_typeSignature_iff.mp h
      refine ⟨t, rfl, ?_⟩
      intro u hu
      exact SignatureType.chars_injective (String.ofList_injective hu)
    · rintro ⟨t, rfl, -⟩
      exact ⟨_, decode_typeSignature_iff.mpr ⟨t, rfl, rfl⟩⟩

/-- The signatures of classes and methods are accepted exactly if they are written forms of trees
whose type parameters can be told apart. Then there is one such tree, and the classes found are
those that its parts name. -/
theorem declarationSignature_decoding_exact :
    (∀ s : ClassSignature, TypeParameter.separate s.typeParameters = true →
      decodeSignature .classFile s.render = .ok (.ofList s.names)) ∧
    (∀ text : String, (∃ names, decodeSignature .classFile text = .ok names) ↔
      ∃! s : ClassSignature, TypeParameter.separate s.typeParameters = true ∧ s.render = text) ∧
    (∀ m : MethodSignature, TypeParameter.separate m.typeParameters = true →
      decodeSignature .method m.render = .ok (.ofList m.names)) ∧
    (∀ text : String, (∃ names, decodeSignature .method text = .ok names) ↔
      ∃! m : MethodSignature, TypeParameter.separate m.typeParameters = true ∧ m.render = text) := by
  refine ⟨?_, ?_, ?_, ?_⟩
  · intro s hs
    exact decode_classSignature_iff.mpr ⟨s, hs, rfl, rfl⟩
  · intro text
    constructor
    · rintro ⟨names, h⟩
      obtain ⟨s, hs, rfl, rfl⟩ := decode_classSignature_iff.mp h
      refine ⟨s, ⟨hs, rfl⟩, ?_⟩
      rintro u ⟨hu, hrender⟩
      exact ClassSignature.chars_injective hu hs (String.ofList_injective hrender)
    · rintro ⟨s, ⟨hs, rfl⟩, -⟩
      exact ⟨_, decode_classSignature_iff.mpr ⟨s, hs, rfl, rfl⟩⟩
  · intro m hm
    exact decode_methodSignature_iff.mpr ⟨m, hm, rfl, rfl⟩
  · intro text
    constructor
    · rintro ⟨names, h⟩
      obtain ⟨m, hm, rfl, rfl⟩ := decode_methodSignature_iff.mp h
      refine ⟨m, ⟨hm, rfl⟩, ?_⟩
      rintro u ⟨hu, hrender⟩
      exact MethodSignature.chars_injective hu hm (String.ofList_injective hrender)
    · rintro ⟨m, ⟨hm, rfl⟩, -⟩
      exact ⟨_, decode_methodSignature_iff.mpr ⟨m, hm, rfl, rfl⟩⟩

/-- The identifier of one letter. -/
def letter (c : Char) (h : isStop c = false) : Identifier := ⟨[c], by simp, by simpa using h⟩

/-- The class of one letter in the package `p`. -/
def inPackage (c : Char) (h : isStop c = false) : OuterName :=
  ⟨['p', '/', c], by simp, by
    have hp : isStop 'p' = false := rfl
    simp [isPathChar, hp, h]⟩

/-- `<T:Lp/C;U::Lp/I<-TT;>;>Lp/B<*>.D;Lp/J;` -/
def boundedPair : ClassSignature where
  typeParameters :=
    [⟨letter 'T' rfl, some (.object (.outer (inPackage 'C' rfl) [])), []⟩,
      ⟨letter 'U' rfl, none, [.object (.outer (inPackage 'I' rfl)
        [.type .lower (.typeVariable (letter 'T' rfl))])]⟩]
  superclass := .member (.outer (inPackage 'B' rfl) [.any]) (letter 'D' rfl) []
  interfaces := [.outer (inPackage 'J' rfl) []]

/-- `<T:>([TT;I)V^Lp/E;^TT;` -/
def throwingMethod : MethodSignature where
  typeParameters := [⟨letter 'T' rfl, none, []⟩]
  parameters :=
    [.reference (.array (.reference (.typeVariable (letter 'T' rfl)))), .primitive .int]
  result := none
  throws := [.object (.outer (inPackage 'E' rfl) []), .typeVariable (letter 'T' rfl)]

theorem declarationSignature_decoding_samples :
    (TypeParameter.separate boundedPair.typeParameters = true ∧
      decodeSignature .classFile "<T:Lp/C;U::Lp/I<-TT;>;>Lp/B<*>.D;Lp/J;" =
        .ok (.ofList ["p.C", "p.I", "p.B", "p.B$D", "p.J"])) ∧
    TypeParameter.separate throwingMethod.typeParameters = true ∧
      decodeSignature .method "<T:>([TT;I)V^Lp/E;^TT;" = .ok (.ofList ["p.E"]) :=
  ⟨⟨by decide, declarationSignature_decoding_exact.1 boundedPair (by decide)⟩,
    by decide, declarationSignature_decoding_exact.2.2.1 throwingMethod (by decide)⟩

end ClassUsage
