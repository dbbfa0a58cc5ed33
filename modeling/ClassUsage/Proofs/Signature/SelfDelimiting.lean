import ClassUsage.Proofs.Signature.Descent

/-!
Types in signatures and descriptors show where they end. Wherever a part of one is read in a text,
reading comes to an end, gets ahead, and gives the same for these characters in any other place; so
no accepted type and no accepted descriptor is the start of a longer one.
-/
namespace ClassUsage

open Signature

/-- The characters of a text from one position up to another. -/
def slice (text : String) (p q : Nat) : String :=
  String.ofList ((text.toList.drop p).take (q - p))

/-- An outcome by positions: where reading left off, or where it was refused. -/
def Signature.located (text : String) : Outcome → Except DecodingError (NameSet × Nat)
  | .ok (names, rest) => .ok (names, text.length - rest.length)
  | .error f => .error (f.locate text)

namespace Signature.Reader

/-- What is read of a text from a position on. -/
def readAt (r : Reader) (text : String) (p : Nat) : Except DecodingError (NameSet × Nat) :=
  located text (r.read (text.toList.drop p))

/-- The same by calls nested at most so deep, if these come to an end. -/
def descendAt (r : Reader) (depth : Nat) (text : String) (p : Nat) :
    Option (Except DecodingError (NameSet × Nat)) :=
  (r.descend depth (text.toList.drop p)).map (located text)

variable {r : Reader} {text : String} {names : NameSet}

theorem descendAt_eq {depth p : Nat} (h : 3 * (text.length - p) + 3 ≤ depth) :
    r.descendAt depth text p = some (r.readAt text p) := by
  have hrank := r.rank_le
  have hlength : (text.toList.drop p).length = text.length - p := by
    rw [List.length_drop, String.length_toList]
  rw [descendAt, descend_eq (by omega)]
  rfl

theorem length_of_parts {before part after : List Char}
    (htext : text.toList = before ++ (part ++ after)) :
    text.length = before.length + (part.length + after.length) := by
  rw [← String.length_toList, htext, List.length_append, List.length_append]

theorem readAt_of_read {before part after : List Char}
    (htext : text.toList = before ++ (part ++ after))
    (hread : r.read (part ++ after) = .ok (names, after)) :
    r.readAt text before.length = .ok (names, before.length + part.length) := by
  rw [readAt, htext, List.drop_left, hread, located, length_of_parts htext]
  congr 2
  omega

/-- What a reader takes of a text stands between what is before and what is behind it. -/
theorem exists_part {p q : Nat} (h : r.readAt text p = .ok (names, q)) :
    ∃ before part after, text.toList = before ++ (part ++ after) ∧ before.length = p ∧
      q = p + part.length ∧ part ≠ [] ∧ ∀ more, r.read (part ++ more) = .ok (names, more) := by
  unfold readAt at h
  cases hread : r.read (text.toList.drop p) with
  | error f =>
    rw [hread] at h
    contradiction
  | ok outcome =>
    obtain ⟨found, after⟩ := outcome
    rw [hread] at h
    cases h
    obtain ⟨part, hpart, hdrop, hall⟩ := r.selfDelimiting _ _ _ hread
    have hlength : text.length - p = part.length + after.length := by
      rw [← String.length_toList, ← List.length_drop, hdrop, List.length_append]
    have hpos := List.length_pos_iff.mpr hpart
    refine ⟨text.toList.take p, part, after, ?_, ?_, by omega, hpart, hall⟩
    · rw [← hdrop, List.take_append_drop]
    · rw [List.length_take, String.length_toList]
      omega

theorem slice_eq {before part after : List Char} (htext : text.toList = before ++ (part ++ after)) :
    slice text before.length (before.length + part.length) = String.ofList part := by
  rw [slice, htext, List.drop_left, Nat.add_sub_cancel_left, List.take_left]

theorem readAt_slice {p q : Nat} (h : r.readAt text p = .ok (names, q)) :
    p < q ∧ q ≤ text.length ∧ ∀ u v : String,
      r.readAt (u ++ slice text p q ++ v) u.length = .ok (names, u.length + (q - p)) := by
  obtain ⟨before, part, after, htext, rfl, rfl, hpart, hall⟩ := exists_part h
  have hlength := length_of_parts htext
  have hpos := List.length_pos_iff.mpr hpart
  refine ⟨by omega, by omega, ?_⟩
  intro u v
  have hmoved : (u ++ slice text before.length (before.length + part.length) ++ v).toList =
      u.toList ++ (part ++ v.toList) := by
    rw [slice_eq htext]
    simp
  rw [Nat.add_sub_cancel_left, ← String.length_toList]
  exact readAt_of_read hmoved (hall v.toList)

end Signature.Reader

/-- No accepted text is the start of a longer one. -/
def PrefixFree {α : Type} (decode : String → Except DecodingError α) : Prop :=
  ∀ s t a b, decode s = .ok a → decode t = .ok b → s.toList <+: t.toList → s = t

section PrefixFreeness

theorem scan_of_decode {text : String} {names : NameSet}
    (h : decodeSignature .type text = .ok names) :
    Reader.type.read text.toList = .ok (names, []) := by
  have hall : scanAll .type text.toList = .ok names := mapError_eq_ok.mp h
  unfold scanAll at hall
  split at hall
  · next hscan =>
    cases hall
    exact hscan
  · contradiction
  · contradiction

theorem prefixFree_typeSignature : PrefixFree (decodeSignature .type) := by
  intro s t a b hs ht hst
  obtain ⟨more, hmore⟩ := hst
  have hlonger : Reader.type.read (s.toList ++ more) = .ok (b, []) := by
    rw [hmore]
    exact scan_of_decode ht
  have hnil := Reader.type.selfDelimiting.eq_nil_of_append (scan_of_decode hs) hlonger
  rw [hnil, List.append_nil] at hmore
  exact String.toList_inj.mp hmore

theorem ReturnType.eq_nil_of_append {r r' : ReturnType} {more : List Char}
    (h : r.chars ++ more = r'.chars) : more = [] := by
  have hread := r.read_chars more
  have hread' := r'.read_chars []
  rw [List.append_nil, ← h, hread] at hread'
  cases hread'
  rfl

theorem MethodType.eq_nil_of_append {m m' : MethodType} {more : List Char}
    (h : m.chars ++ more = m'.chars) : more = [] := by
  have hparts : m.parameters.flatMap FieldType.chars ++ ')' :: (m.result.chars ++ more) =
      m'.parameters.flatMap FieldType.chars ++ ')' :: m'.result.chars := by
    simpa [chars] using h
  have hread := readParameters_chars m.parameters (m.result.chars ++ more)
  have hread' := readParameters_chars m'.parameters m'.result.chars
  rw [hparts, hread'] at hread
  have hresult : m'.result.chars = m.result.chars ++ more :=
    congrArg Prod.snd (Except.ok.inj hread)
  exact ReturnType.eq_nil_of_append hresult.symm

/-- Only a method descriptor starts with a parenthesis. -/
theorem ReturnType.append_ne_method (r : ReturnType) (m : MethodType) (more : List Char) :
    r.chars ++ more ≠ m.chars := by
  intro h
  have hhead : (r.chars ++ more).head? = some '(' := by
    rw [h]
    rfl
  cases hr : r.chars with
  | nil =>
    have hread := r.readAll_chars
    rw [hr] at hread
    contradiction
  | cons c rest =>
    rw [hr] at hhead
    exact r.head_ne_paren (hr ▸ hhead)

theorem Descriptor.eq_nil_of_append {d d' : Descriptor} {more : List Char}
    (h : d.chars ++ more = d'.chars) : more = [] := by
  cases d with
  | plain r =>
    cases d' with
    | plain r' => exact ReturnType.eq_nil_of_append h
    | method m' => exact absurd h (r.append_ne_method m' more)
  | method m =>
    cases d' with
    | plain r' =>
      have hhead : r'.chars.head? = some '(' := congrArg List.head? h.symm
      exact absurd hhead r'.head_ne_paren
    | method m' => exact MethodType.eq_nil_of_append h

theorem prefixFree_descriptor : PrefixFree decodeDescriptor := by
  intro s t a b hs ht hst
  obtain ⟨d, rfl, -⟩ := decodeDescriptor_eq_ok_iff.mp hs
  obtain ⟨d', rfl, -⟩ := decodeDescriptor_eq_ok_iff.mp ht
  obtain ⟨more, hmore⟩ := hst
  rw [Descriptor.render, Descriptor.render, String.toList_ofList, String.toList_ofList] at hmore
  have hnil := Descriptor.eq_nil_of_append hmore
  rw [hnil, List.append_nil] at hmore
  rw [Descriptor.render, Descriptor.render, hmore]

end PrefixFreeness

/-- Whatever is to be read at whatever position of a text, the calls this takes come to an end, nested
no deeper than the number of characters left allows. What has been read ends behind the position and
within the text, and these characters are read alike wherever they stand. So no type signature and no
descriptor that is accepted is the start of a longer one. -/
theorem readers_self_delimiting :
    (∀ (r : Reader) (text : String) (p : Nat),
      (∀ depth, 3 * (text.length - p) + 3 ≤ depth →
        r.descendAt depth text p = some (r.readAt text p)) ∧
      ∀ names q, r.readAt text p = .ok (names, q) →
        p < q ∧ q ≤ text.length ∧ ∀ u v : String,
          r.readAt (u ++ slice text p q ++ v) u.length = .ok (names, u.length + (q - p))) ∧
    PrefixFree (decodeSignature .type) ∧ PrefixFree decodeDescriptor := by
  refine ⟨?_, prefixFree_typeSignature, prefixFree_descriptor⟩
  intro r text p
  constructor
  · intro depth hdepth
    exact Reader.descendAt_eq hdepth
  · intro names q h
    exact Reader.readAt_slice h

/-- The type parameters of a method, and their bound at another place. -/
theorem readers_self_delimiting_bound :
    (Reader.typeParameters.descendAt 66 "<T:Lp/A<*>.B;>([TT;)V" 0 =
        some (.ok (.ofList ["p.A", "p.A$B"], 14)) ∧
      Reader.classType.readAt "<T:Lp/A<*>.B;>([TT;)V" 3 = .ok (.ofList ["p.A", "p.A$B"], 13) ∧
      Reader.classType.readAt "(Lp/A<*>.B;;" 1 = .ok (.ofList ["p.A", "p.A$B"], 11)) ∧
    (decodeSignature .type "[I" = .ok ∅ ∧ ∀ names, decodeSignature .type "[I;" ≠ .ok names) ∧
    decodeDescriptor "()V" = .ok ∅ ∧ ∀ names, decodeDescriptor "()V^I" ≠ .ok names := by
  obtain ⟨hreaders, htype, hdescriptor⟩ := readers_self_delimiting
  have hparameters : Reader.typeParameters.readAt "<T:Lp/A<*>.B;>([TT;)V" 0 =
      .ok (.ofList ["p.A", "p.A$B"], 14) := rfl
  have hclass : Reader.classType.readAt "<T:Lp/A<*>.B;>([TT;)V" 3 =
      .ok (.ofList ["p.A", "p.A$B"], 13) := rfl
  have harray : decodeSignature .type "[I" = .ok ∅ := rfl
  have hvoid : decodeDescriptor "()V" = .ok ∅ :=
    decodeDescriptor_eq_ok_iff.mpr ⟨.method ⟨[], .void⟩, by decide, rfl⟩
  refine ⟨⟨?_, hclass, ?_⟩, ⟨harray, ?_⟩, hvoid, ?_⟩
  · rw [← hparameters]
    exact (hreaders .typeParameters _ 0).1 66 (by decide)
  · exact ((hreaders .classType _ 3).2 _ _ hclass).2.2 "(" ";"
  · intro names h
    exact absurd (htype _ _ _ _ harray h (by decide)) (by decide)
  · intro names h
    exact absurd (hdescriptor _ _ _ _ hvoid h (by decide)) (by decide)

end ClassUsage
