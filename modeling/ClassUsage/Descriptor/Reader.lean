import ClassUsage.DecodingError
import ClassUsage.Descriptor.Basic

/-!
Reading descriptors. A field type ends where its element type does, so parameters need nothing
between them; the readers give back what is left behind what they read.
-/
namespace ClassUsage

/-- Read an element type. Faults in it are found at its first character. -/
def Element.read : List Char → Except Failure (Element × List Char)
  | [] => .error ⟨[], .missingElementType⟩
  | 'L' :: rest =>
    match rest.dropWhile (· != ';') with
    | [] => .error ⟨'L' :: rest, .unterminatedObjectType⟩
    | _ :: behind =>
      if h : rest.takeWhile (· != ';') = [] then .error ⟨'L' :: rest, .emptyClassName⟩
      else
        have clean : ';' ∉ rest.takeWhile (· != ';') := fun hm => by
          simpa using List.all_eq_true.mp (List.all_takeWhile (l := rest) (p := (· != ';'))) _ hm
        .ok (.object ⟨rest.takeWhile (· != ';'), h, clean⟩, behind)
  | c :: rest =>
    match Primitive.ofCode? c with
    | some p => .ok (.primitive p, rest)
    | none => .error ⟨c :: rest, .unexpectedTypeCode c⟩

/-- Read a field type. A missing element type is found where the field type starts. -/
def FieldType.read (s : List Char) : Except Failure (FieldType × List Char) :=
  match s.dropWhile (· == '[') with
  | [] => .error ⟨s, .missingElementType⟩
  | c :: rest =>
    match Element.read (c :: rest) with
    | .ok (e, behind) => .ok (⟨(s.takeWhile (· == '[')).length, e⟩, behind)
    | .error f => .error f

theorem Element.read_length {s behind : List Char} {e : Element}
    (h : Element.read s = .ok (e, behind)) : behind.length < s.length := by
  unfold Element.read at h
  split at h
  · contradiction
  · next rest =>
    split at h
    · contradiction
    · next hd =>
      have hl := (List.dropWhile_suffix (l := rest) (· != ';')).length_le
      rw [hd] at hl
      split at h
      · contradiction
      · cases h
        simp only [List.length_cons] at hl ⊢
        omega
  · split at h
    · cases h; simp
    · contradiction

theorem FieldType.read_length {s behind : List Char} {t : FieldType}
    (h : FieldType.read s = .ok (t, behind)) : behind.length < s.length := by
  unfold FieldType.read at h
  split at h
  · contradiction
  · next hd =>
    have hl := (List.dropWhile_suffix (l := s) (· == '[')).length_le
    split at h
    · next he =>
      cases h
      have := Element.read_length he
      rw [hd] at hl
      omega
    · contradiction

/-- Read the parameters of a method up to the closing parenthesis. -/
def readParameters (s : List Char) : Except Failure (List FieldType × List Char) :=
  match s with
  | [] => .error ⟨[], .unterminatedParameters⟩
  | ')' :: rest => .ok ([], rest)
  | s =>
    match _h : FieldType.read s with
    | .error f => .error f
    | .ok (t, rest) =>
      match readParameters rest with
      | .error f => .error f
      | .ok (ts, behind) => .ok (t :: ts, behind)
termination_by s.length
decreasing_by exact FieldType.read_length _h

def ReturnType.read : List Char → Except Failure (ReturnType × List Char)
  | [] => .error ⟨[], .missingReturnType⟩
  | 'V' :: rest => .ok (.void, rest)
  | s =>
    match FieldType.read s with
    | .ok (t, rest) => .ok (.value t, rest)
    | .error f => .error f

/-- Read a return type that is all there is. -/
def ReturnType.readAll (s : List Char) : Except Failure ReturnType :=
  match ReturnType.read s with
  | .ok (t, []) => .ok t
  | .ok (_, rest) => .error ⟨rest, .trailingAfterType⟩
  | .error f => .error f

def MethodType.readAll : List Char → Except Failure MethodType
  | '(' :: rest =>
    match readParameters rest with
    | .error f => .error f
    | .ok (ts, behind) =>
      match ReturnType.readAll behind with
      | .ok r => .ok ⟨ts, r⟩
      | .error f => .error f
  | s => .error ⟨s, .noParameterList⟩

def Descriptor.readAll : List Char → Except Failure Descriptor
  | [] => .error ⟨[], .emptyDescriptor⟩
  | '(' :: rest =>
    match MethodType.readAll ('(' :: rest) with
    | .ok m => .ok (.method m)
    | .error f => .error f
  | s =>
    match ReturnType.readAll s with
    | .ok t => .ok (.plain t)
    | .error f => .error f

def MethodType.parse (text : String) : Except DecodingError MethodType :=
  (MethodType.readAll text.toList).mapError (Failure.locate text)

def Descriptor.parse (text : String) : Except DecodingError Descriptor :=
  (Descriptor.readAll text.toList).mapError (Failure.locate text)

/-- The classes a descriptor names. -/
def decodeDescriptor (text : String) : Except DecodingError NameSet :=
  (Descriptor.parse text).map fun d => .ofList d.names

/-- The parameter descriptors of a method descriptor, and its return descriptor. -/
def splitMethodDescriptor (text : String) : Except DecodingError (List String × String) :=
  (MethodType.parse text).map fun m => (m.parameters.map FieldType.render, m.result.render)

end ClassUsage
