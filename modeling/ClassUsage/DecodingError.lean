import ClassUsage.Text.Quoted

/-!
Why a descriptor or a signature cannot be decoded, and where. While a text is read, a failure holds
what is left of it; the error counts the characters before that.
-/
namespace ClassUsage

open Text (quoted)

inductive Reason where
  | emptyDescriptor
  | missingElementType
  | unterminatedObjectType
  | emptyClassName
  | unexpectedTypeCode (code : Char)
  | noParameterList
  | unterminatedParameters
  | missingReturnType
  | trailingAfterType
  | unexpectedEnd
  | expected (c : Char)
  | missingIdentifier
  | emptyTypeArguments
  | emptyTypeParameters
  | expectedReference (found : Char)
  | notThrowable
  | trailingAfterSignature
  deriving DecidableEq, Repr

def Reason.message : Reason → String
  | .emptyDescriptor => "empty descriptor"
  | .missingElementType => "missing element type"
  | .unterminatedObjectType => "unterminated object type"
  | .emptyClassName => "empty class name"
  | .unexpectedTypeCode code => "unexpected type code " ++ quoted code.toString
  | .noParameterList => "method descriptor must start with '('"
  | .unterminatedParameters => "unterminated parameter list"
  | .missingReturnType => "missing return type"
  | .trailingAfterType => "trailing characters after type"
  | .unexpectedEnd => "unexpected end of signature"
  | .expected c => "expected " ++ quoted c.toString
  | .missingIdentifier => "missing identifier"
  | .emptyTypeArguments => "empty type argument list"
  | .emptyTypeParameters => "empty type parameter list"
  | .expectedReference found => "expected reference type, found " ++ quoted found.toString
  | .notThrowable => "throws type must be a class or type variable"
  | .trailingAfterSignature => "trailing characters after signature"

/-- A failure while reading: what is left of the text from the place at fault on. -/
structure Failure where
  rest : List Char
  reason : Reason
  deriving DecidableEq, Repr

structure DecodingError where
  text : String
  position : Nat
  reason : Reason
  deriving DecidableEq, Repr

def Failure.locate (text : String) (f : Failure) : DecodingError :=
  ⟨text, text.toList.length - f.rest.length, f.reason⟩

/-- Telling where a reader failed does not change what it accepts. -/
theorem mapError_eq_ok {ε δ α : Type} {r : Except ε α} {f : ε → δ} {a : α} :
    r.mapError f = .ok a ↔ r = .ok a := by
  cases r with
  | error e => exact ⟨nofun, nofun⟩
  | ok b =>
    constructor
    · intro h
      cases h
      rfl
    · intro h
      cases h
      rfl

theorem mapError_eq_error {ε δ α : Type} {r : Except ε α} {f : ε → δ} {e : δ} :
    r.mapError f = .error e ↔ ∃ e', r = .error e' ∧ e = f e' := by
  cases r with
  | ok a => exact ⟨nofun, nofun⟩
  | error e' =>
    constructor
    · intro h
      cases h
      exact ⟨e', rfl, rfl⟩
    · rintro ⟨_, h, rfl⟩
      cases h
      rfl

section Position

variable {text : String} {f : Failure} {read : List Char}

/-- An error counts the characters that were read before the failure. -/
theorem Failure.locate_position (h : text.toList = read ++ f.rest) :
    (f.locate text).position = read.length := by
  have hlength : text.toList.length = read.length + f.rest.length := by
    rw [h, List.length_append]
  simp only [locate]
  omega

theorem Failure.position_le (f : Failure) (text : String) :
    (f.locate text).position ≤ text.length := by
  rw [← String.length_toList]
  exact Nat.sub_le _ _

theorem Failure.take_position (h : text.toList = read ++ f.rest) :
    text.toList.take (f.locate text).position = read := by
  rw [locate_position h, h]
  exact List.take_left

/-- The decoder accepts some text that starts with these characters. -/
def Continued {α : Type} (decode : String → Except DecodingError α) (chars : List Char) : Prop :=
  ∃ text a, decode text = .ok a ∧ chars <+: text.toList

theorem Continued.of_isPrefix {α : Type} {decode : String → Except DecodingError α}
    {chars start : List Char} (h : Continued decode chars) (hstart : start <+: chars) :
    Continued decode start := by
  obtain ⟨text, a, haccepted, hchars⟩ := h
  exact ⟨text, a, haccepted, hstart.trans hchars⟩

end Position

def DecodingError.message (e : DecodingError) : String :=
  let near := String.ofList ((e.text.toList.drop e.position).take 16)
  s!"{e.reason.message} at position {e.position} in {quoted e.text} (near {quoted near})"

end ClassUsage
