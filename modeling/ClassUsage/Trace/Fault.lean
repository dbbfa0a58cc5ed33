import ClassUsage.Json.Literal
import ClassUsage.TypeConstant

/-!
What can go wrong with a trace: the document does not have the form of a trace, a text in it cannot
be decoded, or a type constant is no type.
-/
namespace ClassUsage

open Text (quoted)

inductive TraceError where
  | unreadable (origin detail : String)
  | notAnObject (origin typeWord : String)
  | missingName (origin : String)
  | missingKey (key : String)
  | wrongKind (key phrase : String) (value : Json)
  | wrongEntry (key phrase : String) (value : Json)
  | unknownConstant (value : Json)
  | unknownInstruction (name : String)
  | unknownFrame (name : String)
  | unknownCodeEntry (value : Json)
  deriving Repr

def TraceError.message : TraceError → String
  | .unreadable origin detail => s!"{origin}: invalid JSON ({detail})"
  | .notAnObject origin typeWord => s!"{origin}: expected a JSON object, got {typeWord}"
  | .missingName origin => s!"{origin}: missing class name"
  | .missingKey key => s!"missing key {quoted key}"
  | .wrongKind key phrase value => s!"{quoted key} must be {phrase}, got {value.literal}"
  | .wrongEntry key phrase value => s!"{quoted key} entries must be {phrase}, got {value.literal}"
  | .unknownConstant value => s!"unrecognised constant {value.literal}"
  | .unknownInstruction name => s!"unknown instruction {quoted name}"
  | .unknownFrame name => s!"unknown frame type {quoted name}"
  | .unknownCodeEntry value => s!"unrecognised code entry {value.literal}"

inductive Fault where
  | trace (e : TraceError)
  | decoding (e : DecodingError)
  | type (e : TypeFault)
  deriving Repr

def Fault.message : Fault → String
  | .trace e => e.message
  | .decoding e => e.message
  | .type e => e.message

end ClassUsage
