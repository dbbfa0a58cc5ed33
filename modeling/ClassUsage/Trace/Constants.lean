import ClassUsage.Trace.Lookup

/-!
Constants in a trace. An object with the key `type`, `method_type` or `handle` stands for a type or
a handle; every other value is taken over as it is.
-/
namespace ClassUsage

def readHandle (m : Members) : Except Fault Handle := do
  let tag ← m.required .integer "tag"
  let owner ← m.required .text "owner"
  let name ← m.required .text "name"
  let desc ← m.required .text "desc"
  let isInterface ← m.orElse .truth "itf" false
  return ⟨tag, owner, name, desc, isInterface⟩

def asType (r : Except DecodingError TypeConstant) : Except Fault Value :=
  match r with
  | .ok t => .ok (.type t)
  | .error e => .error (.decoding e)

def readTagged (m : Members) : Except Fault Value :=
  if m.hasKey "type" then do
    asType (TypeConstant.ofDescriptor (← m.required .text "type"))
  else if m.hasKey "method_type" then do
    asType (TypeConstant.ofMethodDescriptor (← m.required .text "method_type"))
  else if m.hasKey "handle" then do
    return .handle (← readHandle (← m.required .object "handle"))
  else .error (.trace (.unknownConstant (.object m)))

def readConstant : Json → Except Fault Value
  | .object m => readTagged m
  | v => .ok (.plain v)

def readConstants : List Json → Except Fault (List Value)
  | [] => .ok []
  | v :: rest => do
    let c ← readConstant v
    let cs ← readConstants rest
    return c :: cs

end ClassUsage
