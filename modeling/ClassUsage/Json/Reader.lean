import ClassUsage.Json.Token
import ClassUsage.Text.Lines

/-!
Reading a JSON text: a machine over its tokens, with the open lists and objects on a stack. The
first token that does not fit is the fault.
-/
namespace ClassUsage.Json

/-- A list or object that is still open, with what it holds so far; an object waits for the value
of a key. -/
inductive OpenValue where
  | list (done : List Json)
  | object (done : Members) (key : String)

/-- What may come next. -/
inductive Expected where
  | value
  /-- A value, or the end of an empty list. -/
  | firstItem
  | key (done : Members)
  /-- A key, or the end of an empty object. -/
  | firstKey
  | colon (done : Members) (key : String)
  /-- What follows a complete value. -/
  | next (v : Json)

def readTokens : Expected → List OpenValue → List (Nat × Token) → Except Fault Json
  | _, _, [] => .error ⟨.expectingValue, 0⟩
  | .value, outer, (place, token) :: rest => valueToken outer place token rest
  | .firstItem, outer, (place, token) :: rest =>
    match token, outer with
    | .closeBracket, .list done :: outer => readTokens (.next (.list done.reverse)) outer rest
    | token, outer => valueToken outer place token rest
  | .key done, outer, (place, token) :: rest =>
    match token with
    | .text s => readTokens (.colon done s) outer rest
    | .badText f => .error f
    | _ => .error ⟨.expectingKey, place⟩
  | .firstKey, outer, (place, token) :: rest =>
    match token with
    | .text s => readTokens (.colon [] s) outer rest
    | .closeBrace => readTokens (.next (.object [])) outer rest
    | .badText f => .error f
    | _ => .error ⟨.expectingKey, place⟩
  | .colon done key, outer, (place, token) :: rest =>
    match token with
    | .colon => readTokens .value (.object done key :: outer) rest
    | _ => .error ⟨.expectingColon, place⟩
  | .next v, outer, (place, token) :: rest =>
    match outer, token with
    | [], .finish => .ok v
    | [], _ => .error ⟨.extraData, place⟩
    | .list done :: outer, .comma => readTokens .value (.list (v :: done) :: outer) rest
    | .list done :: outer, .closeBracket =>
      readTokens (.next (.list (v :: done).reverse)) outer rest
    | .object done key :: outer, .comma => readTokens (.key (done.put key v)) outer rest
    | .object done key :: outer, .closeBrace =>
      readTokens (.next (.object (done.put key v))) outer rest
    | _, _ => .error ⟨.expectingComma, place⟩
where
  valueToken (outer : List OpenValue) (place : Nat) (token : Token) (rest : List (Nat × Token)) :
      Except Fault Json :=
    match token with
    | .text s => readTokens (.next (.string s)) outer rest
    | .scalar v => readTokens (.next v) outer rest
    | .openBracket => readTokens .firstItem (.list [] :: outer) rest
    | .openBrace => readTokens .firstKey outer rest
    | .badText f => .error f
    | _ => .error ⟨.expectingValue, place⟩

def parse (text : List Char) : Except Fault Json :=
  match text with
  | '\ufeff' :: _ => .error ⟨.byteOrderMark, 0⟩
  | _ => readTokens .value [] (Token.scan 0 text)

def Fault.message (text : List Char) (f : Fault) : String :=
  let place := Text.placeOf text f.offset
  s!"{f.problem.message}: line {place.line} column {place.column} (char {f.offset})"

end ClassUsage.Json
