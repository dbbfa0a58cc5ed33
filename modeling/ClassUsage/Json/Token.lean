import ClassUsage.Json.Basic

/-!
Tokens of a JSON text, each with the offset of its first character. The list ends with a mark for
the end of the text, or with the first characters that start no token.
-/
namespace ClassUsage.Json

/-- What is wrong with a JSON text. -/
inductive Problem where
  | expectingValue
  | expectingKey
  | expectingColon
  | expectingComma
  | extraData
  | unterminatedString
  | controlCharacter
  | badEscape
  | badUnicodeEscape
  | byteOrderMark
  deriving DecidableEq, Repr

def Problem.message : Problem → String
  | .expectingValue => "Expecting value"
  | .expectingKey => "Expecting property name enclosed in double quotes"
  | .expectingColon => "Expecting ':' delimiter"
  | .expectingComma => "Expecting ',' delimiter"
  | .extraData => "Extra data"
  | .unterminatedString => "Unterminated string starting at"
  | .controlCharacter => "Invalid control character at"
  | .badEscape => "Invalid \\escape"
  | .badUnicodeEscape => "Invalid \\uXXXX escape"
  | .byteOrderMark => "Unexpected UTF-8 BOM (decode using utf-8-sig)"

structure Fault where
  problem : Problem
  offset : Nat
  deriving DecidableEq, Repr

inductive Token where
  | openBrace
  | closeBrace
  | openBracket
  | closeBracket
  | colon
  | comma
  | text (s : String)
  | scalar (v : Json)
  | badText (f : Fault)
  | unknown
  | finish
  deriving Repr

namespace Token

def isBlank (c : Char) : Bool := c = ' ' || c = '\t' || c = '\n' || c = '\r'

def hexValue? (c : Char) : Option Nat :=
  if '0' ≤ c && c ≤ '9' then some (c.toNat - '0'.toNat)
  else if 'a' ≤ c && c ≤ 'f' then some (c.toNat - 'a'.toNat + 10)
  else if 'A' ≤ c && c ≤ 'F' then some (c.toNat - 'A'.toNat + 10)
  else none

def hexValues? (cs : List Char) : Option Nat :=
  cs.foldl (fun n c => do return (← n) * 16 + (← hexValue? c)) (some 0)

def isHighUnit (n : Nat) : Bool := 0xd800 ≤ n && n < 0xdc00

def isLowUnit (n : Nat) : Bool := 0xdc00 ≤ n && n < 0xe000

/-- The character of one UTF-16 unit; a unit of half a pair has none of its own. -/
def unitChar (n : Nat) : Char :=
  if isHighUnit n || isLowUnit n then '\ufffd' else Char.ofNat n

def pairChar (high low : Nat) : Char :=
  Char.ofNat (0x10000 + (high - 0xd800) * 0x400 + (low - 0xdc00))

def escapedChar? : Char → Option Char
  | '\x22' => some '\x22'
  | '\\' => some '\\'
  | '/' => some '/'
  | 'b' => some '\x08'
  | 'f' => some '\x0c'
  | 'n' => some '\n'
  | 'r' => some '\r'
  | 't' => some '\t'
  | _ => none

/-- Read a text behind its opening quote at `start`, from the offset `place` on. Gives the text and
the offset behind its closing quote. An escape by number needs its four digits and one more
character behind them. -/
def readText (start place : Nat) (done : List Char) : List Char → Except Fault (String × Nat)
  | [] => .error ⟨.unterminatedString, start⟩
  | '\x22' :: _ => .ok (String.ofList done.reverse, place + 1)
  | '\\' :: 'u' :: a :: b :: c :: d :: rest =>
    match rest, hexValues? [a, b, c, d] with
    | [], _ => .error ⟨.badUnicodeEscape, place + 1⟩
    | _ :: _, none => .error ⟨.badUnicodeEscape, place + 1⟩
    | '\\' :: 'u' :: a2 :: b2 :: c2 :: d2 :: e2 :: rest2, some high =>
      if isHighUnit high then
        match hexValues? [a2, b2, c2, d2] with
        | none => .error ⟨.badUnicodeEscape, place + 7⟩
        | some low =>
          if isLowUnit low then
            readText start (place + 12) (pairChar high low :: done) (e2 :: rest2)
          else
            readText start (place + 6) (unitChar high :: done)
              ('\\' :: 'u' :: a2 :: b2 :: c2 :: d2 :: e2 :: rest2)
      else
        readText start (place + 6) (unitChar high :: done)
          ('\\' :: 'u' :: a2 :: b2 :: c2 :: d2 :: e2 :: rest2)
    | e :: rest, some n => readText start (place + 6) (unitChar n :: done) (e :: rest)
  | '\\' :: 'u' :: _ => .error ⟨.badUnicodeEscape, place + 1⟩
  | ['\\'] => .error ⟨.unterminatedString, start⟩
  | '\\' :: c :: rest =>
    match escapedChar? c with
    | some e => readText start (place + 2) (e :: done) rest
    | none => .error ⟨.badEscape, place⟩
  | c :: rest =>
    if c.toNat < 0x20 then .error ⟨.controlCharacter, place⟩
    else readText start (place + 1) (c :: done) rest

def digitsValue (cs : List Char) : Nat :=
  cs.foldl (fun n c => n * 10 + (c.toNat - '0'.toNat)) 0

/-- The integer part of a number: a zero, or digits that do not start with one. -/
def integerDigits (cs : List Char) : List Char :=
  match cs with
  | '0' :: _ => ['0']
  | _ => cs.takeWhile Char.isDigit

/-- The digits behind a decimal point, if there are any. -/
def fractionDigits : List Char → List Char
  | '.' :: rest => rest.takeWhile Char.isDigit
  | _ => []

/-- An exponent and its length in characters. -/
def exponent? : List Char → Option (Int × Nat)
  | e :: rest =>
    if e = 'e' || e = 'E' then
      let (negative, signs, rest) := match rest with
        | '-' :: more => (true, 1, more)
        | '+' :: more => (false, 1, more)
        | _ => (false, 0, rest)
      let digits := rest.takeWhile Char.isDigit
      if digits.isEmpty then none
      else
        let n : Int := digitsValue digits
        some (if negative then -n else n, 1 + signs + digits.length)
    else none
  | [] => none

/-- The longest number at the start of a text, and its length. With a fraction or an exponent it is
a double. -/
def number? (cs : List Char) : Option (Json × Nat) :=
  let (negative, sign, rest) := match cs with
    | '-' :: more => (true, 1, more)
    | _ => (false, 0, cs)
  let whole := integerDigits rest
  if whole.isEmpty then none
  else
    let rest := rest.drop whole.length
    let fraction := fractionDigits rest
    let point := if fraction.isEmpty then 0 else 1 + fraction.length
    let size := sign + whole.length + point
    match exponent? (rest.drop point) with
    | some (e, n) =>
      some (.float (.ofDecimal negative (digitsValue (whole ++ fraction)) (e - fraction.length)),
        size + n)
    | none =>
      if fraction.isEmpty then
        let n : Int := digitsValue whole
        some (.int (if negative then -n else n), size)
      else
        let digits := digitsValue (whole ++ fraction)
        some (.float (.ofDecimal negative digits (-fraction.length)), size)

/-- The words that stand for values. -/
def words : List (String × Json) :=
  [("null", .null), ("true", .bool true), ("false", .bool false), ("NaN", .float .notANumber),
   ("Infinity", .float (.infinite false)), ("-Infinity", .float (.infinite true))]

def word? (cs : List Char) : Option (Json × Nat) :=
  (words.find? fun (w, _) => w.toList.isPrefixOf cs).map fun (w, v) => (v, w.length)

/-- The token at the start of a text that does not start with a blank, and its length. -/
def first (place : Nat) (c : Char) (cs : List Char) : Token × Nat :=
  match c with
  | '\x7b' => (.openBrace, 1)
  | '\x7d' => (.closeBrace, 1)
  | '[' => (.openBracket, 1)
  | ']' => (.closeBracket, 1)
  | ':' => (.colon, 1)
  | ',' => (.comma, 1)
  | '\x22' =>
    match readText place (place + 1) [] cs with
    | .ok (s, stop) => (.text s, stop - place)
    | .error f => (.badText f, 1)
  | _ =>
    match (word? (c :: cs)).or (number? (c :: cs)) with
    | some (v, size) => (.scalar v, size)
    | none => (.unknown, 1)

/-- Whether nothing can be read behind a token. -/
def isLast : Token → Bool
  | .badText _ => true
  | .unknown => true
  | _ => false

def scan (place : Nat) (cs : List Char) : List (Nat × Token) :=
  match cs with
  | [] => [(place, .finish)]
  | c :: cs =>
    if isBlank c then scan (place + 1) cs
    else
      let (token, size) := first place c cs
      if token.isLast then [(place, token)]
      else (place, token) :: scan (place + size) (cs.drop (size - 1))
termination_by cs.length

end Token

end ClassUsage.Json
