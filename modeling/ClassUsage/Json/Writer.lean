import ClassUsage.Json.Basic
import ClassUsage.Number.Shortest
import ClassUsage.Text.Quoted

/-!
JSON text in ASCII on one line. Characters outside the printable ASCII range are escaped by their
UTF-16 units.
-/
namespace ClassUsage.Json

open Text (hex)

def escapeChar (c : Char) : String :=
  if c = '\x22' then "\\\x22"
  else if c = '\\' then "\\\\"
  else if c = '\n' then "\\n"
  else if c = '\r' then "\\r"
  else if c = '\t' then "\\t"
  else if c = '\x08' then "\\b"
  else if c = '\x0c' then "\\f"
  else if 0x20 ≤ c.toNat && c.toNat ≤ 0x7e then c.toString
  else if c.toNat < 0x10000 then "\\u" ++ hex 4 c.toNat
  else
    let n := c.toNat - 0x10000
    "\\u" ++ hex 4 (0xd800 + n / 0x400) ++ "\\u" ++ hex 4 (0xdc00 + n % 0x400)

def writeString (s : String) : String :=
  "\x22" ++ String.join (s.toList.map escapeChar) ++ "\x22"

def writeFloat : Double → String
  | .notANumber => "NaN"
  | .infinite negative => if negative then "-Infinity" else "Infinity"
  | x => x.render

mutual

def write : Json → String
  | .null => "null"
  | .bool b => if b then "true" else "false"
  | .int n => toString n
  | .float x => writeFloat x
  | .string s => writeString s
  | .list items => "[" ++ ", ".intercalate (writeItems items) ++ "]"
  | .object members => "\x7b" ++ ", ".intercalate (writeMembers members) ++ "\x7d"

def writeItems : List Json → List String
  | [] => []
  | v :: rest => write v :: writeItems rest

def writeMembers : List (String × Json) → List String
  | [] => []
  | (key, v) :: rest => (writeString key ++ ": " ++ write v) :: writeMembers rest

end

end ClassUsage.Json
