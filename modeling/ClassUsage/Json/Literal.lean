import ClassUsage.Json.Basic
import ClassUsage.Number.Shortest
import ClassUsage.Text.Quoted

/-!
JSON values as they are shown in messages: texts quoted, doubles in their shortest form, lists and
objects in brackets with their parts in order.
-/
namespace ClassUsage.Json

open Text (quoted)

mutual

def literal : Json → String
  | .null => "None"
  | .bool b => if b then "True" else "False"
  | .int n => toString n
  | .float x => x.render
  | .string s => quoted s
  | .list items => "[" ++ ", ".intercalate (literals items) ++ "]"
  | .object members => "\x7b" ++ ", ".intercalate (memberLiterals members) ++ "\x7d"

def literals : List Json → List String
  | [] => []
  | v :: rest => literal v :: literals rest

def memberLiterals : List (String × Json) → List String
  | [] => []
  | (key, v) :: rest => (quoted key ++ ": " ++ literal v) :: memberLiterals rest

end

/-- A list of texts as it is shown in messages. -/
def textListLiteral (texts : List String) : String :=
  "[" ++ ", ".intercalate (texts.map quoted) ++ "]"

end ClassUsage.Json
