import ClassUsage.Number.Double

/-!
JSON values. An object is the list of its members in the order written; integers have any size and
are kept apart from doubles.
-/
namespace ClassUsage

inductive Json where
  | null
  | bool (b : Bool)
  | int (n : Int)
  | float (x : Double)
  | string (s : String)
  | list (items : List Json)
  | object (members : List (String × Json))
  deriving Repr, Inhabited

/-- The members of an object, in the order written. -/
abbrev Members := List (String × Json)

namespace Members

/-- The value of a key. -/
def find? (m : Members) (key : String) : Option Json := m.lookup key

def hasKey (m : Members) (key : String) : Bool := (m.find? key).isSome

/-- Give a key a value: at its place if it has one already, else at the end. -/
def put (m : Members) (key : String) (value : Json) : Members :=
  match m with
  | [] => [(key, value)]
  | (k, v) :: rest => if k = key then (k, value) :: rest else (k, v) :: put rest key value

end Members

namespace Json

/-- The word for the kind of a value in messages about documents. -/
def typeWord : Json → String
  | .null => "NoneType"
  | .bool _ => "bool"
  | .int _ => "int"
  | .float _ => "float"
  | .string _ => "str"
  | .list _ => "list"
  | .object _ => "dict"

end Json

end ClassUsage
