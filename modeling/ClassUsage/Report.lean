import ClassUsage.Json.Writer
import ClassUsage.Trace.Elements

/-!
The report on a class: the names of the classes it uses in order, as lines of text or as a JSON
object. Whether it lists the class itself is configured.
-/
namespace ClassUsage

inductive OutputFormat where
  | text | json
  deriving DecidableEq, Repr

def OutputFormat.name : OutputFormat → String
  | .text => "text"
  | .json => "json"

/-- How results are reported. -/
structure Config where
  debug : Bool := false
  format : OutputFormat := .text
  excludeSelf : Bool := true
  deriving DecidableEq, Repr

/-- The format that a value names, or why there is none. -/
def OutputFormat.ofValue : Json → Except String OutputFormat
  | .string "text" => .ok .text
  | .string "json" => .ok .json
  | v => .error s!"output_format must be one of ('text', 'json'), got {v.literal}"

/-- The names to report for a class; without itself if the configuration says so. -/
def Trace.report (t : Trace) (excludeSelf : Bool) (names : NameSet) : NameSet :=
  if excludeSelf then names.erase (className t.name) else names

def Trace.outputText (t : Trace) (c : Config) (names : NameSet) : String :=
  let reported := (t.report c.excludeSelf names).toList
  match c.format with
  | .json =>
    (Json.object [("class", .string (className t.name)),
      ("dependencies", .list (reported.map .string))]).write ++ "\n"
  | .text =>
    className t.name ++ "\n" ++ String.join (reported.map fun n => s!"  {n}\n")

end ClassUsage
