/-!
File paths. Empty and `.` components vanish and a final slash with them, `..` stays; two leading
slashes are kept apart from one, more are one. The empty path is `.`.
-/
namespace ClassUsage

inductive PathRoot where
  | relative | single | double
  deriving DecidableEq, Repr

def PathRoot.text : PathRoot → String
  | .relative => ""
  | .single => "/"
  | .double => "//"

structure Path where
  root : PathRoot
  parts : List String
  deriving DecidableEq, Repr

namespace Path

def splitSlashes : List Char → List (List Char)
  | [] => [[]]
  | '/' :: rest => [] :: splitSlashes rest
  | c :: rest =>
    match splitSlashes rest with
    | part :: parts => (c :: part) :: parts
    | [] => [[c]]

def ofString (s : String) : Path :=
  let slashes := (s.toList.takeWhile (· == '/')).length
  let root := match slashes with
    | 0 => .relative
    | 2 => .double
    | _ => .single
  let parts := (splitSlashes s.toList).map String.ofList
  ⟨root, parts.filter fun p => p != "" && p != "."⟩

def toString (p : Path) : String :=
  match p.root, p.parts with
  | .relative, [] => "."
  | root, parts => root.text ++ "/".intercalate parts

/-- Whether a system can be asked for the path: it takes a null character for the end. -/
def isUsable (p : Path) : Bool := p.parts.all fun part => !part.toList.contains '\x00'

end Path

end ClassUsage
