import ClassUsage.File.Path
import ClassUsage.Text.Quoted

/-!
Reading files. A reader gives the octets of a file or says why there are none; one reader is a
directory tree in memory, taken as the working directory.
-/
namespace ClassUsage

inductive FileProblem where
  | notFound
  | isDirectory
  | notDirectory
  | nameTooLong
  | other (text : String)
  deriving DecidableEq, Repr

structure FileFault where
  problem : FileProblem
  path : Path
  deriving DecidableEq, Repr

def FileProblem.message : FileProblem → String
  | .notFound => "[Errno 2] No such file or directory"
  | .isDirectory => "[Errno 21] Is a directory"
  | .notDirectory => "[Errno 20] Not a directory"
  | .nameTooLong => "[Errno 36] File name too long"
  | .other text => text

def FileFault.message (f : FileFault) : String :=
  s!"{f.problem.message}: {Text.quoted f.path.toString}"

abbrev FileReader := Path → Except FileProblem (List UInt8)

/-- Files with their content, and directories that may be empty, by the components of their paths.
The directories on the way to an entry are there too. -/
structure FileTree where
  files : List (List String × List UInt8)
  directories : List (List String)

namespace FileTree

def hasDirectory (t : FileTree) (parts : List String) : Bool :=
  t.directories.any parts.isPrefixOf || t.files.any fun (p, _) => parts.isPrefixOf p && parts != p

/-- No entry of a directory has a name of more than 255 octets. -/
def isTooLong (part : String) : Bool := 255 < part.utf8ByteSize

/-- Outside of the tree there are directories above it and nothing else. -/
def walkOutside : List String → FileProblem
  | [] => .isDirectory
  | part :: rest =>
    if part = ".." then walkOutside rest
    else if isTooLong part then .nameTooLong
    else .notFound

/-- Go on from a directory of the tree. -/
def walk (t : FileTree) (directory : List String) : List String → Except FileProblem (List UInt8)
  | [] => .error .isDirectory
  | part :: rest =>
    if part = ".." then
      if directory = [] then .error (walkOutside rest) else walk t directory.dropLast rest
    else if isTooLong part then .error .nameTooLong
    else
      let here := directory ++ [part]
      match t.files.lookup here with
      | some bytes => if rest = [] then .ok bytes else .error .notDirectory
      | none => if t.hasDirectory here then walk t here rest else .error .notFound

/-- A whole path has less than 4096 octets. -/
def read (t : FileTree) : FileReader := fun path =>
  if 4096 ≤ path.toString.utf8ByteSize then .error .nameTooLong
  else
    match path.root with
    | .relative => t.walk [] path.parts
    | _ => .error (walkOutside path.parts)

end FileTree

end ClassUsage
