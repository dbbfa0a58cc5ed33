import ClassUsage.Text.Decimal
import ClassUsage.Text.Quoted

/-!
The command line. All words are told apart first: a word is a flag, a trace, or an unknown flag.
Then they are taken in order. Long flags may be shortened as far as they stay unambiguous; `--` ends
the flags. The traces are the first unbroken group of words that are no flags; what is left over is
an error.
-/
namespace ClassUsage.Command

open Text (quoted)

inductive Flag where
  | help | info | debug | json | includeSelf
  deriving DecidableEq, Repr

/-- The spellings of flags, in the order messages list them. -/
def spellings : List (String × Flag) :=
  [("-h", .help), ("--help", .help), ("--info", .info), ("--debug", .debug), ("--json", .json),
   ("--include-self", .includeSelf)]

def Flag.title (f : Flag) : String :=
  "/".intercalate ((spellings.filter fun (_, g) => g = f).map Prod.fst)

inductive UsageError where
  | ambiguous (word : String) (candidates : List String)
  | unwantedValue (flag : Flag) (value : String)
  | leftOver (words : List String)
  deriving DecidableEq, Repr

def UsageError.message : UsageError → String
  | .ambiguous word candidates =>
    s!"ambiguous option: {word} could match " ++ ", ".intercalate candidates
  | .unwantedValue flag value =>
    s!"argument {flag.title}: ignored explicit argument {quoted value}"
  | .leftOver words => "unrecognized arguments: " ++ " ".intercalate words

inductive Word where
  /-- A flag as it is spelt in full, with the value written behind it. -/
  | flag (spelling : String) (f : Flag) (value : Option String)
  | unknown (word : String)
  | trace (word : String)
  /-- The mark that ends the flags. -/
  | separator
  deriving DecidableEq, Repr

/-- What stands before and behind the first equals sign. -/
def splitValue (word : List Char) : List Char × Option String :=
  match word.dropWhile (· != '=') with
  | [] => (word, none)
  | _ :: value => (word.takeWhile (· != '='), some (String.ofList value))

def isNegativeNumber (word : List Char) : Bool :=
  match word with
  | '-' :: rest =>
    let rest := if rest.getLast? = some '\n' then rest.dropLast else rest
    let whole := rest.takeWhile Text.isDecimalDigit
    match rest.dropWhile Text.isDecimalDigit with
    | [] => !whole.isEmpty
    | '.' :: fraction => !fraction.isEmpty && fraction.all Text.isDecimalDigit
    | _ => false
  | _ => false

/-- The flags a word may stand for: a long one that it starts, with what follows an equals sign as
value, or a short one that starts the word, with the rest as value. -/
def candidates (word : List Char) : List Word :=
  match word with
  | '-' :: '-' :: _ =>
    let (name, value) := splitValue word
    spellings.filterMap fun (s, f) =>
      if name.isPrefixOf s.toList then some (.flag s f value) else none
  | '-' :: c :: rest =>
    spellings.filterMap fun (s, f) =>
      if s.toList = ['-', c] then some (.flag s f (some (String.ofList rest))) else none
  | _ => []

def Word.spelling : Word → String
  | .flag s _ _ => s
  | .unknown w => w
  | .trace w => w
  | .separator => "--"

/-- A word that does not name a flag in full. -/
def classifyOther (word : String) : Except UsageError Word :=
  match candidates word.toList with
  | [w] => .ok w
  | [] =>
    if isNegativeNumber word.toList || word.toList.contains ' ' then .ok (.trace word)
    else .ok (.unknown word)
  | ws => .error (.ambiguous word (ws.map Word.spelling))

def classify (word : String) : Except UsageError Word :=
  match word.toList with
  | '-' :: _ :: _ =>
    match spellings.lookup word with
    | some f => .ok (.flag word f none)
    | none =>
      let (name, value) := splitValue word.toList
      match value, spellings.lookup (String.ofList name) with
      | some v, some f => .ok (.flag (String.ofList name) f (some v))
      | _, _ => classifyOther word
  | _ => .ok (.trace word)

def classifyAll : List String → Except UsageError (List Word)
  | [] => .ok []
  | word :: rest =>
    if word = "--" then .ok (.separator :: rest.map .trace)
    else do
      let w ← classify word
      let ws ← classifyAll rest
      return w :: ws

structure Options where
  info : Bool := false
  debug : Bool := false
  json : Bool := false
  includeSelf : Bool := false
  traces : List String := []
  deriving DecidableEq, Repr

/-- What a command line asks for. -/
inductive Request where
  | help
  | run (o : Options)
  deriving DecidableEq, Repr

/-- Where taking words has got to: the group of traces being read, if one is, whether a group has
been read, and what is left over. -/
structure Progress where
  options : Options := {}
  reading : Bool := false
  closed : Bool := false
  left : List String := []
  deriving DecidableEq, Repr

namespace Progress

def set (p : Progress) : Flag → Progress
  | .help => p
  | .info => { p with options := { p.options with info := true } }
  | .debug => { p with options := { p.options with debug := true } }
  | .json => { p with options := { p.options with json := true } }
  | .includeSelf => { p with options := { p.options with includeSelf := true } }

/-- A flag or an unknown word ends the group of traces. -/
def endGroup (p : Progress) : Progress :=
  { p with reading := false, closed := p.closed || p.reading }

def addLeft (p : Progress) (word : String) : Progress := { p with left := p.left ++ [word] }

def addTrace (p : Progress) (word : String) : Progress :=
  { p with reading := true, options := { p.options with traces := p.options.traces ++ [word] } }

end Progress

/-- The flag behind a value. Only the short flag for help takes letters behind it, namely itself. -/
def checkValue (spelling : String) (f : Flag) : Option String → Except UsageError Unit
  | none => .ok ()
  | some value =>
    if spelling = "-h" && value != "" then
      match value.toList.dropWhile (· == 'h') with
      | [] => .ok ()
      | rest => .error (.unwantedValue f (String.ofList rest))
    else .error (.unwantedValue f value)

def take (p : Progress) : List Word → Except UsageError Request
  | [] => if p.left = [] then .ok (.run p.options) else .error (.leftOver p.left)
  | .flag spelling f value :: rest =>
    match checkValue spelling f value with
    | .error e => .error e
    | .ok () => if f = .help then .ok .help else take (p.endGroup.set f) rest
  | .unknown word :: rest => take (p.endGroup.addLeft word) rest
  | .trace word :: rest => take (if p.closed then p.addLeft word else p.addTrace word) rest
  | .separator :: rest =>
    take (if p.closed then p.addLeft "--" else { p with reading := true }) rest

def parse (args : List String) : Except UsageError Request :=
  match classifyAll args with
  | .ok words => take {} words
  | .error e => .error e

def usage : String :=
  "usage: bytecode-deps [-h] [--info] [--debug] [--json] [--include-self]\n" ++
  "                     [traces ...]\n"

def helpText : String :=
  usage ++ "\nList the classes referenced by recorded class traversals\n\n" ++
  "positional arguments:\n" ++
  "  traces          JSON class traces to analyze\n\n" ++
  "options:\n" ++
  "  -h, --help      show this help message and exit\n" ++
  "  --info          Print analyzer info and exit\n" ++
  "  --debug         Enable debug logging\n" ++
  "  --json          Print one JSON object per class\n" ++
  "  --include-self  Keep the analysed class in its own report\n"

end ClassUsage.Command
