/-!
Line ends and places in a text. A line ends at a line feed; a carriage return, alone or before a
line feed, is read as one.
-/
namespace ClassUsage.Text

def unifyLineEnds : List Char → List Char
  | '\r' :: '\n' :: rest => '\n' :: unifyLineEnds rest
  | '\r' :: rest => '\n' :: unifyLineEnds rest
  | c :: rest => c :: unifyLineEnds rest
  | [] => []

/-- Line and column, both counted from one, of the character at an offset. -/
structure Place where
  line : Nat
  column : Nat
  deriving DecidableEq, Repr

def placeOf (text : List Char) (offset : Nat) : Place :=
  let before := text.take offset
  ⟨before.count '\n' + 1, (before.reverse.takeWhile (· != '\n')).length + 1⟩

end ClassUsage.Text
