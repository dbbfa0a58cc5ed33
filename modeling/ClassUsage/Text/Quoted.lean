import ClassUsage.Text.Printable

/-!
Text quoted for a message. Single quotes, or double ones for a text that holds a single quote and
no double one; inside, a backslash doubles the backslash and the quote in use, and characters that
cannot be printed are written by their number.
-/
namespace ClassUsage.Text

/-- The lower-case hexadecimal digits of a number, filled up with zeros to a width. -/
def hex (width n : Nat) : String :=
  let digits := Nat.toDigits 16 n
  String.ofList (List.replicate (width - digits.length) '0' ++ digits)

def quoteMark (s : String) : Char :=
  if s.contains '\x27' && !s.contains '\x22' then '\x22' else '\x27'

def escapeIn (mark c : Char) : String :=
  if c = mark || c = '\\' then String.ofList ['\\', c]
  else if c = '\n' then "\\n"
  else if c = '\r' then "\\r"
  else if c = '\t' then "\\t"
  else if isPrintable c then c.toString
  else if c.toNat < 0x100 then "\\x" ++ hex 2 c.toNat
  else if c.toNat < 0x10000 then "\\u" ++ hex 4 c.toNat
  else "\\U" ++ hex 8 c.toNat

def quoted (s : String) : String :=
  let mark := quoteMark s
  mark.toString ++ String.join (s.toList.map (escapeIn mark)) ++ mark.toString

end ClassUsage.Text
