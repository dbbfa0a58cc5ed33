import ClassUsage.Number.Double

/-!
The shortest decimal that reads back as a double, and its layout in messages: positional when the
decimal exponent lies in -4 to 15, always with a fraction; else one digit, a fraction if there is
one, and an exponent with a sign and at least two digits.
-/
namespace ClassUsage.Double

/-- A decimal `0.d₁d₂… × 10 ^ point`. -/
structure Digits where
  digits : List Char
  point : Int
  deriving DecidableEq, Repr

/-- The comparison of `c × 10 ^ t` with `num / den`. -/
def compareDecimal (c : Nat) (t : Int) (num den : Nat) : Ordering :=
  if 0 ≤ t then compare (c * Nat.pow 10 t.toNat * den) num
  else compare (c * den) (num * Nat.pow 10 (-t).toNat)

/-- The `point` with `10 ^ (point - 1) ≤ num / den < 10 ^ point`. -/
def decimalPoint (num den : Nat) : Int :=
  if den ≤ num then (Nat.toDigits 10 (num / den)).length
  else
    let k := (Nat.toDigits 10 (den / num)).length
    if den ≤ num * Nat.pow 10 (k - 1) then 2 - (k : Int) else 1 - (k : Int)

/-- The real numbers that round to a double, with four times its numerator as unit. -/
structure Interval where
  low : Nat
  value : Nat
  high : Nat
  den : Nat
  closed : Bool
  deriving Repr

def interval (mantissa : Nat) (exponent : Int) : Interval :=
  let low :=
    if mantissa = Nat.pow 2 52 && leastExponent < exponent then 4 * mantissa - 1
    else 4 * mantissa - 2
  let (up, den) :=
    if 2 ≤ exponent then (Nat.pow 2 (exponent - 2).toNat, 1)
    else (1, Nat.pow 2 (2 - exponent).toNat)
  ⟨low * up, 4 * mantissa * up, (4 * mantissa + 2) * up, den, mantissa % 2 = 0⟩

def Interval.holds (i : Interval) (c : Nat) (t : Int) : Bool :=
  let below := compareDecimal c t i.low i.den
  let above := compareDecimal c t i.high i.den
  (below = .gt || (i.closed && below = .eq)) && (above = .lt || (i.closed && above = .eq))

/-- The neighbour of the value on the grid `10 ^ t` that reads back, the nearer if both do. -/
def Interval.pick? (i : Interval) (t : Int) : Option Nat :=
  let lower :=
    if 0 ≤ t then i.value / (i.den * Nat.pow 10 t.toNat)
    else i.value * Nat.pow 10 (-t).toNat / i.den
  match i.holds lower t, i.holds (lower + 1) t with
  | true, true =>
    -- twice the value against the sum of the neighbours
    match compareDecimal (2 * lower + 1) t (2 * i.value) i.den with
    | .gt => some lower
    | .lt => some (lower + 1)
    | .eq => some (if lower % 2 = 0 then lower else lower + 1)
  | true, false => some lower
  | false, true => some (lower + 1)
  | false, false => none

def dropTrailingZeros (digits : List Char) : List Char :=
  (digits.reverse.dropWhile (· == '0')).reverse

/-- The shortest digits that read back as a positive double. -/
def shortest (mantissa : Nat) (exponent : Int) : Digits :=
  let i := interval mantissa exponent
  let point := decimalPoint i.value i.den
  let found := (List.range 17).findSome? fun (k : Nat) =>
    (i.pick? (point - k - 1)).map fun c => (k + 1, c)
  let (count, c) := found.getD (17, 0)
  let digits := Nat.toDigits 10 c
  ⟨dropTrailingZeros digits, point + (digits.length - count : Int)⟩

def exponentText (e : Int) : String :=
  let digits := toString e.natAbs
  (if e < 0 then "-" else "+") ++ (if digits.length < 2 then "0" else "") ++ digits

def Digits.layout (d : Digits) : String :=
  let n := d.digits.length
  let text := String.ofList d.digits
  let zeros (k : Int) := String.ofList (List.replicate k.toNat '0')
  if d.point ≤ -4 || 16 < d.point then
    let fraction := String.ofList (d.digits.drop 1)
    String.ofList (d.digits.take 1) ++ (if fraction.isEmpty then "" else "." ++ fraction)
      ++ "e" ++ exponentText (d.point - 1)
  else if d.point ≤ 0 then "0." ++ zeros (-d.point) ++ text
  else if (n : Int) ≤ d.point then text ++ zeros (d.point - n) ++ ".0"
  else
    let (whole, fraction) := d.digits.splitAt d.point.toNat
    String.ofList whole ++ "." ++ String.ofList fraction

def render : Double → String
  | .notANumber => "nan"
  | .infinite negative => if negative then "-inf" else "inf"
  | .finite negative mantissa exponent =>
    (if negative then "-" else "") ++
      (if mantissa = 0 then "0.0" else (shortest mantissa exponent).layout)

end ClassUsage.Double
