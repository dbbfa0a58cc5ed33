/-!
Double-precision numbers as exact values: mantissa times a power of two. Reading a decimal rounds
to the nearest double, a tie to the even mantissa.
-/
namespace ClassUsage

inductive Double where
  | notANumber
  | infinite (negative : Bool)
  | finite (negative : Bool) (mantissa : Nat) (exponent : Int)
  deriving DecidableEq, Repr

namespace Double

def leastExponent : Int := -1074

def greatestExponent : Int := 971

/-- The quotient rounded to the nearest integer, a tie to the even one. -/
def roundQuotient (num den : Nat) : Nat :=
  let q := num / den
  let r := num % den
  if den < 2 * r || (den = 2 * r && q % 2 = 1) then q + 1 else q

/-- Numerator and denominator of `num / den` divided by a power of two. -/
def scaleDown (num den : Nat) (exponent : Int) : Nat × Nat :=
  if 0 ≤ exponent then (num, den * Nat.pow 2 exponent.toNat)
  else (num * Nat.pow 2 (-exponent).toNat, den)

/-- The double nearest to a positive quotient. -/
def ofQuotient (negative : Bool) (num den : Nat) : Double :=
  let guess : Int := (Nat.log2 num : Int) - Nat.log2 den - 52
  let (n, d) := scaleDown num den guess
  let exponent := max leastExponent (if n / d < Nat.pow 2 52 then guess - 1 else guess)
  let (n, d) := scaleDown num den exponent
  let mantissa := roundQuotient n d
  let (mantissa, exponent) :=
    if mantissa = Nat.pow 2 53 then (Nat.pow 2 52, exponent + 1) else (mantissa, exponent)
  if greatestExponent < exponent then .infinite negative else .finite negative mantissa exponent

/-- The double nearest to a decimal. Far outside the range of doubles it is not computed with. -/
def ofDecimal (negative : Bool) (digits : Nat) (exponent : Int) : Double :=
  let size := (Nat.toDigits 10 digits).length + exponent
  if digits = 0 || size < -330 then .finite negative 0 leastExponent
  else if 310 < size then .infinite negative
  else if 0 ≤ exponent then ofQuotient negative (digits * Nat.pow 10 exponent.toNat) 1
  else ofQuotient negative digits (Nat.pow 10 (-exponent).toNat)

/-- Whether a double is exactly an integer. -/
def eqInt (x : Double) (n : Int) : Bool :=
  match x with
  | .finite negative mantissa exponent =>
    let m : Int := if negative then -mantissa else mantissa
    if 0 ≤ exponent then m * Int.pow 2 exponent.toNat = n
    else m = n * Int.pow 2 (-exponent).toNat
  | _ => false

/-- Equality of values: a zero equals the other zero, and what is no number equals nothing. -/
def same : Double → Double → Bool
  | .notANumber, _ => false
  | _, .notANumber => false
  | .finite _ 0 _, .finite _ 0 _ => true
  | x, y => x = y

end Double

end ClassUsage
