/-!
# Double-precision numbers

Numbers `mantissa * 2 ^ exponent` with at most 53 binary digits: the one nearest to a decimal, and the decimal with
the fewest digits that reads back.
-/
namespace EnvAudit.Toml

/-- A number without its sign. -/
structure Scaled where
  mantissa : Nat
  exponent : Int
  deriving DecidableEq, Repr

inductive Double where
  | finite (negative : Bool) (value : Scaled)
  | infinite (negative : Bool)
  | notANumber
  deriving DecidableEq, Repr

/-- A decimal without its sign, `digits * 10 ^ power`. -/
structure Decimal where
  digits : Nat
  power : Int
  deriving DecidableEq, Repr

namespace Decimal

def numerator (decimal : Decimal) : Nat := decimal.digits * Nat.pow 10 decimal.power.toNat

def denominator (decimal : Decimal) : Nat := Nat.pow 10 (-decimal.power).toNat

private def digitsOf (value : Nat) : List Char := Nat.toDigits 10 value

/-- The decimal in positions, with at least one digit on either side of the point. -/
def positional (decimal : Decimal) : String :=
  let digits := digitsOf decimal.digits
  if 0 ≤ decimal.power then
    String.ofList (digits ++ List.replicate decimal.power.toNat '0' ++ ['.', '0'])
  else
    let places := (-decimal.power).toNat
    let padded := List.replicate (places + 1 - digits.length) '0' ++ digits
    let whole := padded.length - places
    String.ofList (padded.take whole ++ '.' :: padded.drop whole)

end Decimal

namespace Scaled

/-- The smallest exponent. -/
def leastExponent : Int := -1074

/-- The largest exponent. -/
def mostExponent : Int := 971

/-- The nearest integer to a quotient, an even one where two are equally near. -/
def roundQuotient (numerator denominator : Nat) : Nat :=
  let quotient := numerator / denominator
  let twice := 2 * (numerator % denominator)
  if twice > denominator || (twice = denominator && quotient % 2 = 1) then quotient + 1 else quotient

/-- The exponent that gives a quotient all of its binary digits. -/
private def exponentOf (numerator denominator : Nat) : Int :=
  let guess : Int := (numerator.log2 : Int) - (denominator.log2 : Int) - 52
  let scaled := (numerator * Nat.pow 2 (-guess).toNat) / (denominator * Nat.pow 2 guess.toNat)
  max leastExponent (if scaled < Nat.pow 2 52 then guess - 1 else guess)

/-- The number nearest to a quotient; none if that is too large. -/
def nearestQuotient (numerator denominator : Nat) : Option Scaled :=
  if numerator = 0 then some ⟨0, leastExponent⟩
  else
    let exponent := exponentOf numerator denominator
    let mantissa := roundQuotient (numerator * Nat.pow 2 (-exponent).toNat) (denominator * Nat.pow 2 exponent.toNat)
    let value : Scaled := if mantissa = Nat.pow 2 53 then ⟨Nat.pow 2 52, exponent + 1⟩ else ⟨mantissa, exponent⟩
    if value.exponent > mostExponent then none else some value

/-- The number nearest to a decimal; none if that is too large. Decimals far outside of the range are told by
their length. -/
def nearest (decimal : Decimal) : Option Scaled :=
  let magnitude : Int := decimal.power + (Nat.toDigits 10 decimal.digits).length
  if decimal.digits = 0 || magnitude < -400 then some ⟨0, leastExponent⟩
  else if magnitude > 400 then none
  else nearestQuotient decimal.numerator decimal.denominator

/-- Whether a decimal reads back as a number: it lies between the middles to its neighbours, ends included for an
even mantissa. -/
def readsBack (value : Scaled) (decimal : Decimal) : Bool := nearest decimal = some value

/-- The decimals next to a number with the last digit at a power of ten, the nearer one first. -/
private def neighbours (value : Scaled) (power : Int) : List Decimal :=
  let numerator := value.mantissa * Nat.pow 2 value.exponent.toNat * Nat.pow 10 (-power).toNat
  let denominator := Nat.pow 2 (-value.exponent).toNat * Nat.pow 10 power.toNat
  let below := numerator / denominator
  if 2 * (numerator % denominator) ≤ denominator then [⟨below, power⟩, ⟨below + 1, power⟩]
  else [⟨below + 1, power⟩, ⟨below, power⟩]

/-- The first decimal that reads back on grids with `count` and fewer digits more. -/
private def shortestFrom (value : Scaled) : Nat → Int → Option Decimal
  | 0, _ => none
  | count + 1, power =>
    match (neighbours value power).find? value.readsBack with
    | some decimal => some decimal
    | none => shortestFrom value count (power - 1)

/-- The decimal with the fewest digits that reads back, of two of them the nearer one. -/
def shortest (value : Scaled) : Decimal :=
  if value.mantissa = 0 then ⟨0, 0⟩
  else
    let whole := (Nat.toDigits 10 (value.mantissa * Nat.pow 2 value.exponent.toNat)).length
    let fraction := (Nat.toDigits 10 (Nat.pow 2 (-value.exponent).toNat / value.mantissa)).length
    let highest : Int := if Nat.pow 2 (-value.exponent).toNat ≤ value.mantissa then whole else 1 - (fraction : Int)
    (shortestFrom value (whole + fraction + 20) highest).getD ⟨0, 0⟩

end Scaled

namespace Double

/-- A number that is nearest to a decimal. -/
def ofDecimal (negative : Bool) (decimal : Decimal) : Double :=
  match Scaled.nearest decimal with
  | some value => finite negative value
  | none => infinite negative

def text : Double → String
  | finite negative value => (if negative then "-" else "") ++ value.shortest.positional
  | infinite negative => if negative then "-inf" else "inf"
  | notANumber => "NaN"

end Double

end EnvAudit.Toml
