import TreeSyntax.Number.Binary64

/-!
# Shortest decimal digits

The decimal that stands for a magnitude has the fewest digits among those that round to it, and
is the nearest to it of these.  For each digit count only the two neighbours of the magnitude on
that decimal grid need a look: a grid point rounds to it only if one of them does.  Which of two
equally near neighbours wins is left to the caller.
-/

namespace TreeSyntax

/-- The decimal `digits` times ten to the `exponent`. -/
structure Decimal where
  digits : Nat
  exponent : Int
  deriving DecidableEq, Repr

/-- Which of two equally near decimals stands for a magnitude. -/
inductive TieRule where
  | upward
  | toEven
  deriving DecidableEq, Repr

namespace Binary64

/-! ## The reals that round to a magnitude -/

def quarterExponent (rank : Nat) : Int := exponent rank - 2

/-- The lower end of the reals that round to a magnitude, in quarters of its last place. -/
def lowerQuarters (rank : Nat) : Nat :=
  4 * mantissa rank - (if mantissa rank = binadeSize ∧ -1074 < exponent rank then 1 else 2)

def upperQuarters (rank : Nat) : Nat := 4 * mantissa rank + 2

/-- Both sides of a comparison between a decimal and a count of quarters, as natural numbers. -/
def onCommonScale (rank : Nat) (decimal : Decimal) (quarters : Nat) : Nat × Nat :=
  let unit := quarterExponent rank
  (decimal.digits * Nat.pow 10 decimal.exponent.toNat * Nat.pow 2 (-unit).toNat,
    quarters * Nat.pow 2 unit.toNat * Nat.pow 10 (-decimal.exponent).toNat)

/-- The ends belong to the interval when the mantissa is even. -/
def roundsTo (rank : Nat) (decimal : Decimal) : Bool :=
  let lower := onCommonScale rank decimal (lowerQuarters rank)
  let upper := onCommonScale rank decimal (upperQuarters rank)
  if mantissa rank % 2 = 0 then lower.2 ≤ lower.1 ∧ upper.1 ≤ upper.2
  else lower.2 < lower.1 ∧ upper.1 < upper.2

def distance (rank : Nat) (decimal : Decimal) : Nat :=
  let scaled := onCommonScale rank decimal (4 * mantissa rank)
  (scaled.1 - scaled.2) + (scaled.2 - scaled.1)

/-! ## The search over digit counts -/

def digitCount (value : Nat) : Nat := (Nat.toDigits 10 value).length

def leadingExponent (rank : Nat) : Int :=
  if denominator rank ≤ numerator rank then
    (digitCount (numerator rank / denominator rank) : Int) - 1
  else -digitCount ((denominator rank - 1) / numerator rank)

def gridFloor (rank : Nat) (exponent : Int) : Decimal :=
  ⟨numerator rank * Nat.pow 10 (-exponent).toNat /
    (denominator rank * Nat.pow 10 exponent.toNat), exponent⟩

def nearer (tie : TieRule) (rank : Nat) (below above : Decimal) : Decimal :=
  if distance rank below < distance rank above then below
  else if distance rank above < distance rank below then above
  else
    match tie with
    | .upward => above
    | .toEven => if below.digits % 2 = 0 then below else above

/-- The nearest of the two neighbours on a grid that round to the magnitude. -/
def onGrid? (tie : TieRule) (rank : Nat) (exponent : Int) : Option Decimal :=
  let below := gridFloor rank exponent
  let above : Decimal := ⟨below.digits + 1, exponent⟩
  match roundsTo rank below, roundsTo rank above with
  | true, true => some (nearer tie rank below above)
  | true, false => some below
  | false, true => some above
  | false, false => none

/-- Seventeen digits always suffice. -/
def mostDigits : Nat := 17

def withoutTrailingZeros : Nat → Decimal → Decimal
  | 0, decimal => decimal
  | count + 1, decimal =>
      if decimal.digits % 10 = 0 then
        withoutTrailingZeros count ⟨decimal.digits / 10, decimal.exponent + 1⟩
      else decimal

def shortest (tie : TieRule) (rank : Nat) : Decimal :=
  let leading := leadingExponent rank
  let grids := (List.range mostDigits).map fun (count : Nat) => leading - count
  match grids.findSome? (onGrid? tie rank) with
  | some decimal => withoutTrailingZeros mostDigits decimal
  | none => gridFloor rank (leading - mostDigits)

end Binary64

end TreeSyntax
