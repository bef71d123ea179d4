/-!
# Finite 64-bit floating-point numbers

A magnitude is named by its rank, its place in the increasing list of all finite magnitudes
from zero up.  Rounding to the nearest magnitude, with ties to an even mantissa, is exact
arithmetic on natural numbers, so a number read from a decimal text is known bit for bit.
-/

namespace TreeSyntax

structure Binary64 where
  negative : Bool
  rank : Nat
  deriving DecidableEq, Repr

namespace Binary64

/-! ## Ranks and the magnitudes they stand for -/

/-- The number of ranks whose magnitudes share an exponent. -/
def binadeSize : Nat := Nat.pow 2 52

def overflowRank : Nat := 2047 * binadeSize

def mantissa (rank : Nat) : Nat :=
  if rank < binadeSize then rank else binadeSize + rank % binadeSize

def exponent (rank : Nat) : Int :=
  if rank < binadeSize then -1074 else (rank / binadeSize : Nat) - 1075

/-- The magnitude at a rank is `numerator rank / denominator rank`. -/
def numerator (rank : Nat) : Nat := mantissa rank * Nat.pow 2 (exponent rank).toNat

def denominator (rank : Nat) : Nat := Nat.pow 2 (-exponent rank).toNat

theorem denominator_pos (rank : Nat) : 0 < denominator rank :=
  Nat.two_pow_pos _

/-! ## Rounding -/

/-- The integer nearest to `numerator / denominator`, the even one of two equally near. -/
def roundQuotient (numerator denominator : Nat) : Nat :=
  let quotient := numerator / denominator
  let doubled := 2 * (numerator % denominator)
  if doubled < denominator then quotient
  else if denominator < doubled then quotient + 1
  else quotient + quotient % 2

def floorLog2 (numerator denominator : Nat) : Int :=
  let guess : Int := (numerator.log2 : Int) - denominator.log2
  if denominator * Nat.pow 2 guess.toNat ≤ numerator * Nat.pow 2 (-guess).toNat then guess
  else guess - 1

/-- The rank of the magnitude nearest to `numerator / denominator`; at least `overflowRank` when
that lies beyond the finite ones. -/
def nearestRank (numerator denominator : Nat) : Nat :=
  if numerator = 0 then 0
  else
    let unit := max (floorLog2 numerator denominator - 52) (-1074)
    roundQuotient (numerator * Nat.pow 2 (-unit).toNat) (denominator * Nat.pow 2 unit.toNat) +
      (unit + 1074).toNat * binadeSize

def powerOfTenRank (exponent : Nat) : Nat := nearestRank (Nat.pow 10 exponent) 1

def productRank (left right : Nat) : Nat :=
  nearestRank (numerator left * numerator right) (denominator left * denominator right)

def quotientRank (left right : Nat) : Nat :=
  nearestRank (numerator left * denominator right) (denominator left * numerator right)

/-! ## Decimal texts -/

def largestPowerOfTen : Nat := 308

/-- Multiplies by a power of ten; `none` when the product is not finite. -/
def scaleUp? (rank exponent : Nat) : Option Nat :=
  if exponent ≤ largestPowerOfTen then
    let product := productRank rank (powerOfTenRank exponent)
    if product < overflowRank then some product else none
  else if rank = 0 then some 0
  else none

/-- Divides by a power of ten, in steps that are finite powers themselves. -/
def scaleDown (rank exponent : Nat) : Nat :=
  if exponent ≤ largestPowerOfTen then quotientRank rank (powerOfTenRank exponent)
  else if rank = 0 then 0
  else scaleDown (quotientRank rank (powerOfTenRank largestPowerOfTen))
    (exponent - largestPowerOfTen)
  termination_by exponent
  decreasing_by simp [largestPowerOfTen] at *; omega

/-- The number written `significand` times ten to the `exponent`: the significand is rounded first
and then multiplied or divided by the rounded power.  `none` when the result is not finite. -/
def ofDecimal? (negative : Bool) (significand : Nat) (exponent : Int) : Option Binary64 :=
  let rounded := nearestRank significand 1
  if 0 ≤ exponent then (scaleUp? rounded exponent.toNat).map (⟨negative, ·⟩)
  else some ⟨negative, scaleDown rounded (-exponent).toNat⟩

end Binary64

end TreeSyntax
