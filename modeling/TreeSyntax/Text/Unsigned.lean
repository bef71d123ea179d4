/-!
# Unsigned integers in text

Decimal digits that name a number below 2^64, with or without the liberties that a count or an
array index may take.
-/

namespace TreeSyntax.Text

def unsignedBound : Nat := UInt64.size

def digitValue? (character : Char) : Option Nat :=
  if '0' ≤ character ∧ character ≤ '9' then some (character.toNat - '0'.toNat) else none

/-- The number whose digits follow those of `high`. -/
def digitsFrom? (high : Nat) : List Char → Option Nat
  | [] => some high
  | character :: rest =>
      (digitValue? character).bind fun digit => digitsFrom? (10 * high + digit) rest

/-- One or more digits, leading zeros allowed. -/
def digits? : List Char → Option Nat
  | [] => none
  | characters => (digitsFrom? 0 characters).filter (· < unsignedBound)

/-- Digits after at most one plus sign. -/
def unsigned? (text : String) : Option Nat :=
  match text.toList with
  | '+' :: rest => digits? rest
  | characters => digits? characters

/-- Digits without a sign and without a superfluous leading zero. -/
def canonicalUnsigned? (text : String) : Option Nat :=
  match text.toList with
  | '0' :: _ :: _ => none
  | characters => digits? characters

end TreeSyntax.Text
