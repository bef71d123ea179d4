import TreeSyntax.Number.Shortest

/-!
# Number texts

A layout turns the shortest digits of a number into text; its fields say where positional
notation ends, whether an integral number keeps a decimal point, and how a tie is broken.
-/

namespace TreeSyntax

structure NumberLayout where
  /-- Magnitudes whose leading digit stands at one of these powers of ten are written without an
  exponent; all of them when there is no bound. -/
  positionalRange : Option (Int × Int)
  keepsPoint : Bool
  tie : TieRule
  deriving DecidableEq, Repr

namespace NumberLayout

def plain : NumberLayout := ⟨none, false, .upward⟩

def json : NumberLayout := ⟨some (-5, 15), true, .toEven⟩

def positional (layout : NumberLayout) (leading : Int) : Bool :=
  match layout.positionalRange with
  | none => true
  | some (least, greatest) => decide (least ≤ leading ∧ leading ≤ greatest)

def zeros (count : Nat) : List Char := List.replicate count '0'

def pointZero (layout : NumberLayout) : List Char :=
  if layout.keepsPoint then ['.', '0'] else []

def positionalText (layout : NumberLayout) (digits : List Char) (exponent : Int) : List Char :=
  let point : Int := digits.length + exponent
  if 0 ≤ exponent then digits ++ zeros exponent.toNat ++ layout.pointZero
  else if 0 < point then digits.take point.toNat ++ '.' :: digits.drop point.toNat
  else '0' :: '.' :: zeros (-point).toNat ++ digits

/-- One digit before the point, and the sign of the exponent always written. -/
def exponentText (digits : List Char) (leading : Int) : List Char :=
  let fraction := digits.drop 1
  digits.take 1 ++ (if fraction.isEmpty then [] else '.' :: fraction) ++
    'e' :: (if leading < 0 then '-' else '+') :: Nat.toDigits 10 leading.natAbs

def magnitudeText (layout : NumberLayout) (rank : Nat) : List Char :=
  if rank = 0 then '0' :: layout.pointZero
  else
    let decimal := Binary64.shortest layout.tie rank
    let digits := Nat.toDigits 10 decimal.digits
    let leading : Int := digits.length + decimal.exponent - 1
    if layout.positional leading then layout.positionalText digits decimal.exponent
    else exponentText digits leading

def text (layout : NumberLayout) (number : Binary64) : String :=
  let magnitude := layout.magnitudeText number.rank
  String.ofList (if number.negative then '-' :: magnitude else magnitude)

end NumberLayout

end TreeSyntax
