import FlatLisp.Binary64.Basic

/-!
The shortest decimal of a floating-point number. The reals that round to a
number form an interval around it that ends half way to its neighbours; the
ends belong to it when the rank is even, because ties go there. Among the
decimal grids `10 ^ p` the coarsest that has a point in the interval wins, and
of two points the one nearer to the number; of two points equally near, the
larger.
-/

namespace FlatLisp.Binary64

/-- The number `digits * 10 ^ exponent`. -/
structure Decimal where
  digits : Nat
  exponent : Int
  deriving DecidableEq, Repr

namespace Decimal

/-- The step of the grid `10 ^ exponent` is `stepUnits / stepParts` units. -/
def stepUnits (exponent : Int) : Nat := Nat.pow 10 exponent.toNat * unitsPerOne

@[inherit_doc stepUnits]
def stepParts (exponent : Int) : Nat := Nat.pow 10 (-exponent).toNat

/-- Whether reading a decimal gives back the magnitude of a rank above zero. -/
def roundsTo (rank : Nat) (d : Decimal) : Bool :=
  let parts := stepParts d.exponent
  let point := 2 * d.digits * stepUnits d.exponent
  let low := (units (rank - 1) + units rank) * parts
  let high := (units rank + units (rank + 1)) * parts
  if rank % 2 = 0 then low ≤ point && point ≤ high else low < point && point < high

/-- The point of one grid that rounds to a rank and is nearest to it. Only the
two grid points around the number can be. -/
def onGrid? (rank : Nat) (exponent : Int) : Option Decimal :=
  let parts := stepParts exponent
  let step := stepUnits exponent
  let floor := units rank * parts / step
  let below : Decimal := ⟨floor, exponent⟩
  let above : Decimal := ⟨floor + 1, exponent⟩
  match below.roundsTo rank, above.roundsTo rank with
  | true, true =>
      some (if 2 * units rank * parts < (2 * floor + 1) * step then below else above)
  | true, false => some below
  | false, true => some above
  | false, false => none

/-- The first hit on ever finer grids, starting with a given one. -/
def firstHit (rank : Nat) : Nat → Int → Decimal
  | 0, exponent => ⟨units rank * stepParts exponent / stepUnits exponent, exponent⟩
  | tries + 1, exponent =>
      match onGrid? rank exponent with
      | some d => d
      | none => firstHit rank tries (exponent - 1)

/-- The shortest decimal of a finite magnitude. The search starts with a grid
that is coarser than the number and ends at the latest on the grid of
`10 ^ (-1074)`, which holds every number. -/
def shortest (rank : Nat) : Decimal :=
  let start := (Nat.toDigits 10 (units rank / unitsPerOne)).length
  firstHit rank (start + 1074) start

/-- Positional notation, without an exponent: the digits with the point put in
and zeros where the digits do not reach. -/
def positional (d : Decimal) : List Char :=
  let digits := Nat.toDigits 10 d.digits
  if 0 ≤ d.exponent then digits ++ List.replicate d.exponent.toNat '0'
  else
    let places := (-d.exponent).toNat
    let padded := List.replicate (places + 1 - digits.length) '0' ++ digits
    let whole := padded.length - places
    padded.take whole ++ '.' :: padded.drop whole

end Decimal

end FlatLisp.Binary64
