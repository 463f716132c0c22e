import FlatLisp.Binary64.Basic

/-!
Rounding takes an exact magnitude, given as a quotient of two whole numbers of
units, to the nearest floating-point magnitude; a tie goes to the even rank.
Ranks count the magnitudes in ascending order, so rounding the significand up
past its last value arrives at the next power of two by itself.
-/

namespace FlatLisp.Binary64

/-- The whole number nearest to a quotient; a tie goes to the even one. -/
def nearestQuotient (num den : Nat) : Nat :=
  let floor := num / den
  let rest := 2 * (num % den)
  if rest < den ∨ rest = den ∧ floor % 2 = 0 then floor else floor + 1

/-- The rank nearest to `num / den` units. Only the leading bits of the
quotient fit into a significand, and its other bits are scaled away; ranks
beyond infinity may come out. -/
def nearestRank (num den : Nat) : Nat :=
  let scale := (num / den).log2 - fractionBits
  scale * leadingBit + nearestQuotient num (den * Nat.pow 2 scale)

/-- The number nearest to `num / den` units, with a given sign. -/
def ofUnits (negative : Bool) (num den : Nat) : Binary64 :=
  ofRank negative (nearestRank num den)

def ofInt (i : Int) : Binary64 :=
  ofUnits (i < 0) (i.natAbs * unitsPerOne) 1

/-- The number nearest to `digits * 10 ^ exponent`, with a given sign. -/
def ofDecimal (negative : Bool) (digits : Nat) (exponent : Int) : Binary64 :=
  ofUnits negative (digits * Nat.pow 10 exponent.toNat * unitsPerOne)
    (Nat.pow 10 (-exponent).toNat)

end FlatLisp.Binary64
