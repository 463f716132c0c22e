/-!
Binary floating-point numbers of 64 bits, as exact data. All magnitudes from
zero through the largest finite one to infinity form one ascending sequence,
and a magnitude is given by its rank in it: rank 0 is zero, rank 1 the
smallest positive number, and `infinityRank` is infinity. The rank of a
magnitude is also its bit pattern, so the 64-bit word is the sign bit followed
by the rank.

Every finite magnitude is a whole number of units of `2 ^ (-1074)`. Arithmetic
is therefore exact arithmetic on `Nat` and `Int` followed by one rounding, and
every statement about it can be proved.
-/

namespace FlatLisp

/-- The number of bits of a significand behind its leading bit. -/
def Binary64.fractionBits : Nat := 52

def Binary64.leadingBit : Nat := Nat.pow 2 52

def Binary64.signBit : Nat := Nat.pow 2 63

/-- The rank of infinity, which is above every finite magnitude. -/
def Binary64.infinityRank : Nat := 2047 * leadingBit

/-- A floating-point number. All NaNs are one value, since nothing here tells
them apart. The two zeros are `signed false 0` and `signed true 0`. -/
inductive Binary64 where
  | nan
  | signed (negative : Bool) (rank : Fin (Binary64.infinityRank + 1))
  deriving DecidableEq, Repr

namespace Binary64

/-- The number of a sign and a rank; ranks beyond infinity stand for it. -/
def ofRank (negative : Bool) (rank : Nat) : Binary64 :=
  .signed negative ⟨min rank infinityRank, by omega⟩

def zero (negative : Bool) : Binary64 := ofRank negative 0

def infinity (negative : Bool) : Binary64 := ofRank negative infinityRank

/-- The significand of a magnitude. Its leading bit is implied, except that the
smallest magnitudes have none. -/
def significand (rank : Nat) : Nat :=
  if rank < leadingBit then rank else leadingBit + rank % leadingBit

/-- A magnitude is its significand times `2 ^ scale` units. -/
def scale (rank : Nat) : Nat :=
  rank / leadingBit - 1

/-- A finite magnitude as a whole number of units. The rank of infinity gets
the power of two that would follow the largest finite number. -/
def units (rank : Nat) : Nat :=
  significand rank * Nat.pow 2 (scale rank)

def unitsPerOne : Nat := Nat.pow 2 1074

def ofBits (word : UInt64) : Binary64 :=
  let rank := word.toNat % signBit
  if infinityRank < rank then .nan else ofRank (decide (signBit ≤ word.toNat)) rank

/-- The 64-bit word of a number; NaN gets the quiet one without payload. -/
def toBits : Binary64 → UInt64
  | .nan => UInt64.ofNat (infinityRank + leadingBit / 2)
  | .signed negative rank => UInt64.ofNat (rank.val + if negative then signBit else 0)

/-- The place of a number among all numbers but NaN; the two zeros share
theirs. -/
def place (negative : Bool) (rank : Nat) : Int :=
  if negative then -(rank : Int) else rank

/-- Numeric order. A NaN is unordered, also with itself. -/
def compare? : Binary64 → Binary64 → Option Ordering
  | .signed n₁ r₁, .signed n₂ r₂ => some (compare (place n₁ r₁.val) (place n₂ r₂.val))
  | _, _ => none

/-- Numeric equality: a NaN differs from itself and the zeros are equal. -/
def equal (x y : Binary64) : Bool :=
  x.compare? y == some .eq

def neg : Binary64 → Binary64
  | .nan => .nan
  | .signed negative rank => .signed (!negative) rank

end Binary64

end FlatLisp
