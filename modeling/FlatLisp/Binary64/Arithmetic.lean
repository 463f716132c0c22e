import FlatLisp.Binary64.Rounding

/-!
The four operations: the exact result, rounded once. What has no exact result
follows the usual rules: a NaN goes through, infinities of opposite signs have
no sum, zero times infinity, zero by zero and infinity by infinity have no
value, and a nonzero number divided by zero is infinite.
-/

namespace FlatLisp.Binary64

def signedUnits (negative : Bool) (rank : Nat) : Int :=
  if negative then -(units rank : Int) else units rank

/-- The sum. An exact zero is negative only if both terms are. -/
def add : Binary64 → Binary64 → Binary64
  | .signed n₁ r₁, .signed n₂ r₂ =>
      if r₁.val = infinityRank then
        if r₂.val = infinityRank ∧ n₁ ≠ n₂ then .nan else .signed n₁ r₁
      else if r₂.val = infinityRank then .signed n₂ r₂
      else
        let sum := signedUnits n₁ r₁.val + signedUnits n₂ r₂.val
        if sum = 0 then zero (n₁ && n₂) else ofUnits (sum < 0) sum.natAbs 1
  | _, _ => .nan

def sub (x y : Binary64) : Binary64 := x.add y.neg

def mul : Binary64 → Binary64 → Binary64
  | .signed n₁ r₁, .signed n₂ r₂ =>
      let negative := n₁ != n₂
      if r₁.val = infinityRank ∨ r₂.val = infinityRank then
        if r₁.val = 0 ∨ r₂.val = 0 then .nan else infinity negative
      else ofUnits negative (units r₁.val * units r₂.val) unitsPerOne
  | _, _ => .nan

def div : Binary64 → Binary64 → Binary64
  | .signed n₁ r₁, .signed n₂ r₂ =>
      let negative := n₁ != n₂
      if r₁.val = infinityRank then
        if r₂.val = infinityRank then .nan else infinity negative
      else if r₂.val = infinityRank then zero negative
      else if r₂.val = 0 then
        if r₁.val = 0 then .nan else infinity negative
      else ofUnits negative (units r₁.val * unitsPerOne) (units r₂.val)
  | _, _ => .nan

end FlatLisp.Binary64
