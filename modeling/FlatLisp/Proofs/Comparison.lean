import FlatLisp.Builtin.Call
import FlatLisp.Proofs.Nearest

/-!
The order of numbers. Two integers are compared exactly, and any other two
numbers by their places among the floating-point numbers, to which a large
integer has to be rounded. Different integers may round to one place, so the
two ways of comparing differ; but rounding never reverses an order. Hence a
number that is less than another never has the larger place, and a smaller
place always means that a number is less. With these two facts the exact and
the rounded comparisons fit together into one strict order.

The main statement is `comparison_is_strict_order`.
-/

namespace FlatLisp

namespace Binary64

/-- The place of a number among all numbers; a NaN has none. -/
def place? : Binary64 → Option Int
  | .nan => none
  | .signed negative rank => some (place negative rank.val)

theorem compare?_eq_some_iff {x y : Binary64} {order : Ordering} :
    x.compare? y = some order ↔
      ∃ p q, x.place? = some p ∧ y.place? = some q ∧ compare p q = order := by
  cases x <;> cases y <;> simp [compare?, place?]

theorem compare?_swap (x y : Binary64) : y.compare? x = (x.compare? y).map Ordering.swap := by
  cases x <;> cases y <;> simp [compare?, ← Std.OrientedCmp.eq_swap]

def wholeRank (n : Nat) : Nat := min (nearestRank (n * unitsPerOne) 1) infinityRank

def wholePlace (i : Int) : Int := place (decide (i < 0)) (wholeRank i.natAbs)

theorem place?_ofInt (i : Int) : (ofInt i).place? = some (wholePlace i) := rfl

theorem wholeRank_mono {m n : Nat} (h : m ≤ n) : wholeRank m ≤ wholeRank n := by
  have hunits : m * unitsPerOne ≤ n * unitsPerOne := Nat.mul_le_mul_right _ h
  have hrank := nearestRank_mono Nat.one_pos hunits
  unfold wholeRank
  omega

/-- Rounding integers keeps their order. -/
theorem wholePlace_mono {i j : Int} (h : i ≤ j) : wholePlace i ≤ wholePlace j := by
  unfold wholePlace place
  by_cases hi : i < 0
  · by_cases hj : j < 0
    · have hrank := wholeRank_mono (show j.natAbs ≤ i.natAbs by omega)
      simp only [hi, hj, decide_true, if_true]
      omega
    · simp only [hi, hj, decide_true, decide_false, if_true, Bool.false_eq_true, if_false]
      omega
  · have hj : ¬ j < 0 := by omega
    have hrank := wholeRank_mono (show i.natAbs ≤ j.natAbs by omega)
    simp only [hi, hj, decide_false, Bool.false_eq_true, if_false]
    omega

end Binary64

namespace Number

/-- The order of numbers: one is less if a comparison says so. -/
instance : LT Number := ⟨fun a b => a.compare? b = some .lt⟩

instance (a b : Number) : Decidable (a < b) := inferInstanceAs (Decidable (_ = _))

theorem lt_iff {a b : Number} : a < b ↔ a.compare? b = some .lt := Iff.rfl

/-- The place of a number among the floating-point numbers. -/
def place? (a : Number) : Option Int := a.toFloat.place?

theorem place?_integer (i : Int64) :
    (integer i).place? = some (Binary64.wholePlace i.toInt) :=
  Binary64.place?_ofInt i.toInt

def BothIntegers (a b : Number) : Prop := ∃ i j, a = integer i ∧ b = integer j

theorem integer_lt_iff {i j : Int64} : integer i < integer j ↔ i.toInt < j.toInt := by
  rw [lt_iff, compare?, Option.some_inj, compare_lt_iff_lt]

/-- Numbers that are not both integers are compared by their places. -/
theorem lt_iff_exists_places {a b : Number} (h : ¬ BothIntegers a b) :
    a < b ↔ ∃ p q, a.place? = some p ∧ b.place? = some q ∧ p < q := by
  have hfloat : a.compare? b = a.toFloat.compare? b.toFloat := by
    cases a with
    | integer i =>
        cases b with
        | integer j => exact absurd ⟨i, j, rfl, rfl⟩ h
        | float y => rfl
    | float x => rfl
  simp only [lt_iff, hfloat, Binary64.compare?_eq_some_iff, compare_lt_iff_lt, place?]

section

variable {a b c : Number} {p q : Int}

/-- A number that is less does not have the larger place. -/
theorem exists_places_of_lt (h : a < b) :
    ∃ p q, a.place? = some p ∧ b.place? = some q ∧ p ≤ q := by
  by_cases hintegers : BothIntegers a b
  · obtain ⟨i, j, rfl, rfl⟩ := hintegers
    have hle := Int.le_of_lt (integer_lt_iff.mp h)
    exact ⟨_, _, place?_integer i, place?_integer j, Binary64.wholePlace_mono hle⟩
  · obtain ⟨p, q, hp, hq, hlt⟩ := (lt_iff_exists_places hintegers).mp h
    exact ⟨p, q, hp, hq, Int.le_of_lt hlt⟩

/-- A number that has the smaller place is less. -/
theorem lt_of_places (hp : a.place? = some p) (hq : b.place? = some q) (h : p < q) : a < b := by
  by_cases hintegers : BothIntegers a b
  · obtain ⟨i, j, rfl, rfl⟩ := hintegers
    rw [place?_integer, Option.some_inj] at hp hq
    rw [integer_lt_iff]
    by_contra hge
    have hmono := Binary64.wholePlace_mono (Int.not_lt.mp hge)
    omega
  · exact (lt_iff_exists_places hintegers).mpr ⟨p, q, hp, hq, h⟩

/-- Of two numbers that are not both integers, the one that is less has the
smaller place. -/
theorem places_of_lt (hp : a.place? = some p) (hq : b.place? = some q) (h : a < b)
    (hmixed : ¬ BothIntegers a b) : p < q := by
  obtain ⟨p', q', hp', hq', hlt⟩ := (lt_iff_exists_places hmixed).mp h
  rw [hp, Option.some_inj] at hp'
  rw [hq, Option.some_inj] at hq'
  omega

theorem not_lt_self (a : Number) : ¬ a < a := by
  intro h
  by_cases hintegers : BothIntegers a a
  · obtain ⟨i, -, rfl, -⟩ := hintegers
    exact Int.lt_irrefl _ (integer_lt_iff.mp h)
  · obtain ⟨p, -, hp, -, -⟩ := exists_places_of_lt h
    exact Int.lt_irrefl p (places_of_lt hp hp h hintegers)

/-- The order is transitive over all mixes of numbers. Two integers are compared
exactly and otherwise places are compared; since rounding is monotone, integers
in exact order are in order as places too, though not strictly. -/
theorem lt_trans (hab : a < b) (hbc : b < c) : a < c := by
  obtain ⟨p, q, hp, hq, hpq⟩ := exists_places_of_lt hab
  obtain ⟨q', r, hq', hr, hqr⟩ := exists_places_of_lt hbc
  obtain rfl : q = q' := by rwa [hq, Option.some_inj] at hq'
  -- Unless all three are integers, one of the two steps goes to a larger place.
  by_cases hfirst : BothIntegers a b
  · by_cases hsecond : BothIntegers b c
    · obtain ⟨i, j, rfl, rfl⟩ := hfirst
      obtain ⟨-, k, -, rfl⟩ := hsecond
      rw [integer_lt_iff] at hab hbc ⊢
      exact Int.lt_trans hab hbc
    · have hstep := places_of_lt hq hr hbc hsecond
      exact lt_of_places hp hr (by omega)
  · have hstep := places_of_lt hp hq hab hfirst
    exact lt_of_places hp hr (by omega)

end

theorem compare?_swap (a b : Number) : b.compare? a = (a.compare? b).map Ordering.swap := by
  cases a <;> cases b <;>
    simp [compare?, toFloat, ← Binary64.compare?_swap, ← Std.OrientedCmp.eq_swap]

end Number

namespace Builtin

theorem less_numbers (a b : Number) :
    less.call [.number a, .number b] = pure (.boolean (decide (a < b))) := by
  have htest : (a.compare? b == some .lt) = decide (a < b) := by
    rw [Bool.eq_iff_iff, beq_iff_eq, decide_eq_true_iff, Number.lt_iff]
  rw [← htest]
  rfl

/-- What is greater is what is less from the other side. -/
theorem greater_numbers (a b : Number) :
    greater.call [.number a, .number b] = pure (.boolean (decide (b < a))) := by
  have htest : (a.compare? b == some .gt) = decide (b < a) := by
    rw [Bool.eq_iff_iff, beq_iff_eq, decide_eq_true_iff, Number.lt_iff, Number.compare?_swap a b]
    cases a.compare? b with
    | none => simp
    | some order => cases order <;> simp
  rw [← htest]
  rfl

theorem less_texts (a b : String) :
    less.call [.text a, .text b] = greater.call [.text b, .text a] := by
  have hswap : compare a b = (compare b a).swap := Std.OrientedCmp.eq_swap
  have htest : (compare a b == .lt) = (compare b a == .gt) := by
    rw [hswap]
    cases compare b a <;> rfl
  exact congrArg (fun answer => Evaluation.ofExcept (.ok (Value.boolean answer))) htest

end Builtin

/-- Whether they are integers or floating-point numbers, infinities and NaN
included, the numbers are strictly ordered by `<`: no number is less than
itself, and what is less than a lesser one is less. The procedure `<` tells
whether two numbers stand in this order, and `>` gives what `<` gives for the
arguments the other way round, of numbers as well as of texts. -/
theorem comparison_is_strict_order :
    (∀ a : Number, ¬ a < a) ∧ (∀ a b c : Number, a < b → b < c → a < c) ∧
      (∀ a b : Number,
        Builtin.less.call [.number a, .number b] = pure (.boolean (decide (a < b)))) ∧
      (∀ a b : Number, Builtin.less.call [.number a, .number b] =
        Builtin.greater.call [.number b, .number a]) ∧
      (∀ a b : String,
        Builtin.less.call [.text a, .text b] = Builtin.greater.call [.text b, .text a]) := by
  refine ⟨Number.not_lt_self, fun a b c => Number.lt_trans, Builtin.less_numbers, ?_,
    Builtin.less_texts⟩
  intro a b
  rw [Builtin.less_numbers, Builtin.greater_numbers]

/-- An exact step between two integers that round to the same place, and a step
to a floating-point number behind it. -/
theorem comparison_is_strict_order_rounded :
    let a : Number := .integer 9007199254740992
    let b : Number := .integer 9007199254740993
    let c : Number := .float (.ofInt 9007199254740994)
    a < b ∧ b < c ∧ a < c := by
  intro a b c
  have hab : a < b := by decide +kernel
  have hbc : b < c := by decide +kernel
  exact ⟨hab, hbc, comparison_is_strict_order.2.1 a b c hab hbc⟩

-- Numbers that cannot be told apart from a third may still differ: the order is not a weak one.
example :
    let a : Number := .integer 9007199254740992
    let b : Number := .integer 9007199254740993
    let x : Number := .float (.ofInt 9007199254740992)
    a < b ∧ ¬ a < x ∧ ¬ x < a ∧ ¬ b < x ∧ ¬ x < b := by
  decide +kernel

end FlatLisp
