import FlatLisp.Binary64.Rounding
import Mathlib.Order.Monotone.Basic
import Mathlib.Tactic.Linarith
import Mathlib.Tactic.Positivity
import Mathlib.Tactic.Ring

/-!
Rounding is to the nearest. A quotient of units belongs to the rank whose
neighbourhood it lies in, that is, between the points half way to the ranks
below and above; such a point belongs to the even one of its two ranks. The
neighbourhoods cover everything and do not overlap, and `nearestRank` finds the
one that a quotient lies in.

The ranks with one scale are evenly spaced, and the first rank of the next
scale continues them. So a rank can be taken as a significand on either of two
scales at such a seam, and the rank after any other is one step of its scale
away.
-/

namespace FlatLisp.Binary64

theorem leadingBit_eq : leadingBit = 4503599627370496 := rfl

/-- The magnitude of a significand on a scale. It may be the first one that has
no place on this scale any more, and without a leading bit it must be on the
lowest one. -/
theorem units_of_significand {s m : Nat} (hm : m ≤ 2 * leadingBit) (hs : s = 0 ∨ leadingBit ≤ m) :
    units (s * leadingBit + m) = m * 2 ^ s := by
  unfold units significand scale
  rw [Nat.pow_eq]
  rw [leadingBit_eq] at *
  rcases Nat.lt_or_ge m 4503599627370496 with hlow | hhigh
  · obtain rfl : s = 0 := by omega
    have hscale : (0 * 4503599627370496 + m) / 4503599627370496 - 1 = 0 := by omega
    rw [hscale, if_pos (by omega)]
    omega
  · rw [if_neg (by omega)]
    rcases Nat.lt_or_eq_of_le hm with hbelow | rfl
    · have hscale : (s * 4503599627370496 + m) / 4503599627370496 - 1 = s := by omega
      have hsignificand :
          4503599627370496 + (s * 4503599627370496 + m) % 4503599627370496 = m := by omega
      rw [hscale, hsignificand]
    · have hscale :
          (s * 4503599627370496 + 2 * 4503599627370496) / 4503599627370496 - 1 = s + 1 := by omega
      have hsignificand : 4503599627370496 +
          (s * 4503599627370496 + 2 * 4503599627370496) % 4503599627370496 =
            4503599627370496 := by omega
      rw [hscale, hsignificand, pow_succ]
      ring

/-- Every rank has a scale and a significand. -/
theorem rank_eq (rank : Nat) : rank = scale rank * leadingBit + significand rank := by
  unfold scale significand
  rw [leadingBit_eq]
  split <;> omega

theorem significand_lt (rank : Nat) : significand rank < 2 * leadingBit := by
  unfold significand
  rw [leadingBit_eq]
  split <;> omega

theorem scale_eq_zero_or_le_significand (rank : Nat) :
    scale rank = 0 ∨ leadingBit ≤ significand rank := by
  unfold scale significand
  rw [leadingBit_eq]
  split <;> omega

theorem units_eq (rank : Nat) : units rank = significand rank * 2 ^ scale rank := by
  rw [units, Nat.pow_eq]

theorem units_zero : units 0 = 0 := rfl

/-- The next magnitude is one step of the scale away. -/
theorem units_succ (rank : Nat) : units (rank + 1) = units rank + 2 ^ scale rank := by
  have hlt := significand_lt rank
  have hscale := scale_eq_zero_or_le_significand rank
  have hnext : rank + 1 = scale rank * leadingBit + (significand rank + 1) := by
    have hrank := rank_eq rank
    omega
  rw [hnext, units_of_significand (by omega) (by omega), units_eq]
  ring

theorem units_strictMono : StrictMono units := by
  apply strictMono_nat_of_lt_succ
  intro rank
  rw [units_succ]
  exact Nat.lt_add_of_pos_right (Nat.two_pow_pos _)

/-- The rank below is at most one step of the scale away. -/
theorem units_le_units_pred_add (rank : Nat) :
    units rank ≤ units (rank - 1) + 2 ^ scale rank := by
  cases rank with
  | zero => exact Nat.le_add_right _ _
  | succ rank =>
      have hscale : scale rank ≤ scale (rank + 1) :=
        Nat.sub_le_sub_right (Nat.div_le_div_right (Nat.le_succ rank)) 1
      have hstep : 2 ^ scale rank ≤ 2 ^ scale (rank + 1) := Nat.pow_le_pow_right (by decide) hscale
      rw [units_succ, Nat.add_sub_cancel]
      omega

theorem unitsPerOne_eq : unitsPerOne = 2 ^ 1074 := by
  unfold unitsPerOne
  generalize 1074 = n
  exact Nat.pow_eq

theorem unitsPerOne_pos : 0 < unitsPerOne := by
  rw [unitsPerOne_eq]
  positivity

/-- Whether `num / den` units lie in the neighbourhood of a rank. Its ends
belong to it if the rank is even. -/
structure IsNearest (num den rank : Nat) : Prop where
  low : (units (rank - 1) + units rank) * den ≤ 2 * num
  high : 2 * num ≤ (units rank + units (rank + 1)) * den
  odd : rank % 2 = 1 →
    (units (rank - 1) + units rank) * den < 2 * num ∧
      2 * num < (units rank + units (rank + 1)) * den

/-- Of two ranks in whose neighbourhoods a quotient lies neither is below the
other. The upper end of the lower one is at most the lower end of the upper one;
where they meet, only even ranks own their ends, and between two even ranks
there is another. -/
theorem IsNearest.not_lt {num den rank other : Nat} (hden : 0 < den)
    (h : IsNearest num den rank) (hother : IsNearest num den other) : ¬ rank < other := by
  intro hlt
  have hhigh := h.high
  have hlow := hother.low
  have hbelow : units rank ≤ units (other - 1) := units_strictMono.monotone (by omega)
  have habove : units (rank + 1) ≤ units other := units_strictMono.monotone (by omega)
  have hseam : (units rank + units (rank + 1)) * den ≤ (units (other - 1) + units other) * den :=
    Nat.mul_le_mul_right den (Nat.add_le_add hbelow habove)
  have heven : rank % 2 = 0 := by
    rcases Nat.mod_two_eq_zero_or_one rank with heven | hodd
    · exact heven
    · have hstrict := (h.odd hodd).2
      omega
  have hotherEven : other % 2 = 0 := by
    rcases Nat.mod_two_eq_zero_or_one other with heven | hodd
    · exact heven
    · have hstrict := (hother.odd hodd).1
      omega
  -- Both ranks are even, so there is another one between them.
  have hgap : units rank < units (other - 1) := units_strictMono (by omega)
  have hstrict : (units rank + units (rank + 1)) * den < (units (other - 1) + units other) * den :=
    Nat.mul_lt_mul_of_pos_right (by omega) hden
  omega

/-- Neighbourhoods do not overlap. -/
theorem IsNearest.unique {num den rank other : Nat} (hden : 0 < den)
    (h : IsNearest num den rank) (hother : IsNearest num den other) : rank = other := by
  have hnotBelow := h.not_lt hden hother
  have hnotAbove := hother.not_lt hden h
  omega

/-- A neighbourhood is below all magnitudes above its own. -/
theorem IsNearest.lt_units {num den rank other : Nat} (hden : 0 < den)
    (h : IsNearest num den rank) (hlt : rank < other) : num < units other * den := by
  have hhigh := h.high
  have hrank : units rank < units other := units_strictMono hlt
  have hnext : units (rank + 1) ≤ units other := units_strictMono.monotone hlt
  nlinarith

/-- It is above the half way point behind every magnitude below its own. -/
theorem IsNearest.units_le {num den rank other : Nat} (h : IsNearest num den rank)
    (hlt : other < rank) : (units other + units (other + 1)) * den ≤ 2 * num := by
  have hbelow : units other ≤ units (rank - 1) := units_strictMono.monotone (by omega)
  have hrank : units (other + 1) ≤ units rank := units_strictMono.monotone hlt
  exact (Nat.mul_le_mul_right den (Nat.add_le_add hbelow hrank)).trans h.low

/-- Neighbourhoods of larger quotients are those of larger ranks. -/
theorem IsNearest.le_of_le {num larger den rank other : Nat} (hden : 0 < den)
    (h : IsNearest num den rank) (hother : IsNearest larger den other) (hle : num ≤ larger) :
    rank ≤ other := by
  by_contra hlt
  have hlow := h.units_le (Nat.lt_of_not_le hlt)
  have hhigh := hother.high
  -- The two quotients meet in the point half way between the ranks, and are equal.
  obtain rfl : num = larger := by omega
  exact hlt (h.unique hden hother).le

/-- A magnitude lies in its own neighbourhood. -/
theorem isNearest_units {den : Nat} (hden : 0 < den) (rank : Nat) :
    IsNearest (units rank * den) den rank := by
  have hbelow : units (rank - 1) ≤ units rank := units_strictMono.monotone (Nat.sub_le rank 1)
  have habove : units rank < units (rank + 1) := units_strictMono (Nat.lt_succ_self rank)
  refine ⟨?_, ?_, fun hodd => ⟨?_, ?_⟩⟩
  · nlinarith
  · nlinarith
  · have hstrict : units (rank - 1) < units rank := units_strictMono (by omega)
    nlinarith
  · nlinarith

/-- Of the multiples of its step, only a magnitude itself lies in its
neighbourhood. -/
theorem IsNearest.eq_units {num rank : Nat} (h : IsNearest num 1 rank)
    (hdvd : 2 ^ scale rank ∣ num) : num = units rank := by
  obtain ⟨multiple, rfl⟩ := hdvd
  have hlow := h.low
  have hhigh := h.high
  have hbelow := units_le_units_pred_add rank
  rw [units_succ] at hhigh
  rw [units_eq rank] at *
  have hstep := Nat.two_pow_pos (scale rank)
  generalize 2 ^ scale rank = step at *
  have hle : multiple ≤ significand rank := by
    by_contra hlarge
    have hlarge : significand rank + 1 ≤ multiple := by omega
    nlinarith
  have hge : significand rank ≤ multiple := by
    by_contra hsmall
    have hsmall : multiple + 1 ≤ significand rank := by omega
    nlinarith
  rw [Nat.le_antisymm hle hge, Nat.mul_comm]

/-- A quotient is at most half away from the whole number nearest to it, and
less than that if this number is odd. -/
theorem nearestQuotient_spec (num : Nat) {den : Nat} (hden : 0 < den) :
    let m := nearestQuotient num den
    2 * m * den ≤ 2 * num + den ∧ 2 * num ≤ 2 * m * den + den ∧
      (m % 2 = 1 → 2 * m * den < 2 * num + den ∧ 2 * num < 2 * m * den + den) := by
  have hsplit := Nat.div_add_mod num den
  have hmod := Nat.mod_lt num hden
  simp only [nearestQuotient]
  generalize num / den = floor at *
  generalize num % den = rest at *
  have hproduct : 2 * floor * den = 2 * (den * floor) := by ring
  have hproductNext : 2 * (floor + 1) * den = 2 * (den * floor) + 2 * den := by ring
  split
  next hround =>
    rw [hproduct]
    refine ⟨?_, ?_, fun hodd => ⟨?_, ?_⟩⟩ <;> omega
  next hround =>
    rw [hproductNext]
    refine ⟨?_, ?_, fun hodd => ⟨?_, ?_⟩⟩ <;> omega

/-- The leading bits of a quotient fit into a significand on its scale, and fill
it unless the scale is the lowest one. -/
theorem nearestRank_scale (num : Nat) {den : Nat} (hden : 0 < den) :
    let s := (num / den).log2 - fractionBits
    num < 2 * leadingBit * (den * 2 ^ s) ∧ (s = 0 ∨ leadingBit * (den * 2 ^ s) ≤ num) := by
  intro s
  have hbits : fractionBits = 52 := rfl
  have hleading : leadingBit = 2 ^ 52 := rfl
  constructor
  · have hfloor : num / den < 2 ^ (53 + s) :=
      calc num / den < 2 ^ ((num / den).log2 + 1) := Nat.lt_log2_self
        _ ≤ 2 ^ (53 + s) := Nat.pow_le_pow_right (by decide) (by omega)
    have hnum := (Nat.div_lt_iff_lt_mul hden).mp hfloor
    have hproduct : 2 ^ (53 + s) * den = 2 * leadingBit * (den * 2 ^ s) := by
      rw [hleading]
      ring
    omega
  · rcases Nat.eq_zero_or_pos s with hzero | hpos
    · exact .inl hzero
    · right
      have hfloor : num / den ≠ 0 := by
        intro hzero
        simp [s, hzero] at hpos
      have hpower : 2 ^ (52 + s) ≤ num / den := (Nat.le_log2 hfloor).mp (by omega)
      have hnum := (Nat.le_div_iff_mul_le hden).mp hpower
      have hproduct : 2 ^ (52 + s) * den = leadingBit * (den * 2 ^ s) := by
        rw [hleading]
        ring
      omega

section

variable {num den s m : Nat}

/-- Where the neighbourhood of a rank starts: half a step below, or closer than
that if the rank is the first one of its scale. -/
theorem low_end (hm : m ≤ 2 * leadingBit) (hpos : 0 < m) (hden : 0 < den)
    (hs : s = 0 ∨ leadingBit ≤ m ∧ leadingBit * (den * 2 ^ s) ≤ num) :
    (units (s * leadingBit + m - 1) + units (s * leadingBit + m)) * den + den * 2 ^ s =
        2 * m * (den * 2 ^ s) ∨
      (units (s * leadingBit + m - 1) + units (s * leadingBit + m)) * den < 2 * num := by
  have hunits := units_of_significand hm (hs.imp_right And.left)
  by_cases hfirst : s = 0 ∨ leadingBit ≤ m - 1
  · left
    have hbefore : s * leadingBit + m - 1 = s * leadingBit + (m - 1) := by omega
    rw [hbefore, hunits, units_of_significand (by omega) hfirst]
    obtain ⟨k, rfl⟩ : ∃ k, m = k + 1 := ⟨m - 1, by omega⟩
    rw [Nat.add_sub_cancel]
    ring
  · right
    obtain ⟨rfl, hnum⟩ : m = leadingBit ∧ leadingBit * (den * 2 ^ s) ≤ num := by
      rcases hs with hs | ⟨hleading, hnum⟩
      · exact absurd (.inl hs) hfirst
      · exact ⟨by omega, hnum⟩
    have hbelow : units (s * leadingBit + leadingBit - 1) < units (s * leadingBit + leadingBit) :=
      units_strictMono (by omega)
    have hvalue : units (s * leadingBit + leadingBit) * den ≤ num := by
      rw [hunits]
      linarith
    nlinarith

/-- Where it ends: half a step above, or further than that if the rank is the
first one of the next scale. -/
theorem high_end (hm : m ≤ 2 * leadingBit) (hs : s = 0 ∨ leadingBit ≤ m) (hden : 0 < den)
    (hnum : num < 2 * leadingBit * (den * 2 ^ s)) :
    (units (s * leadingBit + m) + units (s * leadingBit + m + 1)) * den =
        2 * m * (den * 2 ^ s) + den * 2 ^ s ∨
      2 * num < (units (s * leadingBit + m) + units (s * leadingBit + m + 1)) * den := by
  have hunits := units_of_significand hm hs
  rcases Nat.lt_or_eq_of_le hm with hbelow | rfl
  · left
    rw [hunits, Nat.add_assoc, units_of_significand (by omega) (by omega)]
    ring
  · right
    have habove : units (s * leadingBit + 2 * leadingBit) <
        units (s * leadingBit + 2 * leadingBit + 1) := units_strictMono (Nat.lt_succ_self _)
    have hvalue : num < units (s * leadingBit + 2 * leadingBit) * den := by
      rw [hunits]
      linarith
    nlinarith

end

/-- Every quotient lies in the neighbourhood of the rank that it is rounded
to. -/
theorem isNearest_nearestRank (num : Nat) {den : Nat} (hden : 0 < den) :
    IsNearest num den (nearestRank num den) := by
  obtain ⟨hnum, hfill⟩ := nearestRank_scale num hden
  simp only [nearestRank, Nat.pow_eq]
  generalize (num / den).log2 - fractionBits = s at *
  have hstep : 0 < den * 2 ^ s := Nat.mul_pos hden (Nat.two_pow_pos s)
  obtain ⟨hlow, hhigh, hodd⟩ := nearestQuotient_spec num hstep
  generalize nearestQuotient num (den * 2 ^ s) = m at *
  have hm : m ≤ 2 * leadingBit := by
    by_contra hlarge
    have hlarge : 2 * leadingBit + 1 ≤ m := by omega
    nlinarith
  have hs : s = 0 ∨ leadingBit ≤ m ∧ leadingBit * (den * 2 ^ s) ≤ num := by
    refine hfill.imp_right fun hfill => ⟨?_, hfill⟩
    by_contra hsmall
    have hsmall : m + 1 ≤ leadingBit := by omega
    nlinarith
  have hparity : (s * leadingBit + m) % 2 = m % 2 := by
    rw [leadingBit_eq]
    omega
  have hends := high_end hm (hs.imp_right And.left) hden hnum
  rcases Nat.eq_zero_or_pos m with rfl | hpos
  · obtain rfl : s = 0 := by
      rcases hs with hs | ⟨hleading, -⟩
      · exact hs
      · exact absurd hleading (by decide)
    refine ⟨?_, ?_, fun hrank => ?_⟩
    · simp [units_zero]
    · omega
    · simp at hrank
  · have hstarts := low_end hm hpos hden hs
    refine ⟨?_, ?_, fun hrank => ?_⟩
    · omega
    · omega
    · have hstrict := hodd (hparity.symm.trans hrank)
      omega

theorem nearestRank_eq {num den rank : Nat} (hden : 0 < den) (h : IsNearest num den rank) :
    nearestRank num den = rank :=
  (isNearest_nearestRank num hden).unique hden h

/-- Rounding keeps the order. -/
theorem nearestRank_mono {num larger den : Nat} (hden : 0 < den) (hle : num ≤ larger) :
    nearestRank num den ≤ nearestRank larger den :=
  (isNearest_nearestRank num hden).le_of_le hden (isNearest_nearestRank larger hden) hle

theorem ofRank_inj {negative other : Bool} {rank next : Nat} (hnext : next < infinityRank) :
    ofRank negative rank = ofRank other next ↔ negative = other ∧ rank = next := by
  simp only [ofRank, signed.injEq, Fin.mk.injEq]
  exact and_congr_right fun _ => by omega

end FlatLisp.Binary64
