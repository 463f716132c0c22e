import FlatLisp.Proofs.DecimalLiteral
import FlatLisp.Proofs.Nearest
import FlatLisp.Form.Printer
import Mathlib.Tactic.Linarith
import Mathlib.Tactic.Positivity
import Mathlib.Tactic.Ring

/-!
The text of a floating-point number is a decimal literal of that number. A
whole number is written exactly. For any other, the search for the shortest
decimal only ever returns points in the number's neighbourhood, and it does not
come back empty, because the last grid holds the number itself. The decimal
that it finds has places behind the point: a whole number is a multiple of the
step of such a number, and of these only the number itself is in its
neighbourhood.

What remains is whether the whole part of the text fits into an integer, since
the text is refused otherwise. Literals that are read have values of up to
`2 ^ 63`. Their texts are read again but for `2 ^ 63` itself: literals below it
may be rounded to it, and its own text has a whole part that is one too large.
-/

namespace FlatLisp.Binary64

namespace Decimal

variable {rank : Nat} {d : Decimal}

theorem stepParts_pos (exponent : Int) : 0 < stepParts exponent := by
  rw [stepParts, Nat.pow_eq]
  positivity

@[simp] theorem stepParts_neg (places : Nat) : stepParts (-places) = 10 ^ places := by
  rw [stepParts, Nat.pow_eq, Int.neg_neg, Int.toNat_natCast]

@[simp] theorem stepUnits_neg (places : Nat) : stepUnits (-places) = unitsPerOne := by
  have hnone : (-(places : Int)).toNat = 0 := by omega
  rw [stepUnits, hnone, Nat.pow_eq, Nat.pow_zero, Nat.one_mul]

def IsNear (d : Decimal) (rank : Nat) : Prop :=
  IsNearest (d.digits * stepUnits d.exponent) (stepParts d.exponent) rank

/-- A decimal that passes the test of the search lies in the neighbourhood of
the rank. -/
theorem isNear_of_roundsTo (h : d.roundsTo rank = true) : d.IsNear rank := by
  have hpoint : 2 * (d.digits * stepUnits d.exponent) = 2 * d.digits * stepUnits d.exponent := by
    ring
  rw [roundsTo] at h
  constructor <;> rw [hpoint]
  · split at h <;> simp at h <;> omega
  · split at h <;> simp at h <;> omega
  · intro hodd
    rw [if_neg (by omega)] at h
    simpa using h

/-- Whichever of the two grid points is chosen has passed the test. -/
theorem roundsTo_of_onGrid? {exponent : Int} (h : onGrid? rank exponent = some d) :
    d.roundsTo rank = true := by
  simp only [onGrid?] at h
  split at h
  next hbelow habove =>
    obtain rfl := Option.some.inj h
    split
    · exact hbelow
    · exact habove
  next hbelow _ =>
    obtain rfl := Option.some.inj h
    exact hbelow
  next habove =>
    obtain rfl := Option.some.inj h
    exact habove
  next => exact absurd h nofun

/-- The grid of `10 ^ (-1074)` holds every number. -/
theorem isNear_finest (rank : Nat) :
    IsNear ⟨units rank * 10 ^ 1074 / unitsPerOne, -(1074 : Nat)⟩ rank := by
  have hdvd : unitsPerOne ∣ 10 ^ 1074 := by
    rw [unitsPerOne_eq]
    exact pow_dvd_pow_of_dvd (by decide) 1074
  rw [IsNear, stepUnits_neg, stepParts_neg, Nat.div_mul_cancel (Dvd.dvd.mul_left hdvd _)]
  exact isNearest_units (by positivity) rank

/-- Every hit is near the rank, and so is the point of the last grid. -/
theorem isNear_firstHit (rank tries : Nat) : (firstHit rank tries (tries - 1074)).IsNear rank := by
  induction tries with
  | zero =>
      have hlast : ((0 : Nat) : Int) - 1074 = -(1074 : Nat) := rfl
      rw [firstHit, hlast, stepUnits_neg, stepParts_neg]
      exact isNear_finest rank
  | succ tries ih =>
      rw [firstHit]
      split
      next hit => exact isNear_of_roundsTo (roundsTo_of_onGrid? hit)
      next =>
        have hfiner : ((tries + 1 : Nat) : Int) - 1074 - 1 = tries - 1074 := by omega
        rw [hfiner]
        exact ih

theorem isNear_shortest (rank : Nat) : (shortest rank).IsNear rank := by
  have hfirst := isNear_firstHit rank
    ((Nat.toDigits 10 (units rank / unitsPerOne)).length + 1074)
  have hstart (start : Nat) : ((start + 1074 : Nat) : Int) - 1074 = start := by omega
  rw [hstart] at hfirst
  exact hfirst

/-- A decimal is rounded to a magnitude that it is near to. -/
theorem exists_rank (d : Decimal) :
    ∃ rank, d.IsNear rank ∧
      ∀ negative, ofDecimal negative d.digits d.exponent = ofRank negative rank := by
  refine ⟨_, isNearest_nearestRank _ (stepParts_pos d.exponent), fun negative => ?_⟩
  have hpoint : d.digits * Nat.pow 10 d.exponent.toNat * unitsPerOne =
      d.digits * stepUnits d.exponent := Nat.mul_assoc ..
  rw [ofDecimal, hpoint]
  rfl

/-- A decimal is read as a finite number just if it has its sign and lies in its
neighbourhood, since neighbourhoods do not overlap. -/
theorem ofDecimal_eq_iff (d : Decimal) {negative other : Bool} (hrank : rank < infinityRank) :
    ofDecimal negative d.digits d.exponent = ofRank other rank ↔
      negative = other ∧ d.IsNear rank := by
  obtain ⟨found, hfound, hvalue⟩ := d.exists_rank
  rw [hvalue, ofRank_inj hrank]
  apply and_congr_right
  intro _
  constructor
  · rintro rfl
    exact hfound
  · exact hfound.unique (stepParts_pos _)

end Decimal

/-- The decimal of a number that is not whole has places behind the point. -/
theorem exponent_shortest_neg {rank : Nat} (h : units rank % unitsPerOne ≠ 0) :
    (Decimal.shortest rank).exponent < 0 := by
  by_contra hplaces
  have hnear := Decimal.isNear_shortest rank
  generalize Decimal.shortest rank = d at *
  have hparts : Decimal.stepParts d.exponent = 1 := by
    have hnone : (-d.exponent).toNat = 0 := by omega
    rw [Decimal.stepParts, hnone, Nat.pow_eq, Nat.pow_zero]
  have hpoint : unitsPerOne ∣ d.digits * Decimal.stepUnits d.exponent :=
    Dvd.dvd.mul_left (Nat.dvd_mul_left _ _) _
  have hscale : scale rank ≤ 1074 := by
    by_contra hlarge
    have hwhole : unitsPerOne ∣ units rank := by
      rw [unitsPerOne_eq, units_eq]
      exact Dvd.dvd.mul_left (pow_dvd_pow 2 (Nat.le_of_not_le hlarge)) _
    exact h (Nat.mod_eq_zero_of_dvd hwhole)
  have hstep : 2 ^ scale rank ∣ unitsPerOne := by
    rw [unitsPerOne_eq]
    exact pow_dvd_pow 2 hscale
  rw [Decimal.IsNear, hparts] at hnear
  have hexact := hnear.eq_units (hstep.trans hpoint)
  exact h (Nat.mod_eq_zero_of_dvd (hexact ▸ hpoint))

/-- The rank of `2 ^ 63`, the least magnitude that is too large for a positive
integer. -/
def integerLimitRank : Nat := 1086 * leadingBit

theorem units_integerLimitRank : units integerLimitRank = Number.negativeLimit * unitsPerOne := by
  have hrank : integerLimitRank = 1085 * leadingBit + leadingBit := rfl
  rw [hrank, units_of_significand (by omega) (.inr (Nat.le_refl _)), unitsPerOne_eq]
  have hleading : leadingBit = 2 ^ 52 := rfl
  have hlimit : Number.negativeLimit = 2 ^ 63 := rfl
  rw [hleading, hlimit, ← pow_add, ← pow_add]

theorem units_integerLimitRank_succ :
    units (integerLimitRank + 1) = (Number.negativeLimit + 2048) * unitsPerOne := by
  have hscale : scale integerLimitRank = 11 + 1074 := rfl
  rw [units_succ, units_integerLimitRank, hscale, pow_add, ← unitsPerOne_eq]
  ring

theorem ofInt_integerLimit : ofInt Number.negativeLimit = ofRank false integerLimitRank := by
  have hrank := nearestRank_eq Nat.one_pos (isNearest_units Nat.one_pos integerLimitRank)
  rw [Nat.mul_one, units_integerLimitRank] at hrank
  have hsign : decide ((Number.negativeLimit : Int) < 0) = false := by
    rw [decide_eq_false_iff_not]
    omega
  rw [ofInt, ofUnits, Int.natAbs_natCast, hrank, hsign]

end FlatLisp.Binary64

namespace FlatLisp

open FlatLisp.Binary64
open FlatLisp.Text (digitsValue)

theorem Text.digitsValue_append (first second : List Char) :
    digitsValue (first ++ second) =
      digitsValue first * 10 ^ second.length + digitsValue second := by
  have happend := Nat.ofDigitChars_append (b := 10) (l := first) (m := second) 0
  rw [Nat.ofDigitChars_eq_ofDigitChars_zero (l := second), Nat.mul_comm] at happend
  exact happend

theorem Text.digitsValue_toDigits (n : Nat) : digitsValue (Nat.toDigits 10 n) = n :=
  Nat.ofDigitChars_ten_toDigits

theorem Text.digitsValue_replicate_zero (n : Nat) : digitsValue (List.replicate n '0') = 0 :=
  Nat.ofDigitChars_replicate_zero

/-- Digits make a number with at most as many places. -/
theorem Text.digitsValue_lt {digits : List Char} (h : ∀ c ∈ digits, c.isDigit = true) :
    digitsValue digits < 10 ^ digits.length := by
  induction digits with
  | nil => decide
  | cons c rest ih =>
      have hc : digitsValue [c] ≤ 9 := by
        have hbounds : 48 ≤ c.toNat ∧ c.toNat ≤ 57 := by
          simpa [Char.isDigit, UInt32.le_iff_toNat_le] using h c List.mem_cons_self
        change 10 * 0 + (c.toNat - 48) ≤ 9
        omega
      have hrest := ih fun d hd => h d (List.mem_cons_of_mem _ hd)
      have hsplit := digitsValue_append [c] rest
      rw [List.singleton_append] at hsplit
      rw [hsplit, List.length_cons, Nat.pow_succ]
      nlinarith

namespace DecimalLiteral

variable (literal : DecimalLiteral)

def decimal : Decimal :=
  ⟨digitsValue (literal.whole ++ literal.fraction), -literal.fraction.length⟩

theorem value_eq_iff {negative : Bool} {rank : Nat} (hrank : rank < infinityRank) :
    literal.value = .ofRank negative rank ↔
      literal.negative = negative ∧ literal.decimal.IsNear rank :=
  literal.decimal.ofDecimal_eq_iff hrank

/-- The whole part of a literal is the integral part of what is written. -/
theorem whole_bounds :
    digitsValue literal.whole * 10 ^ literal.fraction.length ≤ literal.decimal.digits ∧
      literal.decimal.digits < (digitsValue literal.whole + 1) * 10 ^ literal.fraction.length := by
  have hfraction := Text.digitsValue_lt literal.fraction_digits
  have hdigits : literal.decimal.digits = _ := Text.digitsValue_append _ _
  rw [hdigits, Nat.add_mul, Nat.one_mul]
  omega

section

variable {literal} {rank : Nat}

theorem isNear_decimal_iff :
    literal.decimal.IsNear rank ↔
      IsNearest (literal.decimal.digits * unitsPerOne) (10 ^ literal.fraction.length) rank := by
  rw [Decimal.IsNear, decimal, Decimal.stepUnits_neg, Decimal.stepParts_neg]

/-- What rounds to less than `2 ^ 63` has a whole part below it. -/
theorem whole_lt_of_rank_lt (h : literal.decimal.IsNear rank) (hrank : rank < integerLimitRank) :
    digitsValue literal.whole < Number.negativeLimit := by
  have hpoint := (isNear_decimal_iff.mp h).lt_units (by positivity) hrank
  rw [units_integerLimitRank, Nat.mul_right_comm] at hpoint
  exact Nat.lt_of_mul_lt_mul_right
    (literal.whole_bounds.1.trans_lt (Nat.lt_of_mul_lt_mul_right hpoint))

/-- What is read rounds to `2 ^ 63` at most: the next number is too far away. -/
theorem rank_le_of_whole_le (h : literal.decimal.IsNear rank)
    (hwhole : digitsValue literal.whole ≤ Number.negativeLimit) : rank ≤ integerLimitRank := by
  by_contra hlarge
  have hpoint := (isNear_decimal_iff.mp h).units_le (Nat.lt_of_not_le hlarge)
  rw [units_integerLimitRank, units_integerLimitRank_succ, ← Nat.add_mul, Nat.mul_right_comm,
    ← Nat.mul_assoc] at hpoint
  have hscaled := Nat.le_of_mul_le_mul_right hpoint unitsPerOne_pos
  have hdigits := literal.whole_bounds.2
  nlinarith

/-- A literal whose digits before the point fit is read as at most `2 ^ 63`. -/
theorem exists_rank_of_wholeFits (h : literal.WholeFits) :
    ∃ rank ≤ integerLimitRank, literal.value = .ofRank literal.negative rank := by
  have hwhole : digitsValue literal.whole ≤ Number.negativeLimit := by
    have hlimits : Number.positiveLimit ≤ Number.negativeLimit := by decide
    rw [WholeFits] at h
    split at h <;> omega
  obtain ⟨rank, hnear, hvalue⟩ := literal.decimal.exists_rank
  exact ⟨rank, rank_le_of_whole_le hnear hwhole, hvalue _⟩

end

/-- The decimal of a negative exponent in positional notation: at least one
digit more than there are places, with the point put in. -/
theorem exists_positional (negative : Bool) {d : Decimal} (hexponent : d.exponent < 0) :
    ∃ literal : DecimalLiteral, literal.negative = negative ∧ literal.unsigned = d.positional ∧
      literal.decimal = d := by
  obtain ⟨places, hplaces⟩ : ∃ places : Nat, (-d.exponent).toNat = places := ⟨_, rfl⟩
  have hexponents : -(places : Int) = d.exponent := by omega
  rw [Decimal.positional, if_neg (by omega), hplaces]
  let padded := List.replicate (places + 1 - (Nat.toDigits 10 d.digits).length) '0' ++
    Nat.toDigits 10 d.digits
  have hlong : places < padded.length := by
    simp only [padded, List.length_append, List.length_replicate]
    omega
  have hdigits : ∀ c ∈ padded, c.isDigit = true := by
    intro c hc
    rcases List.mem_append.mp hc with hzero | hdigit
    · rw [List.eq_of_mem_replicate hzero]
      decide
    · exact Number.digits_of_toDigits _ c hdigit
  have hvalue : digitsValue padded = d.digits := by
    rw [Text.digitsValue_append, Text.digitsValue_replicate_zero, Text.digitsValue_toDigits,
      Nat.zero_mul, Nat.zero_add]
  have hwhole : (padded.take (padded.length - places)).length = padded.length - places := by
    rw [List.length_take]
    omega
  have hfraction : (padded.drop (padded.length - places)).length = places := by
    rw [List.length_drop]
    omega
  refine ⟨⟨negative, padded.take (padded.length - places), padded.drop (padded.length - places),
    List.ne_nil_of_length_pos (by omega), List.ne_nil_of_length_pos (by omega),
    fun c hc => hdigits c (List.mem_of_mem_take hc),
    fun c hc => hdigits c (List.mem_of_mem_drop hc)⟩, rfl, rfl, ?_⟩
  rw [decimal, List.take_append_drop, hvalue, hfraction, hexponents]

end DecimalLiteral

section

variable {rank : Nat} (negative : Bool)

/-- A whole number is written with its digits, a point and a zero. -/
theorem exists_literal_of_whole (hfinite : rank < infinityRank)
    (hwhole : units rank % unitsPerOne = 0) :
    ∃ literal : DecimalLiteral,
      literal.text = (Binary64.ofRank negative rank).text ∧
        literal.value = .ofRank negative rank ∧
          digitsValue literal.whole = units rank / unitsPerOne := by
  let literal : DecimalLiteral :=
    { negative
      whole := Nat.toDigits 10 (units rank / unitsPerOne)
      fraction := ['0']
      whole_ne_nil := Nat.toDigits_ne_nil
      fraction_ne_nil := by decide
      whole_digits := Number.digits_of_toDigits _
      fraction_digits := List.all_eq_true.mp (by decide) }
  refine ⟨literal, ?_, ?_, Text.digitsValue_toDigits _⟩
  · simp only [Binary64.text, Binary64.ofRank, Binary64.magnitudeText, Nat.min_eq_left hfinite.le,
      hfinite.ne, hwhole, if_false, if_true]
    rfl
  · have hdigits : literal.decimal.digits = units rank / unitsPerOne * 10 := by
      change digitsValue (Nat.toDigits 10 (units rank / unitsPerOne) ++ ['0']) = _
      rw [Text.digitsValue_append, Text.digitsValue_toDigits]
      rfl
    have hexact : units rank / unitsPerOne * 10 * unitsPerOne = units rank * 10 := by
      rw [Nat.mul_right_comm, Nat.div_mul_cancel (Nat.dvd_of_mod_eq_zero hwhole)]
    rw [literal.value_eq_iff hfinite, DecimalLiteral.isNear_decimal_iff, hdigits, hexact]
    exact ⟨rfl, isNearest_units (by decide) rank⟩

/-- Any other number is written with its shortest decimal. -/
theorem exists_literal_of_not_whole (hfinite : rank < infinityRank)
    (hfraction : units rank % unitsPerOne ≠ 0) :
    ∃ literal : DecimalLiteral,
      literal.text = (Binary64.ofRank negative rank).text ∧
        literal.value = .ofRank negative rank := by
  obtain ⟨literal, hnegative, hunsigned, hdecimal⟩ :=
    DecimalLiteral.exists_positional negative (exponent_shortest_neg hfraction)
  refine ⟨literal, ?_, ?_⟩
  · simp only [Binary64.text, Binary64.ofRank, Binary64.magnitudeText, Nat.min_eq_left hfinite.le,
      hfinite.ne, hfraction, if_false]
    rw [DecimalLiteral.text, hnegative, hunsigned]
  · rw [literal.value_eq_iff hfinite, hdecimal]
    exact ⟨hnegative, Decimal.isNear_shortest rank⟩

/-- So the text of a finite number is a literal of it. At `2 ^ 63`, a whole
number, its whole part is known. -/
theorem exists_literal_text (hfinite : rank < infinityRank) :
    ∃ literal : DecimalLiteral,
      literal.text = (Binary64.ofRank negative rank).text ∧
        literal.value = .ofRank negative rank ∧
          (rank = integerLimitRank → digitsValue literal.whole = Number.negativeLimit) := by
  by_cases hwhole : units rank % unitsPerOne = 0
  · obtain ⟨literal, htext, hvalue, hdigits⟩ := exists_literal_of_whole negative hfinite hwhole
    refine ⟨literal, htext, hvalue, ?_⟩
    rintro rfl
    rw [hdigits, units_integerLimitRank, Nat.mul_div_cancel _ unitsPerOne_pos]
  · obtain ⟨literal, htext, hvalue⟩ := exists_literal_of_not_whole negative hfinite hwhole
    refine ⟨literal, htext, hvalue, ?_⟩
    rintro rfl
    rw [units_integerLimitRank, Nat.mul_mod_left] at hwhole
    exact absurd rfl hwhole

end

/-- The text of a number that was read is read again, with one exception. -/
theorem DecimalLiteral.wholeFits_iff {literal : DecimalLiteral} {negative : Bool} {rank : Nat}
    (hrank : rank ≤ integerLimitRank) (hvalue : literal.value = .ofRank negative rank)
    (hwhole : rank = integerLimitRank → digitsValue literal.whole = Number.negativeLimit) :
    literal.WholeFits ↔ literal.value ≠ .ofInt Number.negativeLimit := by
  have hfinite : rank < infinityRank := hrank.trans_lt (by decide)
  obtain ⟨rfl, hnear⟩ := (literal.value_eq_iff hfinite).mp hvalue
  have hlimits : Number.negativeLimit = Number.positiveLimit + 1 := rfl
  rw [hvalue, ofInt_integerLimit, ne_eq, ofRank_inj (by decide), WholeFits]
  rcases Nat.lt_or_eq_of_le hrank with hlt | rfl
  · have hsmall := whole_lt_of_rank_lt hnear hlt
    split <;> omega
  · rw [hwhole rfl]
    split
    next hnegative => simp [hnegative]
    next hpositive => simp [hpositive, hlimits]

/-- A floating-point number that was read is read again from its text, bit for
bit, and a zero with its sign. Only `2 ^ 63` is not: some literals below it are
rounded to it, and its text is refused. -/
theorem Atom.literals_read_back {word : String} {x : Binary64}
    (h : ofText word = .ok (.number (.float x))) :
    Token.IsWord (source (.number (.float x))).toList ∧
      ofText (source (.number (.float x))) =
        if x = .ofInt 9223372036854775808 then
          .error (.invalidNumber (source (.number (.float x))))
        else .ok (.number (.float x)) := by
  obtain ⟨literal, rfl, hfits, rfl⟩ := ofText_eq_float_iff.mp h
  obtain ⟨rank, hrank, hvalue⟩ := literal.exists_rank_of_wholeFits hfits
  obtain ⟨printed, htext, hprinted, hwhole⟩ :=
    exists_literal_text literal.negative (hrank.trans_lt (by decide : _ < infinityRank))
  have hsource : source (.number (.float literal.value)) = printed.text := by
    rw [htext, hvalue]
    rfl
  have hread := DecimalLiteral.wholeFits_iff hrank hprinted hwhole
  rw [hprinted, ← hvalue] at hread
  rw [hsource]
  refine ⟨Text.isWord_of_isNumeral printed.isNumeral_text, ?_⟩
  split
  next hlimit => exact printed.ofText_of_not_wholeFits fun hfits => hread.mp hfits hlimit
  next hother =>
    rw [printed.ofText_of_wholeFits (hread.mpr hother), hprinted, hvalue]

theorem Atom.literals_read_back_shortest :
    ofText "-0.1000000000000000000001" = .ok (.number (.float (.ofBits 0xbfb999999999999a))) ∧
      Token.IsWord "-0.1".toList ∧
        ofText "-0.1" = .ok (.number (.float (.ofBits 0xbfb999999999999a))) := by
  have hword : ofText "-0.1000000000000000000001" =
      .ok (.number (.float (.ofBits 0xbfb999999999999a))) := by decide +kernel
  have hsource : source (.number (.float (.ofBits 0xbfb999999999999a))) = "-0.1" := by
    decide +kernel
  have hback := literals_read_back hword
  rw [hsource, if_neg (by decide +kernel)] at hback
  exact ⟨hword, hback⟩

/-- The exception: a literal below `2 ^ 63` that is rounded up to it. -/
theorem Atom.literal_not_read_back :
    ¬ ∀ (word : String) (x : Binary64), ofText word = .ok (.number (.float x)) →
      ofText (source (.number (.float x))) = .ok (.number (.float x)) := by
  intro hall
  have hword : ofText "9223372036854775807.5" =
      .ok (.number (.float (.ofInt 9223372036854775808))) := by decide +kernel
  have hback : ofText (source (.number (.float (.ofInt 9223372036854775808)))) =
      .error (.invalidNumber "9223372036854775808.0") := by decide +kernel
  have hsame := hall _ _ hword
  rw [hback] at hsame
  cases hsame

end FlatLisp
