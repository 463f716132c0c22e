import FlatLisp.Proofs.Numeral

/-!
Decimal literals: a minus or nothing, digits, a point and more digits, however
many there are. All floating-point numbers in a source text are written so.

Such a text is tried as an integer first. The point decides that it is none,
but only if it is reached: the digits in front of it are read like those of an
integer, and if they do not fit into one the literal is refused. So a decimal
literal is a floating-point number just if its whole part is a 64-bit integer.
-/

namespace FlatLisp

open FlatLisp.Text (digitsValue splitSign isDecimalDigit isUnsignedNumeral isNumeral)

structure DecimalLiteral where
  negative : Bool
  whole : List Char
  fraction : List Char
  whole_ne_nil : whole ≠ []
  fraction_ne_nil : fraction ≠ []
  whole_digits : ∀ c ∈ whole, c.isDigit = true
  fraction_digits : ∀ c ∈ fraction, c.isDigit = true

namespace DecimalLiteral

def unsigned (literal : DecimalLiteral) : List Char :=
  literal.whole ++ '.' :: literal.fraction

def text (literal : DecimalLiteral) : String :=
  String.ofList ((if literal.negative then ['-'] else []) ++ literal.unsigned)

def value (literal : DecimalLiteral) : Binary64 :=
  .ofDecimal literal.negative (digitsValue (literal.whole ++ literal.fraction))
    (-literal.fraction.length)

/-- Whether the sign and the digits before the point make an integer of 64
bits. -/
def WholeFits (literal : DecimalLiteral) : Prop :=
  digitsValue literal.whole ≤
    if literal.negative then Number.negativeLimit else Number.positiveLimit

instance (literal : DecimalLiteral) : Decidable literal.WholeFits :=
  inferInstanceAs (Decidable (_ ≤ _))

end DecimalLiteral

/-- Digits can be read in two parts, the second with the value of the first. -/
theorem Number.magnitude_append (limit value : Nat) (first second : List Char) :
    magnitude limit value (first ++ second) =
      magnitude limit value first >>= fun read => magnitude limit read second := by
  induction first generalizing value with
  | nil => rfl
  | cons c rest ih =>
      rw [List.cons_append, magnitude, magnitude]
      split
      · rfl
      · split
        · rfl
        · exact ih _

/-- The digits in front of a point are all read before the point is. -/
theorem Number.magnitude_point {limit : Nat} {digits : List Char}
    (hdigits : ∀ c ∈ digits, c.isDigit = true) (rest : List Char) :
    magnitude limit 0 (digits ++ '.' :: rest) =
      .error (if digitsValue digits ≤ limit then .malformed else .outOfRange) := by
  rw [magnitude_append, magnitude_of_digits hdigits (Nat.zero_le limit)]
  change (if digitsValue digits ≤ limit then Except.ok (digitsValue digits)
    else .error IntegerFault.outOfRange) >>= _ = _
  split
  · rfl
  · rfl

namespace DecimalLiteral

variable (literal : DecimalLiteral)

theorem toList_text :
    literal.text.toList = (if literal.negative then ['-'] else []) ++ literal.unsigned :=
  String.toList_ofList

theorem isDigit_head : ∀ c ∈ literal.unsigned.head?, c.isDigit = true := by
  intro c hc
  obtain ⟨first, rest, hwhole⟩ := List.exists_cons_of_ne_nil literal.whole_ne_nil
  rw [unsigned, hwhole] at hc
  obtain rfl : first = c := by simpa using hc
  exact literal.whole_digits first (by simp [hwhole])

theorem splitSign_text : splitSign literal.text.toList = (literal.negative, literal.unsigned) := by
  rw [toList_text]
  exact Text.splitSign_signed literal.isDigit_head literal.negative

theorem spans {p : Char → Bool} (hp : ∀ c : Char, c.isDigit = true → p c = true)
    (hpoint : p '.' = false) :
    literal.unsigned.takeWhile p = literal.whole ∧
      literal.unsigned.dropWhile p = '.' :: literal.fraction :=
  Token.takeWhile_dropWhile_append (fun c hc => hp c (literal.whole_digits c hc))
    (by simpa using hpoint)

theorem isNumeral_text : isNumeral literal.text.toList = true := by
  have hunsigned : isUnsignedNumeral literal.unsigned = true := by
    obtain ⟨htake, hdrop⟩ := literal.spans (p := isDecimalDigit)
      (fun c hc => Text.isDecimalDigit_of_isDigit hc) (by decide)
    have hall : ∀ c ∈ literal.fraction, isDecimalDigit c = true := fun c hc =>
      Text.isDecimalDigit_of_isDigit (literal.fraction_digits c hc)
    simpa [isUnsignedNumeral, htake, hdrop, literal.whole_ne_nil, literal.fraction_ne_nil]
      using hall
  rw [toList_text, Text.isNumeral_signed literal.isDigit_head]
  exact hunsigned

/-- As an integer a decimal literal is refused in any case. Its point makes it
malformed, unless the digits before it are out of range already. -/
theorem integerOfText_text :
    Number.integerOfText literal.text =
      .error (if literal.WholeFits then .malformed else .outOfRange) := by
  have hne : literal.unsigned ≠ [] := by simp [unsigned]
  have hpoint (limit : Nat) := @Number.magnitude_point limit _ literal.whole_digits
    literal.fraction
  rw [Number.integerOfText, literal.splitSign_text]
  simp only [hne, if_false]
  by_cases hnegative : literal.negative = true
  · simp only [hnegative, if_true, unsigned, hpoint, WholeFits]
    rfl
  · simp only [hnegative, unsigned, hpoint, WholeFits]
    rfl

/-- As a floating-point number a decimal literal is read as the number nearest
to what is written. -/
theorem ofText?_text : Binary64.ofText? literal.text = some literal.value := by
  obtain ⟨htake, hdrop⟩ := literal.spans (p := Char.isDigit) (fun _ hc => hc) (by decide)
  have hfraction : literal.fraction.takeWhile Char.isDigit = literal.fraction :=
    List.takeWhile_eq_self_iff.mpr literal.fraction_digits
  have hrest : literal.fraction.dropWhile Char.isDigit = [] :=
    List.dropWhile_eq_nil_iff.mpr literal.fraction_digits
  have hdecimal : Binary64.decimal? literal.negative literal.unsigned = some literal.value := by
    simp [Binary64.decimal?, htake, hdrop, Binary64.splitFraction, hfraction, hrest,
      Binary64.optionalExponent?, literal.whole_ne_nil, value]
  rw [Binary64.ofText?, literal.splitSign_text]
  simp only [hdecimal]
  rfl

variable {literal} in
theorem ofText_of_wholeFits (h : literal.WholeFits) :
    Atom.ofText literal.text = .ok (.number (.float literal.value)) := by
  simp only [Atom.ofText_of_isNumeral literal.isNumeral_text, Number.ofText?, integerOfText_text,
    h, if_true, ofText?_text, Option.map_some]

variable {literal} in
theorem ofText_of_not_wholeFits (h : ¬ literal.WholeFits) :
    Atom.ofText literal.text = .error (.invalidNumber literal.text) := by
  simp only [Atom.ofText_of_isNumeral literal.isNumeral_text, Number.ofText?, integerOfText_text,
    h, if_false]

/-- A decimal literal is the number nearest to what is written, but only if its
whole part is an integer of 64 bits. Otherwise it is refused, and the fault
names it. -/
theorem decimal_read_just_if_whole_fits (literal : DecimalLiteral) :
    Atom.ofText literal.text =
      if literal.WholeFits then .ok (.number (.float literal.value))
      else .error (.invalidNumber literal.text) := by
  split
  next hfits => exact ofText_of_wholeFits hfits
  next hlarge => exact ofText_of_not_wholeFits hlarge

/-- So not all decimal literals are numbers. -/
theorem decimal_refused_beyond_integers :
    ¬ ∀ literal : DecimalLiteral, ∃ x : Binary64,
      Atom.ofText literal.text = .ok (.number (.float x)) := by
  intro hall
  obtain ⟨x, hx⟩ := hall
    ⟨false, "9223372036854775808".toList, ['5'], by decide, by decide,
      List.all_eq_true.mp (by decide), List.all_eq_true.mp (by decide)⟩
  rw [ofText_of_not_wholeFits (by decide +kernel)] at hx
  cases hx

end DecimalLiteral

/-- No script has a digit that could be part of a name or mark an exponent. -/
theorem Text.digit_is_no_letter {c : Char} (h : isDecimalDigit c = true) :
    c.toLower ≠ 'n' ∧ c ≠ 'e' ∧ c ≠ 'E' :=
  of_isDecimalDigit (P := fun c => c.toLower ≠ 'n' ∧ c ≠ 'e' ∧ c ≠ 'E') h (by decide +kernel)

namespace Binary64

variable {negative : Bool} {body : List Char}

/-- The names of numbers without digits are no numerals, since they start with a
letter. -/
theorem named?_of_isUnsignedNumeral (h : isUnsignedNumeral body = true) :
    named? negative body = none := by
  have hletter : 'n' ∉ body.map Char.toLower := by
    intro hn
    obtain ⟨c, hc, hlower⟩ := List.mem_map.mp hn
    rcases (Text.mem_of_isUnsignedNumeral h).2 c hc with hdigit | rfl
    · exact (Text.digit_is_no_letter hdigit).1 hlower
    · exact absurd hlower (by decide)
  have hname (name : String) (hname : 'n' ∈ name.toList) :
      String.ofList (body.map Char.toLower) ≠ name := by
    rintro rfl
    exact hletter (by simpa using hname)
  rw [named?]
  simp only [hname "nan" (by decide), hname "inf" (by decide), hname "infinity" (by decide),
    if_false, or_self]

/-- A numeral has no exponent, so all of it is digits but for one point. -/
theorem optionalExponent?_eq_some {rest : List Char} {exponent : Int}
    (hrest : ∀ c ∈ rest, isDecimalDigit c = true ∨ c = '.')
    (h : optionalExponent? rest = some exponent) : rest = [] := by
  cases rest with
  | nil => rfl
  | cons mark rest =>
      have hmark : ¬ (mark = 'e' ∨ mark = 'E') := by
        rcases hrest mark List.mem_cons_self with hdigit | rfl
        · have hletter := (Text.digit_is_no_letter hdigit).2
          exact fun hmark => hmark.elim hletter.1 hletter.2
        · decide
      rw [optionalExponent?, if_neg hmark] at h
      cases h

/-- A numeral that is read as a floating-point number is nothing but digits, or
has a point between digits. -/
theorem parts_of_decimal? {x : Binary64} (hbody : isUnsignedNumeral body = true)
    (h : decimal? negative body = some x) :
    (∀ c ∈ body, c.isDigit = true) ∨
      ∃ whole fraction : List Char, body = whole ++ '.' :: fraction ∧
        whole ≠ [] ∧ fraction ≠ [] ∧
        (∀ c ∈ whole, c.isDigit = true) ∧ ∀ c ∈ fraction, c.isDigit = true := by
  have hpoint : isDecimalDigit '.' = false := by decide
  have hchars := (Text.mem_of_isUnsignedNumeral hbody).2
  have hparts := List.takeWhile_append_dropWhile (p := Char.isDigit) (l := body)
  have hwhole : ∀ c ∈ body.takeWhile Char.isDigit, c.isDigit = true := fun c hc =>
    List.mem_takeWhile_imp hc
  generalize htake : body.takeWhile Char.isDigit = whole at *
  generalize hdrop : body.dropWhile Char.isDigit = rest at *
  have hrest : ∀ c ∈ rest, isDecimalDigit c = true ∨ c = '.' := fun c hc =>
    hchars c (by simp [← hparts, hc])
  simp only [decimal?, htake, hdrop] at h
  split at h
  · cases h
  · obtain ⟨exponent, hexponent, -⟩ := Option.map_eq_some_iff.mp h
    clear h
    unfold splitFraction at hexponent
    split at hexponent
    next fraction _ =>
      right
      have hfraction := optionalExponent?_eq_some
        (fun c hc => hrest c (by simp [List.dropWhile_subset Char.isDigit hc])) hexponent
      refine ⟨whole, fraction, hparts.symm, ?_, ?_, hwhole,
        List.dropWhile_eq_nil_iff.mp hfraction⟩
      · rintro rfl
        simp [isUnsignedNumeral, ← hparts, hpoint] at hbody
      · rintro rfl
        have hdrop : (whole ++ ['.']).dropWhile isDecimalDigit = ['.'] :=
          (Token.takeWhile_dropWhile_append
            (fun c hc => Text.isDecimalDigit_of_isDigit (hwhole c hc)) (by simpa using hpoint)).2
        simp [isUnsignedNumeral, ← hparts, hdrop] at hbody
    next =>
      left
      obtain rfl := optionalExponent?_eq_some hrest hexponent
      rwa [← hparts, List.append_nil]

end Binary64

/-- A numeral is a sign, if it has one, and an unsigned numeral. -/
theorem Text.splitSign_of_isNumeral {text : List Char} (h : isNumeral text = true) :
    ∃ negative body, text = (if negative then ['-'] else []) ++ body ∧
      splitSign text = (negative, body) ∧ isUnsignedNumeral body = true := by
  unfold isNumeral at h
  split at h
  next body => exact ⟨true, body, rfl, rfl, h⟩
  next hminus =>
    refine ⟨false, text, rfl, ?_, h⟩
    unfold splitSign
    split
    next rest => exact absurd rfl (hminus rest)
    next =>
      exact absurd h (by simp [isUnsignedNumeral, show isDecimalDigit '+' = false by decide])
    next => rfl

/-- Only decimal literals are read as floating-point numbers. A numeral that is
none consists of digits, and these are read as an integer or refused. -/
theorem DecimalLiteral.exists_text_eq {word : String} {x : Binary64}
    (h : Atom.ofText word = .ok (.number (.float x))) :
    ∃ literal : DecimalLiteral, literal.text = word := by
  obtain ⟨hnumeral, hvalue⟩ := Atom.numeral_of_ofText h
  obtain ⟨negative, body, hword, hsplit, hbody⟩ := Text.splitSign_of_isNumeral hnumeral
  unfold Number.ofText? at hvalue
  split at hvalue
  · cases hvalue
  · cases hvalue
  next hmalformed =>
    obtain ⟨y, hy, -⟩ := Option.map_eq_some_iff.mp hvalue
    rw [Binary64.ofText?, hsplit] at hy
    change (Binary64.decimal? negative body <|> Binary64.named? negative body) = some y at hy
    rw [Binary64.named?_of_isUnsignedNumeral hbody] at hy
    replace hy := (orElse_failure _).symm.trans hy
    rcases Binary64.parts_of_decimal? hbody hy with hdigits | ⟨whole, fraction, rfl, hparts⟩
    · rw [Number.integerOfText_of_digits hsplit (Text.mem_of_isUnsignedNumeral hbody).1 hdigits]
        at hmalformed
      repeat' split at hmalformed
      all_goals cases hmalformed
    · obtain ⟨hwhole, hfraction, hwholeDigits, hfractionDigits⟩ := hparts
      refine ⟨⟨negative, whole, fraction, hwhole, hfraction, hwholeDigits, hfractionDigits⟩, ?_⟩
      rw [← String.toList_inj, DecimalLiteral.toList_text, hword]
      rfl

/-- The words that are floating-point numbers are the decimal literals whose
whole part fits. -/
theorem Atom.ofText_eq_float_iff {word : String} {x : Binary64} :
    ofText word = .ok (.number (.float x)) ↔
      ∃ literal : DecimalLiteral, literal.text = word ∧ literal.WholeFits ∧ literal.value = x := by
  constructor
  · intro h
    obtain ⟨literal, rfl⟩ := DecimalLiteral.exists_text_eq h
    refine ⟨literal, rfl, ?_⟩
    by_cases hfits : literal.WholeFits
    · rw [literal.ofText_of_wholeFits hfits] at h
      exact ⟨hfits, by simpa using h⟩
    · rw [literal.ofText_of_not_wholeFits hfits] at h
      cases h
  · rintro ⟨literal, rfl, hfits, rfl⟩
    exact literal.ofText_of_wholeFits hfits

end FlatLisp
