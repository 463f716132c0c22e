import FlatLisp.Form.AtomReader
import FlatLisp.Proofs.Lexing

/-!
Numerals. Their texts are bare words, so a numeral can stand anywhere in a
source text. Reading digits within a limit gives their value if that is within
the limit, however many digits there are.
-/

namespace FlatLisp

open FlatLisp.Token (isBreak IsWord)

namespace Text

/-- What holds of the ten digits of every script holds of all decimal digits. -/
theorem of_isDecimalDigit {P : Char → Prop} {c : Char} (h : isDecimalDigit c = true)
    (htable : ∀ first ∈ digitZeros, ∀ k < 10, P (Char.ofNat (first + k))) : P c := by
  simp only [isDecimalDigit, List.any_eq_true, Bool.and_eq_true, decide_eq_true_eq] at h
  obtain ⟨first, hfirst, hlow, hhigh⟩ := h
  have hentry := htable first hfirst (c.toNat - first) (by omega)
  rwa [Nat.add_sub_cancel' hlow, Char.ofNat_toNat] at hentry

/-- No script has a digit that would end a bare word or open a literal. -/
theorem digit_stands_in_word {c : Char} (h : isDecimalDigit c = true) :
    isBreak c = false ∧ c ≠ '"' :=
  of_isDecimalDigit (P := fun c => isBreak c = false ∧ c ≠ '"') h (by decide +kernel)

/-- A numeral is not empty, and its characters are digits and the point. -/
theorem mem_of_isUnsignedNumeral {text : List Char} (h : isUnsignedNumeral text = true) :
    text ≠ [] ∧ ∀ c ∈ text, isDecimalDigit c = true ∨ c = '.' := by
  simp only [isUnsignedNumeral, Bool.and_eq_true] at h
  obtain ⟨hdigits, htail⟩ := h
  constructor
  · rintro rfl
    simp at hdigits
  · intro c hc
    rw [← List.takeWhile_append_dropWhile (p := isDecimalDigit) (l := text),
      List.mem_append] at hc
    rcases hc with hc | hc
    · exact .inl (List.mem_takeWhile_imp hc)
    · split at htail
      next hnil => simp [hnil] at hc
      next fraction hfraction =>
        rw [hfraction, List.mem_cons] at hc
        simp only [Bool.and_eq_true, List.all_eq_true] at htail
        rcases hc with rfl | hc
        · exact .inr rfl
        · exact .inl (htail.2 c hc)
      next => simp at htail

theorem isWord_of_isUnsignedNumeral {text : List Char} (h : isUnsignedNumeral text = true) :
    IsWord text := by
  obtain ⟨hne, hchars⟩ := mem_of_isUnsignedNumeral h
  have hstands (c : Char) (hc : c ∈ text) : isBreak c = false ∧ c ≠ '"' := by
    rcases hchars c hc with hdigit | rfl
    · exact digit_stands_in_word hdigit
    · decide
  refine ⟨hne, ?_, fun c hc => (hstands c hc).1⟩
  intro hquote
  exact (hstands '"' (List.mem_of_head? hquote)).2 rfl

/-- Every numeral is a word: none of its characters ends one or is a quote. -/
theorem isWord_of_isNumeral {text : List Char} (h : isNumeral text = true) : IsWord text := by
  unfold isNumeral at h
  split at h
  next rest =>
    have hrest := isWord_of_isUnsignedNumeral h
    refine ⟨by simp, by simp, ?_⟩
    intro c hc
    rcases List.mem_cons.mp hc with rfl | hc
    · decide
    · exact hrest.unbroken c hc
  next => exact isWord_of_isUnsignedNumeral h

theorem isUnsignedNumeral_of_digits {digits : List Char} (hne : digits ≠ [])
    (hdigits : ∀ c ∈ digits, c.isDigit = true) : isUnsignedNumeral digits = true := by
  have hall : ∀ c ∈ digits, isDecimalDigit c = true := fun c hc =>
    isDecimalDigit_of_isDigit (hdigits c hc)
  have htake : digits.takeWhile isDecimalDigit = digits := List.takeWhile_eq_self_iff.mpr hall
  have hdrop : digits.dropWhile isDecimalDigit = [] := List.dropWhile_eq_nil_iff.mpr hall
  simp [isUnsignedNumeral, htake, hdrop, hne]

theorem unquote?_of_head {text : List Char} (h : text.head? ≠ some '"') : unquote? text = none := by
  unfold unquote?
  split
  · simp at h
  · rfl

section

variable {body : List Char} (hhead : ∀ c ∈ body.head?, c.isDigit = true)
include hhead

/-- A minus in front of digits is their sign, and without it there is none. -/
theorem splitSign_signed (negative : Bool) :
    splitSign ((if negative then ['-'] else []) ++ body) = (negative, body) := by
  cases negative with
  | true => rfl
  | false =>
      change splitSign body = _
      unfold splitSign
      split
      next => exact absurd (hhead '-' rfl) (by decide)
      next => exact absurd (hhead '+' rfl) (by decide)
      next => rfl

/-- A sign in front does not change whether the rest is a numeral. -/
theorem isNumeral_signed (negative : Bool) :
    isNumeral ((if negative then ['-'] else []) ++ body) = isUnsignedNumeral body := by
  cases negative with
  | true => rfl
  | false =>
      change isNumeral body = _
      unfold isNumeral
      split
      next => exact absurd (hhead '-' rfl) (by decide)
      next => rfl

end

end Text

namespace Number

theorem le_ofDigitChars (digits : List Char) (value : Nat) :
    value ≤ Nat.ofDigitChars 10 digits value := by
  induction digits generalizing value with
  | nil => simp
  | cons c rest ih =>
      rw [Nat.ofDigitChars_cons]
      have hrest := ih (10 * value + (c.toNat - '0'.toNat))
      omega

/-- Digits are read as their value if that is within the limit. A prefix that
exceeds the limit decides at once, since more digits never make less of it. -/
theorem magnitude_of_digits {limit value : Nat} {digits : List Char}
    (hdigits : ∀ c ∈ digits, c.isDigit = true) (hvalue : value ≤ limit) :
    magnitude limit value digits =
      if Nat.ofDigitChars 10 digits value ≤ limit then .ok (Nat.ofDigitChars 10 digits value)
      else .error .outOfRange := by
  induction digits generalizing value with
  | nil => simp [magnitude, hvalue]
  | cons c rest ih =>
      have hc : c.isDigit = true := hdigits c List.mem_cons_self
      have hrest : ∀ d ∈ rest, d.isDigit = true := fun d hd =>
        hdigits d (List.mem_cons_of_mem _ hd)
      have hnext : Nat.ofDigitChars 10 (c :: rest) value =
          Nat.ofDigitChars 10 rest (10 * value + Text.digitValue c) := Nat.ofDigitChars_cons
      rw [magnitude, if_neg (by simp [hc]), hnext]
      by_cases hlimit : limit < 10 * value + Text.digitValue c
      · have hmore := le_ofDigitChars rest (10 * value + Text.digitValue c)
        rw [if_pos hlimit, if_neg (by omega)]
      · rw [if_neg hlimit]
        exact ih hrest (by omega)

/-- Digits behind a sign are an integer or too large for one. The limit of the
negative ones is larger by one. -/
theorem integerOfText_of_digits {text : String} {negative : Bool} {digits : List Char}
    (hsplit : Text.splitSign text.toList = (negative, digits)) (hne : digits ≠ [])
    (hdigits : ∀ c ∈ digits, c.isDigit = true) :
    integerOfText text =
      if Nat.ofDigitChars 10 digits 0 ≤ (if negative then negativeLimit else positiveLimit) then
        .ok (.ofInt (if negative then -(Nat.ofDigitChars 10 digits 0) else
          Nat.ofDigitChars 10 digits 0))
      else .error .outOfRange := by
  rw [integerOfText, hsplit]
  simp only [hne, if_false, magnitude_of_digits hdigits (Nat.zero_le _)]
  cases negative with
  | true =>
      simp only [if_true]
      split <;> rfl
  | false =>
      simp only [Bool.false_eq_true, if_false]
      split <;> rfl

theorem digits_of_toDigits (n : Nat) : ∀ c ∈ Nat.toDigits 10 n, c.isDigit = true := fun _ hc =>
  Nat.isDigit_of_mem_toDigits (by decide) (by decide) hc

theorem toList_integerText (i : Int) :
    (integerText i).toList = (if i < 0 then ['-'] else []) ++ Nat.toDigits 10 i.natAbs :=
  String.toList_ofList

end Number

/-- A text of the shape of a number is a number or nothing. -/
theorem Atom.ofText_of_isNumeral {text : String} (h : Text.isNumeral text.toList = true) :
    ofText text =
      match Number.ofText? text with
      | some value => .ok (.number value)
      | none => .error (.invalidNumber text) := by
  have hunquoted := Text.unquote?_of_head (Text.isWord_of_isNumeral h).unquoted
  cases hnumber : Number.ofText? text with
  | some value => simp only [ofText, hunquoted, h, if_true, hnumber]
  | none => simp only [ofText, hunquoted, h, if_true, hnumber]

/-- A number is read from a text of its shape. -/
theorem Atom.numeral_of_ofText {text : String} {value : Number}
    (h : ofText text = .ok (.number value)) :
    Text.isNumeral text.toList = true ∧ Number.ofText? text = some value := by
  unfold ofText at h
  split at h
  · cases h
  · split at h
    next hnumeral =>
      split at h
      next found hfound =>
        cases h
        exact ⟨hnumeral, hfound⟩
      next => cases h
    next => cases h

end FlatLisp
