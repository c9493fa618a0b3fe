import Mathlib.Data.List.Basic
import Mathlib.Data.List.TakeWhile

/-!
# Numerals inside names

A decimal numeral can be read back from a name whenever what follows it starts
with something other than a digit, and a numeral padded with zeros keeps its
value.
-/

namespace GlmFlash.Library

/-- The decimal numeral of a number. -/
def numeral (number : ℕ) : List Char :=
  number.repr.toList

theorem toList_toString (number : ℕ) :
    (toString number).toList = numeral number := rfl

theorem numeral_eq_toDigits (number : ℕ) :
    numeral number = Nat.toDigits 10 number :=
  Nat.toList_repr

theorem isDigit_of_mem_numeral {number : ℕ} {digit : Char}
    (hmem : digit ∈ numeral number) : digit.isDigit = true := by
  rw [numeral_eq_toDigits] at hmem
  exact Nat.isDigit_of_mem_toDigits (by decide) (by decide) hmem

theorem numeral_injective : Function.Injective numeral := by
  intro left right heq
  rw [numeral_eq_toDigits, numeral_eq_toDigits] at heq
  have hvalue := congrArg (fun digits => Nat.ofDigitChars 10 digits 0) heq
  simpa only [Nat.ofDigitChars_ten_toDigits] using hvalue

/-- The text does not start with a digit. -/
def Stops (text : List Char) : Prop :=
  ∀ char ∈ text.head?, char.isDigit = false

theorem stops_iff {text : List Char} :
    Stops text ↔ (text.head?.all fun char => !char.isDigit) = true := by
  cases text <;> simp [Stops]

instance (text : List Char) : Decidable (Stops text) :=
  decidable_of_iff _ stops_iff.symm

theorem not_stops_numeral (number : ℕ) (rest : List Char) :
    ¬Stops (numeral number ++ rest) := by
  intro hstops
  have hne : numeral number ≠ [] := by
    rw [numeral_eq_toDigits]
    exact Nat.toDigits_ne_nil
  obtain ⟨digit, digits, hdigits⟩ := List.exists_cons_of_ne_nil hne
  have hdigit := isDigit_of_mem_numeral (hdigits ▸ List.mem_cons_self :
    digit ∈ numeral number)
  have hstop := hstops digit (by rw [hdigits]; rfl)
  rw [hdigit] at hstop
  cases hstop

theorem takeWhile_isDigit_numeral {number : ℕ} {rest : List Char}
    (hrest : Stops rest) :
    (numeral number ++ rest).takeWhile Char.isDigit = numeral number := by
  rw [List.takeWhile_append_of_pos fun digit hmem =>
    isDigit_of_mem_numeral hmem]
  cases rest with
  | nil => exact List.append_nil _
  | cons stop rest =>
      have hstop : stop.isDigit = false := hrest stop rfl
      rw [List.takeWhile_cons_of_neg (by simp [hstop]), List.append_nil]

/-- A numeral and the text after it are both determined, when that text starts
with no digit. -/
theorem numeral_append_inj {left right : ℕ} {rest rest' : List Char}
    (hrest : Stops rest) (hrest' : Stops rest')
    (heq : numeral left ++ rest = numeral right ++ rest') :
    left = right ∧ rest = rest' := by
  have hdigits := congrArg (List.takeWhile Char.isDigit) heq
  rw [takeWhile_isDigit_numeral hrest, takeWhile_isDigit_numeral hrest']
    at hdigits
  rw [hdigits] at heq
  exact ⟨numeral_injective hdigits, List.append_cancel_left heq⟩

/-- A numeral of at least the given width, padded with zeros. -/
def paddedNumeral (width number : ℕ) : List Char :=
  List.replicate (width - (numeral number).length) '0' ++ numeral number

theorem paddedNumeral_injective (width : ℕ) :
    Function.Injective (paddedNumeral width) := by
  intro left right heq
  have hvalue := congrArg (fun digits => Nat.ofDigitChars 10 digits 0) heq
  simpa only [paddedNumeral, numeral_eq_toDigits, Nat.ofDigitChars_append,
    Nat.ofDigitChars_replicate_zero, Nat.mul_zero,
    Nat.ofDigitChars_ten_toDigits] using hvalue

theorem isDigit_of_mem_paddedNumeral {width number : ℕ} {digit : Char}
    (hmem : digit ∈ paddedNumeral width number) : digit.isDigit = true := by
  rcases List.mem_append.mp hmem with hpad | hnumeral
  · rw [List.eq_of_mem_replicate hpad]
    decide
  · exact isDigit_of_mem_numeral hnumeral

theorem paddedNumeral_append_inj {width left right : ℕ}
    {rest rest' : List Char} (hrest : Stops rest) (hrest' : Stops rest')
    (heq : paddedNumeral width left ++ rest =
      paddedNumeral width right ++ rest') : left = right ∧ rest = rest' := by
  have hpadding : ∀ {number : ℕ} {tail : List Char}, Stops tail →
      (paddedNumeral width number ++ tail).takeWhile Char.isDigit =
        paddedNumeral width number := by
    intro number tail htail
    rw [List.takeWhile_append_of_pos fun digit hmem =>
      isDigit_of_mem_paddedNumeral hmem]
    cases tail with
    | nil => exact List.append_nil _
    | cons stop tail =>
        have hstop : stop.isDigit = false := htail stop rfl
        rw [List.takeWhile_cons_of_neg (by simp [hstop]), List.append_nil]
  have hdigits := congrArg (List.takeWhile Char.isDigit) heq
  rw [hpadding hrest, hpadding hrest'] at hdigits
  rw [hdigits] at heq
  exact ⟨paddedNumeral_injective width hdigits, List.append_cancel_left heq⟩

end GlmFlash.Library
