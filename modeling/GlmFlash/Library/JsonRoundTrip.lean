import GlmFlash.Library.Json
import Mathlib.Tactic.Common

/-!
# JSON round trip

The parser reads back what was written, also with blanks behind it.  Each
scanner is followed through what the writer emits for one character, one
number and one value; the induction is on the value, with its items and fields.
-/

namespace GlmFlash.Library

/-! ## Texts -/

theorem hexValue_digitChar {digit : ℕ} (hdigit : digit < 16) :
    hexValue (Nat.digitChar digit) = some digit := by
  have hall : ∀ digit < 16, hexValue (Nat.digitChar digit) = some digit := by
    decide
  exact hall digit hdigit

theorem scanHex4_hex4 {code : ℕ} (hcode : code < 0x10000) (rest : List Char) :
    scanHex4 (hex4 code ++ rest) = some (code, rest) := by
  have hvalue : 4096 * (code / 4096 % 16) + 256 * (code / 256 % 16) +
      16 * (code / 16 % 16) + code % 16 = code := by omega
  have hdigit (number : ℕ) : hexValue (Nat.digitChar (number % 16)) =
      some (number % 16) := hexValue_digitChar (Nat.mod_lt _ (by decide))
  change (do
    let first ← hexValue (Nat.digitChar (code / 4096 % 16))
    let second ← hexValue (Nat.digitChar (code / 256 % 16))
    let third ← hexValue (Nat.digitChar (code / 16 % 16))
    let fourth ← hexValue (Nat.digitChar (code % 16))
    return (4096 * first + 256 * second + 16 * third + fourth, rest)) = _
  rw [hdigit, hdigit, hdigit, hdigit]
  change some (_, rest) = _
  rw [hvalue]

/-- A code point is no surrogate. -/
theorem toNat_lt_or_gt (char : Char) :
    char.toNat < 0xd800 ∨ 0xdfff < char.toNat ∧ char.toNat < 0x110000 := by
  exact char.valid

theorem scanUnicode_basic {char : Char} (hchar : char.toNat < 0x10000)
    (rest : List Char) :
    scanUnicode (hex4 char.toNat ++ rest) = some (char, rest) := by
  have hvalid := toNat_lt_or_gt char
  have hhigh : ¬(0xd800 ≤ char.toNat ∧ char.toNat < 0xdc00) := by omega
  have hlow : ¬(0xdc00 ≤ char.toNat ∧ char.toNat < 0xe000) := by omega
  simp only [scanUnicode, scanHex4_hex4 hchar, Option.bind_eq_bind,
    Option.bind_some, if_neg hhigh, if_neg hlow, Char.ofNat_toNat]
  rfl

theorem scanLow_unicodeEscape {high low : ℕ}
    (hlow : 0xdc00 ≤ low ∧ low < 0xe000) (rest : List Char) :
    scanLow high (unicodeEscape low ++ rest) =
      some (Char.ofNat (0x10000 + (high - 0xd800) * 0x400 + (low - 0xdc00)),
        rest) := by
  have hscan := @scanHex4_hex4 low (by omega) rest
  change (scanHex4 (hex4 low ++ rest) >>= _) = _
  rw [hscan, Option.bind_eq_bind, Option.bind_some]
  exact if_pos hlow

theorem scanUnicode_pair {char : Char} (hchar : 0x10000 ≤ char.toNat)
    (rest : List Char) :
    scanUnicode (hex4 (0xd800 + (char.toNat - 0x10000) / 0x400) ++
      (unicodeEscape (0xdc00 + (char.toNat - 0x10000) % 0x400) ++ rest)) =
        some (char, rest) := by
  have hvalid := toNat_lt_or_gt char
  obtain ⟨high, hhigh⟩ : ∃ high, high = 0xd800 + (char.toNat - 0x10000) / 0x400 :=
    ⟨_, rfl⟩
  obtain ⟨low, hlow⟩ : ∃ low, low = 0xdc00 + (char.toNat - 0x10000) % 0x400 :=
    ⟨_, rfl⟩
  rw [← hhigh, ← hlow]
  have hisHigh : 0xd800 ≤ high ∧ high < 0xdc00 := by omega
  have hisLow : 0xdc00 ≤ low ∧ low < 0xe000 := by omega
  have hvalue : 0x10000 + (high - 0xd800) * 0x400 + (low - 0xdc00) =
      char.toNat := by omega
  have hscan := @scanHex4_hex4 high (by omega) (unicodeEscape low ++ rest)
  simp only [scanUnicode, hscan, Option.bind_eq_bind, Option.bind_some,
    if_pos hisHigh, scanLow_unicodeEscape hisLow, hvalue, Char.ofNat_toNat]

theorem scanChar_shortEscape {char escape : Char}
    (hescape : shortEscapes.lookup char = some escape) (rest : List Char) :
    scanChar ('\\' :: escape :: rest) = some (char, rest) := by
  have hall : ∀ pair ∈ shortEscapes, pair.2 ≠ 'u' ∧
      unescapes.lookup pair.2 = some pair.1 := by decide
  obtain ⟨before, after, hsplit, -⟩ := List.lookup_eq_some_iff.mp hescape
  obtain ⟨hne, hback⟩ := hall (char, escape)
    (hsplit ▸ List.mem_append_right before List.mem_cons_self)
  simp only [scanChar, hback, Option.map_some]

/-- The characters with a short escape include the quote and the backslash. -/
theorem ne_of_no_shortEscape {char : Char}
    (hescape : shortEscapes.lookup char = none) : char ≠ '"' ∧ char ≠ '\\' := by
  have hall := List.lookup_eq_none_iff.mp hescape
  constructor
  · rintro rfl
    exact absurd (hall ('"', '"') (by decide)) (by decide)
  · rintro rfl
    exact absurd (hall ('\\', '\\') (by decide)) (by decide)

theorem scanChar_dumpChar (char : Char) (rest : List Char) :
    scanChar (dumpChar char ++ rest) = some (char, rest) := by
  rw [dumpChar]
  cases hescape : shortEscapes.lookup char with
  | some escape => exact scanChar_shortEscape hescape rest
  | none =>
      obtain ⟨-, hslash⟩ := ne_of_no_shortEscape hescape
      dsimp only
      split
      · rename_i hplain
        have hkept : ¬(char.toNat < 32 ∨ char = '\\') := by
          rintro (hsmall | heq)
          · exact absurd hplain.1 (Nat.not_le.mpr hsmall)
          · exact hslash heq
        rw [List.singleton_append, scanChar, if_neg hkept]
        · intro _ heq
          exact absurd heq hslash
        · intro _ _ heq
          exact absurd heq hslash
      · split
        · rename_i hbasic
          exact scanUnicode_basic hbasic rest
        · rename_i hlarge
          rw [List.append_assoc]
          exact scanUnicode_pair (Nat.le_of_not_lt hlarge) rest

/-- What is written for a character does not start like the end of a text. -/
theorem dumpChar_ne_quote (char : Char) (rest rest' : List Char) :
    dumpChar char ++ rest ≠ '"' :: rest' := by
  rw [dumpChar]
  cases hescape : shortEscapes.lookup char with
  | some escape => 
      intro heq
      cases heq
  | none =>
      obtain ⟨hquote, -⟩ := ne_of_no_shortEscape hescape
      dsimp only
      split
      · intro heq
        exact hquote (List.cons.inj heq).1
      · split
        · intro heq
          cases heq
        · intro heq
          cases heq

theorem scanText_dump (chars rest : List Char) {fuel : ℕ}
    (hfuel : chars.length < fuel) :
    scanText fuel (chars.flatMap dumpChar ++ '"' :: rest) =
      some (chars, rest) := by
  induction chars generalizing fuel with
  | nil =>
      cases fuel with
      | zero => cases hfuel
      | succ fuel => rfl
  | cons char chars ih =>
      cases fuel with
      | zero => cases hfuel
      | succ fuel =>
          have hrest := ih (Nat.lt_of_succ_lt_succ hfuel)
          rw [List.flatMap_cons, List.append_assoc, scanText]
          · rw [scanChar_dumpChar, Option.bind_eq_bind, Option.bind_some]
            dsimp only
            rw [hrest]
            rfl
          · intro other
            exact dumpChar_ne_quote char _ other

/-! ## Numbers -/

/-- A character that can continue a number. -/
def isNumberChar (char : Char) : Bool :=
  char.isDigit || char = '.' || char = 'e' || char = 'E' || char = '+' ||
    char = '-'

/-- No number continues into this text. -/
def Ends (rest : List Char) : Prop :=
  ∀ char ∈ rest.head?, isNumberChar char = false

theorem ends_cons {char : Char} (hchar : isNumberChar char = false)
    (rest : List Char) : Ends (char :: rest) := by
  intro other hother
  cases hother
  exact hchar

theorem Ends.head_ne {char : Char} {rest : List Char}
    (hends : Ends (char :: rest)) (other : Char) (hother : isNumberChar other = true) :
    char ≠ other := by
  rintro rfl
  rw [hends char rfl] at hother
  cases hother

theorem Ends.stops {rest : List Char} (hends : Ends rest) : Stops rest := by
  intro char hchar
  have hnone := hends char hchar
  simp only [isNumberChar, Bool.or_eq_false_iff] at hnone
  exact hnone.1.1.1.1.1

theorem leadingDigits_append {input rest : List Char} (hstops : Stops rest) :
    leadingDigits (input ++ rest) =
      ((leadingDigits input).1, (leadingDigits input).2 ++ rest) := by
  have hnone : rest.takeWhile Char.isDigit = [] := by
    cases rest with
    | nil => rfl
    | cons char rest =>
        have hchar : char.isDigit = false := hstops char rfl
        rw [List.takeWhile_cons_of_neg (by simp [hchar])]
  have hall : rest.dropWhile Char.isDigit = rest := by
    have hsplit := List.takeWhile_append_dropWhile (p := Char.isDigit) (l := rest)
    rw [hnone] at hsplit
    exact hsplit
  induction input with
  | nil =>
      rw [List.nil_append, leadingDigits, hnone, hall]
      rfl
  | cons char input ih =>
      by_cases hdigit : char.isDigit = true
      · have hcons (tail : List Char) : leadingDigits (char :: tail) =
            (char :: (leadingDigits tail).1, (leadingDigits tail).2) := by
          simp only [leadingDigits, List.takeWhile_cons_of_pos hdigit,
            List.dropWhile_cons_of_pos hdigit]
        rw [List.cons_append, hcons, hcons, ih]
      · have hcons (tail : List Char) :
            leadingDigits (char :: tail) = ([], char :: tail) := by
          simp only [leadingDigits, List.takeWhile_cons_of_neg hdigit,
            List.dropWhile_cons_of_neg hdigit]
        rw [List.cons_append, hcons, hcons]
        rfl

theorem scanWhole_append {input rest whole left : List Char}
    (hstops : Stops rest) (hscan : scanWhole input = some (whole, left)) :
    scanWhole (input ++ rest) = some (whole, left ++ rest) := by
  cases input with
  | nil => cases hscan
  | cons char input =>
      by_cases hzero : char = '0'
      · subst hzero
        rw [scanWhole, Option.some.injEq, Prod.mk.injEq] at hscan
        rw [List.cons_append, scanWhole, ← hscan.1, ← hscan.2]
      · have hne (tail other : List Char) : char :: tail = '0' :: other → False :=
          fun heq => hzero (List.cons.inj heq).1
        rw [scanWhole.eq_2 _ (hne input)] at hscan
        rw [List.cons_append, scanWhole.eq_2 _ (hne (input ++ rest)),
          ← List.cons_append, leadingDigits_append hstops]
        dsimp only at hscan ⊢
        split at hscan
        · cases hscan
        · rename_i hdigits
          cases hscan
          rw [if_neg hdigits]

theorem scanFraction_append {input rest : List Char} (hends : Ends rest) :
    scanFraction (input ++ rest) =
      ((scanFraction input).1, (scanFraction input).2 ++ rest) := by
  cases input with
  | nil =>
      cases rest with
      | nil => rfl
      | cons char rest =>
          have hne := hends.head_ne '.' (by decide)
          rw [List.nil_append, scanFraction.eq_2]
          · rfl
          · intro other heq
            exact hne (List.cons.inj heq).1
  | cons char input =>
      by_cases hdot : char = '.'
      · subst hdot
        rw [List.cons_append, scanFraction, leadingDigits_append hends.stops,
          scanFraction]
        dsimp only
        split <;> rfl
      · have hne (tail other : List Char) : char :: tail = '.' :: other → False :=
          fun heq => hdot (List.cons.inj heq).1
        rw [List.cons_append, scanFraction.eq_2 _ (hne _),
          scanFraction.eq_2 _ (hne _)]
        rfl

theorem scanSign_append {input rest : List Char} (hends : Ends rest) :
    scanSign (input ++ rest) =
      ((scanSign input).1, (scanSign input).2 ++ rest) := by
  have hunsigned (char : Char) (tail : List Char) (hplus : char ≠ '+')
      (hminus : char ≠ '-') : scanSign (char :: tail) = ([], char :: tail) := by
    rw [scanSign.eq_3]
    · intro other heq
      exact hplus (List.cons.inj heq).1
    · intro other heq
      exact hminus (List.cons.inj heq).1
  cases input with
  | nil =>
      cases rest with
      | nil => rfl
      | cons char rest =>
          exact hunsigned char rest (hends.head_ne '+' (by decide))
            (hends.head_ne '-' (by decide))
  | cons char input =>
      by_cases hplus : char = '+'
      · subst hplus
        rfl
      by_cases hminus : char = '-'
      · subst hminus
        rfl
      rw [List.cons_append, hunsigned char _ hplus hminus,
        hunsigned char _ hplus hminus]
      rfl

theorem scanExponent_append {input rest : List Char} (hends : Ends rest) :
    scanExponent (input ++ rest) =
      ((scanExponent input).1, (scanExponent input).2 ++ rest) := by
  cases input with
  | nil =>
      cases rest with
      | nil => rfl
      | cons char rest =>
          have hmark : ¬((char = 'e' ∨ char = 'E') ∧
              (leadingDigits (scanSign rest).2).1 ≠ []) := by
            rintro ⟨hlower | hupper, -⟩
            · exact hends.head_ne 'e' (by decide) hlower
            · exact hends.head_ne 'E' (by decide) hupper
          rw [List.nil_append, scanExponent]
          exact if_neg hmark
  | cons mark input =>
      rw [List.cons_append, scanExponent, scanSign_append hends, scanExponent]
      dsimp only
      rw [leadingDigits_append hends.stops]
      dsimp only
      split <;> rfl

theorem scanUnsigned_append {input rest left : List Char} {number : ℕ ⊕ List Char}
    (hends : Ends rest) (hscan : scanUnsigned input = some (number, left)) :
    scanUnsigned (input ++ rest) = some (number, left ++ rest) := by
  simp only [scanUnsigned, Option.bind_eq_bind, Option.bind_eq_some_iff] at hscan
  obtain ⟨⟨whole, afterWhole⟩, hwhole, hscan⟩ := hscan
  simp only [scanUnsigned, scanWhole_append hends.stops hwhole,
    Option.bind_eq_bind, Option.bind_some, scanFraction_append hends,
    scanExponent_append hends]
  dsimp only at hscan
  split at hscan
  · rename_i hint
    rw [if_pos hint]
    cases hscan
    rfl
  · rename_i hreal
    rw [if_neg hreal]
    cases hscan
    rfl

theorem scanNumber_append {input rest left : List Char} {value : Json}
    (hends : Ends rest) (hscan : scanNumber input = some (value, left)) :
    scanNumber (input ++ rest) = some (value, left ++ rest) := by
  cases input with
  | nil => cases hscan
  | cons char input =>
      by_cases hminus : char = '-'
      · subst hminus
        simp only [scanNumber, Option.bind_eq_bind, Option.bind_eq_some_iff]
          at hscan
        obtain ⟨⟨number, left'⟩, hunsigned, hscan⟩ := hscan
        simp only [List.cons_append, scanNumber, Option.bind_eq_bind,
          scanUnsigned_append hends hunsigned, Option.bind_some]
        cases number <;> cases hscan <;> rfl
      · have hne (tail other : List Char) : char :: tail = '-' :: other → False :=
          fun heq => hminus (List.cons.inj heq).1
        simp only [scanNumber.eq_2 _ (hne input), Option.bind_eq_bind,
          Option.bind_eq_some_iff] at hscan
        obtain ⟨⟨number, left'⟩, hunsigned, hscan⟩ := hscan
        have happend := scanUnsigned_append hends hunsigned
        rw [List.cons_append] at happend ⊢
        simp only [scanNumber.eq_2 _ (hne (input ++ rest)), Option.bind_eq_bind,
          happend, Option.bind_some]
        cases number <;> cases hscan <;> rfl

/-- The text starts with a digit, perhaps behind a minus sign. -/
def startsNumber : List Char → Bool
  | [] => false
  | [char] => char.isDigit
  | first :: second :: _ => first.isDigit || (first = '-' && second.isDigit)

theorem scanWord_eq_none {input : List Char} (hstart : startsNumber input = true) :
    scanWord input = none := by
  have hwords : ∀ word ∈ words, 2 ≤ word.1.length ∧
      startsNumber word.1 = false := by
    intro word hmem
    simp only [words, List.mem_cons, List.not_mem_nil, or_false] at hmem
    rcases hmem with rfl | rfl | rfl | rfl | rfl | rfl <;> decide
  refine List.findSome?_eq_none_iff.mpr fun word hmem => if_neg fun hfits => ?_
  obtain ⟨hlength, hother⟩ := hwords word hmem
  obtain ⟨tail, rfl⟩ := List.isPrefixOf_iff_prefix.mp hfits
  match hword : word.1 with
  | [] => simp [hword] at hlength
  | [char] => simp [hword] at hlength
  | first :: second :: more =>
      rw [hword] at hother hstart
      rw [List.cons_append, List.cons_append] at hstart
      exact Bool.noConfusion (hother.symm.trans hstart)

theorem scanWhole_head {input whole left : List Char}
    (hscan : scanWhole input = some (whole, left)) :
    ∃ char tail, input = char :: tail ∧ char.isDigit = true := by
  cases input with
  | nil => cases hscan
  | cons char input =>
      refine ⟨char, input, rfl, ?_⟩
      by_cases hzero : char = '0'
      · rw [hzero]
        decide
      · rw [scanWhole.eq_2 _ fun _ heq => hzero (List.cons.inj heq).1] at hscan
        by_contra hdigit
        simp only [leadingDigits, List.takeWhile_cons_of_neg hdigit,
          if_pos] at hscan
        cases hscan

theorem scanUnsigned_head {input left : List Char} {number : ℕ ⊕ List Char}
    (hscan : scanUnsigned input = some (number, left)) :
    ∃ char tail, input = char :: tail ∧ char.isDigit = true := by
  simp only [scanUnsigned, Option.bind_eq_bind, Option.bind_eq_some_iff] at hscan
  obtain ⟨⟨whole, afterWhole⟩, hwhole, -⟩ := hscan
  exact scanWhole_head hwhole

theorem startsNumber_cons {char : Char} (hdigit : char.isDigit = true)
    (tail : List Char) : startsNumber (char :: tail) = true := by
  cases tail with
  | nil => exact hdigit
  | cons second tail => rw [startsNumber, hdigit, Bool.true_or]

theorem startsNumber_of_scanNumber {input left : List Char} {value : Json}
    (hscan : scanNumber input = some (value, left)) :
    startsNumber input = true := by
  cases input with
  | nil => cases hscan
  | cons char input =>
      by_cases hminus : char = '-'
      · subst hminus
        simp only [scanNumber, Option.bind_eq_bind, Option.bind_eq_some_iff]
          at hscan
        obtain ⟨_, hunsigned, -⟩ := hscan
        obtain ⟨digit, tail, rfl, hdigit⟩ := scanUnsigned_head hunsigned
        rw [startsNumber, hdigit]
        rfl
      · rw [scanNumber.eq_2 _ fun _ heq => hminus (List.cons.inj heq).1] at hscan
        simp only [Option.bind_eq_bind, Option.bind_eq_some_iff] at hscan
        obtain ⟨_, hunsigned, -⟩ := hscan
        obtain ⟨digit, tail, heq, hdigit⟩ := scanUnsigned_head hunsigned
        rw [heq]
        exact startsNumber_cons hdigit tail

/-- Only zero is written with a leading zero. -/
theorem numeral_head {number : ℕ} (hpos : 0 < number) :
    ∃ digit digits, numeral number = digit :: digits ∧ digit ≠ '0' ∧
      digit.isDigit = true := by
  rw [numeral_eq_toDigits]
  induction number using Nat.strong_induction_on with
  | h number ih =>
      by_cases hsmall : number < 10
      · rw [Nat.toDigits_of_lt_base hsmall]
        have hall : ∀ digit < 10, 0 < digit → Nat.digitChar digit ≠ '0' ∧
            (Nat.digitChar digit).isDigit = true := by decide
        exact ⟨_, [], rfl, hall number hsmall hpos⟩
      · have hlarge := Nat.le_of_not_lt hsmall
        obtain ⟨digit, digits, heq, hdigit⟩ := ih (number / 10)
          (Nat.div_lt_self hpos (by decide))
          (Nat.div_pos hlarge (by decide))
        rw [Nat.toDigits_of_base_le (by decide) hlarge, heq]
        exact ⟨digit, _, rfl, hdigit⟩

theorem leadingDigits_numeral (number : ℕ) :
    leadingDigits (numeral number) = (numeral number, []) := by
  have hall : ∀ digit ∈ numeral number, digit.isDigit = true :=
    fun _ hmem => isDigit_of_mem_numeral hmem
  rw [leadingDigits, List.takeWhile_eq_self_iff.mpr hall,
    List.dropWhile_eq_nil_iff.mpr hall]

theorem scanUnsigned_numeral (number : ℕ) :
    scanUnsigned (numeral number) = some (.inl number, []) := by
  have hwhole : scanWhole (numeral number) = some (numeral number, []) := by
    rcases Nat.eq_zero_or_pos number with rfl | hpos
    · decide
    · obtain ⟨digit, digits, heq, hzero, -⟩ := numeral_head hpos
      have hne (other : List Char) : numeral number = '0' :: other → False := by
        intro hother
        exact hzero (List.cons.inj (heq.symm.trans hother)).1
      rw [scanWhole.eq_2 _ hne, leadingDigits_numeral]
      exact if_neg (heq ▸ List.cons_ne_nil _ _)
  have hvalue : digitsValue (numeral number) = number := by
    rw [digitsValue, numeral_eq_toDigits, Nat.ofDigitChars_ten_toDigits]
  simp only [scanUnsigned, hwhole, Option.bind_eq_bind, Option.bind_some,
    scanFraction, scanExponent, and_self, if_true, hvalue]
  rfl

theorem scanNumber_dumpInt (value : ℤ) :
    scanNumber (dumpInt value) = some (.int value, []) := by
  rw [dumpInt]
  split
  · rename_i hneg
    have hvalue : -(value.natAbs : ℤ) = value := by omega
    simp only [scanNumber, scanUnsigned_numeral, Option.bind_eq_bind,
      Option.bind_some, hvalue]
    rfl
  · rename_i hnonneg
    have hvalue : (value.natAbs : ℤ) = value := by omega
    have hne (other : List Char) :
        numeral value.natAbs = '-' :: other → False := by
      intro heq
      have hdigit := isDigit_of_mem_numeral (heq ▸ List.mem_cons_self :
        '-' ∈ numeral value.natAbs)
      exact absurd hdigit (by decide)
    simp only [scanNumber.eq_2 _ hne, scanUnsigned_numeral, Option.bind_eq_bind,
      Option.bind_some, hvalue]
    rfl

/-! ## Values -/

/-- How a float is written: one of the three names, or a number that is read
back as it stands. -/
def IsReal (written : List Char) : Prop :=
  written = notANumber ∨ written = infinity ∨ written = '-' :: infinity ∨
    (∀ char ∈ written, isNumberChar char = true) ∧
      scanNumber written = some (.real written, [])

/-- All floats in the value are written as floats are. -/
inductive Json.Written : Json → Prop
  | null : Written .null
  | bool (value : Bool) : Written (.bool value)
  | int (value : ℤ) : Written (.int value)
  | real {written : List Char} (hreal : IsReal written) :
      Written (.real written)
  | text (value : String) : Written (.text value)
  | array {items : List Json} (hitems : ∀ item ∈ items, Written item) :
      Written (.array items)
  | object {fields : List (String × Json)}
      (hfields : ∀ field ∈ fields, Written field.2) : Written (.object fields)

/-- A character that a value can start with. -/
def startsValue (char : Char) : Bool :=
  char.isDigit || ['-', '"', '[', '{', 'n', 't', 'f', 'N', 'I'].contains char

theorem head_of_startsNumber {written : List Char}
    (hstart : startsNumber written = true) :
    ∃ char tail, written = char :: tail ∧ startsValue char = true := by
  match written with
  | [] => cases hstart
  | [char] =>
      refine ⟨char, [], rfl, ?_⟩
      have hdigit : char.isDigit = true := hstart
      rw [startsValue, hdigit, Bool.true_or]
  | first :: second :: tail =>
      refine ⟨first, second :: tail, rfl, ?_⟩
      rw [startsNumber, Bool.or_eq_true] at hstart
      rcases hstart with hdigit | hminus
      · rw [startsValue, hdigit, Bool.true_or]
      · rw [Bool.and_eq_true, decide_eq_true_eq] at hminus
        rw [hminus.1]
        decide

theorem IsReal.head {written : List Char} (hreal : IsReal written) :
    ∃ char tail, written = char :: tail ∧ startsValue char = true := by
  rcases hreal with rfl | rfl | rfl | ⟨-, hnumber⟩
  · exact ⟨_, _, rfl, by decide⟩
  · exact ⟨_, _, rfl, by decide⟩
  · exact ⟨_, _, rfl, by decide⟩
  · exact head_of_startsNumber (startsNumber_of_scanNumber hnumber)

theorem Json.Written.dump_head {value : Json} (hwritten : value.Written) :
    ∃ char tail, value.dump = char :: tail ∧ startsValue char = true := by
  cases hwritten with
  | null => exact ⟨_, _, rfl, by decide⟩
  | bool value => cases value <;> exact ⟨_, _, rfl, by decide⟩
  | int value =>
      exact head_of_startsNumber
        (startsNumber_of_scanNumber (scanNumber_dumpInt value))
  | real hreal => exact hreal.head
  | text value => exact ⟨_, _, rfl, by decide⟩
  | @array items hitems => cases items <;> exact ⟨_, _, rfl, by decide⟩
  | @object fields hfields => cases fields <;> exact ⟨_, _, rfl, by decide⟩

theorem skipBlank_cons {char : Char} (hchar : isBlank char = false)
    (tail : List Char) : skipBlank (char :: tail) = char :: tail :=
  List.dropWhile_cons_of_neg (by simp [hchar])

theorem isBlank_of_startsValue {char : Char} (hstart : startsValue char = true) :
    isBlank char = false := by
  by_contra hblank
  rw [Bool.not_eq_false] at hblank
  simp only [isBlank, Bool.or_eq_true, decide_eq_true_eq] at hblank
  rcases hblank with ((rfl | rfl) | rfl) | rfl <;> exact absurd hstart (by decide)

theorem Json.Written.skipBlank_dump {value : Json} (hwritten : value.Written)
    (rest : List Char) :
    skipBlank (value.dump ++ rest) = value.dump ++ rest := by
  obtain ⟨char, tail, hhead, hstart⟩ := hwritten.dump_head
  rw [hhead]
  exact skipBlank_cons (isBlank_of_startsValue hstart) _

theorem parseValue_atom {fuel : ℕ} {input : List Char}
    (hstart : ∀ char ∈ input.head?, char ≠ '"' ∧ char ≠ '[' ∧ char ≠ '{') :
    parseValue (fuel + 1) input = (scanWord input).or (scanNumber input) := by
  rw [parseValue]
  · intro other heq
    exact (hstart '"' (by rw [heq]; rfl)).1 rfl
  · intro other heq
    exact (hstart '[' (by rw [heq]; rfl)).2.1 rfl
  · intro other heq
    exact (hstart '{' (by rw [heq]; rfl)).2.2 rfl

theorem parseValue_number {fuel : ℕ} {input rest left : List Char} {value : Json}
    (hends : Ends rest) (hscan : scanNumber input = some (value, left)) :
    parseValue (fuel + 1) (input ++ rest) = some (value, left ++ rest) := by
  have happend := scanNumber_append hends hscan
  have hstart := startsNumber_of_scanNumber happend
  rw [parseValue_atom, scanWord_eq_none hstart, happend]
  · rfl
  · intro char hchar
    obtain ⟨first, tail, heq, -⟩ := head_of_startsNumber hstart
    rw [heq] at hstart hchar
    cases hchar
    refine ⟨?_, ?_, ?_⟩ <;> rintro rfl <;> cases tail <;>
      exact absurd hstart Bool.false_ne_true

theorem length_le_flatMap_dumpChar (chars : List Char) :
    chars.length ≤ (chars.flatMap dumpChar).length := by
  induction chars with
  | nil => exact Nat.le_refl 0
  | cons char chars ih =>
      have hone : 1 ≤ (dumpChar char).length := by
        rw [dumpChar]
        split
        · exact Nat.le_add_left 1 1
        · split
          · exact Nat.le_refl 1
          · split <;> exact Nat.le_add_left 1 _
      rw [List.flatMap_cons, List.length_append, List.length_cons]
      omega

/-- A value is read back in front of everything that ends numbers. -/
def Reads (value : Json) : Prop :=
  ∀ fuel rest, value.dump.length < fuel → Ends rest →
    parseValue fuel (value.dump ++ rest) = some (value, rest)

theorem ends_dumpItems (items : List Json) (rest : List Char) :
    Ends (dumpItems items ++ rest) := by
  cases items <;> exact ends_cons (by decide) _

theorem ends_dumpFields (fields : List (String × Json)) (rest : List Char) :
    Ends (dumpFields fields ++ rest) := by
  match fields with
  | [] => exact ends_cons (by decide) _
  | (key, value) :: fields => exact ends_cons (by decide) _

/-- What an array of these items is read from, behind its bracket. -/
theorem parseItems_dump {item : Json} {items : List Json}
    (hitems : ∀ other ∈ item :: items, other.Written ∧ Reads other)
    {fuel : ℕ} (rest : List Char)
    (hfuel : (item.dump ++ dumpItems items).length < fuel) :
    parseItems fuel (item.dump ++ (dumpItems items ++ rest)) =
      some (item :: items, rest) := by
  induction items generalizing item fuel with
  | nil =>
      cases fuel with
      | zero => cases hfuel
      | succ fuel =>
          rw [dumpItems, List.length_append, List.length_singleton] at hfuel
          have hread := (hitems item List.mem_cons_self).2 fuel
            (dumpItems [] ++ rest) (by omega) (ends_dumpItems [] rest)
          simp only [parseItems, hread, Option.bind_eq_bind, Option.bind_some]
          rfl
  | cons next items ih =>
      cases fuel with
      | zero => cases hfuel
      | succ fuel =>
          rw [dumpItems, List.length_append, List.length_cons] at hfuel
          have hread := (hitems item List.mem_cons_self).2 fuel
            (dumpItems (next :: items) ++ rest) (by omega)
            (ends_dumpItems (next :: items) rest)
          have hrest := ih (fun other hmem =>
            hitems other (List.mem_cons_of_mem item hmem))
            (show (next.dump ++ dumpItems items).length < fuel by omega)
          have hskip := (hitems next (List.mem_cons_of_mem item
            List.mem_cons_self)).1.skipBlank_dump (dumpItems items ++ rest)
          have hcomma : skipBlank (dumpItems (next :: items) ++ rest) =
              ',' :: (next.dump ++ (dumpItems items ++ rest)) := by
            rw [dumpItems, List.cons_append, List.append_assoc]
            exact skipBlank_cons (by decide) _
          simp only [parseItems, hread, Option.bind_eq_bind, Option.bind_some,
            hcomma, hskip, hrest]
          rfl

/-- One field, up to what stands behind its value. -/
theorem parseFields_field {key : String} {value : Json}
    (hwritten : value.Written) (hreads : Reads value) {fuel : ℕ}
    {rest : List Char} (hends : Ends rest)
    (hfuel : key.toList.length + value.dump.length < fuel) :
    parseFields (fuel + 1) (dumpText key ++ ':' :: (value.dump ++ rest)) =
      match skipBlank rest with
      | '}' :: rest => some ([(key, value)], rest)
      | ',' :: rest => do
          let (fields, rest) ← parseFields fuel (skipBlank rest)
          return ((key, value) :: fields, rest)
      | _ => none := by
  have hinput : dumpText key ++ ':' :: (value.dump ++ rest) =
      '"' :: (key.toList.flatMap dumpChar ++ '"' :: ':' ::
        (value.dump ++ rest)) := by
    rw [dumpText, List.cons_append, List.append_assoc]
    rfl
  have hcolon : skipBlank (':' :: (value.dump ++ rest)) =
      ':' :: (value.dump ++ rest) := skipBlank_cons (by decide) _
  have hvalue := hreads fuel rest (by omega) hends
  rw [hinput, parseFields, scanText_dump _ _ (by omega)]
  simp only [Option.bind_eq_bind, Option.bind_some, hcolon,
    hwritten.skipBlank_dump, hvalue, String.ofList_toList]
  rfl

theorem parseFields_dump {key : String} {value : Json}
    {fields : List (String × Json)}
    (hfields : ∀ other ∈ (key, value) :: fields,
      other.2.Written ∧ Reads other.2)
    (fuel : ℕ) (rest : List Char)
    (hfuel : (dumpText key ++ ':' :: (value.dump ++ dumpFields fields)).length <
      fuel) :
    parseFields fuel (dumpText key ++ ':' :: (value.dump ++
      (dumpFields fields ++ rest))) = some ((key, value) :: fields, rest) := by
  induction fields generalizing key value fuel with
  | nil =>
      cases fuel with
      | zero => cases hfuel
      | succ fuel =>
          obtain ⟨hwritten, hreads⟩ : value.Written ∧ Reads value :=
            hfields (key, value) List.mem_cons_self
          have hlength := length_le_flatMap_dumpChar key.toList
          simp only [dumpText, dumpFields, List.length_append, List.length_cons,
            List.length_nil] at hfuel
          rw [parseFields_field hwritten hreads (ends_dumpFields [] rest)
            (by omega)]
          rfl
  | cons next fields ih =>
      cases fuel with
      | zero => cases hfuel
      | succ fuel =>
          obtain ⟨hwritten, hreads⟩ : value.Written ∧ Reads value :=
            hfields (key, value) List.mem_cons_self
          have hlength := length_le_flatMap_dumpChar key.toList
          have hrest := ih (fun other hmem =>
            hfields other (List.mem_cons_of_mem _ hmem)) fuel (by
              simp only [dumpText, dumpFields, List.length_append,
                List.length_cons, List.length_nil] at hfuel ⊢
              omega)
          have hcomma : skipBlank (dumpFields (next :: fields) ++ rest) =
              ',' :: (dumpText next.1 ++ ':' :: (next.2.dump ++
                (dumpFields fields ++ rest))) := by
            rw [dumpFields, List.cons_append, List.append_assoc,
              List.cons_append, List.append_assoc]
            exact skipBlank_cons (by decide) _
          have hskip : skipBlank (dumpText next.1 ++ ':' :: (next.2.dump ++
              (dumpFields fields ++ rest))) = dumpText next.1 ++ ':' ::
                (next.2.dump ++ (dumpFields fields ++ rest)) :=
            skipBlank_cons (by decide) _
          simp only [dumpText, dumpFields, List.length_append, List.length_cons,
            List.length_nil] at hfuel
          rw [parseFields_field hwritten hreads
            (ends_dumpFields (next :: fields) rest) (by omega)]
          simp only [hcomma, hskip, hrest, Option.bind_eq_bind, Option.bind_some]
          rfl

theorem parseValue_dump {value : Json} (hwritten : value.Written) :
    Reads value := by
  induction hwritten with
  | null =>
      intro fuel rest hfuel _
      cases fuel with
      | zero => cases hfuel
      | succ fuel => rfl
  | bool value =>
      intro fuel rest hfuel _
      cases fuel with
      | zero => cases hfuel
      | succ fuel => cases value <;> rfl
  | int value =>
      intro fuel rest hfuel hends
      cases fuel with
      | zero => cases hfuel
      | succ fuel => exact parseValue_number hends (scanNumber_dumpInt value)
  | real hreal =>
      intro fuel rest hfuel hends
      cases fuel with
      | zero => cases hfuel
      | succ fuel =>
          rcases hreal with rfl | rfl | rfl | ⟨-, hnumber⟩
          · rfl
          · rfl
          · rfl
          · exact parseValue_number hends hnumber
  | text value =>
      intro fuel rest hfuel _
      cases fuel with
      | zero => cases hfuel
      | succ fuel =>
          have hlength := length_le_flatMap_dumpChar value.toList
          have hsize : value.toList.length < fuel := by
            simp only [Json.dump, dumpText, List.length_cons, List.length_append,
              List.length_nil] at hfuel
            omega
          have hinput : Json.dump (.text value) ++ rest =
              '"' :: (value.toList.flatMap dumpChar ++ '"' :: rest) := by
            rw [Json.dump, dumpText, List.cons_append, List.append_assoc]
            rfl
          rw [hinput, parseValue, scanText_dump _ _ hsize]
          simp only [Option.bind_eq_bind, Option.bind_some, String.ofList_toList]
          rfl
  | @array items hitems ih => 
      intro fuel rest hfuel _
      cases fuel with
      | zero => cases hfuel
      | succ fuel =>
          cases items with
          | nil => rfl
          | cons item items =>
              have hitems' : ∀ other ∈ item :: items,
                  other.Written ∧ Reads other :=
                fun other hmem => ⟨hitems other hmem, ih other hmem⟩
              obtain ⟨char, tail, hhead, hstart⟩ :=
                (hitems item List.mem_cons_self).dump_head
              rw [Json.dump, List.length_cons] at hfuel
              have hparse := parseItems_dump hitems' rest
                (Nat.lt_of_succ_lt_succ hfuel)
              rw [Json.dump, List.cons_append, List.append_assoc, parseValue,
                (hitems item List.mem_cons_self).skipBlank_dump]
              split
              · rename_i hclose
                rw [hhead] at hclose
                rw [(List.cons.inj hclose).1] at hstart
                exact absurd hstart (by decide)
              · rw [hparse]
                rfl
  | @object fields hfields ih =>
      intro fuel rest hfuel _
      cases fuel with
      | zero => cases hfuel
      | succ fuel =>
          match fields, hfields, ih with
          | [], _, _ => rfl
          | (key, value) :: fields, hfields, ih =>
              have hfields' : ∀ other ∈ (key, value) :: fields,
                  other.2.Written ∧ Reads other.2 :=
                fun other hmem => ⟨hfields other hmem, ih other hmem⟩
              rw [Json.dump, List.length_cons] at hfuel
              have hparse := parseFields_dump hfields' fuel rest
                (Nat.lt_of_succ_lt_succ hfuel)
              have hskip : skipBlank (dumpText key ++ ':' :: (value.dump ++
                  (dumpFields fields ++ rest))) = dumpText key ++ ':' ::
                    (value.dump ++ (dumpFields fields ++ rest)) :=
                skipBlank_cons (by decide) _
              rw [Json.dump, List.cons_append, List.append_assoc,
                List.cons_append, List.append_assoc, parseValue, hskip]
              split
              · rename_i hclose
                cases hclose
              · rw [hparse]
                rfl

theorem skipBlank_of_forall {blanks : List Char}
    (hblanks : ∀ char ∈ blanks, isBlank char = true) : skipBlank blanks = [] :=
  List.dropWhile_eq_nil_iff.mpr hblanks

/-- Whatever is written is read back, also with blanks behind it. -/
theorem Json.parse_dump {value : Json} (hwritten : value.Written)
    {blanks : List Char} (hblanks : ∀ char ∈ blanks, isBlank char = true) :
    Json.parse (value.dump ++ blanks) = some value := by
  have hends : Ends blanks := by
    intro char hchar
    have hblank := hblanks char (List.mem_of_mem_head? hchar)
    simp only [isBlank, Bool.or_eq_true, decide_eq_true_eq] at hblank
    rcases hblank with ((rfl | rfl) | rfl) | rfl <;> decide
  have hread := parseValue_dump hwritten ((value.dump ++ blanks).length + 1)
    blanks (by rw [List.length_append]; omega) hends
  simp only [Json.parse, hwritten.skipBlank_dump, hread, Option.bind_eq_bind,
    Option.bind_some, skipBlank_of_forall hblanks, if_true]
  rfl

/-! ## Bytes -/

def IsAscii (char : Char) : Prop := 0 < char.toNat ∧ char.toNat < 128

instance (char : Char) : Decidable (IsAscii char) :=
  inferInstanceAs (Decidable (_ ∧ _))

theorem isAscii_of_all {chars : List Char}
    (hall : chars.all (fun char => decide (IsAscii char)) = true) :
    ∀ char ∈ chars, IsAscii char := fun char hmem =>
  of_decide_eq_true (List.all_eq_true.mp hall char hmem)

theorem isAscii_of_isNumberChar {char : Char}
    (hchar : isNumberChar char = true) : IsAscii char := by
  simp only [isNumberChar, Bool.or_eq_true, decide_eq_true_eq] at hchar
  rcases hchar with ((((hdigit | rfl) | rfl) | rfl) | rfl) | rfl
  · simp only [Char.isDigit, Bool.and_eq_true, decide_eq_true_eq] at hdigit
    have hlow : 48 ≤ char.toNat := hdigit.1
    have hhigh : char.toNat ≤ 57 := hdigit.2
    exact ⟨by omega, by omega⟩
  all_goals decide

theorem isAscii_unicodeEscape (code : ℕ) :
    ∀ char ∈ unicodeEscape code, IsAscii char := by
  have hdigit (number : ℕ) : IsAscii (Nat.digitChar (number % 16)) := by
    have hall : ∀ digit < 16, IsAscii (Nat.digitChar digit) := by decide
    exact hall _ (Nat.mod_lt _ (by decide))
  intro char hmem
  simp only [unicodeEscape, hex4, List.mem_cons, List.not_mem_nil, or_false]
    at hmem
  rcases hmem with rfl | rfl | rfl | rfl | rfl | rfl
  · decide
  · decide
  all_goals exact hdigit _

theorem isAscii_dumpChar (char : Char) :
    ∀ other ∈ dumpChar char, IsAscii other := by
  have hshort : ∀ pair ∈ shortEscapes, IsAscii pair.2 := by decide
  rw [dumpChar]
  split
  · rename_i escape hescape
    obtain ⟨before, after, hsplit, -⟩ := List.lookup_eq_some_iff.mp hescape
    have hmem : (char, escape) ∈ shortEscapes :=
      hsplit ▸ List.mem_append_right before List.mem_cons_self
    intro other hother
    rcases List.mem_cons.mp hother with rfl | hlast
    · decide
    · rw [List.mem_singleton.mp hlast]
      exact hshort _ hmem
  · split
    · rename_i hplain
      intro other hother
      rw [List.mem_singleton.mp hother]
      exact ⟨by omega, by omega⟩
    · split
      · exact isAscii_unicodeEscape _
      · intro other hother
        rcases List.mem_append.mp hother with hhigh | hlow
        · exact isAscii_unicodeEscape _ other hhigh
        · exact isAscii_unicodeEscape _ other hlow

theorem isAscii_dumpText (text : String) :
    ∀ char ∈ dumpText text, IsAscii char := by
  intro char hmem
  rcases List.mem_cons.mp hmem with rfl | hrest
  · decide
  rcases List.mem_append.mp hrest with hchars | hquote
  · obtain ⟨source, -, hchar⟩ := List.mem_flatMap.mp hchars
    exact isAscii_dumpChar source char hchar
  · rw [List.mem_singleton.mp hquote]
    decide

theorem isAscii_dumpInt (value : ℤ) : ∀ char ∈ dumpInt value, IsAscii char := by
  have hnumeral : ∀ char ∈ numeral value.natAbs, IsAscii char := by
    intro char hmem
    apply isAscii_of_isNumberChar
    simp only [isNumberChar, isDigit_of_mem_numeral hmem, Bool.true_or]
  rw [dumpInt]
  split
  · intro char hmem
    rcases List.mem_cons.mp hmem with rfl | hrest
    · decide
    · exact hnumeral char hrest
  · exact hnumeral

theorem isAscii_dumpItems {items : List Json}
    (hitems : ∀ item ∈ items, ∀ char ∈ item.dump, IsAscii char) :
    ∀ char ∈ dumpItems items, IsAscii char := by
  induction items with
  | nil => 
      intro char hmem
      rw [List.mem_singleton.mp hmem]
      decide
  | cons item items ih =>
      intro char hmem
      rcases List.mem_cons.mp hmem with rfl | hrest
      · decide
      rcases List.mem_append.mp hrest with hitem | hmore
      · exact hitems item List.mem_cons_self char hitem
      · exact ih (fun other hother =>
          hitems other (List.mem_cons_of_mem item hother)) char hmore

/-- A key, its colon and its value. -/
theorem isAscii_field {key : String} {value : Json} {rest : List Char}
    (hvalue : ∀ char ∈ value.dump, IsAscii char)
    (hrest : ∀ char ∈ rest, IsAscii char) :
    ∀ char ∈ dumpText key ++ ':' :: (value.dump ++ rest), IsAscii char := by
  intro char hmem
  rcases List.mem_append.mp hmem with hkey | hbehind
  · exact isAscii_dumpText key char hkey
  rcases List.mem_cons.mp hbehind with rfl | hbehind
  · decide
  rcases List.mem_append.mp hbehind with hin | hout
  · exact hvalue char hin
  · exact hrest char hout

theorem isAscii_dumpFields {fields : List (String × Json)}
    (hfields : ∀ field ∈ fields, ∀ char ∈ field.2.dump, IsAscii char) :
    ∀ char ∈ dumpFields fields, IsAscii char := by
  induction fields with
  | nil =>
      intro char hmem
      rw [List.mem_singleton.mp hmem]
      decide
  | cons field fields ih =>
      intro char hmem
      rcases List.mem_cons.mp hmem with rfl | hrest
      · decide
      · exact isAscii_field (hfields field List.mem_cons_self)
          (ih fun other hother =>
            hfields other (List.mem_cons_of_mem field hother)) char hrest

theorem Json.Written.isAscii {value : Json} (hwritten : value.Written) :
    ∀ char ∈ value.dump, IsAscii char := by
  induction hwritten with
  | null => exact isAscii_of_all (by rw [Json.dump]; decide)
  | bool value => cases value <;> exact isAscii_of_all (by rw [Json.dump]; decide)
  | int value => exact isAscii_dumpInt value
  | real hreal =>
      rcases hreal with rfl | rfl | rfl | ⟨hchars, -⟩
      · exact isAscii_of_all (by rw [Json.dump]; decide)
      · exact isAscii_of_all (by rw [Json.dump]; decide)
      · exact isAscii_of_all (by rw [Json.dump]; decide)
      · exact fun char hmem => isAscii_of_isNumberChar (hchars char hmem)
  | text value => exact isAscii_dumpText value
  | @array items hitems ih =>
      cases items with
      | nil => exact isAscii_of_all (by rw [Json.dump]; decide)
      | cons item items =>
          intro char hmem
          rw [Json.dump] at hmem
          rcases List.mem_cons.mp hmem with rfl | hrest
          · decide
          rcases List.mem_append.mp hrest with hitem | hmore
          · exact ih item List.mem_cons_self char hitem
          · exact isAscii_dumpItems (fun other hother =>
              ih other (List.mem_cons_of_mem item hother)) char hmore
  | @object fields hfields ih =>
      match fields, ih with
      | [], _ => exact isAscii_of_all (by rw [Json.dump]; decide)
      | (key, value) :: fields, ih =>
          intro char hmem
          rw [Json.dump] at hmem
          rcases List.mem_cons.mp hmem with rfl | hrest
          · decide
          · exact isAscii_field (ih (key, value) List.mem_cons_self)
              (isAscii_dumpFields fun other hother =>
                ih other (List.mem_cons_of_mem _ hother)) char hrest

theorem decodeText_encodeAscii {chars : List Char}
    (hchars : ∀ char ∈ chars, IsAscii char)
    (other : List UInt8 → Option (List Char)) :
    decodeText other (encodeAscii chars) = some chars := by
  have hbyte (char : Char) (hmem : char ∈ chars) :
      (UInt8.ofNat char.toNat).toNat = char.toNat := by
    rw [UInt8.toNat_ofNat']
    exact Nat.mod_eq_of_lt ((hchars char hmem).2.trans (by decide))
  have hall : (encodeAscii chars).all (fun byte =>
      0 < byte.toNat && byte.toNat < 128) = true := by
    rw [encodeAscii, List.all_map, List.all_eq_true]
    intro char hmem
    have hchar := hchars char hmem
    simp only [Function.comp_apply, hbyte char hmem, Bool.and_eq_true,
      decide_eq_true_eq]
    exact hchar
  rw [decodeText, if_pos hall, encodeAscii, List.map_map, Option.some.injEq]
  calc chars.map _ = chars.map id := List.map_congr_left fun char hmem => by
        rw [Function.comp_apply, hbyte char hmem, Char.ofNat_toNat, id]
    _ = chars := List.map_id chars

/-- Bytes that were written are read back, also with blanks behind them. -/
theorem Json.loads_dumps_blanks {value : Json} (hwritten : value.Written)
    (other : List UInt8 → Option (List Char)) {blanks : List Char}
    (hblanks : ∀ char ∈ blanks, isBlank char = true) :
    Json.loads other (value.dumps ++ encodeAscii blanks) = some value := by
  have hascii : ∀ char ∈ value.dump ++ blanks, IsAscii char := by
    intro char hmem
    rcases List.mem_append.mp hmem with hvalue | hblank
    · exact hwritten.isAscii char hvalue
    · have hchar := hblanks char hblank
      simp only [isBlank, Bool.or_eq_true, decide_eq_true_eq] at hchar
      rcases hchar with ((rfl | rfl) | rfl) | rfl <;> decide
  have hbytes : value.dumps ++ encodeAscii blanks =
      encodeAscii (value.dump ++ blanks) := by
    rw [Json.dumps, encodeAscii, encodeAscii, encodeAscii, List.map_append]
  rw [hbytes, Json.loads, decodeText_encodeAscii hascii, Option.bind_eq_bind,
    Option.bind_some]
  exact Json.parse_dump hwritten hblanks

theorem Json.loads_dumps {value : Json} (hwritten : value.Written)
    (other : List UInt8 → Option (List Char)) (spaces : ℕ) :
    Json.loads other (value.dumps ++ List.replicate spaces 0x20) =
      some value := by
  have hspaces : List.replicate spaces (0x20 : UInt8) =
      encodeAscii (List.replicate spaces ' ') := by
    rw [encodeAscii, List.map_replicate]
    rfl
  rw [hspaces]
  apply Json.loads_dumps_blanks hwritten
  intro char hmem
  rw [List.eq_of_mem_replicate hmem]
  decide

end GlmFlash.Library
