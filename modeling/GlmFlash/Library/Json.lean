import GlmFlash.Library.Dict
import GlmFlash.Library.Text
import Mathlib.Data.Int.Notation
import Mathlib.Data.List.Nodup
import Mathlib.Data.List.Sort
import Mathlib.Data.String.Basic

/-!
# JSON texts

The values of JSON, their compact ASCII form and a parser that also takes
blanks, escapes and the three names of special floats.  Numbers with a fraction
or an exponent are kept as they are written.
-/

namespace GlmFlash.Library

inductive Json where
  | null
  | bool (value : Bool)
  | int (value : ℤ)
  | real (written : List Char)
  | text (value : String)
  | array (items : List Json)
  | object (fields : List (String × Json))

/-! ## Writing -/

/-- Four hexadecimal digits. -/
def hex4 (code : ℕ) : List Char :=
  [Nat.digitChar (code / 4096 % 16), Nat.digitChar (code / 256 % 16),
    Nat.digitChar (code / 16 % 16), Nat.digitChar (code % 16)]

def unicodeEscape (code : ℕ) : List Char := '\\' :: 'u' :: hex4 code

/-- The character after the backslash, for the characters that have one. -/
def shortEscapes : List (Char × Char) :=
  [('"', '"'), ('\\', '\\'), ('\x08', 'b'), ('\x0c', 'f'), ('\n', 'n'),
    ('\r', 'r'), ('\t', 't')]

def dumpChar (char : Char) : List Char :=
  match shortEscapes.lookup char with
  | some escape => ['\\', escape]
  | none =>
      if 32 ≤ char.toNat ∧ char.toNat < 127 then [char]
      else if char.toNat < 0x10000 then unicodeEscape char.toNat
      else unicodeEscape (0xd800 + (char.toNat - 0x10000) / 0x400) ++
        unicodeEscape (0xdc00 + (char.toNat - 0x10000) % 0x400)

def dumpText (text : String) : List Char :=
  '"' :: (text.toList.flatMap dumpChar ++ ['"'])

def dumpInt (value : ℤ) : List Char :=
  if value < 0 then '-' :: numeral value.natAbs else numeral value.natAbs

mutual

/-- `json.dumps` with the separators `,` and `:`. -/
def Json.dump : Json → List Char
  | .null => ['n', 'u', 'l', 'l']
  | .bool true => ['t', 'r', 'u', 'e']
  | .bool false => ['f', 'a', 'l', 's', 'e']
  | .int value => dumpInt value
  | .real written => written
  | .text value => dumpText value
  | .array [] => ['[', ']']
  | .array (item :: items) => '[' :: (item.dump ++ dumpItems items)
  | .object [] => ['{', '}']
  | .object ((key, value) :: fields) =>
      '{' :: (dumpText key ++ ':' :: (value.dump ++ dumpFields fields))

/-- What follows an item of an array. -/
def dumpItems : List Json → List Char
  | [] => [']']
  | item :: items => ',' :: (item.dump ++ dumpItems items)

/-- What follows a field of an object. -/
def dumpFields : List (String × Json) → List Char
  | [] => ['}']
  | (key, value) :: fields =>
      ',' :: (dumpText key ++ ':' :: (value.dump ++ dumpFields fields))

end

/-! ## Reading -/

def isBlank (char : Char) : Bool :=
  char = ' ' || char = '\t' || char = '\n' || char = '\r'

def skipBlank (input : List Char) : List Char := input.dropWhile isBlank

def hexValue (char : Char) : Option ℕ :=
  if char.isDigit then some (char.toNat - 48)
  else if 'a' ≤ char ∧ char ≤ 'f' then some (char.toNat - 87)
  else if 'A' ≤ char ∧ char ≤ 'F' then some (char.toNat - 55)
  else none

def scanHex4 : List Char → Option (ℕ × List Char)
  | first :: second :: third :: fourth :: rest => do
      let first ← hexValue first
      let second ← hexValue second
      let third ← hexValue third
      let fourth ← hexValue fourth
      return (4096 * first + 256 * second + 16 * third + fourth, rest)
  | _ => none

/-- The second half of a pair of surrogates. -/
def scanLow (high : ℕ) : List Char → Option (Char × List Char)
  | '\\' :: 'u' :: input => do
      let (low, rest) ← scanHex4 input
      if 0xdc00 ≤ low ∧ low < 0xe000 then
        return (Char.ofNat (0x10000 + (high - 0xd800) * 0x400 + (low - 0xdc00)),
          rest)
      else none
  | _ => none

/-- What follows `\u`.  A surrogate that is not half of a pair is no
character. -/
def scanUnicode (input : List Char) : Option (Char × List Char) := do
  let (code, rest) ← scanHex4 input
  if 0xd800 ≤ code ∧ code < 0xdc00 then scanLow code rest
  else if 0xdc00 ≤ code ∧ code < 0xe000 then none
  else return (Char.ofNat code, rest)

/-- The characters that a backslash gives back. -/
def unescapes : List (Char × Char) :=
  ('/', '/') :: shortEscapes.map Prod.swap

/-- One character of a text, not its closing quote. -/
def scanChar : List Char → Option (Char × List Char)
  | [] => none
  | '\\' :: 'u' :: rest => scanUnicode rest
  | '\\' :: escape :: rest =>
      (unescapes.lookup escape).map fun char => (char, rest)
  | char :: rest =>
      if char.toNat < 32 ∨ char = '\\' then none else some (char, rest)

/-- The rest of a text after its opening quote. -/
def scanText : ℕ → List Char → Option (List Char × List Char)
  | 0, _ => none
  | _ + 1, '"' :: rest => some ([], rest)
  | fuel + 1, input => do
      let (char, rest) ← scanChar input
      let (chars, rest) ← scanText fuel rest
      return (char :: chars, rest)

def leadingDigits (input : List Char) : List Char × List Char :=
  (input.takeWhile Char.isDigit, input.dropWhile Char.isDigit)

/-- `0`, or digits that do not start with it. -/
def scanWhole : List Char → Option (List Char × List Char)
  | '0' :: rest => some (['0'], rest)
  | input =>
      let (digits, rest) := leadingDigits input
      if digits = [] then none else some (digits, rest)

def scanFraction : List Char → List Char × List Char
  | '.' :: input =>
      let (digits, rest) := leadingDigits input
      if digits = [] then ([], '.' :: input) else ('.' :: digits, rest)
  | input => ([], input)

def scanSign : List Char → List Char × List Char
  | '+' :: rest => (['+'], rest)
  | '-' :: rest => (['-'], rest)
  | input => ([], input)

def scanExponent : List Char → List Char × List Char
  | [] => ([], [])
  | mark :: input =>
      let (sign, unsigned) := scanSign input
      let (digits, rest) := leadingDigits unsigned
      if (mark = 'e' ∨ mark = 'E') ∧ digits ≠ [] then
        (mark :: (sign ++ digits), rest)
      else ([], mark :: input)

def digitsValue (digits : List Char) : ℕ := Nat.ofDigitChars 10 digits 0

/-- A number without its sign: a whole number, or how a float is written. -/
def scanUnsigned (input : List Char) :
    Option ((ℕ ⊕ List Char) × List Char) := do
  let (whole, rest) ← scanWhole input
  let (fraction, rest) := scanFraction rest
  let (exponent, rest) := scanExponent rest
  if fraction = [] ∧ exponent = [] then return (.inl (digitsValue whole), rest)
  else return (.inr (whole ++ fraction ++ exponent), rest)

def scanNumber : List Char → Option (Json × List Char)
  | '-' :: input => do
      let (number, rest) ← scanUnsigned input
      match number with
      | .inl whole => return (.int (-whole), rest)
      | .inr written => return (.real ('-' :: written), rest)
  | input => do
      let (number, rest) ← scanUnsigned input
      match number with
      | .inl whole => return (.int whole, rest)
      | .inr written => return (.real written, rest)

def notANumber : List Char := ['N', 'a', 'N']

def infinity : List Char := ['I', 'n', 'f', 'i', 'n', 'i', 't', 'y']

/-- The values that are written as a word. -/
def words : List (List Char × Json) :=
  [(['n', 'u', 'l', 'l'], .null), (['t', 'r', 'u', 'e'], .bool true),
    (['f', 'a', 'l', 's', 'e'], .bool false), (notANumber, .real notANumber),
    (infinity, .real infinity), ('-' :: infinity, .real ('-' :: infinity))]

def scanWord (input : List Char) : Option (Json × List Char) :=
  words.findSome? fun word =>
    if word.1.isPrefixOf input then some (word.2, input.drop word.1.length)
    else none

mutual

def parseValue : ℕ → List Char → Option (Json × List Char)
  | 0, _ => none
  | fuel + 1, '"' :: input => do
      let (chars, rest) ← scanText fuel input
      return (.text (String.ofList chars), rest)
  | fuel + 1, '[' :: input =>
      match skipBlank input with
      | ']' :: rest => some (.array [], rest)
      | start => do
          let (items, rest) ← parseItems fuel start
          return (.array items, rest)
  | fuel + 1, '{' :: input =>
      match skipBlank input with
      | '}' :: rest => some (.object [], rest)
      | start => do
          let (fields, rest) ← parseFields fuel start
          return (.object fields, rest)
  | _ + 1, input => (scanWord input).or (scanNumber input)

/-- The items of an array, up to its closing bracket. -/
def parseItems : ℕ → List Char → Option (List Json × List Char)
  | 0, _ => none
  | fuel + 1, input => do
      let (item, rest) ← parseValue fuel input
      match skipBlank rest with
      | ']' :: rest => return ([item], rest)
      | ',' :: rest => do
          let (items, rest) ← parseItems fuel (skipBlank rest)
          return (item :: items, rest)
      | _ => none

/-- The fields of an object, up to its closing brace. -/
def parseFields : ℕ → List Char → Option (List (String × Json) × List Char)
  | fuel + 1, '"' :: input => do
      let (key, rest) ← scanText fuel input
      match skipBlank rest with
      | ':' :: rest => do
          let (value, rest) ← parseValue fuel (skipBlank rest)
          let field := (String.ofList key, value)
          match skipBlank rest with
          | '}' :: rest => return ([field], rest)
          | ',' :: rest => do
              let (fields, rest) ← parseFields fuel (skipBlank rest)
              return (field :: fields, rest)
          | _ => none
      | _ => none
  | _, _ => none

end

/-- A whole text: one value between blanks. -/
def Json.parse (input : List Char) : Option Json := do
  let (value, rest) ← parseValue (input.length + 1) (skipBlank input)
  if skipBlank rest = [] then return value else none

mutual

/-- No object in the value has a key twice. -/
def Json.uniqueKeys : Json → Bool
  | .array items => uniqueItems items
  | .object fields => decide (fields.map Prod.fst).Nodup && uniqueFields fields
  | _ => true

def uniqueItems : List Json → Bool
  | [] => true
  | item :: items => item.uniqueKeys && uniqueItems items

def uniqueFields : List (String × Json) → Bool
  | [] => true
  | (_, value) :: fields => value.uniqueKeys && uniqueFields fields

end

mutual

/-- The value of a text with keys that stand twice: the last one counts. -/
def Json.lastWins : Json → Json
  | .array items => .array (lastWinsItems items)
  | .object fields => .object (Dict.ofItems (lastWinsFields fields))
  | value => value

def lastWinsItems : List Json → List Json
  | [] => []
  | item :: items => item.lastWins :: lastWinsItems items

def lastWinsFields : List (String × Json) → List (String × Json)
  | [] => []
  | (key, value) :: fields => (key, value.lastWins) :: lastWinsFields fields

end

mutual

/-- The value with its keys in order, as `sort_keys` writes it. -/
def Json.sortKeys : Json → Json
  | .array items => .array (sortItems items)
  | .object fields => .object
      ((sortFields fields).insertionSort fun left right => left.1 ≤ right.1)
  | value => value

def sortItems : List Json → List Json
  | [] => []
  | item :: items => item.sortKeys :: sortItems items

def sortFields : List (String × Json) → List (String × Json)
  | [] => []
  | (key, value) :: fields => (key, value.sortKeys) :: sortFields fields

end

/-! ## Bytes -/

def encodeAscii (chars : List Char) : List UInt8 :=
  chars.map fun char => UInt8.ofNat char.toNat

/-- Bytes from 1 to 127 stand for themselves.  Other texts are given to the
decoder for them. -/
def decodeText (other : List UInt8 → Option (List Char)) (bytes : List UInt8) :
    Option (List Char) :=
  if bytes.all fun byte => 0 < byte.toNat && byte.toNat < 128 then
    some (bytes.map fun byte => Char.ofNat byte.toNat)
  else other bytes

def Json.dumps (value : Json) : List UInt8 := encodeAscii value.dump

/-- `json.loads` of bytes. -/
def Json.loads (other : List UInt8 → Option (List Char)) (bytes : List UInt8) :
    Option Json :=
  decodeText other bytes >>= Json.parse

end GlmFlash.Library
