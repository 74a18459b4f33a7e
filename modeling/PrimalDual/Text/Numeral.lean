import PrimalDual.Text.Blank

/-!
# Reading numbers from text

A number may be given as text. Blanks around it are dropped, a sign may stand in front, the decimal
digits of any script count, and one underscore may stand between two digits.

* `readInteger?` — a whole number.
* `Numeral`, `readNumeral?` — a decimal number with an optional point and exponent, or one of the
  words for infinity and not-a-number.
-/

namespace PrimalDual

/-- The code points of the zeros of the decimal digits of Unicode 14; nine more digits follow each. -/
def zeroCodes : List Nat := [
  0x30, 0x660, 0x6f0, 0x7c0, 0x966, 0x9e6, 0xa66, 0xae6, 0xb66, 0xbe6, 0xc66, 0xce6, 0xd66,
  0xde6, 0xe50, 0xed0, 0xf20, 0x1040, 0x1090, 0x17e0, 0x1810, 0x1946, 0x19d0, 0x1a80, 0x1a90,
  0x1b50, 0x1bb0, 0x1c40, 0x1c50, 0xa620, 0xa8d0, 0xa900, 0xa9d0, 0xa9f0, 0xaa50, 0xabf0, 0xff10,
  0x104a0, 0x10d30, 0x11066, 0x110f0, 0x11136, 0x111d0, 0x112f0, 0x11450, 0x114d0, 0x11650,
  0x116c0, 0x11730, 0x118e0, 0x11950, 0x11c50, 0x11d50, 0x11da0, 0x16a60, 0x16ac0, 0x16b50,
  0x1d7ce, 0x1d7d8, 0x1d7e2, 0x1d7ec, 0x1d7f6, 0x1e140, 0x1e2f0, 0x1e950, 0x1fbf0]

/-- The value of a decimal digit of any script. -/
def digitValue? (c : Char) : Option Nat :=
  (zeroCodes.find? fun z => decide (z ≤ c.toNat) && decide (c.toNat < z + 10)).map (c.toNat - ·)

/-- Reads digits after a digit: an underscore is passed over when a digit follows it. -/
def readMoreDigits : List Char → Nat → Nat → Nat × Nat × List Char
  | '_' :: d :: rest, value, count =>
    match digitValue? d with
    | some k => readMoreDigits rest (10 * value + k) (count + 1)
    | none => (value, count, '_' :: d :: rest)
  | c :: rest, value, count =>
    match digitValue? c with
    | some k => readMoreDigits rest (10 * value + k) (count + 1)
    | none => (value, count, c :: rest)
  | [], value, count => (value, count, [])

/-- Reads a run of digits: its value, its length, and the rest. A run starts with a digit. -/
def readDigits (s : List Char) : Nat × Nat × List Char :=
  match s with
  | c :: rest =>
    match digitValue? c with
    | some k => readMoreDigits rest k 1
    | none => (0, 0, s)
  | [] => (0, 0, [])

/-- Splits a sign off. -/
def readSign : List Char → Bool × List Char
  | '-' :: rest => (true, rest)
  | '+' :: rest => (false, rest)
  | s => (false, s)

/-- The longest run of digits that is read as a whole number. -/
def digitLimit : Nat := 4300

/-- Reads a whole number. -/
def readInteger? (s : String) : Option Int :=
  let (negative, body) := readSign (stripChars s.toList)
  match readDigits body with
  | (value, count, []) =>
    if count = 0 || digitLimit < count then none
    else some (if negative then -(value : Int) else value)
  | _ => none

/-- A number as it is written: a scaled whole number, or a word. -/
inductive Numeral where
  | decimal (negative : Bool) (mantissa : Nat) (exponent : Int)
  | infinite (negative : Bool)
  | notANumber
  deriving Repr, Inhabited

/-- Reads an exponent, nothing standing for zero. -/
def readExponent? : List Char → Option Int
  | [] => some 0
  | c :: rest =>
    if c = 'e' || c = 'E' then
      let (negative, body) := readSign rest
      match readDigits body with
      | (value, count, []) =>
        if count = 0 then none else some (if negative then -(value : Int) else value)
      | _ => none
    else none

/-- Reads digits with an optional point and exponent. -/
def readDecimal? (negative : Bool) (body : List Char) : Option Numeral :=
  let (whole, wholeCount, rest) := readDigits body
  let (places, placeCount, rest) :=
    match rest with
    | '.' :: more => readDigits more
    | _ => (0, 0, rest)
  if wholeCount + placeCount = 0 then none
  else (readExponent? rest).map fun e =>
    .decimal negative (whole * Nat.pow 10 placeCount + places) (e - placeCount)

/-- Reads a number: digits with an optional point and exponent, or a word in any case. -/
def readNumeral? (s : String) : Option Numeral :=
  let (negative, body) := readSign (stripChars s.toList)
  let word := String.ofList (body.map Char.toLower)
  if word = "inf" || word = "infinity" then some (.infinite negative)
  else if word = "nan" then some .notANumber
  else readDecimal? negative body

end PrimalDual
