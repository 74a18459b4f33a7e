import PrimalDual.Text.Printable

/-!
# Quoted text

A text inside a message is written between quotes: single ones, unless it holds a single quote and no
double one. The backslash, the chosen quote and the line characters get two-character escapes; other
characters with no printed form are written by their code point, in two, four or eight hexadecimal
digits.

* `quoted` — the quoted form of a text.
-/

namespace PrimalDual

/-- The quote that is chosen unless the text rules it out. -/
def singleQuote : Char := Char.ofNat 0x27

/-- The other quote. -/
def doubleQuote : Char := Char.ofNat 0x22

/-- The escape character. -/
def backslash : Char := Char.ofNat 0x5c

/-- The lowest `width` hexadecimal digits of `n`. -/
def hexDigits (width n : Nat) : List Char :=
  let all := Nat.toDigits 16 n
  List.replicate (width - all.length) '0' ++ all

/-- A character with no printed form, by its code point. -/
def escapeCode (c : Char) : List Char :=
  if c.toNat < 0x100 then backslash :: 'x' :: hexDigits 2 c.toNat
  else if c.toNat < 0x10000 then backslash :: 'u' :: hexDigits 4 c.toNat
  else backslash :: 'U' :: hexDigits 8 c.toNat

/-- One character of a text between quotes `q`. -/
def escapeChar (q c : Char) : List Char :=
  if c = q || c = backslash then [backslash, c]
  else if c = '\n' then [backslash, 'n']
  else if c = '\r' then [backslash, 'r']
  else if c = '\t' then [backslash, 't']
  else if isPrintable c then [c]
  else escapeCode c

/-- The quote for a text: single, unless only the single one occurs in it. -/
def quoteFor (s : List Char) : Char :=
  if s.contains singleQuote && !s.contains doubleQuote then doubleQuote else singleQuote

/-- The quoted form of a text. -/
def quoted (s : String) : String :=
  let q := quoteFor s.toList
  String.ofList (q :: s.toList.flatMap (escapeChar q) ++ [q])

end PrimalDual
