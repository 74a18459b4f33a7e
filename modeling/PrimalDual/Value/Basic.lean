import PrimalDual.NdArray.Text
import PrimalDual.Number
import PrimalDual.Text.Quoted
import PrimalDual.Text.Numeral

/-!
# Values of any kind

Parameters arrive as values whose kind is only known when they are looked at: nothing, a number, a
text, a collection, or an array. Each operation checks what it needs, and the messages about refused
values show them in the form defined here.

* `Value` — a parameter of any kind.
* `Value.kindName` — the name of its kind.
* `Value.shown`, `Value.literal` — its text on its own and inside a collection.
* `Value.toWhole`, `Value.toReal` — conversions to a whole number and to a scalar.
* `Value.nonNegative`, `Value.truthy` — the tests that checks are made of.
-/

namespace PrimalDual

/-- A parameter of any kind. -/
inductive Value (α : Type) where
  | null
  | number (n : Number α)
  | text (s : String)
  | list (items : List (Value α))
  | tuple (items : List (Value α))
  | mapping (entries : List (String × Value α))
  | array (a : NdArray α)
  /-- An object of which only the name of its kind and its text are known. -/
  | object (kind asText : String)

namespace Value

variable {α : Type}

instance : Inhabited (Value α) := ⟨null⟩

/-- An absent value. -/
def isNull : Value α → Bool
  | null => true
  | _ => false

/-- The array, if the value is one. -/
def array? : Value α → Option (NdArray α)
  | array a => some a
  | _ => none

/-- The name of the value's kind. -/
def kindName : Value α → String
  | null => "<class 'NoneType'>"
  | number (.bool _) => "<class 'bool'>"
  | number (.int _) => "<class 'int'>"
  | number (.real _) => "<class 'float'>"
  | text _ => "<class 'str'>"
  | list _ => "<class 'list'>"
  | tuple _ => "<class 'tuple'>"
  | mapping _ => "<class 'dict'>"
  | array a =>
    match a.backend with
    | .memory => "<class 'numpy.ndarray'>"
    | .chunked => "<class 'dask.array.core.Array'>"
  | object kind _ => kind

variable [Scalar α]

mutual

/-- The text of a value inside a collection, where texts are quoted. -/
def literal : Value α → String
  | null => "None"
  | number n => n.text
  | text s => quoted s
  | list items => "[" ++ String.intercalate ", " (literals items) ++ "]"
  | tuple [item] => "(" ++ literal item ++ ",)"
  | tuple items => "(" ++ String.intercalate ", " (literals items) ++ ")"
  | mapping entries => "\x7b" ++ String.intercalate ", " (entryLiterals entries) ++ "\x7d"
  | array a => a.text
  | object _ asText => asText

/-- The texts of the items of a collection. -/
def literals : List (Value α) → List String
  | [] => []
  | v :: rest => literal v :: literals rest

/-- The texts of the entries of a mapping. -/
def entryLiterals : List (String × Value α) → List String
  | [] => []
  | (k, v) :: rest => (quoted k ++ ": " ++ literal v) :: entryLiterals rest

end

/-- The text of a value on its own, where a text stands for itself. -/
def shown : Value α → String
  | text s => s
  | v => v.literal

/-- The scalar that a numeral stands for. -/
def ofNumeral : Numeral → α
  | .notANumber => Scalar.nan
  | .infinite negative => if negative then -Scalar.inf else Scalar.inf
  | .decimal negative mantissa exponent =>
    -- the place of the first digit, up to one; no scalar lies beyond four hundred places
    let place := (bitLength mantissa : Int) * 30103 / 100000 + exponent
    let x : α :=
      if mantissa = 0 then Scalar.zero
      else if 400 < place then Scalar.inf
      else if place < -400 then Scalar.zero
      else
        let (n, d) := scaleQuotient 10 mantissa 1 exponent
        Scalar.ratio n d
    if negative then -x else x

/-- The scalar that a number, or a text that is a numeral, stands for. -/
def toReal : Value α → Except Fault α
  | number n => n.toReal
  | text s =>
    match readNumeral? s with
    | some x => .ok (ofNumeral x)
    | none => .error .notWhole
  | _ => .error .wrongType

/-- The whole number that a number without its fraction, or a text, stands for. -/
def toWhole : Value α → Except Fault Int
  | number n => n.truncate
  | text s =>
    match readInteger? s with
    | some n => .ok n
    | none => .error .notWhole
  | _ => .error .wrongType

/-- Whether the value is at least zero; only numbers compare. -/
def nonNegative : Value α → Except Fault Bool
  | number n => .ok ((Number.int 0).atMost n)
  | _ => .error .wrongType

/-- Whether a condition reads the value as true: numbers other than zero, and what is not empty. -/
def truthy : Value α → Bool
  | null => false
  | number n => !n.isZero
  | text s => !s.isEmpty
  | list items | tuple items => !items.isEmpty
  | mapping entries => !entries.isEmpty
  | array a => a.size != 0
  | object _ _ => true

end Value

end PrimalDual
