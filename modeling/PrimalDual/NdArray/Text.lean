import PrimalDual.Decimal.Layout
import PrimalDual.NdArray.Basic

/-!
# Arrays as text

The elements of an array are written between square brackets, aligned in columns of equal width.
Floating-point numbers get at most eight places, fewer when fewer read back; the layout with exponents
is chosen for the whole array when its magnitudes are very large, very small or far apart.

* `realColumn`, `wholeColumn` — the aligned texts of the elements.
* `NdArray.text` — the text of an array.
-/

namespace PrimalDual

/-- Fills `s` with blanks on the left up to `width` characters. -/
def padLeft (width : Nat) (s : String) : String :=
  String.ofList (List.replicate (width - s.length) ' ') ++ s

/-- Fills `s` with blanks on the right up to `width` characters. -/
def padRight (width : Nat) (s : String) : String :=
  s ++ String.ofList (List.replicate (width - s.length) ' ')

/-- The most places after the point of an array element. -/
def elementPlaces : Nat := 8

/-- A list of characters without its trailing zeros. -/
def dropZeros (s : List Char) : List Char := (s.reverse.dropWhile (· == '0')).reverse

/-- The digits before and after the point: the shortest that read back, at most eight after it. -/
def elementPositional (p : Precision) (v : Dyadic) : String × String :=
  let (whole, places) := (v.shortest p).positional
  let (whole, places) :=
    if (dropZeros places).length ≤ elementPlaces then (whole, dropZeros places)
    else
      let all := padZeros (elementPlaces + 1) (Decimal.digitsOf (v.toPlaces elementPlaces))
      let k := all.length - elementPlaces
      (all.take k, dropZeros (all.drop k))
  (String.ofList (if v.negative then '-' :: whole else whole), String.ofList places)

/-- The digit before the point, the digits after it, and the exponent. -/
def elementScientific (p : Precision) (v : Dyadic) : String × String × Int :=
  let d := v.shortest p
  let (digits, point) :=
    if d.digits.length ≤ elementPlaces + 1 then (d.digits, d.point)
    else
      let (c, point) := v.toDigits (elementPlaces + 1)
      (Decimal.digitsOf c, point)
  let lead := digits.take 1
  (String.ofList (if v.negative then '-' :: lead else lead),
    String.ofList (dropZeros (digits.drop 1)), if v.mantissa = 0 then 0 else point - 1)

/-- Whether `a / b ≤ c / d` for exact magnitudes, given as quotients. -/
def quotientAtMost (a c : Nat × Nat) : Bool := decide (a.1 * c.2 ≤ c.1 * a.2)

/-- Whether the magnitudes call for exponents: one of at least `10^8`, one below `10^-4`, or two whose
quotient exceeds a thousand. -/
def wantsExponents (vs : List Dyadic) : Bool :=
  let qs := (vs.filter fun v => v.mantissa ≠ 0).map Dyadic.quotient
  match qs with
  | [] => false
  | q :: rest =>
    let high := rest.foldl (fun m x => if quotientAtMost m x then x else m) q
    let low := rest.foldl (fun m x => if quotientAtMost x m then x else m) q
    quotientAtMost (100000000, 1) high || !quotientAtMost (1, 10000) low ||
      !quotientAtMost high (low.1 * 1000, low.2)

/-- The largest length of a text. -/
def widest (xs : List String) : Nat := xs.foldl (fun m s => max m s.length) 0

/-- The finite values among some readings. -/
def finiteValues (rs : List Reading) : List Dyadic :=
  rs.filterMap fun
    | .finite v => some v
    | _ => none

/-- A number without digits, right-aligned. -/
def wordColumn (width : Nat) : Reading → String
  | .infinite negative => padLeft width (infiniteText negative)
  | _ => padLeft width "nan"

/-- The aligned texts of floating-point numbers. -/
def realColumn (p : Precision) (rs : List Reading) : List String :=
  let vs := finiteValues rs
  let words := (rs.filterMap fun
    | .finite _ => none
    | r => some (wordColumn 0 r))
  if wantsExponents vs then
    let parts := vs.map (elementScientific p)
    let exponents := parts.map fun (_, _, e) => padZeros 2 (Decimal.digitsOf e.natAbs)
    let places := widest (parts.map fun (_, f, _) => f)
    let expWidth := exponents.foldl (fun m e => max m e.length) 0
    let right := expWidth + 2 + places
    let left := max (widest (parts.map fun (w, _, _) => w)) (widest words - (right + 1))
    rs.map fun
      | .finite v =>
        let (w, f, e) := elementScientific p v
        let sign := if e < 0 then "-" else "+"
        padLeft left w ++ "." ++ f ++ String.ofList (List.replicate (places - f.length) '0') ++ "e" ++
          sign ++ String.ofList (padZeros expWidth (Decimal.digitsOf e.natAbs))
      | r => wordColumn (left + right + 1) r
  else
    let parts := vs.map (elementPositional p)
    let right := widest (parts.map (·.2))
    let left := max (widest (parts.map (·.1))) (widest words - (right + 1))
    rs.map fun
      | .finite v =>
        let (w, f) := elementPositional p v
        padLeft left w ++ "." ++ padRight right f
      | r => wordColumn (left + right + 1) r

/-- The aligned texts of integers or truth values. -/
def wholeColumn (k : WholeKind) (xs : List Int) : List String :=
  let texts := xs.map fun n =>
    if k = .bool then (if n = 0 then "False" else "True") else toString n
  let width := if k = .bool then 5 else widest texts
  texts.map (padLeft width)

/-- The longest line of an array's text. -/
def lineWidth : Nat := 75

/-- Joins words with blanks, breaking a line that would grow beyond `width`. -/
def wrapWords (indent : String) (width : Nat) : List String → String → String → String
  | [], done, line => done ++ line
  | w :: rest, done, line =>
    let bound := if rest.isEmpty then width else width - 1
    let breaks := decide (bound < line.length + w.length) && decide (indent.length < line.length)
    let done := if breaks then done ++ line.trimAsciiEnd.toString ++ "\n" else done
    let line := (if breaks then indent else line) ++ w ++ (if rest.isEmpty then "" else " ")
    wrapWords indent width rest done line

/-- The rows of an array, from the aligned texts of its elements. -/
def layoutRows (shape : List Nat) (indent : String) (width : Nat) (texts : List String) : String :=
  match shape with
  | [] => texts.headD ""
  | [_] =>
    let body := wrapWords indent (width - 1) texts "" indent
    "[" ++ (body.drop indent.length).toString ++ "]"
  | n :: inner =>
    let block := inner.foldr (· * ·) 1
    let gap := String.ofList (List.replicate inner.length '\n')
    let rows := (List.range n).map fun i =>
      layoutRows inner (indent ++ " ") (width - 1) ((texts.drop (i * block)).take block)
    "[" ++ String.intercalate (gap ++ indent) rows ++ "]"

/-- The text of an array. -/
def NdArray.text {α : Type} [Scalar α] (a : NdArray α) : String :=
  if a.size = 0 then "[]"
  else
    match a.cells with
    | .whole k _ =>
      if a.shape = [] then (wholeColumn k a.toInts).headD ""
      else layoutRows a.shape " " lineWidth (wholeColumn k a.toInts)
    | .real p _ =>
      if a.shape = [] then plainText p (Scalar.reading (a.realAt 0))
      else layoutRows a.shape " " lineWidth (realColumn p (a.toScalars.map Scalar.reading))

end PrimalDual
