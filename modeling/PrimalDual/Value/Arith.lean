import PrimalDual.Value.Basic
import PrimalDual.NdArray.Reduce

/-!
# Arithmetic on values of any kind

An operand of elementwise arithmetic may be an array, a number, or a nested list of numbers, which
stands for the array of those numbers. Other values are refused.

* `Value.ofNested` — the array that a nested list of numbers stands for.
* `Value.toOperand` — the operand that a value stands for.
* `Value.arith`, `Value.compare` — the operations.
-/

namespace PrimalDual.Value

variable {α : Type} [Scalar α]

/-- The shape of a nested list and its numbers in order; the inner lists must have equal shapes. -/
def nested : Value α → Except Fault (Shape × List (Number α))
  | number n => .ok ([], [n])
  | list items => do
    let parts ← nestedAll items
    match parts with
    | [] => pure ([0], [])
    | (s, _) :: rest =>
      if rest.all fun r => r.1 == s then
        pure (parts.length :: s, parts.flatMap (·.2))
      else throw .shapeMismatch
  | text _ => .error .wrongElements
  | _ => .error .wrongType
where
  /-- The shapes and numbers of the items of a list. -/
  nestedAll : List (Value α) → Except Fault (List (Shape × List (Number α)))
    | [] => .ok []
    | v :: rest => do
      let first ← nested v
      let others ← nestedAll rest
      pure (first :: others)

/-- The array of some numbers: truth values, whole numbers or scalars, whichever holds them all. -/
def arrayOfNumbers (s : Shape) (ns : List (Number α)) : Except Fault (NdArray α) :=
  let whole := ns.map fun n => n.whole?
  let isBool := ns.all fun
    | .bool _ => true
    | _ => false
  if ns.isEmpty || whole.any Option.isNone then do
    let xs ← ns.mapM Number.toReal
    let cells := xs.toArray
    pure (.tabulate .memory s .double fun k => cells.getD k Scalar.zero)
  else
    let cells := (whole.map fun n => n.getD 0).toArray
    if cells.all WholeKind.int64.holds then
      .ok (.tabulateWhole .memory s (if isBool then .bool else .int64) fun k => cells.getD k 0)
    else .error .overflow

/-- The array that a nested list of numbers stands for. -/
def ofNested (v : Value α) : Except Fault (NdArray α) := do
  let (s, ns) ← v.nested
  arrayOfNumbers s ns

/-- The operand that a value stands for. -/
def toOperand : Value α → Except Fault (Operand α)
  | array a => .ok (.array a)
  | number n => .ok (.number n)
  | v => do
    let a ← v.ofNested
    pure (.array a)

/-- Whether elementwise arithmetic looks at an array at all. -/
def isArray : Value α → Bool
  | array _ => true
  | _ => false

/-- Applies a number operation or, when an array is involved, the elementwise one. -/
def arith (op : Operation) (x y : Value α) : Except Fault (Value α) :=
  match x, y with
  | number m, number n =>
    match op with
    | .add => (m.add n).map number
    | .sub => (m.sub n).map number
    | .mul => (m.mul n).map number
    | .div => (m.div n).map number
    | .maxNum => .ok (number (if m.below n then n else m))
  | x, y =>
    if x.isArray || y.isArray then do
      let a ← x.toOperand
      let b ← y.toOperand
      let r ← PrimalDual.arith op a b
      pure (array r)
    else .error .wrongType

end PrimalDual.Value
