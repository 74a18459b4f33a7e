import PrimalDual.Value.Basic

/-!
# Durations

A duration is a whole number of microseconds. It is put together from weeks, days, hours, minutes,
seconds and microseconds, each of which may have a fraction, and rounded once, ties going to the even
microsecond.

* `Duration`, `Duration.ofParts` — a duration, and the one of given parts.
* `Duration.text` — days, hours, minutes, seconds, and the fraction of a second if there is one.
* `Duration.seconds` — the duration as a scalar.
-/

namespace PrimalDual

/-- A duration in microseconds. -/
abbrev Duration := Int

namespace Duration

/-- The units of a duration by name, in microseconds. -/
def units : List (String × Int) :=
  [("weeks", 604800000000), ("days", 86400000000), ("hours", 3600000000), ("minutes", 60000000),
   ("seconds", 1000000), ("microseconds", 1)]

/-- One day. -/
def day : Int := 86400000000

/-- The largest number of days, in either direction. -/
def dayLimit : Int := 999999999

/-- Two digits at least. -/
def twoDigits (n : Int) : String := String.ofList (padZeros 2 (Decimal.digitsOf n.natAbs))

/-- The duration as text; a negative one shows the days below it and the time of day above them. -/
def text (d : Duration) : String :=
  let days := d.fdiv day
  let rest := d.fmod day
  let clock := toString (rest / 3600000000) ++ ":" ++ twoDigits (rest / 60000000 % 60) ++ ":" ++
    twoDigits (rest / 1000000 % 60)
  let micro := rest % 1000000
  let fraction :=
    if micro = 0 then ""
    else "." ++ String.ofList (padZeros 6 (Decimal.digitsOf micro.natAbs))
  let unit := if days.natAbs = 1 then " day, " else " days, "
  if days = 0 then clock ++ fraction else toString days ++ unit ++ clock ++ fraction

variable {α : Type} [Scalar α]

/-- The whole microseconds of a part, and the fraction that is left over. -/
def part (unit : Int) (n : Number α) : Except Fault (Int × α) :=
  match n with
  | .real x =>
    if Scalar.isNan x then .error .notWhole
    else
      match Scalar.floor? x with
      | some f => .ok (f * unit, (x - Scalar.ofInt f) * Scalar.ofInt unit)
      | none => .error .overflow
  | n => .ok (n.whole?.getD 0 * unit, Scalar.zero)

/-- The integer nearest to a scalar, ties going to the even one. -/
def nearest (x : α) : Int :=
  let down := (Scalar.floor? x).getD 0
  let rest := x - Scalar.ofInt down
  let half : α := Scalar.ratio 1 2
  if Scalar.less rest half then down
  else if Scalar.less half rest then down + 1
  else if down % 2 = 0 then down
  else down + 1

/-- The duration of some parts, each a unit in microseconds and a number of them. -/
def ofParts (parts : List (Int × Number α)) : Except Fault Duration := do
  let pieces ← parts.mapM fun (u, n) => part u n
  let whole := pieces.foldl (fun s p => s + p.1) 0
  let rest := pieces.foldl (fun s p => s + p.2) (Scalar.zero : α)
  let d := whole + nearest rest
  if dayLimit < d.fdiv day || d.fdiv day < -dayLimit then throw .overflow
  pure d

/-- The duration in seconds. -/
def seconds (d : Duration) : α := Scalar.ratio d 1000000

end Duration

end PrimalDual
