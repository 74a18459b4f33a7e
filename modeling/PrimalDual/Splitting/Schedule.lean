import PrimalDual.Text.Blank
import PrimalDual.Value.Basic

/-!
# Update policies and weight schedules

After each pair of proximal steps the iterates move a part `w` of the way: `x ← x + w (p - x)`. The
plain method keeps `w` constant; the accelerated one follows Nesterov's sequence, whose first weight is
`0` and whose weights increase to `1`.

* `Method`, `Method.ofTag` — the two policies and the tags that name them.
* `Method.asValue` — a policy as a value of its own, which is accepted in place of a tag.
* `Momentum` — the state of a weight schedule.
* `Momentum.weight`, `Momentum.advance`, `Momentum.restart` — the next weight, the schedule after it,
  and the schedule from the start.
-/

namespace PrimalDual

/-- The update policies. -/
inductive Method where
  | plain
  | accelerated
  deriving DecidableEq, Repr, Inhabited

namespace Method

/-- The tag of the policy. -/
def tag : Method → String
  | plain => "plain"
  | accelerated => "accelerated"

/-- The policy as text. -/
def text : Method → String
  | plain => "Method.PLAIN"
  | accelerated => "Method.ACCELERATED"

/-- The tags that name each policy, aliases last. -/
def tags : List (String × Method) :=
  [("plain", plain), ("accelerated", accelerated), ("ista", plain), ("fista", accelerated)]

/-- The policy of a given name. -/
def named? (name : String) : Option Method :=
  (tags.find? fun entry => entry.1 == name).map (·.2)

/-- The kind of the policies among the values. -/
def kindName : String := "<enum 'Method'>"

/-- The policy as a value. -/
def asValue {α : Type} (m : Method) : Value α := .object kindName m.text

/--
The policy that a tag names, blanks at its ends and the case of its letters aside, or that is given as
it is. The tags are plain ASCII, and no other character turns into an ASCII letter of theirs in lower
case.
-/
def ofTag {α : Type} [Scalar α] (tag : Value α) : Except Fault Method :=
  let found := match tag with
    | .text s => named? (strip s).toLower
    | .object kind asText =>
      if kind = kindName then [plain, accelerated].find? fun m => m.text == asText else none
    | _ => none
  match found with
  | some m => .ok m
  | none => .error (.unknownMethod tag.literal)

end Method

/-- The state of a weight schedule. -/
inductive Momentum (α : Type) where
  /-- The same weight each time; a missing one is only noticed when it is needed. -/
  | constant (weight : Option (Number α))
  /-- Nesterov's sequence at `t`. -/
  | nesterov (t : α)
  /-- Says nothing about its weights. -/
  | unspecified

namespace Momentum

variable {α : Type} [Scalar α]

/-- The name of the schedule's class. -/
def className : Momentum α → String
  | constant _ => "ConstantMomentum"
  | nesterov _ => "NesterovMomentum"
  | unspecified => "Momentum"

/-- The schedule as text. -/
def text : Momentum α → String
  | constant (some w) => s!"ConstantMomentum(lambda_={w.text})"
  | constant none => "ConstantMomentum(lambda_=None)"
  | nesterov t => "NesterovMomentum(t=" ++ plainText .double (Scalar.reading t) ++ ")"
  | unspecified => "Momentum()"

/-- The constant schedule of a positive weight, or of none. -/
def ofWeight (lambda : Value α) : Except Fault (Momentum α) :=
  match lambda with
  | .null => .ok (constant none)
  | .number n =>
    if n.isPositive then .ok (constant (some n)) else .error (.lambdaNotPositive lambda.shown)
  | v => .error (.lambdaNotPositive v.shown)

/-- The start of Nesterov's sequence. -/
def accelerated : Momentum α := nesterov Scalar.one

/-- The schedule of a policy. The accelerated one ignores the weight. -/
def ofMethod (method : Method) (lambda : Value α) : Except Fault (Momentum α) :=
  match method with
  | .plain => ofWeight lambda
  | .accelerated => .ok accelerated

/-- The successor of `t` in Nesterov's sequence, the positive root of `s² - s = t²`. -/
def successor (t : α) : α :=
  (Scalar.one + Scalar.sqrt (Scalar.one + Scalar.ofInt 4 * (t * t))) / Scalar.ofInt 2

/-- The next weight. -/
def weight : Momentum α → Except Fault (Number α)
  | constant (some w) => .ok w
  | constant none => .error .lambdaMissing
  | nesterov t => .ok (.real ((t - Scalar.one) / successor t))
  | unspecified => .error .abstract

/-- The schedule after the next weight has been taken. -/
def advance : Momentum α → Momentum α
  | nesterov t => nesterov (successor t)
  | m => m

/-- The schedule from the start. -/
def restart : Momentum α → Momentum α
  | nesterov _ => accelerated
  | m => m

/-- The current element of Nesterov's sequence. -/
def position : Momentum α → Except Fault α
  | nesterov t => .ok t
  | _ => .error .noCapability

end Momentum

end PrimalDual
