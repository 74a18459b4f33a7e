import PrimalDual.Value.Basic

/-!
# Parameters by name

Parameters are given by name in some order. A parameter that is given as absent differs from one that
is not given at all: only the latter takes its default.

* `Parameters` — the values by name.
* `Parameters.get`, `Parameters.getD` — the value of a parameter, and the one with a default.
* `Parameters.setDefault`, `Parameters.set` — adds a parameter unless it is given, or in any case.
-/

namespace PrimalDual

/-- Values by name. -/
abbrev Parameters (α : Type) := List (String × Value α)

namespace Parameters

variable {α : Type}

/-- The value of a parameter, or `v` when it is not given. -/
def getD (ps : Parameters α) (name : String) (v : Value α) : Value α :=
  match ps.find? fun entry => entry.1 == name with
  | some (_, w) => w
  | none => v

/-- The value of a parameter, nothing when it is not given. -/
def get (ps : Parameters α) (name : String) : Value α := ps.getD name .null

/-- Whether a parameter is given. -/
def has (ps : Parameters α) (name : String) : Bool := ps.any fun entry => entry.1 == name

/-- Adds a parameter unless it is given. -/
def setDefault (ps : Parameters α) (name : String) (v : Value α) : Parameters α :=
  if ps.has name then ps else ps ++ [(name, v)]

/-- Gives a parameter another value in its place, or adds it. -/
def set (ps : Parameters α) (name : String) (v : Value α) : Parameters α :=
  if ps.has name then ps.map fun entry => if entry.1 == name then (name, v) else entry
  else ps ++ [(name, v)]

/-- Whether all names are among the given ones. -/
def within (ps : Parameters α) (names : List String) : Bool :=
  ps.all fun entry => names.contains entry.1

end Parameters

end PrimalDual
