/-!
# Places in a directory tree

A place is a sequence of names below a root. Roots are told apart by a number; how a root is called is
up to whoever opened it.

* `Root`, `Path` — a root, and a place below it.
* `Path.descend`, `Path.ofText` — the place that a relative text names.
* `Path.text` — the place as text.
-/

namespace PrimalDual

/-- The root of a directory tree. -/
structure Root where
  label : String
  number : Nat
  deriving DecidableEq, Repr, Inhabited

/-- A place below a root. -/
structure Path where
  root : Root
  names : List String
  deriving DecidableEq, Repr, Inhabited

namespace Path

/-- The place of a root. -/
def ofRoot (r : Root) : Path := ⟨r, []⟩

/-- The place of a name in a directory. -/
def child (p : Path) (name : String) : Path := { p with names := p.names ++ [name] }

/-- Follows one name: the place itself for a dot, the directory above for two. -/
def follow (names : List String) (name : String) : List String :=
  if name = "" || name = "." then names
  else if name = ".." then names.dropLast
  else names ++ [name]

/-- The place that a text with slashes names, relative to another place. -/
def descend (p : Path) (s : String) : Path :=
  { p with names := (s.splitOn "/").foldl follow p.names }

/-- The place that a text with slashes names, relative to a root. -/
def ofText (r : Root) (s : String) : Path := (ofRoot r).descend s

/-- The label of the root and the names, with slashes between them. -/
def text (p : Path) : String := String.intercalate "/" (p.root.label :: p.names)

/-- Whether a place is another one or lies below it. -/
def isWithin (p q : Path) : Bool := p.root == q.root && q.names.isPrefixOf p.names

/-- The directory of a place. -/
def parent (p : Path) : Path := { p with names := p.names.dropLast }

/-- The directories above a place, from the topmost below the root. -/
def ancestors (p : Path) : List Path :=
  (List.range (p.names.length - 1)).map fun k => { p with names := p.names.take (k + 1) }

end Path

end PrimalDual
