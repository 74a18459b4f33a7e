import PrimalDual.Archive.Path
import PrimalDual.Fault
import PrimalDual.NdArray.Basic

/-!
# A directory tree

The tree holds directories, plain files, and stored arrays. A stored array is a directory of its own
for everyone who does not read it as an array.

* `Entry`, `Disk` — what stands at a place, and the tree.
* `Disk.makeDirectories`, `removeTree`, `put`, `touch`, `list` — the operations.
* `Disk.openTemporary` — a fresh root.

**`Disk.find?_put_self`** and **`Disk.find?_put_other`**: putting an entry at a place changes that
place only.
-/

namespace PrimalDual

/-- What stands at a place of the tree. -/
inductive Entry (α β : Type) where
  | directory
  | file (content : β)
  | array (a : NdArray α)

/-- A directory tree; every root is a directory. -/
structure Disk (α β : Type) where
  entries : List (Path × Entry α β)
  /-- The number of temporary roots opened so far. -/
  temporaries : Nat

namespace Disk

variable {α β : Type}

/-- The tree with nothing but roots. -/
def empty : Disk α β := ⟨[], 0⟩

/-- What stands at a place. -/
def find? (d : Disk α β) (p : Path) : Option (Entry α β) :=
  if p.names = [] then some .directory
  else (d.entries.find? fun e => e.1 == p).map (·.2)

/-- Whether anything stands at a place. -/
def exists? (d : Disk α β) (p : Path) : Bool := (d.find? p).isSome

/-- Whether a place is a directory. -/
def isDirectory (d : Disk α β) (p : Path) : Bool :=
  match d.find? p with
  | some .directory | some (.array _) => true
  | _ => false

/-- Whether a place is a plain file. -/
def isFile (d : Disk α β) (p : Path) : Bool := d.exists? p && !d.isDirectory p

/-- Puts an entry at a place, in place of what stood there. -/
def put (d : Disk α β) (p : Path) (e : Entry α β) : Disk α β :=
  { d with entries := d.entries.filter (fun x => x.1 != p) ++ [(p, e)] }

/-- An entry that was put at a place is found there. -/
theorem find?_put_self (d : Disk α β) (p : Path) (e : Entry α β) (h : p.names ≠ []) :
    (d.put p e).find? p = some e := by
  have none : (d.entries.filter fun x => x.1 != p).find? (fun x => x.1 == p) = none := by
    rw [List.find?_eq_none]
    intro x hx
    simpa using (List.mem_filter.1 hx).2
  simp [find?, put, h, List.find?_append, none]

/-- Other places keep what stood there. -/
theorem find?_put_other (d : Disk α β) (p q : Path) (e : Entry α β) (h : q ≠ p) :
    (d.put p e).find? q = d.find? q := by
  have hp : (p == q) = false := by simpa using fun hpq => h hpq.symm
  simp only [find?, put, List.find?_append, List.find?_cons, hp]
  split
  · rfl
  · congr 1
    induction d.entries with
    | nil => rfl
    | cons x xs ih =>
      by_cases hx : x.1 = p
      · have hxq : (x.1 == q) = false := by simpa [hx] using fun hpq => h hpq.symm
        simpa [List.find?_cons, hx, hp] using ih
      · by_cases hxq : x.1 = q
        · have hqp : ¬ q = p := h
          simp [hxq, hqp]
        · simpa [List.find?_cons, List.filter_cons, hx, hxq] using ih

/-- Adds a directory unless something stands there. -/
def addDirectory (d : Disk α β) (p : Path) : Disk α β :=
  if d.exists? p then d else d.put p .directory

/-- Makes a directory and those above it. An existing one is accepted when `existing` says so. -/
def makeDirectories (d : Disk α β) (p : Path) (existing : Bool) : Except Fault (Disk α β) :=
  if p.ancestors.any d.isFile then .error .notDirectoryPath
  else if d.exists? p then
    if existing && d.isDirectory p then .ok d else .error .pathExists
  else .ok ((p.ancestors ++ [p]).foldl addDirectory d)

/-- Removes a directory with everything below it; plain files are left alone. -/
def removeTree (d : Disk α β) (p : Path) : Disk α β :=
  if d.isDirectory p then { d with entries := d.entries.filter fun e => !e.1.isWithin p } else d

/-- Creates a file with the directories above it, unless something stands there. -/
def touch (d : Disk α β) (p : Path) (content : β) : Except Fault (Disk α β) := do
  let d ← d.makeDirectories p.parent true
  pure (if d.exists? p then d else d.put p (.file content))

/-- The entries directly below a place, with their names. -/
def children (d : Disk α β) (p : Path) : List (String × Entry α β) :=
  d.entries.filterMap fun (q, e) =>
    match q.names.getLast? with
    | some name => if q == p.child name then some (name, e) else none
    | none => none

/-- The names in a directory, in increasing order. -/
def list (d : Disk α β) (p : Path) : Except Fault (List String) :=
  if !d.exists? p then .error .missingPath
  else if !d.isDirectory p then .error .notDirectoryPath
  else .ok (((d.children p).map (·.1)).mergeSort fun a b => decide (a ≤ b))

/-- A fresh root under a label. -/
def openTemporary (d : Disk α β) (label : String) : Disk α β × Path :=
  let n := d.temporaries + 1
  ({ d with temporaries := n }, .ofRoot ⟨label, n⟩)

end Disk

end PrimalDual
