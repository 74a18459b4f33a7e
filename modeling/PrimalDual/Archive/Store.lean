import PrimalDual.Archive.Disk
import PrimalDual.Value.Basic

/-!
# Saving arrays into a directory

Each array of a collection is stored under its name. A chunked array is stored under its name with a
marker in front, so that it is loaded as a chunked array again; the first marker of a stored name is
dropped on loading. Absent values are skipped, and what is not saved stays as it was.

* `saveArrays` — saves a collection into a directory, which is made when it is missing.
* `loadArrays` — the collection in a directory.
-/

namespace PrimalDual

variable {α β : Type}

/-- The marker in front of the stored name of a chunked array. -/
def chunkedMarker : String := "dask_"

/-- The name under which an array is stored. -/
def storedName (b : Backend) (name : String) : String :=
  match b with
  | .memory => name
  | .chunked => chunkedMarker ++ name

/-- The name and the backend of an array that is stored under a name. -/
def loadedName (stored : String) : String × Backend :=
  if chunkedMarker.toList.isPrefixOf stored.toList then
    (String.ofList (stored.toList.drop chunkedMarker.length), .chunked)
  else (stored, .memory)

/-- Stores one array in a directory, in place of what stood under its name. A name with slashes stands
for a place further down, and the directories on the way are made. -/
def storeArray (d : Disk α β) (dir : Path) (name : String) (a : NdArray α) : Disk α β :=
  let place := dir.descend (storedName a.backend name)
  (place.ancestors.foldl Disk.addDirectory (d.removeTree place)).put place (.array a)

/-- Saves values one after the other; the first one that is neither an array nor absent ends it. -/
def saveInto [Scalar α] (dir : Path) : List (String × Value α) → Disk α β → Disk α β × Except Fault Unit
  | [], d => (d, .ok ())
  | (_, .null) :: rest, d => saveInto dir rest d
  | (name, .array a) :: rest, d => saveInto dir rest (storeArray d dir name a)
  | (_, v) :: _, d => (d, .error (.noBackend v.shown))

/-- Saves the arrays of a collection into a directory. -/
def saveArrays [Scalar α] (d : Disk α β) (dir : Path) (items : List (String × Value α)) :
    Disk α β × Except Fault Unit :=
  match d.makeDirectories dir true with
  | .error e => (d, .error e)
  | .ok d => saveInto dir items d

/-- The value that is loaded from an entry of a directory. -/
def loadEntry (stored : String) (e : Entry α β) : String × Value α :=
  let (name, backend) := loadedName stored
  match e with
  | .array a => (name, .array (a.onBackend backend))
  | _ => (name, .null)

/-- Adds a loaded value, in place of an earlier one of its name. -/
def addLoaded (items : List (String × Value α)) (item : String × Value α) :
    List (String × Value α) :=
  items.filter (fun entry => entry.1 != item.1) ++ [item]

/-- The arrays in a directory by name. -/
def loadArrays (d : Disk α β) (dir : Path) : Except Fault (List (String × Value α)) :=
  if !d.exists? dir then .error (.missingDirectory dir.text)
  else if !d.isDirectory dir then .error (.notDirectory dir.text)
  else .ok (((d.children dir).map fun (name, e) => loadEntry name e).foldl addLoaded [])

end PrimalDual
