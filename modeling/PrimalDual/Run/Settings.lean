import PrimalDual.Archive.Disk
import PrimalDual.Value.Parameters

/-!
# Settings of a solver

A solver evaluates its stopping criterion, reports, and takes checkpoints at fixed rates, and keeps its
files in a directory of its own.

* `Rates`, `Rates.read` — the rates, of which the later ones are multiples of the first one.
* `Settings`, `Settings.read` — everything that a solver is set up with.
* `prepareFolder` — the directory of a solver, empty.

The directory is prepared before anything else is looked at.
-/

namespace PrimalDual

/-- How often a run evaluates its criterion, takes checkpoints, and reports. -/
structure Rates where
  /-- The iterations between two evaluations of the criterion. -/
  stop : Nat
  /-- The iterations between two checkpoints: nothing for none at all, zero for the last one only. -/
  writeback : Option Nat
  /-- The iterations between two reports; zero makes every iteration fail. -/
  report : Int
  stop_pos : 0 < stop
  writeback_dvd : ∀ w, writeback = some w → stop ∣ w
  report_dvd : (stop : Int) ∣ report

section

variable {α : Type} [Scalar α]

namespace Rates

/-- The rate of evaluations, a number of at least one without its fraction. -/
def readStop (v : Value α) : Except Fault { n : Nat // 0 < n } :=
  let whole : Except Fault Int := match v with
    | .number n => if (Number.int 1).atMost n then n.truncate else .error .notWhole
    | _ => .error .wrongType
  match whole with
  | .ok k =>
    if h : 0 < k.toNat then .ok ⟨k.toNat, h⟩ else .error (.stopRate v.shown)
  | .error _ => .error (.stopRate v.shown)

/-- The rate of checkpoints: none, zero, or a positive multiple of the rate of evaluations. -/
def readWriteback (stop : Nat) (v : Value α) :
    Except Fault { w : Option Nat // ∀ n, w = some n → stop ∣ n } :=
  match v with
  | .null => .ok ⟨none, by simp⟩
  | .number n =>
    match n.exactly? with
    | some k =>
      if h : 0 ≤ k ∧ stop ∣ k.toNat then .ok ⟨some k.toNat, by simpa using h.2⟩
      else .error (.writebackRate v.shown)
    | none => .error (.writebackRate v.shown)
  | v => .error (.writebackRate v.shown)

/-- The rate of reports: a multiple of the rate of evaluations, that rate itself when left open. -/
def readReport (stop : Nat) (given v : Value α) :
    Except Fault { n : Int // (stop : Int) ∣ n } :=
  match v with
  | .null => .ok ⟨stop, Int.dvd_refl _⟩
  | .number n =>
    match n.exactly? with
    | some k =>
      if h : (stop : Int) ∣ k then .ok ⟨k, h⟩ else .error (.verbosity given.shown v.shown)
    | none => .error (.verbosity given.shown v.shown)
  | v => .error (.verbosity given.shown v.shown)

/-- The rates of three values, checked in this order. -/
def read (stop writeback report : Value α) : Except Fault Rates := do
  let s ← readStop stop
  let w ← readWriteback s.val writeback
  let r ← readReport s.val stop report
  pure ⟨s.val, w.val, r.val, s.property, w.property, r.property⟩

end Rates

/-- Everything that a solver is set up with. -/
structure Settings where
  /-- The directory of the solver. -/
  workdir : Path
  rates : Rates
  /-- Whether reports are printed, too. -/
  showProgress : Bool
  /-- The variables that are shown and saved. -/
  logged : List String

namespace Settings

/-- The place of the log. -/
def logFile (s : Settings) : Path := s.workdir.child "solver.log"

/-- The directory of the checkpoints. -/
def dataDir (s : Settings) : Path := s.workdir.child "data.zarr"

/-- The arguments that a solver takes, apart from those of its algorithm. -/
def arguments : List String :=
  ["folder", "exist_ok", "stop_rate", "writeback_rate", "verbosity", "show_progress", "log_var"]

/-- The name that a member of a collection stands for. -/
def readName : Value α → Except Fault String
  | .text s => .ok s
  | .number n => .ok n.text
  | .null => .ok (Value.null : Value α).literal
  | _ => .error .wrongType

/-- The names in a collection, or a single name. -/
def readNames (v : Value α) : Except Fault (List String) :=
  let names : Except Fault (List String) := match v with
    | .text s => .ok [s]
    | .list items | .tuple items => items.mapM readName
    | .mapping entries => .ok (entries.map (·.1))
    | _ => .error .wrongType
  match names with
  | .ok ns => .ok ns.eraseDups
  | .error _ => .error (.logVariables v.kindName)

end Settings

variable {β : Type}

/-- The directory that a value names, below `root`; a fresh temporary one when it names none. What
stood there is removed, if that is allowed. -/
def prepareFolder (d : Disk α β) (root : Root) (temporary : String) (folder : Value α)
    (existing : Bool) : Disk α β × Except Fault Path :=
  match folder with
  | .null =>
    let (d, p) := d.openTemporary temporary
    (d, .ok p)
  | .text s =>
    let p := Path.ofText root s
    if d.exists? p && !existing then (d, .error (.folderExists p.text))
    else
      let d := d.removeTree p
      if p.names = [] then (d, .ok p)
      else
        match d.makeDirectories p false with
        | .ok d => (d, .ok p)
        | .error e => (d, .error e)
  | v => (d, .error (.folderNotPath v.kindName))

/--
The settings that some arguments give. An unknown argument is refused before the directory is prepared,
everything else afterwards.
-/
def Settings.read (d : Disk α β) (root : Root) (temporary : String) (given : Parameters α) :
    Disk α β × Except Fault Settings :=
  if !given.within Settings.arguments then (d, .error .wrongType)
  else
    let folder := given.getD "folder" .null
    let (d, place) := prepareFolder d root temporary folder (given.get "exist_ok").truthy
    (d, do
      let workdir ← place
      let rates ← Rates.read (given.getD "stop_rate" (.number (.int 1)))
        (given.getD "writeback_rate" .null) (given.getD "verbosity" .null)
      let logged ← Settings.readNames (given.getD "log_var" (.list []))
      let progress := (given.getD "show_progress" (.number (.bool true))).truthy
      pure ⟨workdir, rates, progress, logged⟩)

end

end PrimalDual
