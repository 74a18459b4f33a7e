import PrimalDual.Proofs.Archive.Keeping
import PrimalDual.Proofs.Archive.Name
import PrimalDual.Proofs.Run.Tick
import PrimalDual.Run.Solver

/-!
# The folder of a solver

A solver keeps its log and its checkpoints in a folder of its own.  As long as the folder is there
and nothing is in the way of either, both can be written, and writing them leaves it like that.  So
whether a log can be opened or a checkpoint be saved never depends on what an earlier run has left.

* `Settings.Ready` — nothing is in the way of the log and of the checkpoints.
* `openLog_ready` — the log can be opened then.
* `Ready.log`, **`Ready.saveItems`** — it stays so, and the log is not touched by checkpoints.
* **`saveCheckpoint_outcome`** — whether a checkpoint can be saved is up to the values.
-/

namespace PrimalDual

variable {α : Type}

namespace Settings

variable {S S' : Settings} {d d' : Disk α (Array (LogEntry α))} {q : Path}

/-- The folder is there, and nothing is in the way of the log and of the checkpoints. -/
structure Ready (S : Settings) (d : Disk α (Array (LogEntry α))) : Prop where
  workdir : d.isDirectory S.workdir = true
  logFile : d.isDirectory S.logFile = false
  dataDir : ∀ q ∈ S.dataDir.ancestors ++ [S.dataDir], d.isFile q = false

lemma logFile_names : S.logFile.names = S.workdir.names ++ ["solver.log"] := rfl

lemma logFile_ne_root (S : Settings) : S.logFile.names ≠ [] := by
  simp [logFile_names]

lemma dataDir_names : S.dataDir.names = S.workdir.names ++ ["data.zarr"] := rfl

/-- No directory on the way to a checkpoint, or below, is the place of the log. -/
lemma ne_logFile {rest : List String} (h : q.names <+: S.dataDir.names ++ rest) : q ≠ S.logFile := by
  rintro rfl
  rw [logFile_names, dataDir_names, List.append_assoc, List.prefix_append_right_inj,
    List.singleton_append, List.cons_prefix_cons] at h
  exact absurd h.1 (by decide)

lemma names_of_mem_data (h : q ∈ S.dataDir.ancestors ++ [S.dataDir]) :
    q.names <+: S.dataDir.names := by
  rcases List.mem_append.mp h with h | h
  · exact Path.names_of_mem_ancestors h
  · obtain rfl := List.mem_singleton.mp h
    exact List.prefix_rfl

lemma ne_logFile_of_mem_data (h : q ∈ S.dataDir.ancestors ++ [S.dataDir]) : q ≠ S.logFile := by
  have hnames := names_of_mem_data h
  rw [← List.append_nil S.dataDir.names] at hnames
  exact ne_logFile hnames

lemma workdir_ne_logFile : S.workdir ≠ S.logFile := by
  intro h
  have hlength := congrArg (fun q => q.names.length) h
  simp [logFile_names] at hlength

namespace Ready

/-- The folder stays ready when all is kept at its level and above. -/
lemma keeps (h : S.Ready d) (hkeeps : ∀ q, q.names.length ≤ S.dataDir.names.length →
    Disk.KeepsAt (· ≠ S.logFile) q d d') : S.Ready d' := by
  refine ⟨?_, ?_, ?_⟩
  · refine (hkeeps S.workdir ?_).isDirectory h.workdir
    simp [dataDir_names]
  · have hlog := (hkeeps S.logFile (by simp [dataDir_names, logFile_names])).find?_of_not_way
      (not_not_intro rfl)
    rw [Disk.isDirectory, hlog]
    exact h.logFile
  · intro q hq
    rw [(hkeeps q (names_of_mem_data hq).length_le).isFile_eq]
    exact h.dataDir q hq

/-- The folder stays ready when its log is written. -/
lemma put (h : S.Ready d) (entries : Array (LogEntry α)) :
    S.Ready (d.put S.logFile (.file entries)) := by
  refine ⟨?_, ?_, ?_⟩
  · rw [Disk.isDirectory, Disk.find?_put_other _ _ _ _ workdir_ne_logFile]
    exact h.workdir
  · rw [Disk.isDirectory, Disk.find?_put_self _ _ _ S.logFile_ne_root]
  · intro q hq
    have hkeeps : Disk.KeepsAt (fun _ => True) q d (d.put S.logFile (.file entries)) :=
      .put (ne_logFile_of_mem_data hq) _
    rw [hkeeps.isFile_eq]
    exact h.dataDir q hq

lemma log {w : World α} (h : S.Ready w.disk) (print : Bool) (entry : LogEntry α) :
    S.Ready (w.log S.logFile print entry).disk := by
  rw [World.log_disk]
  split
  · exact h.put _
  · exact h

end Ready

end Settings

/-- The log of a folder that is ready can be opened. -/
lemma Solver.openLog_ready {σ κ : Type} {s : Solver α σ κ} {w : World α}
    (h : s.settings.Ready w.disk) :
    s.openLog w = ({ w with disk := w.disk.put s.settings.logFile (.file #[]) }, .ok ()) := by
  rw [openLog]
  rw [h.workdir, h.logFile]
  rfl

/-! ## Checkpoints -/

section

variable [Scalar α] {S S' : Settings} {w w' : World α} {vars : List (Variable α)}
  {logged : Parameters α} {records : Array (Row α)}

omit [Scalar α] in
/-- Arrays are logged under the names of variables. -/
lemma settles_of_mem_loggedValues (hvars : ∀ v ∈ vars, Settles v.name) {name : String}
    {a : NdArray α} (h : (name, .array a) ∈ loggedValues S vars) : Settles name := by
  obtain ⟨name', -, heq⟩ := List.mem_map.mp h
  rw [Prod.mk.injEq] at heq
  obtain ⟨rfl, heq⟩ := heq
  split at heq
  · rename_i v hfound
    have hname := List.find?_some hfound
    rw [← eq_of_beq hname]
    exact hvars v (List.mem_of_find?_eq_some hfound)
  · cases heq

/-- A checkpoint holds what is logged, and the records. -/
lemma settles_of_mem_checkpointItems (hlogged : ∀ name a, (name, .array a) ∈ logged → Settles name)
    {name : String} {a : NdArray α} {history : Option (History α)}
    (h : (name, .array a) ∈ checkpointItems history logged) : Settles name := by
  rcases List.mem_cons.mp h with h | h
  · rw [(Prod.mk.inj h).1]
    exact settles_of_plain (by decide)
  · exact hlogged name a (List.mem_filter.mp h).1

/-- **A checkpoint** leaves the folder ready, and the log as it is. -/
theorem Settings.Ready.saveItems (h : S.Ready w.disk)
    (hlogged : ∀ name a, (name, .array a) ∈ logged → Settles name) (records : Array (Row α)) :
    S.Ready (w.saveCheckpoint S records logged).1.disk ∧
      (w.saveCheckpoint S records logged).1.disk.find? S.logFile = w.disk.find? S.logFile := by
  rw [World.saveCheckpoint]
  split
  · exact ⟨h, rfl⟩
  · rename_i history hrows
    obtain ⟨d, hd, hmade⟩ := Disk.makeDirectories_ok h.dataDir fun q => ne_logFile_of_mem_data (S := S)
    have hsaved (q : Path) (hq : q.names.length ≤ S.dataDir.names.length) :
        Disk.KeepsAt (· ≠ S.logFile) q w.disk
          (saveInto S.dataDir (checkpointItems history logged) d).1 := by
      refine (hmade q).trans (.saveInto ?_ ?_ d)
      · intro name a ha p hp
        obtain ⟨rest, -, hrest⟩ := settles_of_mem_checkpointItems hlogged ha a.backend S.dataDir
        exact ne_logFile (hrest ▸ Path.names_of_mem_ancestors hp)
      · intro name a ha
        obtain ⟨rest, hne, hrest⟩ := settles_of_mem_checkpointItems hlogged ha a.backend S.dataDir
        refine Path.not_within_of_length ?_
        rw [hrest, List.length_append]
        have hpos := List.length_pos_iff.mpr hne
        omega
    rw [saveArrays, hd]
    refine ⟨h.keeps hsaved, (hsaved S.logFile ?_).find?_of_not_way (not_not_intro rfl)⟩
    simp [dataDir_names, logFile_names]

lemma Settings.Ready.saveCheckpoint (h : S.Ready w.disk) (hvars : ∀ v ∈ vars, Settles v.name)
    (records : Array (Row α)) :
    S.Ready (w.saveCheckpoint S records (loggedValues S vars)).1.disk ∧
      (w.saveCheckpoint S records (loggedValues S vars)).1.disk.find? S.logFile
        = w.disk.find? S.logFile :=
  h.saveItems (fun _ _ => settles_of_mem_loggedValues hvars) records

/-- **Whether a checkpoint can be saved** does not depend on the folder, once it is ready. -/
theorem saveCheckpoint_outcome (h : S.Ready w.disk) (h' : S'.Ready w'.disk) :
    (w.saveCheckpoint S records logged).2 = (w'.saveCheckpoint S' records logged).2 := by
  rw [World.saveCheckpoint, World.saveCheckpoint]
  cases History.ofRows records.toList with
  | error e => rfl
  | ok history =>
    obtain ⟨d, hd, -⟩ := Disk.makeDirectories_ok h.dataDir fun q =>
      Settings.ne_logFile_of_mem_data
    obtain ⟨d', hd', -⟩ := Disk.makeDirectories_ok h'.dataDir fun q =>
      Settings.ne_logFile_of_mem_data
    dsimp only
    rw [saveArrays, saveArrays, hd, hd']
    exact saveInto_outcome _ _ _ _ _

end

end PrimalDual
