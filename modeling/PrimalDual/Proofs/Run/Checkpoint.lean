import PrimalDual.Proofs.Archive.Loading
import PrimalDual.Proofs.Run.Completion
import PrimalDual.Proofs.Run.Steady

/-!
# What a checkpoint holds

Checkpoints go to a directory that outlives the runs of a solver.  A variable without a value is not
saved, and neither are the records as long as there are none, but nothing is taken away for that: what
is loaded under their names is what an earlier checkpoint has left there.

* `Settings.Saves` — the names and the backends that arrays are saved under.
* `steady_shelf`, `steady_holds` — whatever is called, nothing but such arrays comes into the
  directory, and nothing is taken out of it.
* `Checkpoint` — what is loaded after a checkpoint.
* **`writeback_reloads`** — after any calls, a checkpoint holds the logged variables and the records.

That a variable may be found in the directory twice, once for each backend, is left open here: which
of the two is loaded depends on the order in which the directory is listed.
-/

namespace PrimalDual

variable {α : Type}

/-! ## Saved names -/

/-- Arrays are saved under the names of the logged variables, and the records as an array in memory. -/
def Settings.Saves (S : Settings) (name : String) (b : Backend) : Prop :=
  name ∈ S.logged ∨ name = "history" ∧ b = .memory

/-- The names of the logged variables are single steps down, each is loaded as it was saved, and none
is that of the records. -/
def Settings.Loggable (S : Settings) : Prop :=
  ∀ name ∈ S.logged, Plain name ∧ Unmarked name ∧ name ≠ "history"

instance (S : Settings) : Decidable S.Loggable :=
  inferInstanceAs (Decidable (∀ name ∈ S.logged, _))

section

variable {S : Settings} {history : Option (History α)} {logged : Parameters α}
  {vars : List (Variable α)} {name : String} {a : NdArray α} {v : Value α}

lemma Settings.Loggable.nameable (h : S.Loggable) : Nameable S.Saves := by
  rintro name b (hname | ⟨rfl, -⟩)
  · exact ⟨(h name hname).1, (h name hname).2.1⟩
  · decide

lemma names_loggedValues (S : Settings) (vars : List (Variable α)) :
    (loggedValues S vars).map (·.1) = S.logged := by
  rw [loggedValues, List.map_map]
  exact List.map_id S.logged

lemma name_of_mem_loggedValues (h : (name, v) ∈ loggedValues S vars) : name ∈ S.logged := by
  rw [← names_loggedValues S vars]
  exact List.mem_map_of_mem h

/-- A logged variable has a single value. -/
lemma eq_of_mem_loggedValues {v' : Value α} (h : (name, v) ∈ loggedValues S vars)
    (h' : (name, v') ∈ loggedValues S vars) : v = v' := by
  obtain ⟨n, -, heq⟩ := List.mem_map.mp h
  obtain ⟨n', -, heq'⟩ := List.mem_map.mp h'
  obtain ⟨rfl, rfl⟩ := Prod.mk.inj heq
  obtain ⟨rfl, rfl⟩ := Prod.mk.inj heq'
  rfl

variable [Scalar α]

/-- A checkpoint consists of the records and the logged variables. -/
lemma mem_checkpointItems (h : ∀ entry ∈ logged, entry.1 ≠ "history") :
    (name, v) ∈ checkpointItems history logged ↔
      (name = "history" ∧ v = (history.map fun t => .array t.matrix).getD .null) ∨
        (name, v) ∈ logged := by
  have hnone : logged.find? (fun entry => entry.1 == "history") = none :=
    List.find?_eq_none.mpr fun entry hentry => by simpa using h entry hentry
  have hall : logged.filter (fun entry => entry.1 != "history") = logged :=
    List.filter_eq_self.mpr fun entry hentry => bne_iff_ne.mpr (h entry hentry)
  have hget (u : Value α) : Parameters.getD logged "history" u = u := by
    rw [Parameters.getD, hnone]
  dsimp only [checkpointItems]
  rw [hget, hall, List.mem_cons, Prod.mk.injEq]
  cases history <;> rfl

namespace Settings.Loggable

lemma mem_items (h : S.Loggable) : (name, v) ∈ checkpointItems history (loggedValues S vars) ↔
    (name = "history" ∧ v = (history.map fun t => .array t.matrix).getD .null) ∨
      (name, v) ∈ loggedValues S vars :=
  mem_checkpointItems fun _ hentry => (h _ (name_of_mem_loggedValues hentry)).2.2

/-- What a checkpoint saves is accepted. -/
lemma saves_items (h : S.Loggable)
    (ha : (name, .array a) ∈ checkpointItems history (loggedValues S vars)) :
    S.Saves name a.backend := by
  rcases h.mem_items.mp ha with ⟨rfl, htable⟩ | hlogged
  · cases history with
    | none => cases htable
    | some t =>
      cases htable
      exact Or.inr ⟨rfl, rfl⟩
  · exact Or.inl (name_of_mem_loggedValues hlogged)

/-- A checkpoint saves one value under a name. -/
lemma eq_of_mem_items (h : S.Loggable) {v' : Value α}
    (hv : (name, v) ∈ checkpointItems history (loggedValues S vars))
    (hv' : (name, v') ∈ checkpointItems history (loggedValues S vars)) : v = v' := by
  rcases h.mem_items.mp hv with ⟨rfl, rfl⟩ | hlogged <;>
    rcases h.mem_items.mp hv' with ⟨hname', rfl⟩ | hlogged'
  · rfl
  · exact absurd rfl (h _ (name_of_mem_loggedValues hlogged')).2.2
  · exact absurd hname' (h _ (name_of_mem_loggedValues hlogged)).2.2
  · exact eq_of_mem_loggedValues hlogged hlogged'

omit [Scalar α] in
/-- The records are saved in memory only. -/
lemma unshadowed_history {d : Disk α (Array (LogEntry α))} (h : S.Loggable)
    (hshelf : Shelf S.Saves d S.dataDir) : Unshadowed d S.dataDir "history" .memory := by
  intro b hb e he
  obtain ⟨n, c, hn, hstored⟩ := hshelf.stored _ he
  have hloaded := congrArg (fun x => loadedName x.1) hstored
  dsimp only [stored] at hloaded
  rw [loadedName_storedName (by decide), loadedName_storedName (h.nameable n _ hn).2,
    Prod.mk.injEq] at hloaded
  obtain ⟨rfl, hbackend⟩ := hloaded
  rcases hn with hlogged | ⟨-, hmemory⟩
  · exact (h _ hlogged).2.2 rfl
  · exact hb (hbackend.trans hmemory)

omit [Scalar α] in
/-- The log is not in the directory of the checkpoints. -/
lemma dataDir_put (d : Disk α (Array (LogEntry α))) (entries : Array (LogEntry α)) :
    (d.put S.logFile (.file entries)).children S.dataDir = d.children S.dataDir ∧
      (d.isDirectory S.dataDir = true →
        (d.put S.logFile (.file entries)).isDirectory S.dataDir = true) := by
  refine ⟨Disk.children_put_other (Path.ne_child_of_length ?_) d _, fun hdir => ?_⟩
  · simp [dataDir_names, logFile_names]
  · have hkept : Disk.KeepsAt (fun _ => True) S.dataDir d (d.put S.logFile (.file entries)) :=
      .put (ne_logFile_of_mem_data (List.mem_append_right _ (List.mem_singleton_self _))) _
    exact hkept.isDirectory hdir

/-- **Whatever is called**, nothing comes into the directory but what is saved there. -/
theorem steady_shelf (h : S.Loggable) :
    Steady S (fun d : Disk α (Array (LogEntry α)) => Shelf S.Saves d S.dataDir) where
  put d entries hd := hd.congr (dataDir_put d entries).1 (dataDir_put d entries).2
  save w records vars hw := by
    rw [World.saveCheckpoint]
    split
    · exact hw
    · exact hw.saveArrays h.nameable fun name a ha => h.saves_items ha

/-- **Whatever is called**, nothing is taken out of the directory. -/
theorem steady_holds (h : S.Loggable) (name : String) :
    Steady S (fun d : Disk α (Array (LogEntry α)) => Holds d S.dataDir name) where
  put d entries hd := hd.congr (dataDir_put d entries).1 (dataDir_put d entries).2
  save w records vars hw := by
    rw [World.saveCheckpoint]
    split
    · exact hw
    · exact hw.saveArrays (h.nameable.plain fun name a ha => h.saves_items ha)

end Settings.Loggable

end

/-! ## Checkpoints -/

variable {σ κ : Type} [Scalar α]

/-- What is loaded after a checkpoint of the logged variables `data` and of the table `history`, where
`before` are the files until then. -/
structure Checkpoint (S : Settings) (before : Disk α (Array (LogEntry α))) (data : Parameters α)
    (history : Option (History α)) (items : Parameters α) : Prop where
  nodup : (items.map (·.1)).Nodup
  names : ∀ name v, (name, v) ∈ items → name = "history" ∨ name ∈ S.logged
  logged : ∀ name v, (name, v) ∈ data → v ≠ .null → ∃ a, v = .array a ∧
    (Unshadowed before S.dataDir name a.backend → (name, v) ∈ items)
  records : ∀ t, history = some t → ("history", .array t.matrix) ∈ items
  /-- What is loaded under any other name is what was loaded before. -/
  kept : ∀ name, (∀ v, (name, v) ∈ data → v = .null) → (name = "history" → history = none) →
    ∀ v, (name, v) ∈ items ↔ ∃ old, loadArrays before S.dataDir = .ok old ∧ (name, v) ∈ old

/-- A checkpoint into a directory of saved arrays. -/
lemma saveCheckpoint_reloads {S : Settings} (h : S.Loggable) {w w' : World α}
    {records : Array (Row α)} {vars : List (Variable α)} (hshelf : Shelf S.Saves w.disk S.dataDir)
    (hsaved : w.saveCheckpoint S records (loggedValues S vars) = (w', .ok ())) :
    ∃ history items, History.ofRows records.toList = .ok history ∧
      loadArrays w'.disk S.dataDir = .ok items ∧
      Checkpoint S w.disk (loggedValues S vars) history items := by
  rw [World.saveCheckpoint] at hsaved
  split at hsaved
  · cases hsaved
  · rename_i history hrows
    rcases hdisk : saveArrays w.disk S.dataDir (checkpointItems history (loggedValues S vars))
      with ⟨d, outcome⟩
    rw [hdisk] at hsaved
    cases hsaved
    obtain ⟨items, hitems, hreloaded⟩ := hshelf.reloaded h.nameable (fun name a => h.saves_items)
      (fun name a a' ha ha' => by simpa using h.eq_of_mem_items ha ha') hdisk
    refine ⟨history, items, hrows, hitems, hreloaded.nodup, ?_, ?_, ?_, ?_⟩
    · intro name v hv
      obtain ⟨a, -, hname | ⟨hname, -⟩⟩ := hreloaded.arrays name v hv
      · exact Or.inr hname
      · exact Or.inl hname
    · intro name v hv hne
      have hitem : (name, v) ∈ checkpointItems history (loggedValues S vars) :=
        h.mem_items.mpr (Or.inr hv)
      obtain ⟨a, rfl⟩ := (hreloaded.values name v hitem).resolve_left hne
      exact ⟨a, rfl, hreloaded.current name a hitem⟩
    · rintro t rfl
      exact hreloaded.current "history" t.matrix (h.mem_items.mpr (Or.inl ⟨rfl, rfl⟩))
        (h.unshadowed_history hshelf)
    · intro name hdata hhistory v
      refine hreloaded.kept name (fun a ha => ?_) v
      rcases h.mem_items.mp ha with ⟨hname, htable⟩ | hlogged
      · rw [hhistory hname] at htable
        cases htable
      · cases hdata _ hlogged

/-- **A checkpoint** that is saved after any calls of a solver with a directory of its own holds the
logged variables that have a value, unless the other backend has an array of that name there, and the
records if there are any.  All else in it has been left there by a checkpoint before. -/
theorem Solver.writeback_reloads [StoppingRule α κ] (A : Algorithm α σ κ) (S : Settings)
    (w : World α) (calls : List (Call α κ)) (hnames : S.Loggable)
    (hnew : w.disk.children S.dataDir = []) {w' : World α}
    (hsaved : ((ofAlgorithm A S).callAll w calls).1.writeback ((ofAlgorithm A S).callAll w calls).2.1
      = (w', .ok ())) :
    ∃ data history items,
      ((ofAlgorithm A S).callAll w calls).1.stats = .ok (data, history) ∧
      loadArrays w'.disk S.dataDir = .ok items ∧
      Checkpoint S ((ofAlgorithm A S).callAll w calls).2.1.disk data history items := by
  obtain ⟨-, hsettings, hshelf⟩ := hnames.steady_shelf.callAll (s := ofAlgorithm A S)
    (Shelf.of_children_nil hnew) calls
  generalize (ofAlgorithm A S).callAll w calls = r at hsaved hsettings hshelf ⊢
  change r.1.settings = S at hsettings
  rw [writeback, logged, hsettings] at hsaved
  obtain ⟨history, items, hrows, hitems, hcheckpoint⟩ :=
    saveCheckpoint_reloads hnames hshelf hsaved
  refine ⟨_, history, items, ?_, hitems, hcheckpoint⟩
  rw [stats, hrows, logged, hsettings]
  rfl

/-! ## A counter that is started again -/

lemma counterSettings_loggable : counterSettings.Loggable := by
  decide

lemma abandonedCounter_saves : abandonedCounter.1.writeback abandonedCounter.2.1
    = ((abandonedCounter.1.writeback abandonedCounter.2.1).1, .ok ()) := by
  have houtcome : (abandonedCounter.1.writeback abandonedCounter.2.1).2 = .ok () := rfl
  exact Prod.ext (Eq.refl (abandonedCounter.1.writeback abandonedCounter.2.1).1) houtcome

theorem counter_writeback_reloads :
    let r := abandonedCounter
    counterSettings.Loggable ∧ (.empty : Disk Float (Array (LogEntry Float))).children
      counterSettings.dataDir = [] ∧
    r.1.writeback r.2.1 = ((r.1.writeback r.2.1).1, .ok ()) ∧
    ∃ data history items, r.1.stats = .ok (data, history) ∧
      loadArrays (r.1.writeback r.2.1).1.disk counterSettings.dataDir = .ok items ∧
      Checkpoint counterSettings r.2.1.disk data history items := by
  intro r
  exact ⟨counterSettings_loggable, rfl, abandonedCounter_saves, Solver.writeback_reloads
    (counter _ _) counterSettings ⟨.empty, 0, #[]⟩
    [.fit 0 (counterArguments .manual), .pull .null 2] counterSettings_loggable rfl
    abandonedCounter_saves⟩

/-- The counter after a run that has left a record, and its checkpoint. -/
def savedCounter : Solver Float ℕ (Criterion Float) × World Float × List (Reply Float) :=
  abandonedCounter.1.callAll abandonedCounter.2.1 [.writeback]

lemma savedCounter_holds : Holds savedCounter.2.1.disk counterSettings.dataDir "history" := by
  have hrows : ∃ t, History.ofRows abandonedCounter.1.records.toList = .ok (some t) := ⟨_, rfl⟩
  obtain ⟨t, hrows⟩ := hrows
  obtain ⟨history, items, hrows', hitems, hcheckpoint⟩ := saveCheckpoint_reloads
    counterSettings_loggable (Shelf.of_children_nil rfl) abandonedCounter_saves
  rw [hrows] at hrows'
  cases hrows'
  exact ⟨items, hitems, List.mem_map_of_mem (hcheckpoint.records t rfl)⟩

lemma counterSettings_settles : ∀ name ∈ counterSettings.logged, Settles name :=
  fun name hname => settles_of_plain (counterSettings_loggable name hname).1

lemma savedCounter_ready : counterSettings.Ready savedCounter.2.1.disk := by
  have hready : counterSettings.Ready (.empty : Disk Float _) := counterSettings_ready ⟨"", 0⟩
  exact ((Steady.ready counterSettings_settles).callAll (s := counterSolver) hready
    [.fit 0 (counterArguments .manual), .pull .null 2, .writeback]).2.2

/-- The counter at the start of a manual run. -/
def startedCounter (now : ℤ) : Solver Float ℕ (Criterion Float) :=
  { counterSolver with
    phase := .running (Solver.initialCourse 0 (.maxDuration 3 now 0) false)
    mode := some .manual }

lemma startedCounter_fit {s : Solver Float ℕ (Criterion Float)} {w : World Float}
    (halgorithm : s.algorithm = counter _ _) (hsettings : s.settings = counterSettings)
    (hready : counterSettings.Ready w.disk) :
    s.fit 0 w (counterArguments .manual) = (startedCounter w.now,
      { w with disk := w.disk.put counterSettings.logFile (.file #[]) }, .ok ()) := by
  obtain ⟨A, S, phase, mode, active, failure, printing⟩ := s
  cases halgorithm
  cases hsettings
  rw [Solver.fit, Solver.openLog_ready hready]
  rfl

lemma startedCounter_saves {w : World Float} (hready : counterSettings.Ready w.disk) (now : ℤ) :
    ((startedCounter now).writeback w).2 = .ok () := by
  let fresh : World Float := ⟨.empty, 0, #[]⟩
  have hfresh : ((startedCounter now).writeback fresh).2 = .ok () := rfl
  rw [← hfresh, Solver.writeback, Solver.writeback]
  exact saveCheckpoint_outcome hready (counterSettings_ready ⟨"", 0⟩)

/-- The next run before its first step. -/
def restartedCounter : Solver Float ℕ (Criterion Float) × World Float × Except Fault Unit :=
  savedCounter.1.fit 0 savedCounter.2.1 (counterArguments .manual)

/-- The records of an earlier run are still loaded when the current one has none. -/
theorem counter_outdated :
    let r := restartedCounter
    counterSettings.Loggable ∧ r.2.2 = .ok () ∧ (r.1.writeback r.2.1).2 = .ok () ∧
    ∃ data items, r.1.stats = .ok (data, none) ∧
      loadArrays (r.1.writeback r.2.1).1.disk counterSettings.dataDir = .ok items ∧
      "history" ∈ items.map (·.1) ∧ "history" ∉ data.map (·.1) := by
  have hsteady := counterSettings_loggable.steady_holds (α := Float) "history"
  have hready := savedCounter_ready.put #[]
  have hheld := hsteady.put _ #[] savedCounter_holds
  dsimp only
  rw [restartedCounter, startedCounter_fit rfl rfl savedCounter_ready]
  generalize savedCounter.2.1.disk.put counterSettings.logFile (.file #[]) = d at hready hheld ⊢
  generalize savedCounter.2.1 = w
  obtain ⟨items, hitems, hname⟩ := hsteady.save { w with disk := d } #[]
    ((counter Float (Criterion Float)).bindings 0) hheld
  refine ⟨counterSettings_loggable, rfl, startedCounter_saves hready _, _, items, rfl, hitems,
    hname, ?_⟩
  exact fun h => absurd (names_loggedValues counterSettings _ ▸ h) (by decide)

end PrimalDual
