import PrimalDual.Proofs.Outcome
import PrimalDual.Proofs.Run.Folder

/-!
# The folder of a new solver

A solver is made with a folder of its own, in which nothing is left of what stood there.  So nothing is
in the way of its log and of its checkpoints, as long as the tree has no files without the
directories above them.

* `Disk.Tidy` — a tree in which everything stands in a directory.
* `Disk.IsEmptied`, **`prepareFolder_empty`** — the folder of a solver is empty when it is prepared.
* **`Settings.read_ready`** — the folder of a new solver is ready.
-/

namespace PrimalDual

namespace Path

/-- The way to a place in a directory leads through the directory. -/
lemma ancestors_child {p : Path} (h : p.names ≠ []) (name : String) :
    (p.child name).ancestors = p.ancestors ++ [p] := by
  obtain ⟨n, hn⟩ : ∃ n, p.names.length = n + 1 :=
    Nat.exists_eq_add_one.mpr (List.length_pos_iff.mpr h)
  have htake (k : ℕ) (hk : k < n + 1) :
      (p.names ++ [name]).take (k + 1) = p.names.take (k + 1) :=
    List.take_append_of_le_length (by omega)
  rw [ancestors, ancestors, child, List.length_append, List.length_singleton, Nat.add_sub_cancel,
    hn, Nat.add_sub_cancel, List.range_succ, List.map_append, List.map_singleton]
  congr 1
  · refine List.map_congr_left fun k hk => ?_
    rw [htake k (Nat.lt_succ_of_lt (List.mem_range.mp hk))]
  · rw [htake n (Nat.lt_succ_self n), ← hn, List.take_length]

end Path

namespace Disk

variable {α β : Type} {d : Disk α β} {p q : Path} {ps : List Path}

/-- Everything stands in a directory, below a root that has been opened. -/
structure Tidy (d : Disk α β) : Prop where
  above : ∀ q, d.exists? q = true → ∀ a ∈ q.ancestors, d.isDirectory a = true
  opened : ∀ q, q.names ≠ [] → d.exists? q = true → q.root.number ≤ d.temporaries

lemma empty_tidy : (empty : Disk α β).Tidy where
  above q hq a ha := by
    by_cases hroot : q.names = []
    · rw [Path.ancestors, hroot] at ha
      cases ha
    · rw [exists?, find?, if_neg hroot] at hq
      cases hq
  opened q hroot hq := by
    rw [exists?, find?, if_neg hroot] at hq
    cases hq

/-- Nothing stands in a directory that is missing. -/
lemma Tidy.child (h : d.Tidy) (hp : d.exists? p = false) (name : String) :
    d.exists? (p.child name) = false := by
  have hroot : p.names ≠ [] := by
    intro hroot
    rw [exists?_of_isDirectory (isDirectory_root hroot)] at hp
    cases hp
  rw [← Bool.not_eq_true]
  intro hchild
  have hmem : p ∈ (p.child name).ancestors := by
    rw [Path.ancestors_child hroot]
    exact List.mem_append_right _ (List.mem_singleton_self p)
  rw [exists?_of_isDirectory (h.above _ hchild p hmem)] at hp
  cases hp

/-- Nothing is left in a directory that is removed. -/
lemma exists?_removeTree (h : d.isDirectory p = true) (name : String) :
    (d.removeTree p).exists? (p.child name) = false := by
  have hwithin : (p.child name).isWithin p = true := by
    rw [Path.isWithin, Path.child, beq_self_eq_true, Bool.true_and, List.isPrefixOf_iff_prefix]
    exact List.prefix_append _ _
  have hroot : (p.child name).names ≠ [] := by
    simp [Path.child]
  rw [removeTree, if_pos h, exists?, find?, if_neg hroot, Option.isSome_map,
    Option.isSome_eq_false_iff, Option.isNone_iff_eq_none, List.find?_eq_none]
  intro e he heq
  have hout := (List.mem_filter.mp he).2
  rw [eq_of_beq heq, hwithin] at hout
  cases hout

/-- A directory that is made anew is there, and so are those above it; all else stays. -/
lemma makeDirectories_new {d' : Disk α β} (h : d.makeDirectories p false = .ok d') :
    d.exists? p = false ∧ (∀ q ∈ p.ancestors ++ [p], d'.isDirectory q = true) ∧
      ∀ q, KeepsAt (· ∈ p.ancestors ++ [p]) q d d' := by
  rw [makeDirectories] at h
  split at h
  · cases h
  · rename_i hfiles
    split at h
    · cases h
    · rename_i hnone
      cases h
      rw [Bool.not_eq_true] at hnone
      have hfree : ∀ q ∈ p.ancestors ++ [p], d.isFile q = false := by
        intro q hq
        rcases List.mem_append.mp hq with hq | hq
        · rw [← Bool.not_eq_true]
          exact fun hfile => hfiles (List.any_eq_true.mpr ⟨q, hq, hfile⟩)
        · rw [List.mem_singleton.mp hq, isFile, hnone, Bool.false_and]
      exact ⟨hnone, isDirectory_addDirectories hfree, fun q => .addDirectories (fun _ hq => hq) d⟩

/-- A directory with nothing in it. -/
structure IsEmptied (d : Disk α β) (p : Path) : Prop where
  directory : d.isDirectory p = true
  above : p.names ≠ [] → ∀ q ∈ p.ancestors, d.isDirectory q = true
  below : ∀ name, d.exists? (p.child name) = false

/-- A root that has just been opened is empty. -/
lemma Tidy.openTemporary (h : d.Tidy) (label : String) :
    (d.openTemporary label).1.IsEmptied (d.openTemporary label).2 where
  directory := isDirectory_root rfl
  above hroot := absurd rfl hroot
  below name := by
    rw [← Bool.not_eq_true]
    intro hexists
    have hopened := h.opened _ (List.cons_ne_nil name []) hexists
    exact Nat.not_succ_le_self _ hopened

/-- A root is empty once everything is removed from it. -/
lemma isEmptied_root (hroot : p.names = []) : (d.removeTree p).IsEmptied p where
  directory := isDirectory_root hroot
  above h := absurd hroot h
  below := exists?_removeTree (isDirectory_root hroot)

lemma removeTree_empty (hroot : p.names = []) : (empty : Disk α β).removeTree p = empty := by
  rw [removeTree, if_pos (isDirectory_root hroot)]
  rfl

/-- A directory is empty when it is made again after it has been removed. -/
lemma Tidy.makeDirectories {d' : Disk α β} (h : d.Tidy)
    (hmade : (d.removeTree p).makeDirectories p false = .ok d') : d'.IsEmptied p := by
  obtain ⟨hnone, hdirectories, hkeeps⟩ := makeDirectories_new hmade
  refine ⟨hdirectories p (List.mem_append_right _ (List.mem_singleton_self p)),
    fun _ q hq => hdirectories q (List.mem_append_left _ hq), fun name => ?_⟩
  have hbelow : (d.removeTree p).exists? (p.child name) = false := by
    by_cases hp : d.isDirectory p = true
    · exact exists?_removeTree hp name
    · rw [removeTree, if_neg hp] at hnone ⊢
      exact h.child hnone name
  have hway : p.child name ∉ p.ancestors ++ [p] := by
    intro hmem
    have hprefix : (p.child name).names <+: p.names := by
      rcases List.mem_append.mp hmem with hmem | hmem
      · exact Path.names_of_mem_ancestors hmem
      · exact congrArg Path.names (List.mem_singleton.mp hmem) ▸ List.prefix_rfl
    have hlength := hprefix.length_le
    rw [Path.child, List.length_append, List.length_singleton] at hlength
    exact Nat.not_succ_le_self _ hlength
  rw [exists?, (hkeeps _).find?_of_not_way hway]
  exact hbelow

end Disk

section

variable {α : Type} {β : Type} {root : Root} {temporary : String}

/-- The folder of a solver is empty when it has been prepared. -/
theorem prepareFolder_empty {d d' : Disk α β} {folder : Value α} {existing : Bool} {p : Path}
    (hd : d.Tidy) (h : prepareFolder d root temporary folder existing = (d', .ok p)) :
    d'.IsEmptied p := by
  rw [prepareFolder.eq_def] at h
  cases folder with
  | null =>
    cases h
    exact hd.openTemporary temporary
  | text s =>
    dsimp only at h
    split at h
    · cases h
    · split at h
      · rename_i hroot
        cases h
        exact Disk.isEmptied_root hroot
      · split at h
        · rename_i hmade
          cases h
          exact hd.makeDirectories hmade
        · cases h
  | _ => cases h

/-- An empty folder is ready. -/
lemma Settings.ready_of_empty {S : Settings} {d : Disk α (Array (LogEntry α))}
    (h : d.IsEmptied S.workdir) : S.Ready d where
  workdir := h.directory
  logFile := by
    rw [← Bool.not_eq_true]
    intro hlog
    have hexists : d.exists? S.logFile = false := h.below "solver.log"
    rw [Disk.exists?_of_isDirectory hlog] at hexists
    cases hexists
  dataDir := by
    intro q hq
    have hdirectory (q : Path) (hq : d.isDirectory q = true) : d.isFile q = false := by
      rw [Disk.isFile, hq, Bool.not_true, Bool.and_false]
    rcases List.mem_append.mp hq with hq | hq
    · by_cases hroot : S.workdir.names = []
      · rw [Path.ancestors, dataDir_names, hroot] at hq
        cases hq
      · rw [dataDir, Path.ancestors_child hroot] at hq
        rcases List.mem_append.mp hq with hq | hq
        · exact hdirectory q (h.above hroot q hq)
        · rw [List.mem_singleton.mp hq]
          exact hdirectory _ h.directory
    · have hnone : d.exists? q = false := by
        rw [List.mem_singleton.mp hq]
        exact h.below "data.zarr"
      rw [Disk.isFile, hnone, Bool.false_and]

/-- **The folder of a new solver** is ready. -/
theorem Settings.read_ready [Scalar α] {d d' : Disk α (Array (LogEntry α))} {given : Parameters α}
    {S : Settings} (hd : d.Tidy) (h : Settings.read d root temporary given = (d', .ok S)) :
    S.Ready d' := by
  rw [Settings.read] at h
  split at h
  · cases h
  · dsimp only at h
    rcases hfolder : prepareFolder d root temporary (given.getD "folder" .null)
      (given.get "exist_ok").truthy with ⟨d₁, place⟩
    rw [hfolder] at h
    obtain ⟨rfl, hread⟩ := Prod.mk.inj h
    obtain ⟨p, hplace, hread⟩ := ok_of_bind hread
    obtain ⟨rates, -, hread⟩ := ok_of_bind hread
    obtain ⟨names, -, hread⟩ := ok_of_bind hread
    cases hread
    cases hplace
    exact ready_of_empty (prepareFolder_empty hd hfolder)

end

end PrimalDual
