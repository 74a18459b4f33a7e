import PrimalDual.Proofs.Run.Creation
import PrimalDual.Proofs.Splitting.Setup
import PrimalDual.Run.Session
import PrimalDual.Scalar.Binary64

/-!
# Solvers that cannot be made

A solver is refused for an argument that nobody takes, for its folder, for its rates, for its names, or
for what it is made of.  The folder is prepared before most of them are looked at.  So what a refusal
costs depends on the folder alone: a directory that stands and may be taken over is emptied, and in
every other case all files and arrays stay.

* `Parameters.TakesOver` — some arguments name a directory that stands and may be taken over.
* `Disk.Wiped` — a directory has been emptied, and everything else has been kept.
* `prepareFolder_wipes`, `prepareFolder_keeps` — the two ways to prepare a folder.
* **`Session.refusal_spares_files`** — a refusal changes nothing but the tree, and there it empties the
  directory that is taken over.
* **`refusal_empties_folder`** — a file is lost although no solver is made.
-/

namespace PrimalDual

namespace Path

lemma isWithin_self (p : Path) : p.isWithin p = true := by
  rw [isWithin, beq_self_eq_true, Bool.true_and]
  exact List.isPrefixOf_iff_prefix.mpr List.prefix_rfl

/-- What lies within a place and has no names is the place itself. -/
lemma eq_of_within_root {p q : Path} (h : q.isWithin p = true) (hroot : q.names = []) : q = p := by
  obtain ⟨root, names⟩ := p
  obtain ⟨root', names'⟩ := q
  cases hroot
  rw [isWithin, Bool.and_eq_true, List.isPrefixOf_iff_prefix, List.prefix_nil] at h
  obtain ⟨hroots, rfl⟩ := h
  exact congrArg (Path.mk · []) (eq_of_beq hroots)

/-- The directories above a place do not lie within it. -/
lemma ancestors_not_within {p q : Path} (h : q ∈ p.ancestors) : q.isWithin p = false :=
  not_within_of_length (length_of_mem_ancestors h)

end Path

namespace Parameters

variable {α β : Type}

/-- Some arguments, all of which a solver takes, name a directory that stands and may be taken over. -/
structure TakesOver [Scalar α] (given : Parameters α) (d : Disk α β) (root : Root) (p : Path) : Prop where
  known : given.within Settings.arguments = true
  named : ∃ s, given.getD "folder" .null = .text s ∧ Path.ofText root s = p
  allowed : (given.get "exist_ok").truthy = true
  stands : d.isDirectory p = true

/-- A default for an argument that is known is known itself. -/
lemma within_setDefault (given : Parameters α) {names : List String} {other : String}
    (h : other ∈ names) (v : Value α) :
    (given.setDefault other v).within names = given.within names := by
  rw [setDefault]
  split
  · rfl
  · rw [within, within, List.all_append, List.all_cons, List.all_nil, Bool.and_true,
      List.contains_iff_mem.mpr h, Bool.and_true]

end Parameters

namespace Disk

variable {α β : Type} {d d' : Disk α β} {p q : Path}

/-- A directory has been emptied.  What does not lie in it has been kept, and in a tree in which
everything stands in a directory it has been made again. -/
structure Wiped (p : Path) (d d' : Disk α β) : Prop where
  inside : ∀ q, q.isWithin p = true → q ≠ p → d'.exists? q = false
  outside : ∀ q, q.isWithin p = false → KeepsAt (· ∈ p.ancestors) q d d'
  again : d.Tidy → d'.isDirectory p = true

/-- Nothing is left within a directory that is removed. -/
lemma find?_removeTree (h : d.isDirectory p = true) (hq : q.isWithin p = true)
    (hroot : q.names ≠ []) : (d.removeTree p).find? q = none := by
  rw [removeTree, if_pos h, find?, if_neg hroot, Option.map_eq_none_iff, List.find?_eq_none]
  intro e he heq
  have hout := (List.mem_filter.mp he).2
  rw [eq_of_beq heq, hq] at hout
  cases hout

/-- Within a directory that is removed, only the root of the tree may still stand. -/
lemma names_of_removeTree (h : d.isDirectory p = true) (hq : q.isWithin p = true)
    (hexists : (d.removeTree p).exists? q = true) : q.names = [] := by
  by_contra hroot
  rw [exists?, find?_removeTree h hq hroot] at hexists
  cases hexists

/-- A directory is emptied when it is removed. -/
lemma Wiped.removeTree (h : d.isDirectory p = true)
    (hagain : d.Tidy → (d.removeTree p).isDirectory p = true) : Wiped p d (d.removeTree p) where
  inside q hq hne := by
    rw [← Bool.not_eq_true]
    exact fun hexists => hne (Path.eq_of_within_root hq (names_of_removeTree h hq hexists))
  outside _ hq := .removeTree hq
  again := hagain

/-- A directory is emptied when it is removed and made again. -/
lemma Wiped.makeDirectories (h : d.isDirectory p = true)
    (hmade : (d.removeTree p).makeDirectories p false = .ok d') : Wiped p d d' := by
  obtain ⟨hnone, hdirectories, hkeeps⟩ := makeDirectories_new hmade
  have hroot {q : Path} (hq : q.isWithin p = true) : q.names ≠ [] := by
    intro hroot
    cases Path.eq_of_within_root hq hroot
    rw [exists?_of_isDirectory (isDirectory_root hroot)] at hnone
    cases hnone
  refine ⟨fun q hq hne => ?_, fun q hq => ?_, fun _ => ?_⟩
  · have hway : q ∉ p.ancestors ++ [p] := by
      intro hmem
      rcases List.mem_append.mp hmem with hmem | hmem
      · rw [Path.ancestors_not_within hmem] at hq
        cases hq
      · exact hne (List.mem_singleton.mp hmem)
    rw [exists?, (hkeeps q).find?_of_not_way hway, find?_removeTree h hq (hroot hq)]
    rfl
  · refine KeepsAt.trans (.removeTree hq) ((hkeeps q).imp_right (And.imp_left fun hway => ?_))
    rcases List.mem_append.mp hway with hway | hway
    · exact hway
    · rw [List.mem_singleton.mp hway, Path.isWithin_self] at hq
      cases hq
  · exact hdirectories p (List.mem_append_right _ (List.mem_singleton_self p))

/-- A directory that is removed can be made again in a tree in which everything stands in a
directory. -/
lemma Tidy.makes_again {e : Fault} (hd : d.Tidy) (h : d.isDirectory p = true)
    (hroot : p.names ≠ []) : (d.removeTree p).makeDirectories p false ≠ .error e := by
  have hancestors : p.ancestors.any (d.removeTree p).isFile = false := by
    rw [List.any_eq_false]
    intro q hq
    have hkept : KeepsAt (fun _ => False) q d (d.removeTree p) :=
      .removeTree (Path.ancestors_not_within hq)
    rw [hkept.isFile_eq, isFile, hd.above p (exists?_of_isDirectory h) q hq, Bool.not_true,
      Bool.and_false]
    exact Bool.false_ne_true
  have hnone : (d.removeTree p).exists? p = false := by
    rw [exists?, find?_removeTree h p.isWithin_self hroot]
    rfl
  rw [Disk.makeDirectories, hancestors, hnone]
  intro hfailed
  cases hfailed

end Disk

section

variable {α β : Type} {d : Disk α β} {root : Root} {temporary : String} {existing : Bool}

/-- A directory that is taken over is emptied. -/
lemma prepareFolder_wipes {s : String} (hd : d.isDirectory (.ofText root s) = true) :
    d.Wiped (.ofText root s) (prepareFolder d root temporary (.text s) true).1 := by
  rw [prepareFolder.eq_def]
  simp only [Bool.not_true, Bool.and_false, Bool.false_eq_true, if_false]
  split
  · rename_i hroot
    exact .removeTree hd fun _ => Disk.isDirectory_root hroot
  · rename_i hroot
    split
    · rename_i hmade
      exact .makeDirectories hd hmade
    · rename_i hfailed
      exact .removeTree hd fun htidy => absurd hfailed (htidy.makes_again hd hroot)

/-- The places that are made on the way to a folder. -/
def onTheWay (root : Root) (folder : Value α) (q : Path) : Prop :=
  ∃ s, folder = .text s ∧ q ∈ (Path.ofText root s).ancestors ++ [Path.ofText root s]

/-- Nothing is lost unless a directory is taken over. -/
lemma prepareFolder_keeps {folder : Value α}
    (h : ∀ s, folder = .text s → existing = true → d.isDirectory (.ofText root s) = false)
    (q : Path) :
    d.KeepsAt (onTheWay root folder) q (prepareFolder d root temporary folder existing).1 := by
  rw [prepareFolder.eq_def]
  cases folder with
  | null => exact Or.inl rfl
  | text s =>
    dsimp only
    split
    · exact .refl d
    · rename_i hstands
      -- Whatever stands in the place of the folder is no directory, and so it is left alone.
      have hnone : d.isDirectory (.ofText root s) = false := by
        cases existing with
        | true => exact h s rfl rfl
        | false =>
          rw [← Bool.not_eq_true]
          intro hdirectory
          rw [Disk.exists?_of_isDirectory hdirectory] at hstands
          exact hstands rfl
      have hremoved : d.removeTree (.ofText root s) = d := by
        rw [Disk.removeTree, hnone, if_neg Bool.false_ne_true]
      rw [hremoved]
      split
      · exact .refl d
      · split
        · rename_i hmade
          exact ((Disk.makeDirectories_new hmade).2.2 q).imp_right
            (And.imp_left fun hway => ⟨s, rfl, hway⟩)
        · exact .refl d
  | _ => exact .refl d

end

section

variable {α : Type} [Scalar α]

/-- What becomes of the tree is up to the folder, once all arguments are known. -/
lemma Settings.read_disk {β : Type} (d : Disk α β) (root : Root) (temporary : String)
    (given : Parameters α) :
    (Settings.read d root temporary given).1 =
      if given.within Settings.arguments = true then
        (prepareFolder d root temporary (given.getD "folder" .null)
          (given.get "exist_ok").truthy).1
      else d := by
  rw [Settings.read]
  cases given.within Settings.arguments <;> rfl

omit [Scalar α] in
/-- The defaults of a blueprint concern neither the folder nor the arguments that a solver takes. -/
lemma Session.blueprintArguments_agree (b : Blueprint α) (given : Parameters α) :
    (blueprintArguments b given).within Settings.arguments = given.within Settings.arguments ∧
    (blueprintArguments b given).getD "folder" .null = given.getD "folder" .null ∧
    (blueprintArguments b given).get "exist_ok" = given.get "exist_ok" := by
  cases b with
  | splitting f terms =>
    exact ⟨given.within_setDefault (by decide) _, Parameters.getD_setDefault_of_ne (by decide),
      Parameters.getD_setDefault_of_ne (by decide)⟩
  | recurrence | unspecified => exact ⟨rfl, rfl, rfl⟩

/-- **A solver that cannot be made**: nothing but the tree changes.  A directory that is taken over is
emptied.  In every other case all files and arrays stay, and only directories on the way to the folder
may be new. -/
theorem Session.refusal_spares_files {s s' : Session α} {b : Blueprint α} {given : Parameters α}
    {e : Fault} (h : s.create b given = (s', .error e)) :
    s' = { s with world := { s.world with disk := s'.world.disk } } ∧
    (∀ p, given.TakesOver s.world.disk s.root p → s.world.disk.Wiped p s'.world.disk) ∧
    ((∀ p, ¬ given.TakesOver s.world.disk s.root p) → ∀ q,
      s.world.disk.KeepsAt (onTheWay s.root (given.getD "folder" .null)) q s'.world.disk) := by
  have hdisk : s' = { s with world := { s.world with
      disk := (Settings.read s.world.disk s.root s.temporary (blueprintArguments b given)).1 } } := by
    rw [Session.create] at h
    dsimp only at h
    split at h
    · exact (Prod.mk.inj h).1.symm
    · cases (Prod.mk.inj h).2
  obtain ⟨hknown, hfolder, hallowed⟩ := blueprintArguments_agree b given
  rw [Settings.read_disk, hknown, hfolder, hallowed] at hdisk
  subst hdisk
  refine ⟨rfl, ?_, fun hnone q => ?_⟩
  · rintro p ⟨hknown, ⟨place, hplace, rfl⟩, hallowed, hstands⟩
    rw [if_pos hknown, hplace, hallowed]
    exact prepareFolder_wipes hstands
  · dsimp only
    split
    · rename_i hknown
      refine prepareFolder_keeps (fun place hplace hallowed => ?_) q
      rw [← Bool.not_eq_true]
      exact fun hstands => hnone _ ⟨hknown, ⟨place, hplace, rfl⟩, hallowed, hstands⟩
    · exact .refl _

/-! ## A refusal that costs a file -/

/-- The root of a tree. -/
def treeRoot : Root := ⟨"tree", 0⟩

/-- A tree with one directory and a file in it. -/
def noted : Session Float :=
  let disk := ⟨[(⟨treeRoot, ["runs"]⟩, .directory), (⟨treeRoot, ["runs", "notes"]⟩, .file #[])], 0⟩
  { Session.empty "tree" "temporary" with world := ⟨disk, 0, #[]⟩ }

/-- A solver in that directory that would never evaluate its criterion. -/
def withoutEvaluation : Parameters Float :=
  [("folder", .text "runs"), ("exist_ok", .number (.bool true)), ("stop_rate", .number (.int 0))]

/-- The tree that the folder is made in, with nothing else in it. -/
def bare : Disk Float (Array (LogEntry Float)) := ⟨[(⟨treeRoot, ["runs"]⟩, .directory)], 0⟩

lemma runs_place : Path.ofText treeRoot "runs" = ⟨treeRoot, ["runs"]⟩ := by
  rw [Path.ofText, Path.descend, splitOn_slash (by decide)]
  rfl

/-- The directory is emptied, and then the rate is refused. -/
lemma noted_read : Settings.read noted.world.disk noted.root noted.temporary withoutEvaluation
    = (bare, .error (.stopRate "0")) := by
  have hfolder : withoutEvaluation.getD "folder" .null = .text "runs" := rfl
  have hallowed : (withoutEvaluation.get "exist_ok").truthy = true := by decide
  have hprepared : prepareFolder noted.world.disk noted.root noted.temporary
      (.text "runs" : Value Float) true = (bare, .ok ⟨treeRoot, ["runs"]⟩) := by
    rw [prepareFolder.eq_def]
    simp only [show noted.root = treeRoot from rfl, runs_place]
    rfl
  rw [Settings.read, if_neg (by decide)]
  dsimp only
  rw [hfolder, hallowed, hprepared]
  rfl

lemma noted_create : noted.create .recurrence withoutEvaluation
    = ({ noted with world := { noted.world with disk := bare } }, .error (.stopRate "0")) := by
  rw [Session.create, show Session.blueprintArguments .recurrence withoutEvaluation = withoutEvaluation
    from rfl, noted_read]
  rfl

lemma noted_takenOver :
    withoutEvaluation.TakesOver noted.world.disk noted.root ⟨treeRoot, ["runs"]⟩ where
  known := by decide
  named := ⟨"runs", rfl, runs_place⟩
  allowed := by decide
  stands := by decide

/-- A file is lost although no solver is made. -/
theorem refusal_empties_folder :
    (noted.create .recurrence withoutEvaluation).2 = .error (.stopRate "0") ∧
    noted.world.disk.isFile ⟨treeRoot, ["runs", "notes"]⟩ = true ∧
    (noted.create .recurrence withoutEvaluation).1.world.disk.exists?
      ⟨treeRoot, ["runs", "notes"]⟩ = false := by
  rw [noted_create]
  exact ⟨rfl, by decide, by decide⟩

theorem noted_wiped :
    let s' := (noted.create .recurrence withoutEvaluation).1
    noted.create .recurrence withoutEvaluation = (s', .error (.stopRate "0")) ∧
    withoutEvaluation.TakesOver noted.world.disk noted.root ⟨treeRoot, ["runs"]⟩ ∧
    s' = { noted with world := { noted.world with disk := s'.world.disk } } ∧
    noted.world.disk.Wiped ⟨treeRoot, ["runs"]⟩ s'.world.disk := by
  have hrefused : noted.create .recurrence withoutEvaluation =
      ((noted.create .recurrence withoutEvaluation).1, .error (.stopRate "0")) :=
    Prod.ext rfl (by rw [noted_create])
  obtain ⟨hsame, hwiped, -⟩ := Session.refusal_spares_files hrefused
  exact ⟨hrefused, noted_takenOver, hsame, hwiped _ noted_takenOver⟩

end

end PrimalDual
