import PrimalDual.Proofs.Outcome
import PrimalDual.Archive.Store

/-!
# What stays when arrays are saved

Saving an array takes away what stood at its place and below, makes the directories on the way to it,
and leaves everything else where it is.

* `Path.names_of_mem_ancestors` — the directories on the way to a place.
* `Disk.KeepsAt` — what stands at a place stays there.
* `KeepsAt.storeArray`, **`KeepsAt.saveInto`** — saving keeps what is not in its way.
* `saveInto_outcome` — whether some values can be saved is up to the values.
-/

namespace PrimalDual

namespace Path

/-- The directories on the way to a place are named by parts of its names. -/
lemma names_of_mem_ancestors {p q : Path} (h : q ∈ p.ancestors) : q.names <+: p.names := by
  obtain ⟨k, -, rfl⟩ := List.mem_map.mp h
  exact List.take_prefix _ _

lemma length_of_mem_ancestors {p q : Path} (h : q ∈ p.ancestors) :
    q.names.length < p.names.length := by
  obtain ⟨k, hk, rfl⟩ := List.mem_map.mp h
  rw [List.mem_range] at hk
  rw [List.length_take]
  omega

/-- What lies within a place has at least as many names. -/
lemma not_within_of_length {p q : Path} (h : q.names.length < p.names.length) :
    q.isWithin p = false := by
  rw [isWithin, Bool.and_eq_false_iff]
  right
  rw [← Bool.not_eq_true, List.isPrefixOf_iff_prefix]
  intro hprefix
  exact Nat.not_lt_of_le hprefix.length_le h

end Path

namespace Disk

variable {α β : Type} {d d' d'' : Disk α β} {p q : Path} {ps : List Path} {ways : Path → Prop}

/-- What stands at a place is still there.  If nothing did, there is a directory at most, and only if
the place is one of the ways. -/
def KeepsAt (ways : Path → Prop) (q : Path) (d d' : Disk α β) : Prop :=
  d'.find? q = d.find? q ∨ ways q ∧ d.find? q = none ∧ d'.find? q = some .directory

namespace KeepsAt

lemma refl (d : Disk α β) : KeepsAt ways q d d := Or.inl rfl

lemma trans (h : KeepsAt ways q d d') (h' : KeepsAt ways q d' d'') : KeepsAt ways q d d'' := by
  rcases h with h | ⟨hway, hnone, hdirectory⟩
  · rw [KeepsAt, ← h]
    exact h'
  · rcases h' with h' | ⟨-, hnone', -⟩
    · exact Or.inr ⟨hway, hnone, h'.trans hdirectory⟩
    · rw [hdirectory] at hnone'
      cases hnone'

lemma find?_of_not_way (h : KeepsAt ways q d d') (hway : ¬ ways q) : d'.find? q = d.find? q := by
  rcases h with h | ⟨hq, -⟩
  · exact h
  · exact absurd hq hway

/-- No plain file appears, and none is lost. -/
lemma isFile_eq (h : KeepsAt ways q d d') : d'.isFile q = d.isFile q := by
  rcases h with h | ⟨-, hnone, hdirectory⟩
  · rw [isFile, isFile, exists?, exists?, isDirectory, isDirectory, h]
  · rw [isFile, isFile, exists?, exists?, isDirectory, isDirectory, hnone, hdirectory]
    rfl

lemma isDirectory (h : KeepsAt ways q d d') (hq : d.isDirectory q = true) :
    d'.isDirectory q = true := by
  rcases h with h | ⟨-, hnone, hdirectory⟩
  · rw [Disk.isDirectory, h]
    exact hq
  · rw [Disk.isDirectory, hdirectory]

/-! ## The operations -/

lemma put (h : q ≠ p) (e : Entry α β) : KeepsAt ways q d (d.put p e) :=
  Or.inl (find?_put_other d p q e h)

lemma addDirectory (hp : ways p) (d : Disk α β) : KeepsAt ways q d (d.addDirectory p) := by
  rw [Disk.addDirectory]
  split
  · exact refl d
  · rename_i hnone
    by_cases hq : q = p
    · subst hq
      rw [exists?, Bool.not_eq_true, Option.isSome_eq_false_iff, Option.isNone_iff_eq_none] at hnone
      have hroot : q.names ≠ [] := by
        intro hroot
        rw [find?, if_pos hroot] at hnone
        cases hnone
      exact Or.inr ⟨hp, hnone, find?_put_self d q .directory hroot⟩
    · exact put hq .directory

lemma addDirectories {ps : List Path} (hps : ∀ p ∈ ps, ways p) (d : Disk α β) :
    KeepsAt ways q d (ps.foldl Disk.addDirectory d) := by
  induction ps generalizing d with
  | nil => exact refl d
  | cons p ps ih =>
    obtain ⟨hp, hps⟩ := List.forall_mem_cons.mp hps
    exact (addDirectory hp d).trans (ih hps _)

lemma removeTree (h : q.isWithin p = false) : KeepsAt ways q d (d.removeTree p) := by
  rw [Disk.removeTree]
  split
  · left
    rw [find?, find?]
    congr 2
    rw [List.find?_filter]
    congr 1
    funext e
    by_cases he : e.1 = q
    · simp [he, h]
    · simp [he]
  · exact refl d

/-- Storing an array keeps what is neither at its place nor below. -/
lemma storeArray {dir : Path} {name : String} {a : NdArray α}
    (hways : ∀ p ∈ (dir.descend (storedName a.backend name)).ancestors, ways p)
    (hq : q.isWithin (dir.descend (storedName a.backend name)) = false) (d : Disk α β) :
    KeepsAt ways q d (storeArray d dir name a) := by
  have hne : q ≠ dir.descend (storedName a.backend name) := by
    rintro rfl
    rw [Path.isWithin, beq_self_eq_true, Bool.true_and, ← Bool.not_eq_true,
      List.isPrefixOf_iff_prefix] at hq
    exact hq List.prefix_rfl
  exact ((removeTree hq).trans (addDirectories hways _)).trans (put hne _)

end KeepsAt

lemma isDirectory_root (h : p.names = []) : d.isDirectory p = true := by
  rw [isDirectory, find?, if_pos h]

lemma exists?_of_isDirectory (h : d.isDirectory p = true) : d.exists? p = true := by
  rw [isDirectory] at h
  rw [exists?]
  split at h
  · simp [*]
  · simp [*]
  · cases h

/-- Directories that are made are there, unless a plain file is. -/
lemma isDirectory_addDirectories (h : ∀ q ∈ ps, d.isFile q = false) :
    ∀ q ∈ ps, (ps.foldl addDirectory d).isDirectory q = true := by
  induction ps generalizing d with
  | nil => exact fun q hq => absurd hq List.not_mem_nil
  | cons p ps ih =>
    obtain ⟨hp, hps⟩ := List.forall_mem_cons.mp h
    have hadded : (d.addDirectory p).isDirectory p = true := by
      rw [addDirectory]
      split
      · rename_i hexists
        rw [isFile, hexists, Bool.true_and, Bool.not_eq_false'] at hp
        exact hp
      · rename_i hnone
        by_cases hroot : p.names = []
        · exact isDirectory_root hroot
        · rw [isDirectory, find?_put_self d p .directory hroot]
    have hkept (q : Path) : KeepsAt (fun _ => True) q d (d.addDirectory p) :=
      .addDirectory trivial d
    have hlater : KeepsAt (fun _ => True) p (d.addDirectory p)
        (ps.foldl addDirectory (d.addDirectory p)) := .addDirectories (fun _ _ => trivial) _
    rw [List.foldl_cons]
    refine List.forall_mem_cons.mpr ⟨hlater.isDirectory hadded, ?_⟩
    exact ih fun q hq => (hkept q).isFile_eq.trans (hps q hq)

/-- Directories can be made where no plain file is in the way, and keep everything. -/
lemma makeDirectories_ok (h : ∀ q ∈ p.ancestors ++ [p], d.isFile q = false)
    (hways : ∀ q ∈ p.ancestors ++ [p], ways q) :
    ∃ d', d.makeDirectories p true = .ok d' ∧ ∀ q, KeepsAt ways q d d' := by
  have hancestors : p.ancestors.any d.isFile = false := by
    rw [← Bool.not_eq_true, List.any_eq_true]
    rintro ⟨q, hq, hfile⟩
    rw [h q (List.mem_append_left _ hq)] at hfile
    cases hfile
  rw [makeDirectories, hancestors]
  cases hexists : d.exists? p with
  | false => exact ⟨_, rfl, fun q => KeepsAt.addDirectories hways d⟩
  | true =>
    have hdirectory : d.isDirectory p = true := by
      have hfile := h p (List.mem_append_right _ (List.mem_singleton_self p))
      rw [isFile, hexists, Bool.true_and, Bool.not_eq_false'] at hfile
      exact hfile
    rw [hdirectory]
    exact ⟨d, rfl, fun q => KeepsAt.refl d⟩

end Disk

section

variable {α β : Type} [Scalar α] {d : Disk α β} {dir q : Path} {items : List (String × Value α)}
  {ways : Path → Prop}

/-- Whether some values can be saved does not depend on where. -/
lemma saveInto_outcome (items : List (String × Value α)) (dir dir' : Path) (d d' : Disk α β) :
    (saveInto dir items d).2 = (saveInto dir' items d').2 := by
  induction items generalizing d d' with
  | nil => rfl
  | cons item items ih =>
    obtain ⟨name, v⟩ := item
    cases v with
    | null | array a => exact ih _ _
    | _ => rfl

/-- Saving keeps a place that no array goes to or above. -/
lemma Disk.KeepsAt.saveInto
    (hways : ∀ name a, (name, Value.array a) ∈ items →
      ∀ p ∈ (dir.descend (storedName a.backend name)).ancestors, ways p)
    (hq : ∀ name a, (name, Value.array a) ∈ items →
      q.isWithin (dir.descend (storedName a.backend name)) = false) (d : Disk α β) :
    KeepsAt ways q d (PrimalDual.saveInto dir items d).1 := by
  induction items generalizing d with
  | nil => exact refl d
  | cons item items ih =>
    obtain ⟨name, v⟩ := item
    have hrest (d : Disk α β) : KeepsAt ways q d (PrimalDual.saveInto dir items d).1 :=
      ih (fun name a ha => hways name a (List.mem_cons_of_mem _ ha))
        (fun name a ha => hq name a (List.mem_cons_of_mem _ ha)) d
    cases v with
    | null => exact hrest d
    | array a =>
      exact (storeArray (hways name a List.mem_cons_self) (hq name a List.mem_cons_self) d).trans
        (hrest _)
    | _ => exact refl d

end

end PrimalDual
