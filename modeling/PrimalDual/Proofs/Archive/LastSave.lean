import PrimalDual.Proofs.Archive.Loading
import PrimalDual.Scalar.Binary64

/-!
# The last save wins

Collections are saved into one directory, one after the other.  Each array is stored under a name that
tells its backend, and a later one of the same stored name takes its place; so the directory is a
dictionary, and what is loaded from it is the last that was saved under each name.

* `map_foldl_enter` — a decoding that keeps names apart is carried through what is entered.
* `loadedName_of_storedName` — the name and the backend of an array are read off its stored name, also
  where the name of a chunked array carries the marker itself.
* `Savable` — the collections that can be saved into one directory.
* `saveArrays_savable`, **`saveAll_savable`** — saving them enters their arrays, and is not refused.
* `loadArrays_entered` — loading gives back the dictionary of what has been entered.
* **`last_save_wins`** — one entry for each name, the last that was saved under it.
-/

namespace PrimalDual

/-! ## Dictionaries -/

section

variable {β γ : Type} {items later : List (String × β)} {name : String} {b : β}

/-- A map that keeps the names apart is carried through what is entered. -/
lemma map_foldl_enter {f : String × β → String × γ}
    (hf : ∀ x ∈ items ++ later, ∀ y ∈ items ++ later, (f x).1 = (f y).1 ↔ x.1 = y.1) :
    (later.foldl enter items).map f = (later.map f).foldl enter (items.map f) := by
  induction later generalizing items with
  | nil => rfl
  | cons x later ih =>
    have hx : x ∈ items ++ x :: later := List.mem_append_right _ List.mem_cons_self
    have henter : (enter items x).map f = enter (items.map f) (f x) := by
      rw [enter, enter, List.map_append, List.map_singleton, List.filter_map]
      congr 2
      refine List.filter_congr fun y hy => ?_
      rw [Bool.eq_iff_iff, bne_iff_ne, Function.comp_apply, bne_iff_ne]
      exact (not_congr (hf y (List.mem_append_left _ hy) x hx)).symm
    have hsub : ∀ y ∈ enter items x ++ later, y ∈ items ++ x :: later := by
      intro y hy
      rw [enter, List.append_assoc, List.singleton_append] at hy
      exact (List.filter_sublist.append_right _).subset hy
    rw [List.foldl_cons, ih fun y hy z hz => hf y (hsub y hy) z (hsub z hz), henter,
      List.map_cons, List.foldl_cons]

/-- The last element that passes a test. -/
lemma getLast?_filter {γ : Type} {l : List γ} {p : γ → Bool} {x : γ} :
    (l.filter p).getLast? = some x ↔
      ∃ before after, l = before ++ x :: after ∧ p x = true ∧ ∀ y ∈ after, ¬ p y = true := by
  rw [List.getLast?_eq_some_iff]
  constructor
  · rintro ⟨ys, h⟩
    obtain ⟨l₁, l₂, rfl, -, h₂⟩ := List.filter_eq_append_iff.mp h
    obtain ⟨m₁, m₂, rfl, -, hx, hrest⟩ := List.filter_eq_cons_iff.mp h₂
    exact ⟨l₁ ++ m₁, m₂, (List.append_assoc ..).symm, hx, List.filter_eq_nil_iff.mp hrest⟩
  · rintro ⟨before, after, rfl, hx, hafter⟩
    refine ⟨before.filter p, ?_⟩
    rw [List.filter_append, List.filter_cons_of_pos hx, List.filter_eq_nil_iff.mpr hafter]

/-- Values under names of their own are entered as they are. -/
lemma foldl_enter_of_nodup (h : ((items ++ later).map (·.1)).Nodup) :
    later.foldl enter items = items ++ later := by
  induction later generalizing items with
  | nil => rw [List.append_nil, List.foldl_nil]
  | cons x later ih =>
    have hkept : items.filter (fun y => y.1 != x.1) = items := by
      rw [List.filter_eq_self]
      intro y hy
      rw [List.map_append, List.nodup_append] at h
      exact bne_iff_ne.mpr (h.2.2 _ (List.mem_map_of_mem hy) _ List.mem_cons_self)
    rw [List.foldl_cons, enter, hkept, ih]
    · rw [List.append_assoc, List.singleton_append]
    · rwa [List.append_assoc, List.singleton_append]

end

/-! ## The collections -/

section

variable {α β : Type} {d : Disk α β} {dir : Path} {name : String} {v w : Value α}
  {items later : List (String × Value α)} {saves : List (List (String × Value α))}

/-- The last value under a name that is not absent. -/
def LastSaved (items : List (String × Value α)) (name : String) (v : Value α) : Prop :=
  v ≠ .null ∧ ∃ before after, items = before ++ (name, v) :: after ∧
    ∀ w, (name, w) ∈ after → w = .null

/-- Collections that can be saved into one directory: each value is an array or absent, each array
has the name of a file, which does not carry the marker unless the array is chunked, and there are no
arrays of both backends under one name. -/
structure Savable (saves : List (List (String × Value α))) : Prop where
  values : ∀ name v, (name, v) ∈ saves.flatten → v = .null ∨ ∃ a, v = .array a
  plain : ∀ name a, (name, .array a) ∈ saves.flatten → Plain name
  unmarked : ∀ name a, (name, .array a) ∈ saves.flatten → a.backend = .memory → Unmarked name
  backend : ∀ name a a', (name, .array a) ∈ saves.flatten → (name, .array a') ∈ saves.flatten →
    a.backend = a'.backend

/-- A directory that is still to be made, or is empty. -/
structure Vacant (d : Disk α β) (dir : Path) : Prop where
  way : ∀ q ∈ dir.ancestors, d.isFile q = false
  place : d.find? dir = none ∨ d.find? dir = some .directory
  empty : d.children dir = []

/-- Whether a value is the last under its name shows in the list of those that are not absent. -/
lemma lastSaved_iff : LastSaved items name v ↔
    ((items.filter (!·.2.isNull)).filter (·.1 == name)).getLast? = some (name, v) := by
  have hnull (w : Value α) : w.isNull = true ↔ w = .null := by
    cases w <;> simp [Value.isNull]
  rw [List.filter_filter, getLast?_filter, LastSaved]
  simp only [beq_self_eq_true, Bool.true_and, Bool.not_eq_true', ← Bool.not_eq_true, hnull,
    Bool.and_eq_true, beq_iff_eq, not_and, not_not, Prod.forall]
  constructor
  · rintro ⟨hv, before, after, hitems, hafter⟩
    exact ⟨before, after, hitems, hv, fun n w hw hn => hafter w (hn ▸ hw)⟩
  · rintro ⟨before, after, hitems, hv, hafter⟩
    exact ⟨hv, before, after, hitems, fun w hw => hafter name w hw rfl⟩

/-- A name under which something has been saved has a last value. -/
lemma exists_lastSaved (hv : v ≠ .null) (h : (name, v) ∈ items) : ∃ w, LastSaved items name w := by
  have hmem : (name, v) ∈ (items.filter (!·.2.isNull)).filter (·.1 == name) := by
    refine List.mem_filter.mpr ⟨List.mem_filter.mpr ⟨h, ?_⟩, beq_self_eq_true name⟩
    cases v with
    | null => exact absurd rfl hv
    | _ => rfl
  obtain ⟨⟨n, w⟩, hlast⟩ : ∃ x, ((items.filter (!·.2.isNull)).filter (·.1 == name)).getLast?
      = some x := ⟨_, List.getLast?_eq_some_getLast (List.ne_nil_of_mem hmem)⟩
  obtain rfl := eq_of_beq (List.mem_filter.mp (List.mem_of_getLast? hlast)).2
  exact ⟨w, lastSaved_iff.mpr hlast⟩

/-- What is absent, or has another name, makes no difference. -/
lemma lastSaved_append (h : ∀ w, (name, w) ∈ later → w = .null) :
    LastSaved (items ++ later) name v ↔ LastSaved items name v := by
  have hnone : (later.filter (!·.2.isNull)).filter (·.1 == name) = [] := by
    rw [List.filter_filter, List.filter_eq_nil_iff]
    rintro ⟨n, w⟩ hw hnew
    rw [Bool.and_eq_true, beq_iff_eq] at hnew
    obtain ⟨rfl, hnew⟩ := hnew
    rw [h w hw] at hnew
    cases hnew
  rw [lastSaved_iff, lastSaved_iff, List.filter_append, List.filter_append, hnone,
    List.append_nil]

/-! ## Saving -/

/-- No plain file stands at a place, or on the way to it. -/
def Free (d : Disk α β) (dir : Path) : Prop := ∀ q ∈ dir.ancestors ++ [dir], d.isFile q = false

lemma Vacant.free (h : Vacant d dir) : Free d dir := by
  intro q hq
  rcases List.mem_append.mp hq with hq | hq
  · exact h.way q hq
  · rw [List.mem_singleton.mp hq, Disk.isFile, Disk.exists?, Disk.isDirectory]
    rcases h.place with hplace | hplace <;> rw [hplace] <;> rfl

/-- What is kept stays free of plain files. -/
lemma Free.keeps {d' : Disk α β} {ways : Path → Prop} (h : Free d dir)
    (hkeeps : ∀ q ∈ dir.ancestors ++ [dir], Disk.KeepsAt ways q d d') : Free d' dir :=
  fun q hq => (hkeeps q hq).isFile_eq.trans (h q hq)

lemma savedArrays_append {more : List (String × Value α)}
    (h : ∀ name v, (name, v) ∈ items → v = .null ∨ ∃ a, v = .array a) :
    savedArrays (items ++ more) = savedArrays items ++ savedArrays more := by
  induction items with
  | nil => rfl
  | cons item items ih =>
    obtain ⟨n, v⟩ := item
    have hrest := ih fun name v hv => h name v (List.mem_cons_of_mem _ hv)
    rcases h n v List.mem_cons_self with rfl | ⟨a, rfl⟩
    · exact hrest
    · exact congrArg ((n, a) :: ·) hrest

/-- Of arrays and absent values, the arrays are saved. -/
lemma map_savedArrays (h : ∀ name v, (name, v) ∈ items → v = .null ∨ ∃ a, v = .array a) :
    (savedArrays items).map (fun x => (x.1, Value.array x.2)) = items.filter (!·.2.isNull) := by
  induction items with
  | nil => rfl
  | cons item items ih =>
    obtain ⟨n, v⟩ := item
    have hrest := ih fun name v hv => h name v (List.mem_cons_of_mem _ hv)
    rcases h n v List.mem_cons_self with rfl | ⟨a, rfl⟩
    · exact hrest
    · exact congrArg ((n, .array a) :: ·) hrest

variable [Scalar α]

lemma saveInto_ok (h : ∀ name v, (name, v) ∈ items → v = .null ∨ ∃ a, v = .array a)
    (d : Disk α β) : (saveInto dir items d).2 = .ok () := by
  induction items generalizing d with
  | nil => rfl
  | cons item items ih =>
    obtain ⟨n, v⟩ := item
    have hrest := ih fun name v hv => h name v (List.mem_cons_of_mem _ hv)
    rcases h n v List.mem_cons_self with rfl | ⟨a, rfl⟩
    · exact hrest d
    · exact hrest _

/-- Saves collections into a directory, one after the other; the first that is refused ends it. -/
def saveAll (dir : Path) :
    List (List (String × Value α)) → Disk α β → Disk α β × Except Fault Unit
  | [], d => (d, .ok ())
  | items :: rest, d =>
    match saveArrays d dir items with
    | (d', .ok ()) => saveAll dir rest d'
    | refused => refused

/-- **Saving** a collection enters its arrays, and leaves the directory ready for the next one. -/
lemma saveArrays_savable (hfree : Free d dir)
    (hvalues : ∀ name v, (name, v) ∈ items → v = .null ∨ ∃ a, v = .array a)
    (hplain : ∀ name a, (name, .array a) ∈ items → Plain name) :
    ∃ d', saveArrays d dir items = (d', .ok ()) ∧ Free d' dir ∧ d'.isDirectory dir = true ∧
      d'.children dir = ((savedArrays items).map stored).foldl enter (d.children dir) := by
  obtain ⟨d₁, hmade, hkeeps⟩ : ∃ d₁, d.makeDirectories dir true = .ok d₁ ∧
      ∀ q, Disk.KeepsAt (fun _ => True) q d d₁ := Disk.makeDirectories_ok hfree fun _ _ => trivial
  obtain ⟨hchildren, hdir⟩ := Disk.children_makeDirectories hmade
  refine ⟨(saveInto dir items d₁).1, ?_, ?_, isDirectory_saveInto hplain hdir, ?_⟩
  · rw [saveArrays, hmade]
    exact Prod.ext rfl (saveInto_ok hvalues d₁)
  · refine hfree.keeps fun q hq => (hkeeps q).trans (.saveInto (fun _ _ _ _ _ => trivial) ?_ d₁)
    intro name a ha
    refine Path.not_within_of_length ?_
    have hlength : q.names.length ≤ dir.names.length := by
      rcases List.mem_append.mp hq with hq | hq
      · exact (Path.length_of_mem_ancestors hq).le
      · rw [List.mem_singleton.mp hq]
    rw [((hplain name a ha).storedName a.backend).descend, Path.child, List.length_append]
    exact Nat.lt_succ_of_le hlength
  · rw [children_saveInto hplain, hchildren]

/-- **Saving** collections one after the other enters all their arrays. -/
lemma saveAll_savable (hfree : Free d dir)
    (hvalues : ∀ name v, (name, v) ∈ saves.flatten → v = .null ∨ ∃ a, v = .array a)
    (hplain : ∀ name a, (name, .array a) ∈ saves.flatten → Plain name) :
    ∃ d', saveAll dir saves d = (d', .ok ()) ∧ Free d' dir ∧
      (d.isDirectory dir = true ∨ saves ≠ [] → d'.isDirectory dir = true) ∧
      d'.children dir = ((savedArrays saves.flatten).map stored).foldl enter (d.children dir) := by
  induction saves generalizing d with
  | nil => exact ⟨d, rfl, hfree, fun h => h.resolve_right (absurd rfl), rfl⟩
  | cons items saves ih =>
    rw [List.flatten_cons] at hvalues hplain
    have hnow : ∀ name v, (name, v) ∈ items → v = .null ∨ ∃ a, v = .array a :=
      fun name v hv => hvalues name v (List.mem_append_left _ hv)
    obtain ⟨d₁, hsaved, hfree₁, hdir₁, hchildren₁⟩ := saveArrays_savable hfree hnow
      fun name a ha => hplain name a (List.mem_append_left _ ha)
    obtain ⟨d', hall, hfree', hdir', hchildren'⟩ := ih hfree₁
      (fun name v hv => hvalues name v (List.mem_append_right _ hv))
      fun name a ha => hplain name a (List.mem_append_right _ ha)
    refine ⟨d', ?_, hfree', fun _ => hdir' (Or.inl hdir₁), ?_⟩
    · rw [saveAll, hsaved]
      exact hall
    · rw [hchildren', hchildren₁, List.flatten_cons, savedArrays_append hnow, List.map_append,
        List.foldl_append]

end

/-! ## Loading -/

section

variable {α β : Type} {d : Disk α β} {dir : Path} {name : String} {v : Value α}
  {saves : List (List (String × Value α))}

/-- The name and the backend of an array are read off its stored name. -/
lemma loadedName_of_storedName {b : Backend} (h : b = .memory → Unmarked name) :
    loadedName (storedName b name) = (name, b) := by
  cases b with
  | memory => exact loadedName_storedName (h rfl) .memory
  | chunked => exact loadedName_chunked name

/-- **Loading** gives back the arrays that have been entered, each in place of an earlier one of its
name. -/
lemma loadArrays_entered {arrays : List (String × NdArray α)} (hdir : d.isDirectory dir = true)
    (hchildren : d.children dir = (arrays.map stored).foldl enter [])
    (hmarked : ∀ x ∈ arrays, x.2.backend = .memory → Unmarked x.1)
    (hbackend : ∀ x ∈ arrays, ∀ y ∈ arrays, x.1 = y.1 → x.2.backend = y.2.backend) :
    loadArrays d dir
      = .ok ((arrays.map fun x => (x.1, Value.array x.2)).foldl enter []) := by
  have hload : ∀ x ∈ arrays, loadEntry (stored (β := β) x).1 (stored (β := β) x).2
      = (x.1, Value.array x.2) := by
    intro x hx
    rw [loadEntry, stored, loadedName_of_storedName (hmarked x hx)]
    rfl
  have hloadable : loadable d dir
      = (arrays.map fun x => (x.1, Value.array x.2)).foldl enter [] := by
    rw [loadable, hchildren, map_foldl_enter, List.map_nil, List.map_map]
    · congr 1
      exact List.map_congr_left hload
    · rw [List.nil_append]
      intro x' hx' y' hy'
      obtain ⟨x, hx, rfl⟩ := List.mem_map.mp hx'
      obtain ⟨y, hy, rfl⟩ := List.mem_map.mp hy'
      rw [hload x hx, hload y hy]
      constructor
      · intro hname
        exact congrArg₂ storedName (hbackend x hx y hy hname) hname
      · intro hstored
        have hloaded := congrArg loadedName hstored
        rw [stored, stored, loadedName_of_storedName (hmarked x hx),
          loadedName_of_storedName (hmarked y hy)] at hloaded
        exact (Prod.mk.inj hloaded).1
  rw [loadArrays_ok, hloadable]
  refine ⟨hdir, foldl_enter_of_nodup ?_⟩
  rw [List.nil_append]
  exact nodup_foldl_enter List.nodup_nil

/-- Of savable collections, the last value under each name is loaded. -/
lemma Savable.loaded (h : Savable saves) (hdir : d.isDirectory dir = true)
    (hchildren : d.children dir = ((savedArrays saves.flatten).map stored).foldl enter []) :
    ∃ loaded, loadArrays d dir = .ok loaded ∧ (loaded.map (·.1)).Nodup ∧
      ∀ name v, (name, v) ∈ loaded ↔ LastSaved saves.flatten name v := by
  have hmem {x : String × NdArray α} (hx : x ∈ savedArrays saves.flatten) :
      (x.1, .array x.2) ∈ saves.flatten := mem_of_mem_savedArrays hx
  refine ⟨_, loadArrays_entered hdir hchildren (fun x hx => h.unmarked _ _ (hmem hx)) ?_,
    nodup_foldl_enter List.nodup_nil, fun name v => ?_⟩
  · rintro ⟨n, a⟩ hx ⟨n', a'⟩ hy rfl
    exact h.backend n a a' (hmem hx) (hmem hy)
  · rw [map_savedArrays h.values, mem_foldl_enter, lastSaved_iff]
    simp

variable [Scalar α]

/-- **The last save wins.**  When savable collections are saved into a directory that is absent or
empty, none is refused, and the directory can be loaded.  There is one entry for each name that an
array has ever been saved under, and it holds the last of them, on its backend.  An absent value
erases nothing, and saving one more collection leaves all other names as they were. -/
theorem last_save_wins (hd : Vacant d dir) (hne : saves ≠ []) (hs : Savable saves) :
    ∃ d' loaded, saveAll dir saves d = (d', .ok ()) ∧ loadArrays d' dir = .ok loaded ∧
      (loaded.map (·.1)).Nodup ∧
      (∀ name, name ∈ loaded.map (·.1) ↔ ∃ v, v ≠ .null ∧ (name, v) ∈ saves.flatten) ∧
      (∀ name v, (name, v) ∈ loaded ↔ LastSaved saves.flatten name v) ∧
      ∀ more, Savable (saves ++ [more]) → ∃ d'' loaded', saveArrays d' dir more = (d'', .ok ()) ∧
        loadArrays d'' dir = .ok loaded' ∧
        ∀ name, (∀ w, (name, w) ∈ more → w = .null) →
          ∀ v, (name, v) ∈ loaded' ↔ (name, v) ∈ loaded := by
  obtain ⟨d', hsaved, hfree, hdir, hchildren⟩ := saveAll_savable hd.free hs.values hs.plain
  rw [hd.empty] at hchildren
  obtain ⟨loaded, hloaded, hnodup, hlast⟩ := hs.loaded (hdir (Or.inr hne)) hchildren
  refine ⟨d', loaded, hsaved, hloaded, hnodup, fun name => ?_, hlast, fun more hmore => ?_⟩
  · constructor
    · intro hname
      obtain ⟨⟨name, v⟩, hv, rfl⟩ := List.mem_map.mp hname
      obtain ⟨hnull, before, after, hitems, -⟩ := (hlast name v).mp hv
      exact ⟨v, hnull, hitems ▸ List.mem_append_right _ List.mem_cons_self⟩
    · rintro ⟨v, hnull, hv⟩
      obtain ⟨w, hw⟩ := exists_lastSaved hnull hv
      exact List.mem_map.mpr ⟨_, (hlast name w).mpr hw, rfl⟩
  · have hflatten : (saves ++ [more]).flatten = saves.flatten ++ more := by
      rw [List.flatten_append, List.flatten_singleton]
    have hin : ∀ x ∈ more, x ∈ (saves ++ [more]).flatten := fun x hx =>
      hflatten ▸ List.mem_append_right _ hx
    obtain ⟨d'', hsaved', -, hdir', hchildren'⟩ := saveArrays_savable hfree
      (fun name v hv => hmore.values name v (hin _ hv)) fun name a ha => hmore.plain name a (hin _ ha)
    rw [hchildren, ← List.foldl_append, ← List.map_append, ← savedArrays_append hs.values,
      ← hflatten] at hchildren'
    obtain ⟨loaded', hloaded', -, hlast'⟩ := hmore.loaded hdir' hchildren'
    refine ⟨d'', loaded', hsaved', hloaded', fun name hname v => ?_⟩
    rw [hlast', hlast, hflatten, lastSaved_append hname]

end

/-! ## A name that carries the marker -/

/-- An array of a single whole number. -/
def single (b : Backend) (n : Int) : NdArray Float := .tabulateWhole b [] .int64 fun _ => n

/-- Two collections: one array in memory, and a chunked one whose name carries the marker; then the
chunked one again. -/
def markedSaves : List (List (String × Value Float)) :=
  [[("x", .array (single .memory 1)), ("dask_x", .array (single .chunked 2))],
    [("x", .null), ("dask_x", .array (single .chunked 3))]]

lemma mem_markedSaves {name : String} {v : Value Float} (h : (name, v) ∈ markedSaves.flatten) :
    name = "x" ∧ v = .array (single .memory 1) ∨ name = "dask_x" ∧ v = .array (single .chunked 2) ∨
      name = "x" ∧ v = .null ∨ name = "dask_x" ∧ v = .array (single .chunked 3) := by
  simpa [markedSaves] using h

lemma markedSaves_array {name : String} {a : NdArray Float}
    (h : (name, .array a) ∈ markedSaves.flatten) :
    name = "x" ∧ a.backend = .memory ∨ name = "dask_x" ∧ a.backend = .chunked := by
  rcases mem_markedSaves h with ⟨rfl, ha⟩ | ⟨rfl, ha⟩ | ⟨-, hnull⟩ | ⟨rfl, ha⟩
  · cases ha
    exact Or.inl ⟨rfl, rfl⟩
  · cases ha
    exact Or.inr ⟨rfl, rfl⟩
  · cases hnull
  · cases ha
    exact Or.inr ⟨rfl, rfl⟩

lemma markedSaves_savable : Savable markedSaves where
  values name v h := by
    rcases mem_markedSaves h with ⟨-, rfl⟩ | ⟨-, rfl⟩ | ⟨-, rfl⟩ | ⟨-, rfl⟩
    · exact Or.inr ⟨_, rfl⟩
    · exact Or.inr ⟨_, rfl⟩
    · exact Or.inl rfl
    · exact Or.inr ⟨_, rfl⟩
  plain name a h := by
    rcases markedSaves_array h with ⟨rfl, -⟩ | ⟨rfl, -⟩ <;> decide
  unmarked name a h hmemory := by
    rcases markedSaves_array h with ⟨rfl, -⟩ | ⟨-, hchunked⟩
    · decide
    · rw [hmemory] at hchunked
      cases hchunked
  backend name a a' h h' := by
    rcases markedSaves_array h with ⟨rfl, hb⟩ | ⟨rfl, hb⟩ <;>
      rcases markedSaves_array h' with ⟨hname, hb'⟩ | ⟨hname, hb'⟩
    · rw [hb, hb']
    · exact absurd hname (by decide)
    · exact absurd hname (by decide)
    · rw [hb, hb']

theorem markedSaves_last_wins :
    ∃ d' loaded, saveAll ⟨⟨"data", 0⟩, ["saved"]⟩ markedSaves (Disk.empty : Disk Float Unit)
        = (d', .ok ()) ∧
      loadArrays d' ⟨⟨"data", 0⟩, ["saved"]⟩ = .ok loaded ∧
      ("x", .array (single .memory 1)) ∈ loaded ∧
      ("dask_x", .array (single .chunked 3)) ∈ loaded := by
  have hvacant : Vacant (Disk.empty : Disk Float Unit) ⟨⟨"data", 0⟩, ["saved"]⟩ :=
    ⟨fun q hq => absurd hq List.not_mem_nil, Or.inl rfl, rfl⟩
  obtain ⟨d', loaded, hsaved, hloaded, -, -, hlast, -⟩ :=
    last_save_wins hvacant (List.cons_ne_nil _ _) markedSaves_savable
  refine ⟨d', loaded, hsaved, hloaded, (hlast _ _).mpr ⟨nofun, [], _, rfl, fun w hw => ?_⟩,
    (hlast _ _).mpr ⟨nofun, markedSaves.flatten.dropLast, [], rfl, nofun⟩⟩
  -- after the array under `x`, nothing is saved under that name but an absent value
  simpa using hw

end PrimalDual
