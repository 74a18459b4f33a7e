import Mathlib.Data.List.Induction
import Mathlib.Data.List.Nodup
import PrimalDual.Proofs.Archive.Keeping
import PrimalDual.Proofs.Archive.Name

/-!
# What is loaded from a directory

Arrays are saved into a directory, and loaded from it, by name.  Saving an array enters it into the
directory, and loading enters what stands there into a collection; the one in place of an earlier
array of the same stored name, the other of an earlier one of the same loaded name.

* `enter`, `mem_foldl_enter` — what is entered last under a name stays.
* `Disk.children_put`, `Disk.children_removeTree` — what stands in a directory.
* **`children_saveInto`** — saving enters the arrays of a collection into the directory.
* `loadedName_storedName` — an array is loaded under the name that it was saved under.
* **`mem_loadArrays`** — what is loaded under a name is what stands there last.
* `Holds`, `Holds.saveArrays` — something is loaded under a name, and saving takes nothing away.
* `Shelf`, `Shelf.saveArrays` — nothing but saved arrays stands in a directory, and it stays so.
* `Reloaded`, **`Shelf.reloaded`** — what is loaded from there after saving.
-/

namespace PrimalDual

/-! ## Values by name -/

section

variable {β : Type} {items later : List (String × β)} {name : String} {b : β}

/-- Enters a value under its name, in place of an earlier one. -/
def enter (items : List (String × β)) (item : String × β) : List (String × β) :=
  items.filter (fun entry => entry.1 != item.1) ++ [item]

/-- What is entered last under a name stays. -/
lemma mem_foldl_enter : (name, b) ∈ later.foldl enter items ↔
    (later.filter (·.1 == name)).getLast? = some (name, b) ∨
      (∀ x ∈ later, x.1 ≠ name) ∧ (name, b) ∈ items := by
  induction later using List.reverseRecOn with
  | nil => simp
  | append_singleton later x ih =>
    rw [List.foldl_append, List.foldl_cons, List.foldl_nil, enter, List.mem_append, List.mem_filter,
      List.mem_singleton, ih, List.filter_append]
    by_cases hx : x.1 = name
    · have hother : ¬ ∀ y ∈ later ++ [x], y.1 ≠ name := fun h =>
        h x (List.mem_append_right _ (List.mem_singleton_self x)) hx
      simp only [hother, hx, List.filter_singleton, beq_self_eq_true, cond_true, bne_self_eq_false,
        false_and, or_false]
      simp [eq_comm]
    · have hne : (name, b) ≠ x := fun h => hx (congrArg Prod.fst h).symm
      simp [hx, hne, Ne.symm hx, or_imp, forall_and]

lemma getLast?_of_forall {x : String × β} (hx : x ∈ items) (h : ∀ y ∈ items, y = x) :
    items.getLast? = some x := by
  rw [List.getLast?_eq_some_getLast (List.ne_nil_of_mem hx), h _ (List.getLast_mem _)]

/-- Values stay entered under names of their own. -/
lemma nodup_foldl_enter (h : (items.map (·.1)).Nodup) :
    ((later.foldl enter items).map (·.1)).Nodup := by
  induction later generalizing items with
  | nil => exact h
  | cons x later ih =>
    refine ih ?_
    rw [enter, List.map_append, List.nodup_append]
    refine ⟨h.sublist (List.filter_sublist.map _), List.nodup_singleton _, ?_⟩
    intro a ha c hc
    obtain ⟨y, hy, rfl⟩ := List.mem_map.mp ha
    obtain rfl := List.mem_singleton.mp hc
    exact bne_iff_ne.mp (List.mem_filter.mp hy).2

/-- No name is lost by what is entered. -/
lemma name_mem_foldl_enter : name ∈ (later.foldl enter items).map (·.1) ↔
    name ∈ items.map (·.1) ∨ name ∈ later.map (·.1) := by
  induction later generalizing items with
  | nil => simp
  | cons x later ih =>
    have henter : name ∈ (enter items x).map (·.1) ↔ name ∈ items.map (·.1) ∨ name = x.1 := by
      by_cases hx : name = x.1 <;> simp [enter, hx]
    rw [List.foldl_cons, ih, henter, List.map_cons, List.mem_cons, or_assoc]

/-- What is entered under other names makes no difference. -/
lemma filter_foldl_enter {p : String → Bool} (h : ∀ x ∈ later, p x.1 = false) :
    (later.foldl enter items).filter (fun x => p x.1) = items.filter fun x => p x.1 := by
  induction later generalizing items with
  | nil => rfl
  | cons x later ih =>
    obtain ⟨hx, hlater⟩ := List.forall_mem_cons.mp h
    have hone : [x].filter (fun y => p y.1) = [] := by
      rw [List.filter_singleton, hx]
      rfl
    rw [List.foldl_cons, ih hlater, enter, List.filter_append, hone, List.append_nil,
      List.filter_filter]
    refine List.filter_congr fun y _ => ?_
    by_cases hy : y.1 = x.1
    · rw [hy, hx, Bool.false_and]
    · rw [bne_iff_ne.mpr hy, Bool.and_true]

end

/-! ## What stands in a directory -/

namespace Path

lemma child_bne {p : Path} {name name' : String} :
    (p.child name != p.child name') = (name != name') := by
  rw [Bool.eq_iff_iff, bne_iff_ne, bne_iff_ne]
  simp [child]

lemma child_within {p : Path} {name name' : String} :
    (p.child name).isWithin (p.child name') = (name == name') := by
  rw [isWithin, child, child, beq_self_eq_true, Bool.true_and, Bool.eq_iff_iff,
    List.isPrefixOf_iff_prefix, List.prefix_append_right_inj, List.cons_prefix_cons, beq_iff_eq]
  simp [eq_comm]

/-- What is not below a place is not in it. -/
lemma ne_child_of_length {p q : Path} (h : q.names.length ≤ p.names.length) (name : String) :
    q ≠ p.child name := by
  rintro rfl
  rw [child, List.length_append, List.length_singleton] at h
  exact Nat.not_succ_le_self _ h

end Path

namespace Disk

variable {α β : Type} {d : Disk α β} {p q : Path} {name : String} {e : Entry α β}

/-- What an entry of the tree is in a directory, if it stands right below. -/
def childOf (p : Path) : Path × Entry α β → Option (String × Entry α β)
  | (q, e) => match q.names.getLast? with
    | some name => if q == p.child name then some (name, e) else none
    | none => none

lemma children_eq (d : Disk α β) (p : Path) : d.children p = d.entries.filterMap (childOf p) := rfl

lemma childOf_child (p : Path) (name : String) (e : Entry α β) :
    childOf p (p.child name, e) = some (name, e) := by
  simp [childOf, Path.child]

lemma childOf_other (h : ∀ name, q ≠ p.child name) (e : Entry α β) : childOf p (q, e) = none := by
  rw [childOf]
  split
  · rw [if_neg]
    rw [beq_iff_eq]
    exact h _
  · rfl

/-- What is left in a directory when some places are cleared. -/
lemma children_filter (d : Disk α β) (p : Path) (keep : Path → Bool) :
    ({ d with entries := d.entries.filter fun x => keep x.1 } : Disk α β).children p
      = (d.children p).filter fun x => keep (p.child x.1) := by
  rw [children_eq, children_eq, List.filterMap_filter, List.filter_filterMap]
  refine List.filterMap_congr fun x _ => ?_
  obtain ⟨q, e⟩ := x
  by_cases h : ∃ name, q = p.child name
  · obtain ⟨name, rfl⟩ := h
    rw [childOf_child]
    cases hkeep : keep (p.child name) <;> simp [Option.filter, hkeep]
  · rw [childOf_other (not_exists.mp h)]
    simp

/-- An entry that is put into a directory is entered under its name. -/
lemma children_put (d : Disk α β) (p : Path) (name : String) (e : Entry α β) :
    (d.put (p.child name) e).children p = enter (d.children p) (name, e) := by
  have hkept := children_filter d p (· != p.child name)
  rw [children_eq] at hkept
  simp only [Path.child_bne] at hkept
  rw [put, children_eq, List.filterMap_append, hkept, enter, List.filterMap_cons, childOf_child]
  rfl

/-- An entry that is put somewhere else is none in the directory. -/
lemma children_put_other (h : ∀ name, q ≠ p.child name) (d : Disk α β) (e : Entry α β) :
    (d.put q e).children p = d.children p := by
  have hkept := children_filter d p (· != q)
  rw [children_eq] at hkept
  rw [put, children_eq, List.filterMap_append, hkept, List.filterMap_cons, childOf_other h,
    List.filterMap_nil, List.append_nil, List.filter_eq_self]
  exact fun x _ => bne_iff_ne.mpr (h x.1).symm

/-- A directory that is removed is one no more in the directory above. -/
lemma children_removeTree (d : Disk α β) (p : Path) (name : String) :
    (d.removeTree (p.child name)).children p
      = if d.isDirectory (p.child name) then (d.children p).filter fun x => x.1 != name
        else d.children p := by
  rw [removeTree]
  split
  · rw [children_filter d p fun q => !q.isWithin (p.child name)]
    simp [Path.child_within, bne]
  · rfl

lemma children_addDirectories {qs : List Path} (h : ∀ q ∈ qs, q.names.length ≤ p.names.length)
    (d : Disk α β) : (qs.foldl addDirectory d).children p = d.children p := by
  induction qs generalizing d with
  | nil => rfl
  | cons q qs ih =>
    obtain ⟨hq, hqs⟩ := List.forall_mem_cons.mp h
    rw [List.foldl_cons, ih hqs, addDirectory]
    split
    · rfl
    · exact children_put_other (Path.ne_child_of_length hq) d .directory

/-- Making a directory enters nothing into it. -/
lemma children_makeDirectories {d' : Disk α β} (h : d.makeDirectories p true = .ok d') :
    d'.children p = d.children p ∧ d'.isDirectory p = true := by
  rw [makeDirectories] at h
  split at h
  · cases h
  · rename_i hfree
    split at h
    · split at h
      · rename_i hdirectory
        cases h
        rw [Bool.true_and] at hdirectory
        exact ⟨rfl, hdirectory⟩
      · cases h
    · rename_i hnone
      cases h
      refine ⟨children_addDirectories (fun q hq => ?_) d, ?_⟩
      · rcases List.mem_append.mp hq with hq | hq
        · exact (Path.names_of_mem_ancestors hq).length_le
        · rw [List.mem_singleton.mp hq]
      · refine isDirectory_addDirectories (fun q hq => ?_) p
          (List.mem_append_right _ (List.mem_singleton_self p))
        rcases List.mem_append.mp hq with hq | hq
        · rw [← Bool.not_eq_true]
          exact fun hfile => hfree (List.any_eq_true.mpr ⟨q, hq, hfile⟩)
        · rw [Bool.not_eq_true] at hnone
          rw [List.mem_singleton.mp hq, isFile, hnone, Bool.false_and]

end Disk

/-! ## Saving -/

section

variable {α β : Type} {d : Disk α β} {dir : Path} {name : String}

/-- An array is entered into the directory under its stored name. -/
lemma children_storeArray (h : Plain name) (d : Disk α β) (dir : Path) (a : NdArray α) :
    (storeArray d dir name a).children dir
      = enter (d.children dir) (storedName a.backend name, .array a) := by
  have hplace := (h.storedName a.backend).descend dir
  rw [storeArray, hplace, Disk.children_put, enter, enter]
  congr 1
  rw [Disk.children_addDirectories, Disk.children_removeTree]
  · split
    · rw [List.filter_filter]
      simp
    · rfl
  · intro q hq
    have hlength := Path.length_of_mem_ancestors hq
    rw [Path.child, List.length_append, List.length_singleton] at hlength
    exact Nat.le_of_lt_succ hlength

/-- The arrays that are saved of a collection: those before the first value that cannot be. -/
def savedArrays : List (String × Value α) → List (String × NdArray α)
  | [] => []
  | (_, .null) :: rest => savedArrays rest
  | (name, .array a) :: rest => (name, a) :: savedArrays rest
  | _ :: _ => []

/-- An array as it stands in a directory. -/
def stored (x : String × NdArray α) : String × Entry α β := (storedName x.2.backend x.1, .array x.2)

lemma mem_of_mem_savedArrays {items : List (String × Value α)} {a : NdArray α}
    (h : (name, a) ∈ savedArrays items) : (name, .array a) ∈ items := by
  induction items with
  | nil => cases h
  | cons item items ih =>
    obtain ⟨n, v⟩ := item
    cases v with
    | null => exact List.mem_cons_of_mem _ (ih h)
    | array b =>
      rcases List.mem_cons.mp h with h | h
      · cases h
        exact List.mem_cons_self
      · exact List.mem_cons_of_mem _ (ih h)
    | _ => cases h

variable [Scalar α]

/-- If nothing is refused, all arrays are saved, and there is nothing else. -/
lemma saved_of_mem {items : List (String × Value α)} {v : Value α}
    (h : (saveInto dir items d).2 = .ok ()) (hv : (name, v) ∈ items) :
    v = .null ∨ ∃ a, v = .array a ∧ (name, a) ∈ savedArrays items := by
  induction items generalizing d with
  | nil => cases hv
  | cons item items ih =>
    obtain ⟨n, u⟩ := item
    cases u with
    | null =>
      rcases List.mem_cons.mp hv with hv | hv
      · exact Or.inl (Prod.mk.inj hv).2
      · exact ih h hv
    | array b =>
      rcases List.mem_cons.mp hv with hv | hv
      · cases hv
        exact Or.inr ⟨b, rfl, List.mem_cons_self⟩
      · exact (ih h hv).imp id fun ⟨a, ha, hsaved⟩ => ⟨a, ha, List.mem_cons_of_mem _ hsaved⟩
    | _ => cases h

lemma mem_savedArrays {items : List (String × Value α)} {a : NdArray α}
    (h : (saveInto dir items d).2 = .ok ()) (ha : (name, .array a) ∈ items) :
    (name, a) ∈ savedArrays items := by
  rcases saved_of_mem h ha with hnull | ⟨b, hb, hsaved⟩
  · cases hnull
  · cases hb
    exact hsaved

/-- **Saving** enters the arrays of a collection into the directory. -/
theorem children_saveInto {items : List (String × Value α)}
    (h : ∀ name a, (name, .array a) ∈ items → Plain name) (d : Disk α β) :
    (saveInto dir items d).1.children dir
      = ((savedArrays items).map stored).foldl enter (d.children dir) := by
  induction items generalizing d with
  | nil => rfl
  | cons item items ih =>
    obtain ⟨n, v⟩ := item
    have hrest : ∀ name a, (name, .array a) ∈ items → Plain name :=
      fun name a ha => h name a (List.mem_cons_of_mem _ ha)
    cases v with
    | null => exact ih hrest d
    | array a =>
      rw [savedArrays, List.map_cons, List.foldl_cons, saveInto, ih hrest,
        children_storeArray (h n a List.mem_cons_self), stored]
    | _ => rfl

/-- The directory that arrays are saved into stays. -/
lemma isDirectory_saveInto {items : List (String × Value α)}
    (h : ∀ name a, (name, .array a) ∈ items → Plain name) (hdir : d.isDirectory dir = true) :
    (saveInto dir items d).1.isDirectory dir = true := by
  have hkept : Disk.KeepsAt (fun _ => True) dir d (saveInto dir items d).1 := by
    refine .saveInto (fun _ _ _ _ _ => trivial) (fun name a ha => Path.not_within_of_length ?_) d
    rw [((h name a ha).storedName a.backend).descend, Path.child, List.length_append]
    exact Nat.lt_succ_self _
  exact hkept.isDirectory hdir

end

/-! ## Loading -/

section

variable {α β : Type} {d d' : Disk α β} {dir : Path} {name : String} {v : Value α}

/-- A name that is not taken for that of a chunked array. -/
def Unmarked (name : String) : Prop := chunkedMarker.toList.isPrefixOf name.toList = false

instance (name : String) : Decidable (Unmarked name) :=
  inferInstanceAs (Decidable (chunkedMarker.toList.isPrefixOf name.toList = false))

/-- The marker of a chunked array is dropped once, so its name may carry the marker itself. -/
lemma loadedName_chunked (name : String) :
    loadedName (storedName .chunked name) = (name, .chunked) := by
  have htoList : (storedName .chunked name).toList = chunkedMarker.toList ++ name.toList :=
    String.toList_append
  have hlength : chunkedMarker.length = chunkedMarker.toList.length := by
    decide
  rw [loadedName, htoList, if_pos (List.isPrefixOf_iff_prefix.mpr (List.prefix_append _ _)),
    hlength, List.drop_left, String.ofList_toList]

/-- An array is loaded under the name that it was saved under, and on its backend. -/
lemma loadedName_storedName (h : Unmarked name) (b : Backend) :
    loadedName (storedName b name) = (name, b) := by
  cases b with
  | memory => rw [loadedName, storedName, if_neg (by rw [h]; exact Bool.false_ne_true)]
  | chunked => exact loadedName_chunked name

lemma loadEntry_stored (h : Unmarked name) (b : Backend) (a : NdArray α) :
    loadEntry (storedName b name) (.array a : Entry α β) = (name, .array (a.onBackend b)) := by
  rw [loadEntry, loadedName_storedName h]

lemma loadEntry_name (n : String) (e : Entry α β) : (loadEntry n e).1 = (loadedName n).1 := by
  cases e <;> rfl

/-- The values that the entries of a directory are loaded as, an earlier one before a later one. -/
def loadable (d : Disk α β) (dir : Path) : List (String × Value α) :=
  (d.children dir).map fun x => loadEntry x.1 x.2

lemma loadArrays_ok {items : List (String × Value α)} : loadArrays d dir = .ok items ↔
    d.isDirectory dir = true ∧ (loadable d dir).foldl enter [] = items := by
  cases hdir : d.isDirectory dir with
  | true =>
    rw [loadArrays, Disk.exists?_of_isDirectory hdir, hdir]
    exact ⟨fun h => ⟨rfl, Except.ok.inj h⟩, fun h => congrArg Except.ok h.2⟩
  | false =>
    rw [loadArrays, hdir]
    split <;> simp

/-- What is loaded under a name is what stands there last. -/
lemma mem_loaded : (name, v) ∈ (loadable d dir).foldl enter [] ↔
    ((loadable d dir).filter (·.1 == name)).getLast? = some (name, v) := by
  rw [mem_foldl_enter]
  simp

theorem mem_loadArrays (h : d.children dir ≠ [] → d.isDirectory dir = true) :
    (∃ items, loadArrays d dir = .ok items ∧ (name, v) ∈ items) ↔
      ((loadable d dir).filter (·.1 == name)).getLast? = some (name, v) := by
  simp only [loadArrays_ok]
  constructor
  · rintro ⟨_, ⟨-, rfl⟩, hmem⟩
    exact mem_loaded.mp hmem
  · intro hlast
    have hchildren : d.children dir ≠ [] := by
      intro hnil
      rw [loadable, hnil] at hlast
      cases hlast
    exact ⟨_, ⟨h hchildren, rfl⟩, mem_loaded.mpr hlast⟩

/-- Something is loaded from the directory under a name. -/
def Holds (d : Disk α β) (dir : Path) (name : String) : Prop :=
  ∃ items, loadArrays d dir = .ok items ∧ name ∈ items.map (·.1)

lemma holds_iff : Holds d dir name ↔
    d.isDirectory dir = true ∧ name ∈ (d.children dir).map fun x => (loadedName x.1).1 := by
  have hnames : name ∈ ((loadable d dir).foldl enter []).map (·.1) ↔
      name ∈ (d.children dir).map fun x => (loadedName x.1).1 := by
    rw [name_mem_foldl_enter, loadable, List.map_map]
    simp only [List.map_nil, List.not_mem_nil, false_or, Function.comp_def, loadEntry_name]
  simp only [Holds, loadArrays_ok]
  constructor
  · rintro ⟨_, ⟨hdir, rfl⟩, hname⟩
    exact ⟨hdir, hnames.mp hname⟩
  · rintro ⟨hdir, hname⟩
    exact ⟨_, ⟨hdir, rfl⟩, hnames.mpr hname⟩

lemma Holds.congr (h : Holds d dir name) (hchildren : d'.children dir = d.children dir)
    (hdir : d.isDirectory dir = true → d'.isDirectory dir = true) : Holds d' dir name := by
  rw [holds_iff] at h ⊢
  exact ⟨hdir h.1, hchildren ▸ h.2⟩

/-- **Saving** takes nothing away. -/
theorem Holds.saveArrays [Scalar α] {items : List (String × Value α)} (h : Holds d dir name)
    (hitems : ∀ name a, (name, .array a) ∈ items → Plain name) :
    Holds (PrimalDual.saveArrays d dir items).1 dir name := by
  rw [PrimalDual.saveArrays]
  split
  · exact h
  · rename_i d₁ hmade
    obtain ⟨hchildren, hdir⟩ := Disk.children_makeDirectories hmade
    obtain ⟨x, hx, rfl⟩ := List.mem_map.mp (holds_iff.mp h).2
    refine holds_iff.mpr ⟨isDirectory_saveInto hitems hdir, ?_⟩
    have hkept : x.1 ∈ ((saveInto dir items d₁).1.children dir).map (·.1) := by
      rw [children_saveInto hitems, name_mem_foldl_enter, hchildren]
      exact Or.inl (List.mem_map_of_mem hx)
    obtain ⟨y, hy, hname⟩ := List.mem_map.mp hkept
    exact List.mem_map.mpr ⟨y, hy, congrArg (fun n => (loadedName n).1) hname⟩

/-! ## Directories of saved arrays -/

/-- Nothing stands in the directory but arrays that have been saved there, each under a name and with a
backend that `P` accepts. -/
structure Shelf (P : String → Backend → Prop) (d : Disk α β) (dir : Path) : Prop where
  directory : d.children dir ≠ [] → d.isDirectory dir = true
  stored : ∀ x ∈ d.children dir, ∃ name a, P name a.backend ∧ x = stored (name, a)

/-- Nothing stands in the directory under the stored name that another backend has for a name. -/
def Unshadowed (d : Disk α β) (dir : Path) (name : String) (b : Backend) : Prop :=
  ∀ b' ≠ b, ∀ e, (storedName b' name, e) ∉ d.children dir

/-- Every accepted name is a single step down, and is loaded as it was saved. -/
def Nameable (P : String → Backend → Prop) : Prop := ∀ name b, P name b → Plain name ∧ Unmarked name

lemma Nameable.plain {P : String → Backend → Prop} {items : List (String × Value α)}
    (hP : Nameable P) (hitems : ∀ name a, (name, .array a) ∈ items → P name a.backend) :
    ∀ name a, (name, .array a) ∈ items → Plain name :=
  fun name a ha => (hP name a.backend (hitems name a ha)).1

/-- What is loaded from a directory that some values have been saved into, next to what was loaded from
there before. -/
structure Reloaded (P : String → Backend → Prop) (d : Disk α β) (dir : Path)
    (items loaded : List (String × Value α)) : Prop where
  nodup : (loaded.map (·.1)).Nodup
  values : ∀ name v, (name, v) ∈ items → v = .null ∨ ∃ a, v = .array a
  arrays : ∀ name v, (name, v) ∈ loaded → ∃ a, v = .array a ∧ P name a.backend
  current : ∀ name a, (name, .array a) ∈ items → Unshadowed d dir name a.backend →
    (name, .array a) ∈ loaded
  kept : ∀ name, (∀ a, (name, .array a) ∉ items) → ∀ v,
    (name, v) ∈ loaded ↔ ∃ before, loadArrays d dir = .ok before ∧ (name, v) ∈ before

namespace Shelf

variable {P : String → Backend → Prop} {items : List (String × Value α)} {a : NdArray α}

lemma of_children_nil (h : d.children dir = []) : Shelf P d dir where
  directory hne := absurd h hne
  stored x hx := by
    rw [h] at hx
    cases hx

/-- What is done elsewhere makes no difference. -/
lemma congr (h : Shelf P d dir) (hchildren : d'.children dir = d.children dir)
    (hdir : d.isDirectory dir = true → d'.isDirectory dir = true) : Shelf P d' dir where
  directory hne := hdir (h.directory (hchildren ▸ hne))
  stored x hx := h.stored x (hchildren ▸ hx)

/-- An accepted array is loaded as it was saved. -/
lemma load_stored (hP : Nameable P) (ha : P name a.backend) :
    loadEntry (PrimalDual.stored (β := β) (name, a)).1 (PrimalDual.stored (β := β) (name, a)).2
      = (name, .array a) := loadEntry_stored (hP name _ ha).2 a.backend a

variable [Scalar α]

/-- What stands in a directory after saving has been saved now, or stood there before, under a name that
nothing has been saved under. -/
lemma mem_children_saveInto (hP : Nameable P)
    (hitems : ∀ name a, (name, .array a) ∈ items → P name a.backend) {x : String × Entry α β}
    (hx : x ∈ (PrimalDual.saveInto dir items d).1.children dir) :
    (∃ name a, (name, .array a) ∈ items ∧ x = PrimalDual.stored (name, a)) ∨
      x ∈ d.children dir ∧ ∀ name a, (name, a) ∈ savedArrays items →
        x.1 ≠ storedName a.backend name := by
  obtain ⟨n, e⟩ := x
  rw [children_saveInto (hP.plain hitems), mem_foldl_enter] at hx
  rcases hx with hlast | ⟨hnone, hold⟩
  · obtain ⟨⟨name, a⟩, ha, hstored⟩ := List.mem_map.mp
      (List.mem_filter.mp (List.mem_of_getLast? hlast)).1
    exact Or.inl ⟨name, a, mem_of_mem_savedArrays ha, hstored.symm⟩
  · exact Or.inr ⟨hold, fun name a ha => (hnone _ (List.mem_map_of_mem ha)).symm⟩

lemma saveInto (h : Shelf P d dir) (hP : Nameable P)
    (hitems : ∀ name a, (name, .array a) ∈ items → P name a.backend)
    (hdir : d.isDirectory dir = true) : Shelf P (PrimalDual.saveInto dir items d).1 dir where
  directory _ := isDirectory_saveInto (hP.plain hitems) hdir
  stored x hx := by
    rcases mem_children_saveInto hP hitems hx with ⟨name, a, ha, hstored⟩ | ⟨hold, -⟩
    · exact ⟨name, a, hitems name a ha, hstored⟩
    · exact h.stored x hold

/-- **Saving** leaves nothing in the directory but saved arrays. -/
theorem saveArrays (h : Shelf P d dir) (hP : Nameable P)
    (hitems : ∀ name a, (name, .array a) ∈ items → P name a.backend) :
    Shelf P (PrimalDual.saveArrays d dir items).1 dir := by
  rw [PrimalDual.saveArrays]
  split
  · exact h
  · rename_i d₁ hmade
    obtain ⟨hchildren, hdir⟩ := Disk.children_makeDirectories hmade
    exact (h.congr hchildren fun _ => hdir).saveInto hP hitems hdir

/-- Of the arrays that are saved under a name, there is one in the end. -/
lemma stored_mem_children (hP : Nameable P)
    (hitems : ∀ name a, (name, .array a) ∈ items → P name a.backend)
    (hone : ∀ name a a', (name, .array a) ∈ items → (name, .array a') ∈ items → a = a')
    (hsaved : (PrimalDual.saveInto dir items d).2 = .ok ()) (ha : (name, .array a) ∈ items) :
    PrimalDual.stored (name, a) ∈ (PrimalDual.saveInto dir items d).1.children dir := by
  rw [children_saveInto (hP.plain hitems), PrimalDual.stored, mem_foldl_enter]
  refine Or.inl (getLast?_of_forall ?_ ?_)
  · exact List.mem_filter.mpr
      ⟨List.mem_map_of_mem (mem_savedArrays hsaved ha), beq_self_eq_true _⟩
  · -- whatever is saved under the same stored name has the same name, and is the same array
    intro y hy
    obtain ⟨hy, hkey⟩ := List.mem_filter.mp hy
    obtain ⟨⟨n, c⟩, hc, rfl⟩ := List.mem_map.mp hy
    have hc := mem_of_mem_savedArrays hc
    have hloaded := congrArg loadedName (eq_of_beq hkey)
    rw [PrimalDual.stored, loadedName_storedName (hP _ _ (hitems n c hc)).2,
      loadedName_storedName (hP _ _ (hitems name a ha)).2, Prod.mk.injEq] at hloaded
    obtain ⟨rfl, -⟩ := hloaded
    rw [hone n c a hc ha]
    rfl

/-- What is saved under a name is loaded from there, unless another array stands under the stored name
that the other backend has for it. -/
lemma load_current (h : Shelf P d dir) (hP : Nameable P)
    (hitems : ∀ name a, (name, .array a) ∈ items → P name a.backend)
    (hone : ∀ name a a', (name, .array a) ∈ items → (name, .array a') ∈ items → a = a')
    (hsaved : (PrimalDual.saveInto dir items d).2 = .ok ()) (ha : (name, .array a) ∈ items)
    (hother : Unshadowed d dir name a.backend) :
    ((loadable (PrimalDual.saveInto dir items d).1 dir).filter (·.1 == name)).getLast?
      = some (name, .array a) := by
  refine getLast?_of_forall ?_ ?_
  · rw [List.mem_filter, loadable, List.mem_map]
    exact ⟨⟨_, stored_mem_children hP hitems hone hsaved ha, load_stored hP (hitems name a ha)⟩,
      beq_self_eq_true name⟩
  · intro y hy
    obtain ⟨hy, hname⟩ := List.mem_filter.mp hy
    obtain ⟨x, hx, rfl⟩ := List.mem_map.mp hy
    rcases mem_children_saveInto hP hitems hx with ⟨n, c, hc, rfl⟩ | ⟨hold, hnew⟩
    · rw [load_stored hP (hitems n c hc)] at hname ⊢
      obtain rfl := eq_of_beq hname
      rw [hone n c a hc ha]
    · -- an older array of that name has been replaced, or is one of the other backend
      obtain ⟨n, c, hn, rfl⟩ := h.stored x hold
      rw [load_stored hP hn] at hname
      obtain rfl := eq_of_beq hname
      by_cases hbackend : c.backend = a.backend
      · refine absurd ?_ (hnew n a (mem_savedArrays hsaved ha))
        rw [PrimalDual.stored, hbackend]
      · exact absurd hold (hother _ hbackend _)

/-- What is loaded under a name that nothing is saved under stays. -/
lemma load_kept (hP : Nameable P)
    (hitems : ∀ name a, (name, .array a) ∈ items → P name a.backend)
    (hnone : ∀ a, (name, .array a) ∉ items) :
    (loadable (PrimalDual.saveInto dir items d).1 dir).filter (·.1 == name)
      = (loadable d dir).filter (·.1 == name) := by
  have hname : ((fun x : String × Value α => x.1 == name) ∘ fun x : String × Entry α β =>
      loadEntry x.1 x.2) = fun x => (fun n => (loadedName n).1 == name) x.1 := by
    funext x
    exact congrArg (· == name) (loadEntry_name x.1 x.2)
  rw [loadable, loadable, List.filter_map, List.filter_map, hname,
    children_saveInto (hP.plain hitems)]
  congr 1
  refine filter_foldl_enter (p := fun n => (loadedName n).1 == name) fun x hx => ?_
  obtain ⟨⟨n, c⟩, hc, rfl⟩ := List.mem_map.mp hx
  have hc := mem_of_mem_savedArrays hc
  rw [PrimalDual.stored, loadedName_storedName (hP _ _ (hitems n c hc)).2, beq_eq_false_iff_ne]
  rintro rfl
  exact hnone c hc

/-- **Reloading.**  Once some values have been saved into a directory of saved arrays, each of them is
loaded from there, and under all other names the same as before. -/
theorem reloaded (h : Shelf P d dir) (hP : Nameable P)
    (hitems : ∀ name a, (name, .array a) ∈ items → P name a.backend)
    (hone : ∀ name a a', (name, .array a) ∈ items → (name, .array a') ∈ items → a = a')
    (hsaved : PrimalDual.saveArrays d dir items = (d', .ok ())) :
    ∃ loaded, loadArrays d' dir = .ok loaded ∧ Reloaded P d dir items loaded := by
  rw [PrimalDual.saveArrays] at hsaved
  split at hsaved
  · cases hsaved
  · rename_i d₁ hmade
    obtain rfl : (PrimalDual.saveInto dir items d₁).1 = d' := congrArg Prod.fst hsaved
    have houtcome := congrArg Prod.snd hsaved
    obtain ⟨hchildren, hdir⟩ := Disk.children_makeDirectories hmade
    have hmade : Shelf P d₁ dir := h.congr hchildren fun _ => hdir
    have hdir' := isDirectory_saveInto (hP.plain hitems) hdir
    refine ⟨_, loadArrays_ok.mpr ⟨hdir', rfl⟩, ?_, ?_, ?_, ?_, ?_⟩
    · exact nodup_foldl_enter List.nodup_nil
    · exact fun name v hv => (saved_of_mem houtcome hv).imp id fun ⟨a, ha, _⟩ => ⟨a, ha⟩
    · intro name v hv
      have hlast := List.mem_of_getLast? (mem_loaded.mp hv)
      obtain ⟨x, hx, hload⟩ := List.mem_map.mp (List.mem_filter.mp hlast).1
      obtain ⟨n, a, hn, rfl⟩ := (hmade.saveInto hP hitems hdir).stored x hx
      rw [load_stored hP hn] at hload
      cases hload
      exact ⟨a, rfl, hn⟩
    · intro name a ha hother
      rw [Unshadowed, ← hchildren] at hother
      rw [mem_loaded]
      exact load_current hmade hP hitems hone houtcome ha hother
    · intro name hnone v
      have hbefore : loadable d₁ dir = loadable d dir := by
        rw [loadable, loadable, hchildren]
      rw [mem_loaded, mem_loadArrays h.directory, load_kept hP hitems hnone, hbefore]

end Shelf

end

end PrimalDual
