import Mathlib.Data.String.Basic
import PrimalDual.Archive.Store

/-!
# Names of stored arrays

A name is a place relative to the directory that an array is stored in.  A name without slashes is a
single step, and unless it is one of those that stand for the directory itself or the one above, the
array is stored right below it.

* `splitOn_slash` — a text without slashes is a single name.
* `Plain.descend` — a plain name is a single step down.
* `Settles`, **`settles_of_plain`** — a name whose arrays stay below their directory.
-/

namespace PrimalDual

open String

/-- Splitting runs through what is left without finding a slash. -/
lemma splitOnAux_slash (l r : List Char) (h : '/' ∉ r) :
    splitOnAux (ofList (l ++ r)) "/" 0 ⟨utf8Len l⟩ 0 [] = [ofList (l ++ r)] := by
  induction r generalizing l with
  | nil =>
    rw [splitOnAux, if_pos ((atEnd_of_valid l []).mpr rfl)]
    have hextract := extract_of_valid [] l []
    simpa using hextract
  | cons c r ih =>
    obtain ⟨hc, hr⟩ := List.ne_and_not_mem_of_not_mem_cons h
    have hend : ¬ Pos.Raw.atEnd (ofList (l ++ c :: r)) ⟨utf8Len l⟩ :=
      mt (atEnd_of_valid l (c :: r)).mp (List.cons_ne_nil c r)
    have hget : Pos.Raw.get (ofList (l ++ c :: r)) ⟨utf8Len l⟩ = c := get_of_valid l (c :: r)
    have hslash : Pos.Raw.get "/" 0 = '/' := by
      decide
    have hnext : Pos.Raw.next (ofList (l ++ c :: r)) (Pos.Raw.unoffsetBy ⟨utf8Len l⟩ 0)
        = ⟨utf8Len (l ++ [c])⟩ := by
      rw [utf8Len_append, utf8Len_cons, utf8Len_nil, Nat.zero_add]
      exact next_of_valid l c r
    rw [splitOnAux, if_neg hend, hget, hslash, if_neg (by simpa using hc.symm), hnext,
      List.append_cons]
    exact ih (l ++ [c]) hr

lemma splitOn_slash {s : String} (h : '/' ∉ s.toList) : s.splitOn "/" = [s] := by
  have hsplit := splitOnAux_slash [] s.toList h
  rw [List.nil_append, ofList_toList] at hsplit
  rw [splitOn, if_neg (by decide)]
  exact hsplit

/-- Arrays of that name are stored below any directory that they are saved to. -/
def Settles (name : String) : Prop :=
  ∀ (b : Backend) (dir : Path), ∃ rest, rest ≠ [] ∧
    (dir.descend (storedName b name)).names = dir.names ++ rest

/-- A single step that does not stay where it is, nor leads up. -/
structure Plain (name : String) : Prop where
  slash : '/' ∉ name.toList
  stays : name ≠ "" ∧ name ≠ "."
  up : name ≠ ".."

instance (name : String) : Decidable (Plain name) :=
  decidable_of_iff ('/' ∉ name.toList ∧ (name ≠ "" ∧ name ≠ ".") ∧ name ≠ "..")
    ⟨fun h => ⟨h.1, h.2.1, h.2.2⟩, fun h => ⟨h.slash, h.stays, h.up⟩⟩

/-- The marker of a chunked array makes no difference. -/
lemma Plain.storedName {name : String} (h : Plain name) (b : Backend) :
    Plain (storedName b name) := by
  cases b with
  | memory => exact h
  | chunked =>
    have htoList : (PrimalDual.storedName .chunked name).toList
        = ['d', 'a', 's', 'k', '_'] ++ name.toList := toList_append
    have hne (t : String) (ht : ¬ ['d', 'a', 's', 'k', '_'] <+: t.toList) :
        PrimalDual.storedName .chunked name ≠ t := by
      rintro rfl
      rw [htoList] at ht
      exact ht (List.prefix_append _ _)
    refine ⟨?_, ⟨hne _ (by decide), hne _ (by decide)⟩, hne _ (by decide)⟩
    rw [htoList, List.mem_append, not_or]
    exact ⟨by decide, h.slash⟩

/-- A plain name is a single step down. -/
lemma Plain.descend {name : String} (h : Plain name) (dir : Path) :
    dir.descend name = dir.child name := by
  obtain ⟨hslash, ⟨hempty, hdot⟩, hdots⟩ := h
  rw [Path.descend, splitOn_slash hslash, List.foldl_cons, List.foldl_nil, Path.follow, Path.child]
  simp [hempty, hdot, hdots]

/-- **Plain names** keep arrays below their directory. -/
theorem settles_of_plain {name : String} (h : Plain name) : Settles name := by
  intro b dir
  refine ⟨[storedName b name], List.cons_ne_nil _ _, ?_⟩
  rw [(h.storedName b).descend]
  rfl

end PrimalDual
