import Mathlib.Tactic.Lemma
import PrimalDual.Criterion.Basic

/-!
# Criteria that have been used

A criterion remembers something from one evaluation to the next, and may be used by several runs.
Whatever has been done with it, starting it afresh gives back the criterion that it was at first.  The
only trace of the time that is left is when its clock was started, and evaluations ask for nothing but
the time since then.

* `Criterion.Used` — a criterion and what may have become of it.
* **`Used.clear_eq`** — started afresh, both are the same.
* `Criterion.shift` — the criterion with its clocks set to another time.
* `stop_shift`, `info_shift`, `clear_shift` — at a time that is shifted alike, it makes no difference.
-/

namespace PrimalDual

namespace Criterion

variable {α : Type} [Scalar α]

/-! ## Starting afresh -/

section

variable {c c' : Criterion α} {now earlier : Int}

lemma clear_clear (c : Criterion α) : (c.clear earlier).clear now = c.clear now := by
  induction c with
  | both left right hleft hright => rw [clear, clear, clear, hleft, hright]
  | either left right hleft hright => rw [clear, clear, clear, hleft, hright]
  | _ => rfl

lemma clear_detach (m : Memory α) (c : Criterion α) : (c.detach m).clear now = c.clear now := by
  induction c with
  | both left right hleft hright => rw [detach, clear, clear, hleft, hright]
  | either left right hleft hright => rw [detach, clear, clear, hleft, hright]
  | _ => rfl

/-- Whether an evaluation succeeds or not, it leaves nothing that a fresh start keeps. -/
lemma clear_stop (o : Observation α) (c : Criterion α) : (c.stop o).1.clear now = c.clear now := by
  induction c with
  | maxIter | manual | unspecified | maxDuration => rfl
  | memorize var memo | size r norms =>
    rw [stop]
    split <;> rfl
  | change kind r norms previous =>
    cases previous with
    | none =>
      rw [stop]
      split
      · rfl
      · split <;> rfl
    | some v =>
      rw [stop]
      split
      · rfl
      · split <;> rfl
  | both left right hleft hright | either left right hleft hright =>
    rw [stop]
    rcases hstop : left.stop o with ⟨left', e | a⟩
    · rw [hstop] at hleft
      rw [clear, clear, hleft]
    · rw [hstop] at hleft
      rw [clear, clear, hleft, hright]

end

/-- What may have become of a criterion: it has been evaluated, successfully or not, it has been
started afresh, and it has got its own copies of the arrays that it refers to, in any order.  So may
its sides have been, each on its own, before they were put together. -/
inductive Used : Criterion α → Criterion α → Prop
  | new {c : Criterion α} : Used c c
  | stop {c c' : Criterion α} (h : Used c c') (o : Observation α) : Used c (c'.stop o).1
  | clear {c c' : Criterion α} (h : Used c c') (now : Int) : Used c (c'.clear now)
  | detach {c c' : Criterion α} (h : Used c c') (m : Memory α) : Used c (c'.detach m)
  | both {l l' r r' : Criterion α} (hl : Used l l') (hr : Used r r') : Used (both l r) (both l' r')
  | either {l l' r r' : Criterion α} (hl : Used l l') (hr : Used r r') :
      Used (either l r) (either l' r')

/-- Whichever criterion there is, it is one that may have been used. -/
lemma used_self (rule : Option (Criterion α)) : Option.Rel Used rule rule := by
  cases rule with
  | none => exact .none
  | some c => exact .some .new

/-- **A used criterion** is as good as a new one, once it is started afresh. -/
theorem Used.clear_eq {c c' : Criterion α} (h : Used c c') (now : Int) :
    c'.clear now = c.clear now := by
  induction h with
  | new => rfl
  | stop _ o ih => rw [clear_stop, ih]
  | clear _ earlier ih => rw [clear_clear, ih]
  | detach _ m ih => rw [clear_detach, ih]
  | both _ _ hl hr | either _ _ hl hr => rw [Criterion.clear, Criterion.clear, hl, hr]

/-! ## Clocks -/

/-- The criterion with its clocks set later by `d`. -/
def shift (d : Int) : Criterion α → Criterion α
  | maxDuration limit start elapsed => maxDuration limit (start + d) elapsed
  | both left right => both (left.shift d) (right.shift d)
  | either left right => either (left.shift d) (right.shift d)
  | c => c

omit [Scalar α] in
lemma shift_zero (c : Criterion α) : c.shift 0 = c := by
  induction c with
  | maxDuration limit start elapsed => rw [shift, Int.add_zero]
  | both left right hleft hright | either left right hleft hright =>
    rw [shift, hleft, hright]
  | _ => rfl

lemma clear_shift (d now : Int) (c : Criterion α) : c.clear (now + d) = (c.clear now).shift d := by
  induction c with
  | both left right hleft hright => rw [clear, clear, shift, hleft, hright]
  | either left right hleft hright => rw [clear, clear, shift, hleft, hright]
  | _ => rfl

lemma info_shift (d : Int) (m : Memory α) (c : Criterion α) : (c.shift d).info m = c.info m := by
  induction c with
  | both left right hleft hright => rw [shift, info, info, hleft, hright]
  | either left right hleft hright => rw [shift, info, info, hleft, hright]
  | _ => rfl

/-- An evaluation asks for the time since its clocks were started only. -/
theorem stop_shift (d : Int) (o : Observation α) (c : Criterion α) :
    (c.shift d).stop { o with now := o.now + d } = ((c.stop o).1.shift d, (c.stop o).2) := by
  induction c with
  | maxIter | manual | unspecified => rfl
  | maxDuration limit start elapsed =>
    have helapsed : o.now + d - (start + d) = o.now - start := Int.add_sub_add_right _ _ _
    rw [shift, stop, stop, shift]
    dsimp only
    rw [helapsed]
  | memorize var memo =>
    show stop (memorize var memo) o = _
    rw [stop]
    split <;> rfl
  | size r norms =>
    show stop (size r norms) o = _
    rw [stop]
    split <;> rfl
  | change kind r norms previous =>
    cases previous with
    | none =>
      show stop (change kind r norms none) o = _
      rw [stop]
      split
      · rfl
      · split <;> rfl
    | some v =>
      show stop (change kind r norms (some v)) o = _
      rw [stop]
      split
      · rfl
      · split <;> rfl
  | both left right hleft hright | either left right hleft hright =>
    rw [shift, stop, stop, hleft]
    rcases left.stop o with ⟨left', e | a⟩
    · rfl
    · dsimp only
      rw [hright]
      rfl

end Criterion

end PrimalDual
