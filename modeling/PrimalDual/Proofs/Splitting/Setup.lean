import PrimalDual.Proofs.Outcome
import PrimalDual.Splitting.Iteration

/-!
# What a setup reads

A default fills in a parameter that is not given and leaves all others alone, so what the setup reads
under a name can be told from what was given under it.

* `Parameters.withDefaults_get`, `withDefaults_nu`, `withDefaults_method` — the parameters.
* `Method.ofTag_tag` — a policy is read back from its tag.
* `Settled`, `start_settled` — what a setup that is not refused has settled.
-/

namespace PrimalDual

namespace Parameters

variable {α : Type} {ps : Parameters α} {name other : String} {v w : Value α}

/-- Adding one parameter does not change another. -/
lemma getD_setDefault_of_ne (h : other ≠ name) :
    (ps.setDefault other v).getD name w = ps.getD name w := by
  rw [setDefault]
  split
  · rfl
  · simp [getD, List.find?_append, h]

/-- What is not given takes its default, whatever other default it is asked for with. -/
lemma getD_setDefault_self : (ps.setDefault name v).getD name w = ps.getD name v := by
  rw [setDefault]
  split
  · rename_i hhas
    obtain ⟨entry, hmem, hname⟩ := List.any_eq_true.mp hhas
    have hfound : (ps.find? fun entry => entry.1 == name).isSome = true :=
      List.find?_isSome.mpr ⟨entry, hmem, hname⟩
    obtain ⟨found, hfound⟩ := Option.isSome_iff_exists.mp hfound
    rw [getD, getD, hfound]
  · rename_i hhas
    have hnone : ps.find? (fun entry => entry.1 == name) = none := by
      rw [List.find?_eq_none]
      intro entry hmem hname
      exact hhas (List.any_eq_true.mpr ⟨entry, hmem, hname⟩)
    simp [getD, List.find?_append, hnone]

/-! ## The defaults of the setup -/

lemma withDefaults_get (hrescale : name ≠ "rescale") (hnu : name ≠ "nu") (hmethod : name ≠ "method") :
    ps.withDefaults.get name = ps.get name := by
  rw [withDefaults, get, getD_setDefault_of_ne hmethod.symm, getD_setDefault_of_ne hnu.symm,
    getD_setDefault_of_ne hrescale.symm]
  rfl

lemma withDefaults_rescale :
    ps.withDefaults.get "rescale" = ps.getD "rescale" (.number (.bool false)) := by
  rw [withDefaults, get, getD_setDefault_of_ne (by decide), getD_setDefault_of_ne (by decide),
    getD_setDefault_self]

lemma withDefaults_nu : ps.withDefaults.get "nu" = ps.getD "nu" (.number (.int 1)) := by
  rw [withDefaults, get, getD_setDefault_of_ne (by decide), getD_setDefault_self,
    getD_setDefault_of_ne (by decide)]

lemma withDefaults_method :
    ps.withDefaults.get "method" = ps.getD "method" (.text Method.plain.tag) := by
  rw [withDefaults, get, getD_setDefault_self, getD_setDefault_of_ne (by decide),
    getD_setDefault_of_ne (by decide)]

end Parameters

/-- A policy is read back from its tag. -/
lemma Method.ofTag_tag {α : Type} [Scalar α] (m : Method) :
    Method.ofTag (.text m.tag : Value α) = .ok m := by
  have hnamed : Method.named? (strip m.tag).toLower = some m := by
    cases m <;> decide +kernel
  rw [Method.ofTag, hnamed]

namespace IterationState

variable {α : Type} [Scalar α] {x₀ : Value α} {f : Option (Smooth α)}
  {terms : Option (List (TermArgument α))} {given : Parameters α} {s : IterationState α}

/-- What a setup that is not refused has settled: the sides of the terms, the steps, the schedule, and
where the iteration begins. -/
structure Settled (s : IterationState α) (x₀ : Value α) (given : Parameters α) : Prop where
  sides : chooseSides s.first s.second = .ok (s.order, s.operator)
  steps : stepSizes (.number (.real s.smooth.curvature)) (given.withDefaults.get "nu")
    (given.withDefaults.get "tau") (given.withDefaults.get "sigma") = .ok (s.tau, s.sigma)
  momentum : Momentum.ofMethod s.method (given.withDefaults.get "lambda") = .ok s.momentum
  point : readPoint x₀ = .ok s.x
  image : s.operator.map s.x = .ok s.z
  weight : s.weight = none

lemma start_settled (h : start x₀ f terms given = .ok s) : s.Settled x₀ given := by
  unfold start at h
  dsimp only at h
  split at h
  · cases h
  split at h
  · obtain ⟨first, -, h⟩ := ok_of_bind h
    obtain ⟨second, -, h⟩ := ok_of_bind h
    obtain ⟨⟨order, K⟩, hsides, h⟩ := ok_of_bind h
    obtain ⟨⟨tau, sigma⟩, hsteps, h⟩ := ok_of_bind h
    obtain ⟨method, -, h⟩ := ok_of_bind h
    obtain ⟨momentum, hmomentum, h⟩ := ok_of_bind h
    obtain ⟨point, hpoint, h⟩ := ok_of_bind h
    obtain ⟨dual, himage, h⟩ := ok_of_bind h
    cases h
    exact ⟨hsides, hsteps, hmomentum, hpoint, himage, rfl⟩
  · cases h
  · cases h

/-- The sides of the terms, the steps, and the schedule. -/
lemma start_ok (h : start x₀ f terms given = .ok s) :
    chooseSides s.first s.second = .ok (s.order, s.operator) ∧
      stepSizes (.number (.real s.smooth.curvature)) (given.withDefaults.get "nu")
        (given.withDefaults.get "tau") (given.withDefaults.get "sigma") = .ok (s.tau, s.sigma) ∧
      Momentum.ofMethod s.method (given.withDefaults.get "lambda") = .ok s.momentum :=
  ⟨(start_settled h).sides, (start_settled h).steps, (start_settled h).momentum⟩

end IterationState

end PrimalDual
