import Mathlib.Tactic.TypeStar
import Mathlib.Order.Basic

/-!
# While loops

A loop is a function `step : σ → Option σ` that answers the state after one more round,
or `none` where the loop ends.  `While.run step fuel s` runs it for at most `fuel`
rounds.  A loop whose `step` decreases a variant ends within the fuel the variant
bounds, and more fuel than that changes nothing.
-/

namespace While

variable {σ τ : Type*}

/-- The state after running the loop from a state for at most `fuel` rounds. -/
def run (step : σ → Option σ) : Nat → σ → σ
  | 0, s => s
  | fuel + 1, s =>
      match step s with
      | none => s
      | some s' => run step fuel s'

theorem run_of_none {step : σ → Option σ} {s : σ} (h : step s = none) (fuel : Nat) :
  run step fuel s = s
  := by
  cases fuel with
  | zero => rfl
  | succ fuel => simp only [run, h]

theorem run_of_some {step : σ → Option σ} {s s' : σ} (h : step s = some s') (fuel : Nat) :
  run step (fuel + 1) s = run step fuel s'
  := by
  simp only [run, h]

/-- The total correctness rule: an invariant the rounds keep and a variant they
decrease give the invariant at the end, where the loop has ended of itself. -/
theorem run_spec {step : σ → Option σ} (I : σ → Prop) (variant : σ → Nat)
    (h : ∀ s s', I s → step s = some s' → I s' ∧ variant s' < variant s)
    {fuel : Nat} {s : σ} (hs : I s) (hfuel : variant s ≤ fuel) :
  I (run step fuel s) ∧ step (run step fuel s) = none
  := by
  induction fuel generalizing s with
  | zero =>
      cases hstep : step s with
      | none => exact ⟨hs, hstep⟩
      | some s' =>
          obtain ⟨-, hlt⟩ := h s s' hs hstep
          omega
  | succ fuel ih =>
      cases hstep : step s with
      | none =>
          rw [run_of_none hstep]
          exact ⟨hs, hstep⟩
      | some s' =>
          obtain ⟨hs', hlt⟩ := h s s' hs hstep
          rw [run_of_some hstep]
          apply ih hs'
          omega

/-- What every round keeps holds after any number of rounds. -/
theorem run_invariant {step : σ → Option σ} {I : σ → Prop}
    (h : ∀ s s', I s → step s = some s' → I s') (fuel : Nat) {s : σ} (hs : I s) :
  I (run step fuel s)
  := by
  induction fuel generalizing s with
  | zero => apply hs
  | succ fuel ih =>
      cases hstep : step s with
      | none =>
          rw [run_of_none hstep]
          apply hs
      | some s' =>
          rw [run_of_some hstep]
          apply ih (h s s' hs hstep)

/-- Once the loop has ended, more fuel changes nothing. -/
theorem run_add {step : σ → Option σ} {fuel : Nat} {s : σ}
    (h : step (run step fuel s) = none) (extra : Nat) :
  run step (fuel + extra) s = run step fuel s
  := by
  induction fuel generalizing s with
  | zero =>
      rw [run] at h
      rw [run_of_none h, run_of_none h]
  | succ fuel ih =>
      cases hstep : step s with
      | none => rw [run_of_none hstep, run_of_none hstep]
      | some s' =>
          rw [run_of_some hstep] at h
          rw [Nat.add_right_comm, run_of_some hstep, run_of_some hstep]
          apply ih h

/-- A map that carries the rounds of one loop to the rounds of another carries its
runs to the runs of the other. -/
theorem map_run {step : σ → Option σ} {step' : τ → Option τ} (f : σ → τ)
    (h : ∀ s, step' (f s) = (step s).map f) (fuel : Nat) (s : σ) :
  f (run step fuel s) = run step' fuel (f s)
  := by
  induction fuel generalizing s with
  | zero => rfl
  | succ fuel ih =>
      have hs := h s
      cases hstep : step s with
      | none =>
          rw [hstep] at hs
          rw [run_of_none hstep, run_of_none hs]
      | some s' =>
          rw [hstep] at hs
          rw [run_of_some hstep, run_of_some hs]
          apply ih

/-! ### Loops over a list -/

variable {α : Type*} {f : σ → α → Option σ}

/-- The state after a loop over a list that may end early. -/
def fold (f : σ → α → Option σ) : σ → List α → σ
  | s, [] => s
  | s, a :: as =>
      match f s a with
      | none => s
      | some s' => fold f s' as

theorem fold_cons_of_none {s : σ} {a : α} (h : f s a = none) (as : List α) :
  fold f s (a :: as) = s
  := by
  rw [fold, h]

theorem fold_cons_of_some {s s' : σ} {a : α} (h : f s a = some s') (as : List α) :
  fold f s (a :: as) = fold f s' as
  := by
  rw [fold, h]

end While
