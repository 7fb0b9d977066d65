import Mathlib.Data.Nat.Init

/-!
# Loops that may not end

`run test pass passes s` is the loop `while (test s) s = pass s;`, given up when it has
not ended within that many passes. A loop that ends gives the same state for every larger
number of passes, and the variant rule says that it ends and what holds then.

## Main definitions

* `run` — the loop, with a bound on its passes.
* `run_of_variant` — total correctness from an invariant and a variant.
-/

namespace While
variable {σ : Type}

/-- The state in which the loop ends, if it ends within `passes` tests. -/
def run (test : σ → Bool) (pass : σ → σ) : ℕ → σ → Option σ
  | 0, _ => none
  | passes + 1, s => if test s then run test pass passes (pass s) else some s

variable {test : σ → Bool} {pass : σ → σ}

theorem run_of_test {s : σ} (h : test s = true) (passes : ℕ) :
    run test pass (passes + 1) s = run test pass passes (pass s) := if_pos h

theorem run_of_not_test {s : σ} (h : test s = false) (passes : ℕ) :
    run test pass (passes + 1) s = some s := if_neg (by simp [h])

/-- **The variant rule.** If every pass keeps the invariant `P` and makes the variant
smaller, the loop ends, with the same state however many passes more it is given. There
`P` holds and the test fails. -/
theorem run_of_variant {P : σ → Prop} (variant : σ → ℕ)
    (hpass : ∀ s, P s → test s = true → P (pass s) ∧ variant (pass s) < variant s)
    {s : σ} (hs : P s) :
    ∃ s', (∀ passes > variant s, run test pass passes s = some s') ∧ P s' ∧ test s' = false := by
  induction hm : variant s using Nat.strong_induction_on generalizing s with
  | _ m ih =>
    cases htest : test s with
    | false =>
      refine ⟨s, fun passes hlt => ?_, hs, htest⟩
      obtain ⟨passes, rfl⟩ := Nat.exists_eq_succ_of_ne_zero (Nat.ne_zero_of_lt hlt)
      exact run_of_not_test htest passes
    | true =>
      obtain ⟨hP, hless⟩ := hpass s hs htest
      obtain ⟨s', hrun, hs'⟩ := ih _ (hm ▸ hless) hP rfl
      refine ⟨s', fun passes hlt => ?_, hs'⟩
      obtain ⟨passes, rfl⟩ := Nat.exists_eq_succ_of_ne_zero (Nat.ne_zero_of_lt hlt)
      rw [run_of_test htest]
      exact hrun passes (by omega)

end While
