import TcpDemo.Lib.Interaction

/-!
# Parties that answer by what was called before

An environment fixes the answer to the `i`-th call of a run beforehand. A party that keeps
a state of its own, as a generator of random numbers does, answers by the calls so far. It is
given here as a `Strategy`, and the run against it is computed by `Task.play`. The answers it
gives in that run make up an environment, `Task.environment`, so all that is proved about runs
against environments is about such runs too (`Task.head_environment`).
-/

namespace Interaction
variable {I : Interface} {α : Type}

/-- The answer to the `i`-th call, by the calls before it. -/
abbrev Strategy (I : Interface) := Trace I → Environment I

/-- Run a program after the calls `tr`, taking the answers from the strategy. -/
def Program.play (σ : Strategy I) : Program I α → Trace I → α × Trace I
  | .ret a, tr => (a, tr)
  | .call c k, tr => (k (σ tr tr.length c)).play σ (tr ++ [⟨c, σ tr tr.length c⟩])

theorem Program.play_isPrefix (σ : Strategy I) (p : Program I α) (tr : Trace I) :
    tr <+: (p.play σ tr).2 := by
  induction p generalizing tr with
  | ret a => exact List.prefix_rfl
  | call c k ih => exact (List.prefix_append _ _).trans (ih _ _)

/-- An environment that answers as the strategy does leads to the same run. -/
theorem Program.exec_eq_play {σ : Strategy I} {env : Environment I} (p : Program I α)
    {tr : Trace I} (h : ∀ pre, pre <+: (p.play σ tr).2 → env pre.length = σ pre pre.length) :
    p.exec env tr = p.play σ tr := by
  induction p generalizing tr with
  | ret a => rfl
  | call c k ih =>
    have hanswer := h tr ((call c k).play_isPrefix σ tr)
    rw [exec_call, hanswer]
    exact ih _ h

namespace Task
variable (T : Task I) (σ : Strategy I)

/-- The `k`-th loop head of the run against the strategy, with the calls before it. -/
def play : ℕ → T.Label × Trace I
  | 0 => (T.start, [])
  | k + 1 => (T.body (play k).1).play σ (play k).2

theorem play_isPrefix {j k : ℕ} (h : j ≤ k) : (T.play σ j).2 <+: (T.play σ k).2 := by
  induction h with
  | refl => exact List.prefix_rfl
  | step _ ih => exact ih.trans (Program.play_isPrefix σ _ _)

open Classical in
/-- The first `i` calls of the run against the strategy, if it makes so many. -/
noncomputable def firstCalls (i : ℕ) : Trace I :=
  if h : ∃ k, i ≤ (T.play σ k).2.length then (T.play σ h.choose).2.take i else []

/-- The answers of the strategy in its run. -/
noncomputable def environment : Environment I := fun i => σ (T.firstCalls σ i) i

variable {T σ}

theorem firstCalls_eq {k : ℕ} {pre : Trace I} (h : pre <+: (T.play σ k).2) :
    T.firstCalls σ pre.length = pre := by
  have hlong : ∃ k, pre.length ≤ (T.play σ k).2.length := ⟨k, h.length_le⟩
  rw [firstCalls, dif_pos hlong]
  have hpre : pre <+: (T.play σ hlong.choose).2 :=
    List.prefix_of_prefix_length_le (h.trans (T.play_isPrefix σ (le_max_left _ _)))
      (T.play_isPrefix σ (le_max_right _ _)) hlong.choose_spec
  exact (List.prefix_iff_eq_take.mp hpre).symm

/-- In the run the answer of the environment is that of the strategy. -/
theorem environment_apply {k : ℕ} {pre : Trace I} (h : pre <+: (T.play σ k).2) :
    T.environment σ pre.length = σ pre pre.length := by
  rw [environment, firstCalls_eq h]

/-- **The run against a strategy** is the run against its answers. -/
theorem head_environment (k : ℕ) : T.head (T.environment σ) k = T.play σ k := by
  induction k with
  | zero => rfl
  | succ k ih =>
    rw [head_succ, ih]
    exact Program.exec_eq_play _ fun pre hpre => environment_apply (k := k + 1) hpre

end Task
end Interaction
