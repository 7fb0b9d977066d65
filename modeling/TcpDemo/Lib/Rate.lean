import TcpDemo.Lib.Typestate

/-!
# Tasks that pause

A task that sleeps between two calls of a kind makes only so many of them in a given time.
Calls are spaced by `d` ticks if every window of a run has at most one of them more than the
ticks slept in it allow: `d` for each (`Spaced`). A run before its first such call counts as
rested, and so does a window.

The protocol behind it is the `limiter`: its state is the ticks slept since the last call of
the kind, and another one is allowed once they are `d`.

## Main definitions

* `slept` — the ticks slept in a trace.
* `Spaced` — the bound on the calls in every window of a trace.
* `limiter` — the protocol.
* `Typestate.Follows.spaced`, `Spaced.moment` — the rules for traces and for tasks.
-/

namespace Interaction
open Traces Typestate

variable {I : Interface}

/-- The ticks slept in a trace. -/
def slept (ticks : Event I → ℕ) : Trace I → ℕ
  | [] => 0
  | e :: evs => ticks e + slept ticks evs

/-- In every window the marked calls are at most one more than its ticks allow. -/
def Spaced (d : ℕ) (mark : Event I → Bool) (ticks : Event I → ℕ) (tr : Trace I) : Prop :=
  ∀ window, window <:+: tr → d * window.countP mark ≤ slept ticks window + d

/-- The protocol of a task that sleeps `d` ticks from one marked call to the next. Its state is
the ticks slept since the last one; it starts rested. -/
@[reducible] def limiter (d : ℕ) (mark : Event I → Bool) (ticks : Event I → ℕ) : Typestate I where
  State := ℕ
  start := d
  next s e := if mark e then if d ≤ s then some (ticks e) else none else some (s + ticks e)

section Limiter
variable {d s s' : ℕ} {mark : Event I → Bool} {ticks : Event I → ℕ} {e : Event I}
  {evs tr : Trace I}

@[simp] theorem slept_nil : slept ticks [] = 0 := rfl

@[simp] theorem slept_cons : slept ticks (e :: evs) = ticks e + slept ticks evs := rfl

theorem next_marked (hmark : mark e = true) (hs : d ≤ s) :
    (limiter d mark ticks).next s e = some (ticks e) := by
  simp [hmark, hs]

theorem next_unmarked (hmark : mark e = false) :
    (limiter d mark ticks).next s e = some (s + ticks e) := by
  simp [hmark]

/-- Without a marked call there is only more sleep. -/
theorem follows_unmarked (h : ∀ e ∈ evs, mark e = false) :
    (limiter d mark ticks).Follows evs s (s + slept ticks evs) := by
  induction evs generalizing s with
  | nil => exact rfl
  | cons e evs ih =>
    refine ⟨s + ticks e, next_unmarked (h e List.mem_cons_self), ?_⟩
    rw [slept_cons, ← Nat.add_assoc]
    exact ih fun e' he' => h e' (List.mem_cons_of_mem _ he')

/-- Each marked call uses up `d` of the ticks slept. -/
theorem credit (h : (limiter d mark ticks).Follows evs s s') :
    s' + d * evs.countP mark ≤ s + slept ticks evs := by
  induction evs generalizing s with
  | nil =>
    obtain rfl : s = s' := h
    simp
  | cons e evs ih =>
    obtain ⟨mid, hnext, hevs⟩ := h
    have hmid := ih hevs
    by_cases hmark : mark e = true
    · obtain ⟨hs, rfl⟩ : d ≤ s ∧ ticks e = mid := by simpa [hmark] using hnext
      rw [List.countP_cons_of_pos hmark, slept_cons, Nat.mul_succ]
      omega
    · obtain rfl : s + ticks e = mid := by simpa [hmark] using hnext
      rw [List.countP_cons_of_neg hmark, slept_cons]
      omega

/-- From the first marked call on, the credit of a window is what was slept in it. -/
theorem follows_window (h : (limiter d mark ticks).Follows evs s s') :
    d * evs.countP mark ≤ slept ticks evs + d := by
  induction evs generalizing s with
  | nil => simp
  | cons e evs ih =>
    obtain ⟨mid, hnext, hevs⟩ := h
    by_cases hmark : mark e = true
    · obtain ⟨-, rfl⟩ : d ≤ s ∧ ticks e = mid := by simpa [hmark] using hnext
      have hcredit := credit hevs
      rw [List.countP_cons_of_pos hmark, slept_cons, Nat.mul_succ]
      omega
    · have hrest := ih hevs
      rw [List.countP_cons_of_neg hmark, slept_cons]
      omega

/-- **The rule for traces.** -/
theorem Typestate.Follows.spaced (h : (limiter d mark ticks).Follows tr s s') :
    Spaced d mark ticks tr := by
  rintro window ⟨pre, post, rfl⟩
  obtain ⟨mid, hfirst, -⟩ := follows_append.mp h
  obtain ⟨_, -, hwindow⟩ := follows_append.mp hfirst
  exact follows_window hwindow

/-- **The rule for tasks.** A task whose stretches keep to the protocol makes its marked calls
at that rate, up to every moment of a run. -/
theorem Spaced.moment {T : Task I} {J : T.Label → ℕ → Prop} (h0 : J T.start d)
    (hbody : ∀ l s, J l s → (limiter d mark ticks).Leads (T.body l) s J) {env : Environment I}
    (h : T.Moment env tr) : Spaced d mark ticks tr := by
  obtain ⟨_, hfollows⟩ := Follows.moment (N := limiter d mark ticks) h0 hbody h
  exact hfollows.spaced

end Limiter

end Interaction
