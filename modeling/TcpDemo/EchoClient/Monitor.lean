import TcpDemo.Lib.Wrap
import Mathlib.Algebra.Order.Ring.Nat
import Mathlib.Data.List.DropRight
import Mathlib.Data.List.FinRange

/-!
# The health monitor of the echo clients

`xAreSingleTaskTCPEchoClientsStillRunning` compares the counters of the client tasks
with what it has kept of them at its previous call. It keeps the number of cycles, but
where it should keep the number of connections it writes its own, which is always zero,
back to the client. So the verdict is right, as `ulConnections` counts anew from each
call on, while the statistics are lost.

A history is any interleaving of the steps of the clients and of monitor calls.

## Main definitions

* `xAreSingleTaskTCPEchoClientsStillRunning` — the verdict, and what a call writes.
* `Step`, `after` — the steps, and the memory after a history.
* `sinceMonitor` — the part of a history behind its last monitor call.
-/

namespace TcpDemo.EchoClient

variable {n : ℕ}

/-- The counters of `n` client tasks. -/
@[ext] structure Statistics (n : ℕ) where
  ulTxRxCycles : Fin n → UInt32
  ulTxRxFailures : Fin n → UInt32
  ulConnections : Fin n → UInt32

/-- The counters, and the static snapshots of the monitor. -/
@[ext] structure Memory (n : ℕ) extends Statistics n where
  ulLastEchoSocketCount : Fin n → UInt32
  ulLastConnections : Fin n → UInt32

/-- All of them are zero at the start. -/
def Memory.start : Memory n := ⟨⟨fun _ => 0, fun _ => 0, fun _ => 0⟩, fun _ => 0, fun _ => 0⟩

/-- `pdPASS` and `pdFAIL` -/
def pdPass : ℤ := 1
def pdFail : ℤ := 0

/-- One pass of the loop of the monitor, on `xReturn` and the memory. -/
def visit (a : ℤ × Memory n) (x : Fin n) : ℤ × Memory n :=
  let (xReturn, m) := a
  let (xReturn, m) :=
    if m.ulTxRxCycles x = m.ulLastEchoSocketCount x then (pdFail, m)
    else (xReturn, { m with
      ulLastEchoSocketCount := Function.update m.ulLastEchoSocketCount x (m.ulTxRxCycles x) })
  if m.ulConnections x = m.ulLastConnections x then (pdFail, m)
  else (xReturn, { m with
    ulConnections := Function.update m.ulConnections x (m.ulLastConnections x) })

/-- The verdict, and the memory after the call. -/
def xAreSingleTaskTCPEchoClientsStillRunning (m : Memory n) : ℤ × Memory n :=
  (List.finRange n).foldl visit (pdPass, m)

/-! ## One call -/

/-- The memory once the passes for the clients in `xs` are done. -/
def Memory.compared (m : Memory n) (xs : List (Fin n)) : Memory n := { m with
  ulLastEchoSocketCount := fun x => if x ∈ xs then m.ulTxRxCycles x else m.ulLastEchoSocketCount x
  ulConnections := fun x => if x ∈ xs then m.ulLastConnections x else m.ulConnections x }

theorem Memory.compared_nil (m : Memory n) : m.compared [] = m := by
  ext x <;> simp [Memory.compared]

theorem Memory.compared_cons (m : Memory n) (y : Fin n) (ys : List (Fin n)) :
    (m.compared [y]).compared ys = m.compared (y :: ys) := by
  ext x <;> by_cases hx : x ∈ ys <;> by_cases hy : x = y <;> simp [Memory.compared, hx, hy]

/-- Whichever branches it takes, a pass leaves the two pairs of counters equal. -/
theorem visit_memory (a : ℤ × Memory n) (x : Fin n) : (visit a x).2 = a.2.compared [x] := by
  obtain ⟨r, m⟩ := a
  unfold visit
  ext y <;> by_cases hcycles : m.ulTxRxCycles x = m.ulLastEchoSocketCount x <;>
    by_cases hconn : m.ulConnections x = m.ulLastConnections x <;>
    by_cases hy : y = x <;> simp [Memory.compared, hcycles, hconn, hy]

theorem visit_verdict (a : ℤ × Memory n) (x : Fin n) : (visit a x).1 = pdPass ↔
    a.1 = pdPass ∧ a.2.ulTxRxCycles x ≠ a.2.ulLastEchoSocketCount x ∧
      a.2.ulConnections x ≠ a.2.ulLastConnections x := by
  obtain ⟨r, m⟩ := a
  have hfail : pdFail ≠ pdPass := by decide
  unfold visit
  by_cases hcycles : m.ulTxRxCycles x = m.ulLastEchoSocketCount x <;>
    by_cases hconn : m.ulConnections x = m.ulLastConnections x <;>
    simp [hcycles, hconn, hfail]

/-- The loop over the clients in `xs`. -/
theorem foldl_visit (xs : List (Fin n)) (a : ℤ × Memory n) :
    (xs.foldl visit a).2 = a.2.compared xs := by
  induction xs generalizing a with
  | nil => rw [Memory.compared_nil]; rfl
  | cons y ys ih => rw [List.foldl_cons, ih, visit_memory, Memory.compared_cons]

theorem foldl_visit_verdict {xs : List (Fin n)} (hxs : xs.Nodup) (a : ℤ × Memory n) :
    (xs.foldl visit a).1 = pdPass ↔ a.1 = pdPass ∧ ∀ x ∈ xs,
      a.2.ulTxRxCycles x ≠ a.2.ulLastEchoSocketCount x ∧
      a.2.ulConnections x ≠ a.2.ulLastConnections x := by
  induction xs generalizing a with
  | nil => simp
  | cons y ys ih =>
    obtain ⟨hy, hys⟩ := List.nodup_cons.mp hxs
    rw [List.foldl_cons, ih hys, visit_verdict, visit_memory, List.forall_mem_cons, and_assoc]
    -- the counters of the clients still to come are as they were
    have hrest : ∀ x ∈ ys, x ≠ y := fun x hx hxy => hy (hxy ▸ hx)
    refine and_congr_right fun _ => and_congr_right fun _ => forall₂_congr fun x hx => ?_
    simp [Memory.compared, hrest x hx]

/-- **What a call writes.** -/
theorem monitor_memory (m : Memory n) : (xAreSingleTaskTCPEchoClientsStillRunning m).2 =
    { m with ulLastEchoSocketCount := m.ulTxRxCycles, ulConnections := m.ulLastConnections } := by
  rw [xAreSingleTaskTCPEchoClientsStillRunning, foldl_visit]
  simp [Memory.compared]

/-- **The verdict of a call.** -/
theorem monitor_verdict (m : Memory n) :
    (xAreSingleTaskTCPEchoClientsStillRunning m).1 = pdPass ↔
      ∀ x, m.ulTxRxCycles x ≠ m.ulLastEchoSocketCount x ∧
        m.ulConnections x ≠ m.ulLastConnections x := by
  rw [xAreSingleTaskTCPEchoClientsStillRunning, foldl_visit_verdict (List.nodup_finRange n)]
  simp

/-! ## Histories -/

/-- The steps: a client has connected, has verified an echo, or has found a mismatch, or
the monitor is called. -/
inductive Step (n : ℕ) where
  | connected (x : Fin n)
  | verified (x : Fin n)
  | mismatched (x : Fin n)
  | monitor
  deriving DecidableEq

/-- `counter[ x ]++` -/
def bump (counter : Fin n → UInt32) (x : Fin n) : Fin n → UInt32 :=
  Function.update counter x (counter x + 1)

/-- The effect of a step. -/
def Step.apply : Step n → Memory n → Memory n
  | .connected x, m => { m with ulConnections := bump m.ulConnections x }
  | .verified x, m => { m with ulTxRxCycles := bump m.ulTxRxCycles x }
  | .mismatched x, m => { m with ulTxRxFailures := bump m.ulTxRxFailures x }
  | .monitor, m => (xAreSingleTaskTCPEchoClientsStillRunning m).2

/-- The memory after a history. -/
def after (history : List (Step n)) : Memory n :=
  history.foldl (fun m step => step.apply m) .start

/-- The steps since the last monitor call, or since the start. -/
def sinceMonitor (history : List (Step n)) : List (Step n) :=
  history.rtakeWhile fun step => decide (step ≠ .monitor)

theorem bump_apply (counter : Fin n → UInt32) (x y : Fin n) :
    bump counter x y = counter y + UInt32.ofNat (if x = y then 1 else 0) := by
  by_cases hxy : x = y
  · subst hxy
    simp [bump]
  · simp [bump, Function.update_of_ne (Ne.symm hxy), hxy]

@[simp] theorem after_nil : after ([] : List (Step n)) = .start := rfl
@[simp] theorem after_snoc (history : List (Step n)) (step : Step n) :
    after (history ++ [step]) = step.apply (after history) := by simp [after]
@[simp] theorem sinceMonitor_nil : sinceMonitor ([] : List (Step n)) = [] := rfl
@[simp] theorem sinceMonitor_monitor (history : List (Step n)) :
    sinceMonitor (history ++ [.monitor]) = [] := by
  simp [sinceMonitor]
theorem sinceMonitor_snoc (history : List (Step n)) {step : Step n} (h : step ≠ .monitor) :
    sinceMonitor (history ++ [step]) = sinceMonitor history ++ [step] := by
  simp [sinceMonitor, h]

/-- What the counters and snapshots hold. -/
structure MonitorInv (history : List (Step n)) (m : Memory n) : Prop where
  ulLastConnections : ∀ x, m.ulLastConnections x = 0
  ulConnections : ∀ x,
    m.ulConnections x = .ofNat ((sinceMonitor history).count (.connected x))
  sinceSnapshot : ∀ x, m.ulTxRxCycles x = m.ulLastEchoSocketCount x +
    .ofNat ((sinceMonitor history).count (.verified x))
  ulTxRxCycles : ∀ x, m.ulTxRxCycles x = .ofNat (history.count (.verified x))
  ulTxRxFailures : ∀ x, m.ulTxRxFailures x = .ofNat (history.count (.mismatched x))

theorem monitorInv_step {history : List (Step n)} {m : Memory n} (h : MonitorInv history m)
    (step : Step n) : MonitorInv (history ++ [step]) (step.apply m) := by
  cases step with
  | monitor =>
    rw [Step.apply, monitor_memory]
    refine ⟨h.ulLastConnections, ?_, ?_, ?_, ?_⟩ <;> intro x
    · simpa using h.ulLastConnections x
    · simp
    · simpa using h.ulTxRxCycles x
    · simpa using h.ulTxRxFailures x
  | connected y =>
    have hsince := sinceMonitor_snoc history (show Step.connected y ≠ .monitor by simp)
    refine ⟨h.ulLastConnections, ?_, ?_, ?_, ?_⟩ <;> intro x
    · simp [Step.apply, hsince, bump_apply, List.count_singleton, UInt32.ofNat_add,
        h.ulConnections]
    · simpa [Step.apply, hsince, List.count_singleton] using h.sinceSnapshot x
    · simpa [Step.apply, List.count_singleton] using h.ulTxRxCycles x
    · simpa [Step.apply, List.count_singleton] using h.ulTxRxFailures x
  | verified y =>
    have hsince := sinceMonitor_snoc history (show Step.verified y ≠ .monitor by simp)
    refine ⟨h.ulLastConnections, ?_, ?_, ?_, ?_⟩ <;> intro x
    · simpa [Step.apply, hsince, List.count_singleton] using h.ulConnections x
    · simp [Step.apply, hsince, bump_apply, List.count_singleton, UInt32.ofNat_add,
        h.sinceSnapshot, UInt32.add_assoc]
    · simp [Step.apply, bump_apply, List.count_singleton, UInt32.ofNat_add, h.ulTxRxCycles]
    · simpa [Step.apply, List.count_singleton] using h.ulTxRxFailures x
  | mismatched y =>
    have hsince := sinceMonitor_snoc history (show Step.mismatched y ≠ .monitor by simp)
    refine ⟨h.ulLastConnections, ?_, ?_, ?_, ?_⟩ <;> intro x
    · simpa [Step.apply, hsince, List.count_singleton] using h.ulConnections x
    · simpa [Step.apply, hsince, List.count_singleton] using h.sinceSnapshot x
    · simpa [Step.apply, List.count_singleton] using h.ulTxRxCycles x
    · simp [Step.apply, bump_apply, List.count_singleton, UInt32.ofNat_add, h.ulTxRxFailures]

theorem monitor_inv (history : List (Step n)) : MonitorInv history (after history) := by
  induction history using List.reverseRecOn with
  | nil => exact ⟨fun _ => rfl, fun _ => rfl, fun _ => rfl, fun _ => rfl, fun _ => rfl⟩
  | append_singleton history step ih => rw [after_snoc]; exact monitorInv_step ih step

/-! ## The verdict -/

/-- Fewer than `2 ^ 32` steps of each kind a client since the last monitor call. -/
def FewSteps (history : List (Step n)) : Prop :=
  ∀ x, (sinceMonitor history).count (.connected x) < 2 ^ 32 ∧
    (sinceMonitor history).count (.verified x) < 2 ^ 32

instance : DecidablePred (FewSteps (n := n)) :=
  fun _ => inferInstanceAs (Decidable (∀ _, _ ∧ _))

/-- A counter that was advanced fewer than `2 ^ 32` times shows whether it was. -/
theorem advanced_iff {c : UInt32} {steps : List (Step n)} {step : Step n}
    (hfew : steps.count step < 2 ^ 32) :
    c + .ofNat (steps.count step) ≠ c ↔ step ∈ steps := by
  rw [ne_eq, Wrap.add_ofNat_eq_iff, ← List.count_pos_iff]
  omega

/-- **The verdict is exact.** A call returns `pdPASS` if and only if every client has
connected and has verified an echo since the last call. -/
theorem monitor_exact {history : List (Step n)} (hfew : FewSteps history) :
    (xAreSingleTaskTCPEchoClientsStillRunning (after history)).1 = pdPass ↔
      ∀ x, .connected x ∈ sinceMonitor history ∧ .verified x ∈ sinceMonitor history := by
  have hinv := monitor_inv history
  rw [monitor_verdict]
  refine forall_congr' fun x => ?_
  obtain ⟨hconnected, hverified⟩ := hfew x
  rw [hinv.sinceSnapshot, advanced_iff hverified, hinv.ulLastConnections, hinv.ulConnections,
    ← UInt32.zero_add (.ofNat _), advanced_iff hconnected, and_comm]

/-- Two clients, of which one has only connected since the call in between. -/
theorem monitor_exact_two : (xAreSingleTaskTCPEchoClientsStillRunning (after
    [.connected (0 : Fin 2), .verified 0, .monitor, .connected 0, .connected 1, .verified 1])).1 ≠
      pdPass :=
  fun h => absurd ((monitor_exact (by decide)).mp h 0).2 (by decide)

/-! ## The statistics -/

/-- The counters of the clients hold what they are named for. -/
def Accurate (history : List (Step n)) : Prop :=
  ∀ x, (after history).ulConnections x = .ofNat (history.count (.connected x)) ∧
    (after history).ulTxRxCycles x = .ofNat (history.count (.verified x)) ∧
    (after history).ulTxRxFailures x = .ofNat (history.count (.mismatched x))

/-- The statistics are accurate all along, and no monitor call changes them. -/
structure StatisticsKept (history : List (Step n)) : Prop where
  accurate : ∀ h, h <+: history → Accurate h
  unchanged : ∀ h, h ++ [.monitor] <+: history →
    (after (h ++ [.monitor])).toStatistics = (after h).toStatistics

/-- Whenever the monitor is called, each client has connected a multiple of `2 ^ 32` times. -/
def CalledOnWholeTurns (history : List (Step n)) : Prop :=
  ∀ h, h ++ [.monitor] <+: history → ∀ x, 2 ^ 32 ∣ h.count (.connected x)

/-- A call leaves `ulConnections` zero. -/
theorem ulConnections_monitor (history : List (Step n)) (x : Fin n) :
    (after (history ++ [.monitor])).ulConnections x = 0 := by
  have h := (monitor_inv (history ++ [.monitor])).ulConnections x
  rwa [sinceMonitor_monitor] at h

/-- Every other step keeps the statistics accurate, and a call does after whole turns. -/
theorem accurate_step {history : List (Step n)} (h : Accurate history) {step : Step n}
    (hturns : step = .monitor → ∀ x, 2 ^ 32 ∣ history.count (.connected x)) :
    Accurate (history ++ [step]) := by
  intro x
  have hinv := monitor_inv (history ++ [step])
  refine ⟨?_, hinv.ulTxRxCycles x, hinv.ulTxRxFailures x⟩
  cases step with
  | monitor =>
    rw [ulConnections_monitor, List.count_append]
    simpa using (Wrap.ofNat_eq_zero_iff.mpr (hturns rfl x)).symm
  | connected y =>
    simp [Step.apply, bump_apply, List.count_singleton, UInt32.ofNat_add, (h x).1]
  | verified y => simpa [Step.apply, List.count_singleton] using (h x).1
  | mismatched y => simpa [Step.apply, List.count_singleton] using (h x).1

theorem accurate_of_turns {history : List (Step n)} (h : CalledOnWholeTurns history) :
    Accurate history := by
  induction history using List.reverseRecOn with
  | nil => exact fun x => ⟨rfl, rfl, rfl⟩
  | append_singleton history step ih =>
    refine accurate_step (ih fun pre hpre => h pre (hpre.trans (List.prefix_append _ _))) ?_
    rintro rfl
    exact h history List.prefix_rfl

/-- **When the statistics are kept.** In a history, the statistics are accurate all along
and no monitor call changes them, if and only if the monitor is only called when each
client has connected a multiple of `2 ^ 32` times. -/
theorem statistics_kept_iff (history : List (Step n)) :
    StatisticsKept history ↔ CalledOnWholeTurns history := by
  constructor
  · intro h pre hpre x
    have hconn := (h.accurate _ hpre x).1
    rw [ulConnections_monitor, List.count_append] at hconn
    exact Wrap.ofNat_eq_zero_iff.mp (by simpa using hconn.symm)
  · intro h
    have hmono : ∀ pre, pre <+: history → CalledOnWholeTurns pre :=
      fun pre hpre pre' hpre' => h pre' (hpre'.trans hpre)
    refine ⟨fun pre hpre => accurate_of_turns (hmono pre hpre), fun pre hpre => ?_⟩
    rw [after_snoc, Step.apply, monitor_memory]
    -- the call writes zero to a counter that is zero
    refine Statistics.ext rfl rfl (funext fun x => ?_)
    have hconn := (accurate_of_turns (hmono pre ((List.prefix_append _ _).trans hpre)) x).1
    rw [hconn, Wrap.ofNat_eq_zero_iff.mpr (h pre hpre x)]
    exact (monitor_inv pre).ulLastConnections x

/-- One client connects, and the next call takes its count back to zero. -/
theorem statistics_lost_one : ¬ ∀ n (history : List (Step n)), StatisticsKept history := by
  intro h
  have hconn := ((h 1 [.connected 0, .monitor]).accurate _ List.prefix_rfl 0).1
  exact absurd hconn (by decide)

end TcpDemo.EchoClient
