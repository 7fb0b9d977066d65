import TcpDemo.EchoClient.Progress
import TcpDemo.Lib.Wrap

/-!
# When the drain loop ends

Behind `shutdown` the client receives until an error, or until `xReceiveTimeOut` has
passed since it entered the loop. The tick count it reads has 32 bits and wraps around, so
the difference of two readings is the time between them only if that time is less than a
whole turn. It is: the loop goes round again only while less than the time-out has passed,
and one more pass takes less than a turn without it (`drain_exits_iff`).
-/

namespace TcpDemo.EchoClient
open Interaction CBytes FreeRTOS FreeRTOS.Call

/-! ## The clock -/

/-- The tick count shows a clock that never wraps, read by the `i`-th call at `clock i`. -/
def ShowsClock (env : Environment Api) (clock : ℕ → ℕ) : Prop :=
  ∀ i, env i xTaskGetTickCount = UInt32.ofNat (clock i)

/-- The true time of the readings of the drain loop that is entered after the calls `tr`:
reading 0 on entering, the last call of `tr`, and reading `j + 1` in pass `j`. -/
def tick (clock : ℕ → ℕ) (tr : Trace Api) (j : ℕ) : ℕ := clock (tr.length - 1 + 2 * j)

section Drain
variable {mss : Mss}

/-- What `recv` returns in pass `j` of the drain loop that is entered after the calls `tr`. -/
def drainResult (env : Environment Api) (v : Vars mss) (tr : Trace Api) (j : ℕ) : ℤ :=
  (env (tr.length + 2 * j) (.recv v.xSocket 0 mss.echoBufferSizes)).result

/-- There is a reason to leave in pass `j`: an error, or the time is up. -/
def Ends (env : Environment Api) (clock : ℕ → ℕ) (v : Vars mss) (tr : Trace Api) (j : ℕ) : Prop :=
  drainResult env v tr j < 0 ∨ tick clock tr 0 + 4000 ≤ tick clock tr (j + 1)

theorem toNat_xReceiveTimeOut : xReceiveTimeOut.toNat = 4000 := rfl

/-! ## Into the loop -/

/-- A stretch of code that ends at the drain loop reads the clock last. -/
def ReadsLast (evs : Trace Api) (l : FreeRTOS.Label (Loc mss)) : Prop :=
  ∀ v, l = .code (.draining v) → ∃ pre, evs = pre ++ [⟨xTaskGetTickCount, v.xTimeOnEntering⟩]

variable {v : Vars mss} {evs : Trace Api} {l : FreeRTOS.Label (Loc mss)}

theorem ReadsLast.append (h : ReadsLast evs l) (tr : Trace Api) : ReadsLast (tr ++ evs) l := by
  intro v hv
  obtain ⟨pre, rfl⟩ := h v hv
  exact ⟨tr ++ pre, (List.append_assoc _ _ _).symm⟩

theorem readsLast_of_ne (h : ∀ v, l ≠ .code (.draining v)) : ReadsLast evs l :=
  fun v hv => absurd hv (h v)

theorem finish_readsLast (h : (finish v).Issues evs l) : ReadsLast evs l := by
  obtain ⟨r, t, rfl, rfl⟩ := finish_step h
  rintro _ ⟨⟩
  exact ⟨[⟨shutdown v.xSocket, r⟩], rfl⟩

theorem nextRequest_readsLast (h : (nextRequest v).Issues evs l) : ReadsLast evs l := by
  rw [nextRequest] at h
  split at h
  · obtain ⟨rfl, rfl⟩ := Program.issues_ret.mp h
    exact readsLast_of_ne (by simp)
  · exact finish_readsLast h

theorem replied_readsLast (h : (replied v).Issues evs l) : ReadsLast evs l := by
  rcases replied_step h with ⟨-, -, rfl, rfl⟩ | ⟨-, -, rfl, rfl⟩ | ⟨-, h⟩
  · exact readsLast_of_ne (by simp)
  · exact readsLast_of_ne (by simp)
  · exact finish_readsLast h

/-- The drain loop is entered behind a reading of the clock, from wherever. -/
theorem body_readsLast {x : ℕ} {cTx cRx : Buffer mss.echoBufferSizes}
    {l' : FreeRTOS.Label (Loc mss)} {tr : Trace Api} (hinv : ExchangeInv l tr)
    (hl : ¬ AtDraining l tr) (h : ((prvEchoClientTask x cTx cRx).body l).Issues evs l') :
    ReadsLast evs l' := by
  cases l with
  | vAssertCalled looping loc =>
    -- the loop of the assertion hook has no way back into the drain loop
    rcases vAssertCalled_step h with ⟨-, rfl, -⟩ | ⟨-, rfl, -⟩
    · exact readsLast_of_ne (by simp)
    · rintro v ⟨⟩
      exact hinv.elim
  | code l =>
    cases l with
    | connecting v =>
      rcases connecting_step (x := x) h with ⟨s, rfl, -⟩ | ⟨rfl, -⟩
      · exact readsLast_of_ne (by simp)
      · exact readsLast_of_ne (by simp)
    | created v =>
      rcases created_step (x := x) h with ⟨o, rfl, -⟩ | ⟨o, ret, r, -, rfl, -⟩
      · exact readsLast_of_ne (by simp)
      · exact readsLast_of_ne (by simp)
    | drawing v =>
      obtain ⟨r, rest, rfl, ⟨-, -, rfl⟩ | ⟨n, hn, hsize, hsend⟩⟩ := drawing_step (x := x) h
      · exact readsLast_of_ne (by simp)
      · obtain ⟨a, tx, rest', -, rfl, ⟨-, hfinish⟩ | ⟨-, -, rfl⟩⟩ :=
          sendRequest_step hn hsize hsend
        · exact (finish_readsLast hfinish).append (⟨xApplicationGetRandomNumber, r⟩ :: _)
        · exact readsLast_of_ne (by simp)
    | receiving v =>
      exact receiving_rule (x := x) (P := ReadsLast) replied_readsLast replied_readsLast
        (readsLast_of_ne (by simp)) (fun hrest => hrest.append [_]) h
    | compared v =>
      rcases compared_step (x := x) h with ⟨-, rest, rfl, hnext⟩ | ⟨-, rest, rfl, hfinish⟩
      · exact (nextRequest_readsLast hnext).append [_]
      · exact (finish_readsLast hfinish).append [_]
    | draining v => exact absurd ⟨v, rfl⟩ hl

/-! ## One pass -/

section Pass
variable {x : ℕ} {env : Environment Api} {tr : Trace Api}

/-- The client leaves the loop in the pass it makes after the calls `tr`. -/
def Leaves (env : Environment Api) (v : Vars mss) (tr : Trace Api) : Prop :=
  (env tr.length (.recv v.xSocket 0 mss.echoBufferSizes)).result < 0 ∨
    ¬ env (tr.length + 1) xTaskGetTickCount - v.xTimeOnEntering < xReceiveTimeOut

theorem draining_leaves (h : Leaves env v tr) :
    AtConnecting ((body x (.draining v)).exec env tr).1 ((body x (.draining v)).exec env tr).2 := by
  simp only [body, FreeRTOS.recv, FreeRTOS.xTaskGetTickCount, Program.call_bind, Program.ret_bind,
    Program.exec_call]
  by_cases hneg : (env tr.length (.recv v.xSocket 0 mss.echoBufferSizes)).result < 0
  · rw [if_pos hneg]
    exact ⟨_, rfl⟩
  · rw [if_neg hneg]
    simp only [Program.exec_call, List.length_append, List.length_singleton]
    rw [if_neg (h.resolve_left hneg)]
    exact ⟨_, rfl⟩

theorem draining_stays (h : ¬ Leaves env v tr) : ∃ b tr', (body x (.draining v)).exec env tr =
    (.code (.draining { v with pcReceivedString := b }), tr') ∧ tr'.length = tr.length + 2 := by
  obtain ⟨hpos, htime⟩ := not_or.mp h
  simp only [body, FreeRTOS.recv, FreeRTOS.xTaskGetTickCount, Program.call_bind, Program.ret_bind,
    Program.exec_call]
  rw [if_neg hpos]
  simp only [Program.exec_call, List.length_append, List.length_singleton]
  rw [if_pos (not_not.mp htime)]
  exact ⟨_, _, rfl, by simp⟩

end Pass

/-! ## A whole drain -/

section Run
variable {x : ℕ} {cTx cRx : Buffer mss.echoBufferSizes} {env : Environment Api}
  {clock : ℕ → ℕ} {k j : ℕ} {tr : Trace Api}

/-- The pass from loop head `k` of the run enters the drain loop, with the variables `v` and
after the calls `tr`. -/
structure Enters (x : ℕ) (cTx cRx : Buffer mss.echoBufferSizes) (env : Environment Api) (k : ℕ)
    (v : Vars mss) (tr : Trace Api) : Prop where
  before : ¬ AtDraining ((prvEchoClientTask x cTx cRx).head env k).1
    ((prvEchoClientTask x cTx cRx).head env k).2
  entered : (prvEchoClientTask x cTx cRx).head env (k + 1) = (.code (.draining v), tr)

/-- The client makes pass `j` of the drain loop it has entered from loop head `k`. -/
def Makes (x : ℕ) (cTx cRx : Buffer mss.echoBufferSizes) (env : Environment Api) (k j : ℕ) :
    Prop :=
  ∀ m ≤ j, AtDraining ((prvEchoClientTask x cTx cRx).head env (k + 1 + m)).1
    ((prvEchoClientTask x cTx cRx).head env (k + 1 + m)).2

/-- The client leaves the drain loop in pass `j`, and is back at the outer loop. -/
def LeavesIn (x : ℕ) (cTx cRx : Buffer mss.echoBufferSizes) (env : Environment Api) (k j : ℕ) :
    Prop :=
  Makes x cTx cRx env k j ∧
    AtConnecting ((prvEchoClientTask x cTx cRx).head env (k + 1 + (j + 1))).1
      ((prvEchoClientTask x cTx cRx).head env (k + 1 + (j + 1))).2

/-- Each pass, from one reading of the clock to the next, takes less than a turn of the tick
count without the time-out. -/
def Advances (x : ℕ) (cTx cRx : Buffer mss.echoBufferSizes) (env : Environment Api)
    (clock : ℕ → ℕ) (k : ℕ) (v : Vars mss) (tr : Trace Api) : Prop :=
  ∀ j, Makes x cTx cRx env k j → 0 ≤ drainResult env v tr j →
    tick clock tr j ≤ tick clock tr (j + 1) ∧
      tick clock tr (j + 1) < tick clock tr j + (2 ^ 32 - 4000)

/-- Reading 0 is what the client remembers from entering the loop. -/
theorem Enters.reading (h : Enters x cTx cRx env k v tr) (hclock : ShowsClock env clock) :
    0 < tr.length ∧ v.xTimeOnEntering = .ofNat (tick clock tr 0) := by
  obtain ⟨evs, htr, hstep⟩ := Task.head_step (T := prvEchoClientTask x cTx cRx) env k
  have henv := Task.head_agrees (T := prvEchoClientTask x cTx cRx) env (k + 1)
  rw [h.entered] at htr hstep henv
  obtain ⟨pre, rfl⟩ := body_readsLast (exchange_inv x cTx cRx env k) h.before hstep v rfl
  obtain rfl : tr = _ ++ [_] := htr.trans (List.append_assoc _ _ _).symm
  have hread := henv.answer.symm.trans (hclock _)
  exact ⟨by simp, by simpa [tick] using hread⟩

/-- After `j` passes without a reason to leave: the time-out has not passed. -/
structure DrainInv (x : ℕ) (cTx cRx : Buffer mss.echoBufferSizes) (env : Environment Api)
    (clock : ℕ → ℕ) (k : ℕ) (v : Vars mss) (tr : Trace Api) (j : ℕ) : Prop where
  draining : ∃ b trj, (prvEchoClientTask x cTx cRx).head env (k + 1 + j) =
    (.code (.draining { v with pcReceivedString := b }), trj) ∧ trj.length = tr.length + 2 * j
  entry_le : tick clock tr 0 ≤ tick clock tr j
  lt_timeOut : tick clock tr j < tick clock tr 0 + 4000

/-- Before the time-out, one more pass keeps the readings within a turn of each other, and
the test of the source is the one of the true clock. -/
theorem leaves_iff_ends (hclock : ShowsClock env clock) (htr : 0 < tr.length)
    (hentry : v.xTimeOnEntering = .ofNat (tick clock tr 0)) {b : Buffer mss.echoBufferSizes}
    {trj : Trace Api} (hlen : trj.length = tr.length + 2 * j)
    (hadvance : 0 ≤ drainResult env v tr j → tick clock tr 0 ≤ tick clock tr (j + 1) ∧
      tick clock tr (j + 1) < tick clock tr 0 + 2 ^ 32) :
    Leaves env { v with pcReceivedString := b } trj ↔ Ends env clock v tr j := by
  rw [Leaves, Ends, drainResult, hlen]
  refine or_congr_right' fun hneg => ?_
  obtain ⟨hle, hlt⟩ := hadvance (not_lt.mp hneg)
  have hread : env (tr.length + 2 * j + 1) xTaskGetTickCount =
      UInt32.ofNat (tick clock tr (j + 1)) := by
    rw [hclock, tick]
    congr 2
    omega
  rw [hread, hentry, UInt32.lt_iff_toNat_lt, Wrap.toNat_ofNat_sub hle hlt, toNat_xReceiveTimeOut]
  omega

/-- One pass: the client leaves for a reason, or the invariant holds one pass on. -/
theorem DrainInv.step (hclock : ShowsClock env clock) (henter : Enters x cTx cRx env k v tr)
    (hadvance : Advances x cTx cRx env clock k v tr) (hmakes : Makes x cTx cRx env k j)
    (h : DrainInv x cTx cRx env clock k v tr j) :
    (Ends env clock v tr j →
      AtConnecting ((prvEchoClientTask x cTx cRx).head env (k + 1 + (j + 1))).1
        ((prvEchoClientTask x cTx cRx).head env (k + 1 + (j + 1))).2) ∧
    (¬ Ends env clock v tr j → DrainInv x cTx cRx env clock k v tr (j + 1)) := by
  obtain ⟨htr, hentry⟩ := henter.reading hclock
  obtain ⟨⟨b, trj, hhead, hlen⟩, hle, hlt⟩ := h
  have hturn : 0 ≤ drainResult env v tr j → tick clock tr 0 ≤ tick clock tr (j + 1) ∧
      tick clock tr (j + 1) < tick clock tr 0 + 2 ^ 32 := by
    intro hresult
    obtain ⟨hmono, hless⟩ := hadvance j hmakes hresult
    exact ⟨hle.trans hmono, by omega⟩
  have hpass : (prvEchoClientTask x cTx cRx).head env (k + 1 + (j + 1)) =
      (body x (.draining { v with pcReceivedString := b })).exec env trj := by
    rw [← Nat.add_assoc, Task.head_succ, hhead]
    rfl
  rw [hpass, ← leaves_iff_ends hclock htr hentry hlen hturn]
  refine ⟨draining_leaves, fun hstays => ?_⟩
  obtain ⟨b', trj', hstep, hlen'⟩ := draining_stays (x := x) hstays
  rw [leaves_iff_ends hclock htr hentry hlen hturn, Ends, not_or, not_lt, not_le] at hstays
  exact ⟨⟨b', trj', hpass.trans hstep, by omega⟩, (hturn hstays.1).1, hstays.2⟩

theorem Makes.mono {i : ℕ} (h : Makes x cTx cRx env k j) (hij : i ≤ j) :
    Makes x cTx cRx env k i :=
  fun m hm => h m (hm.trans hij)

theorem not_atConnecting {l : FreeRTOS.Label (Loc mss)} (h : AtDraining l tr) :
    ¬ AtConnecting l tr := by
  obtain ⟨v, rfl⟩ := h
  rintro ⟨w, hw⟩
  simp at hw

/-- The loop invariant, at the passes the client makes. -/
theorem Makes.inv (hclock : ShowsClock env clock) (henter : Enters x cTx cRx env k v tr)
    (hadvance : Advances x cTx cRx env clock k v tr) (hmakes : Makes x cTx cRx env k j) :
    DrainInv x cTx cRx env clock k v tr j := by
  induction j with
  | zero => exact ⟨⟨v.pcReceivedString, tr, henter.entered, rfl⟩, le_rfl, by omega⟩
  | succ j ih =>
    have hbefore := hmakes.mono (Nat.le_succ j)
    obtain ⟨hends, hstays⟩ := (ih hbefore).step hclock henter hadvance hbefore
    by_cases hend : Ends env clock v tr j
    · exact absurd (hends hend) (not_atConnecting (hmakes (j + 1) le_rfl))
    · exact hstays hend

/-- A client that made pass `j` is back at the outer loop if there was a reason to leave,
and makes the next pass otherwise. -/
theorem Makes.next (hclock : ShowsClock env clock) (henter : Enters x cTx cRx env k v tr)
    (hadvance : Advances x cTx cRx env clock k v tr) (hmakes : Makes x cTx cRx env k j) :
    (AtConnecting ((prvEchoClientTask x cTx cRx).head env (k + 1 + (j + 1))).1
      ((prvEchoClientTask x cTx cRx).head env (k + 1 + (j + 1))).2 ↔ Ends env clock v tr j) ∧
    (Makes x cTx cRx env k (j + 1) ↔ ¬ Ends env clock v tr j) := by
  obtain ⟨hends, hstays⟩ :=
    (hmakes.inv hclock henter hadvance).step hclock henter hadvance hmakes
  by_cases hend : Ends env clock v tr j
  · have hback := hends hend
    refine ⟨iff_of_true hback hend, iff_of_false (fun h => ?_) (not_not.mpr hend)⟩
    exact not_atConnecting (h (j + 1) le_rfl) hback
  · obtain ⟨b, trj, hhead, -⟩ := (hstays hend).draining
    have hagain : AtDraining ((prvEchoClientTask x cTx cRx).head env (k + 1 + (j + 1))).1
        ((prvEchoClientTask x cTx cRx).head env (k + 1 + (j + 1))).2 :=
      ⟨_, congrArg Prod.fst hhead⟩
    refine ⟨iff_of_false (not_atConnecting hagain) hend, iff_of_true (fun m hm => ?_) hend⟩
    rcases Nat.le_succ_iff.mp hm with hm | rfl
    · exact hmakes m hm
    · exact hagain

/-- The passes the client makes are those up to the first reason to leave. -/
theorem makes_iff (hclock : ShowsClock env clock) (henter : Enters x cTx cRx env k v tr)
    (hadvance : Advances x cTx cRx env clock k v tr) :
    Makes x cTx cRx env k j ↔ ∀ i < j, ¬ Ends env clock v tr i := by
  induction j with
  | zero =>
    refine iff_of_true (fun m hm => ?_) (by simp)
    obtain rfl := Nat.le_zero.mp hm
    exact ⟨v, congrArg Prod.fst henter.entered⟩
  | succ j ih =>
    rw [Nat.forall_lt_succ_right, ← ih]
    constructor
    · intro h
      have hmakes := h.mono (Nat.le_succ j)
      exact ⟨hmakes, (hmakes.next hclock henter hadvance).2.mp h⟩
    · rintro ⟨hmakes, hend⟩
      exact (hmakes.next hclock henter hadvance).2.mpr hend

/-- **The drain loop ends when it should**, whatever the clock shows on entering: in the
first pass in which `recv` fails or the time-out has passed by the true clock. -/
theorem drain_exits_iff (hclock : ShowsClock env clock) (henter : Enters x cTx cRx env k v tr)
    (hadvance : Advances x cTx cRx env clock k v tr) (j : ℕ) :
    LeavesIn x cTx cRx env k j ↔
      Ends env clock v tr j ∧ ∀ i < j, ¬ Ends env clock v tr i := by
  rw [LeavesIn, and_comm, ← makes_iff hclock henter hadvance]
  exact and_congr_left fun hmakes => (hmakes.next hclock henter hadvance).1

end Run

/-- A clock that is 100 ticks short of a turn when the client, whose `send` fails, enters
the drain loop, and goes on by 2000 ticks a pass. -/
def lateClock : Environment Api
  | i, .xTaskGetTickCount => .ofNat (2 ^ 32 - 13100 + 1000 * i)
  | _, .xApplicationGetRandomNumber => 60
  | i, c => scripted (fun _ => []) (fun _ => -1) i c

/-- The client leaves in the second pass, though the tick count has wrapped. -/
theorem drain_exits_iff_late : LeavesIn 0 (.replicate defaultMss.echoBufferSizes 0)
    (.replicate defaultMss.echoBufferSizes 0) lateClock 2 1 := by
  obtain ⟨v, tr, hhead, hlen⟩ : ∃ v tr, (prvEchoClientTask 0
      (.replicate defaultMss.echoBufferSizes 0)
      (.replicate defaultMss.echoBufferSizes 0)).head lateClock 3 = (.code (.draining v), tr) ∧
      tr.length = 14 := ⟨_, _, rfl, rfl⟩
  obtain ⟨w, hbefore⟩ : ∃ w, ((prvEchoClientTask 0
      (.replicate defaultMss.echoBufferSizes 0)
      (.replicate defaultMss.echoBufferSizes 0)).head lateClock 2).1 = .code (.drawing w) :=
    ⟨_, rfl⟩
  have henter : Enters 0 (.replicate defaultMss.echoBufferSizes 0)
      (.replicate defaultMss.echoBufferSizes 0) lateClock 2 v tr := by
    refine ⟨?_, hhead⟩
    rintro ⟨w', hw'⟩
    rw [hbefore] at hw'
    simp at hw'
  have htick : ∀ j, tick (fun i => 2 ^ 32 - 13100 + 1000 * i) tr j = 2 ^ 32 - 100 + 2000 * j := by
    intro j
    rw [tick, hlen]
    omega
  refine (drain_exits_iff (fun _ => rfl) henter (fun j _ _ => ?_) 1).mpr ⟨.inr ?_, ?_⟩
  · rw [htick, htick]
    omega
  · rw [htick, htick]
  · intro i hi
    obtain rfl : i = 0 := by omega
    have hnothing : drainResult lateClock v tr 0 = 0 := rfl
    rw [Ends, htick, htick, hnothing]
    exact not_or.mpr ⟨lt_irrefl 0, by decide⟩

end Drain

end TcpDemo.EchoClient
