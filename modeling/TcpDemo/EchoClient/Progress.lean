import TcpDemo.EchoClient.Iteration
import TcpDemo.Lib.Strategy
import TcpDemo.Platform.Random

/-!
# Does an iteration of the echo client come to its close?

A connected iteration goes from the draw of the length through the exchange to the drain
loop and closes its socket, and each of the three loops on the way ends: the generator
draws every length sooner or later, every `recv` brings the reply closer to its end, and
the clock passes the time-out. The one place it does not come back from is the assertion
in front of the comparison, which fails for just the replies that compare different.
-/

namespace TcpDemo.EchoClient
open Interaction Traces CBytes FreeRTOS FreeRTOS.Call

/-- Time goes on: the drain loop, in which every second call reads the clock, finds any
time-out passed sooner or later. -/
def ClockRuns (env : Environment Api) : Prop :=
  ∀ (i : ℕ) (t : UInt32), ∃ m, xReceiveTimeOut ≤ env (i + 2 * m) xTaskGetTickCount - t

section Progress
variable {mss : Mss}

/-- Where the loops of a connected iteration stand. -/
def AtDrawing (l : FreeRTOS.Label (Loc mss)) (_ : Trace Api) : Prop := ∃ v, l = .code (.drawing v)
def AtReceiving (l : FreeRTOS.Label (Loc mss)) (_ : Trace Api) : Prop :=
  ∃ v, l = .code (.receiving v)
def AtCompared (l : FreeRTOS.Label (Loc mss)) (_ : Trace Api) : Prop := ∃ v, l = .code (.compared v)
def AtDraining (l : FreeRTOS.Label (Loc mss)) (_ : Trace Api) : Prop := ∃ v, l = .code (.draining v)
def AtConnecting (l : FreeRTOS.Label (Loc mss)) (_ : Trace Api) : Prop :=
  ∃ v, l = .code (.connecting v)

/-- While the loop that draws a length goes on, from any of its passes, its numbers are
successive ones of `uxRand`. -/
def DrawsUxRand (x : ℕ) (cTx cRx : Buffer mss.echoBufferSizes) (env : Environment Api) : Prop :=
  ∀ k, ∃ ulNextRand, ∀ m,
    (∀ j ≤ m, AtDrawing ((prvEchoClientTask x cTx cRx).head env (k + j)).1
      ((prvEchoClientTask x cTx cRx).head env (k + j)).2) →
    env ((prvEchoClientTask x cTx cRx).head env (k + m)).2.length xApplicationGetRandomNumber =
      Platform.draw ulNextRand m

/-- An iteration that connected closes the socket it created, once, and is followed by
the next iteration. -/
def Closes (x : ℕ) (cTx cRx : Buffer mss.echoBufferSizes) (env : Environment Api) : Prop :=
  ∀ k j s evs, (iterations ((prvEchoClientTask x cTx cRx).head env k).2)[j]? = some (s, evs) →
    evs.any isConnected → ∃ n evs',
      (iterations ((prvEchoClientTask x cTx cRx).head env n).2)[j]? = some (s, evs') ∧
      closedSockets evs' = [s] ∧
      j + 1 < (iterations ((prvEchoClientTask x cTx cRx).head env n).2).length

/-- A reply that compares different is counted as a failure, once, and as nothing else. -/
def Records (x : ℕ) (cTx cRx : Buffer mss.echoBufferSizes) (env : Environment Api) : Prop :=
  ∀ k (i : ℕ) req evs,
    (exchanges ((prvEchoClientTask x cTx cRx).head env k).2)[i]? = some (req, evs) →
    Mismatch req evs → ∃ n, ∀ m ≥ n, ∃ evs',
      (exchanges ((prvEchoClientTask x cTx cRx).head env m).2)[i]? = some (req, evs') ∧
      evs'.countP (isIncrement .ulTxRxFailures) = 1 ∧ evs'.countP (isIncrement .ulTxRxCycles) = 0

/-- No reply of the run compares different. -/
def NoMismatch (x : ℕ) (cTx cRx : Buffer mss.echoBufferSizes) (env : Environment Api) : Prop :=
  ∀ k, ∀ y ∈ exchanges ((prvEchoClientTask x cTx cRx).head env k).2, ¬ Mismatch y.1 y.2

/-! ## To the close -/

/-- What holds at every loop head of a run without a mismatch. -/
def Undisturbed (l : FreeRTOS.Label (Loc mss)) (tr : Trace Api) : Prop :=
  ExchangeInv l tr ∧ ∀ y ∈ exchanges tr, ¬ Mismatch y.1 y.2

/-- Without a mismatch, the assertion in front of the comparison holds. -/
theorem Undisturbed.not_asserted {looping : UInt32} {v : Vars mss} {tr : Trace Api}
    (h : Undisturbed (.vAssertCalled looping (.compared v)) tr) : False := by
  obtain ⟨⟨-, req, evs, ⟨ss, hss, -⟩, -, hmis⟩, hno⟩ := h
  exact hno (req, evs) (mem_intervals.mpr (by simp [hss])) hmis

variable {x : ℕ} {cTx cRx : Buffer mss.echoBufferSizes} {env : Environment Api}

theorem NoMismatch.undisturbed (h : NoMismatch x cTx cRx env) (k : ℕ) :
    Undisturbed ((prvEchoClientTask x cTx cRx).head env k).1
      ((prvEchoClientTask x cTx cRx).head env k).2 :=
  ⟨exchange_inv x cTx cRx env k, h k⟩

/-- The drain loop ends when its time is up, if no error ends it before. -/
theorem draining_leads (hclock : ClockRuns env) :
    (prvEchoClientTask x cTx cRx).LeadsTo env AtDraining AtConnecting := by
  rintro k ⟨v, hv⟩
  obtain ⟨m, hm⟩ := hclock (((prvEchoClientTask x cTx cRx).head env k).2.length + 1)
    v.xTimeOnEntering
  -- the variant: how many readings of the clock remain until it has passed the time-out
  refine Task.LeadsTo.of_variant (T := prvEchoClientTask x cTx cRx) (J := fun _ _ => True)
    (P := fun m l tr => ∃ v, l = .code (.draining v) ∧
      xReceiveTimeOut ≤ env (tr.length + 1 + 2 * m) xTaskGetTickCount - v.xTimeOnEntering)
    (fun _ => trivial) ?_ m k ⟨v, hv, hm⟩
  rintro m l tr evs l' - - henv hstep ⟨v, rfl, hm⟩
  obtain ⟨a, b, ⟨t, ht, rfl, rfl⟩ | ⟨ticks, r, -, rfl, -⟩⟩ := draining_step (x := x) hstep
  · right
    have hclock : env (tr.length + 1) xTaskGetTickCount = t := by
      rw [List.append_cons] at henv
      simpa using henv.answer
    cases m with
    | zero =>
      rw [Nat.mul_zero, Nat.add_zero, hclock] at hm
      exact absurd ht (UInt32.not_lt.mpr hm)
    | succ m =>
      refine ⟨m, Nat.lt_succ_self m, _, rfl, ?_⟩
      have hlen : (tr ++ [⟨.recv v.xSocket 0 mss.echoBufferSizes, a⟩,
        ⟨xTaskGetTickCount, t⟩] : Trace Api).length + 1 + 2 * m = tr.length + 1 + 2 * (m + 1) := by
        simp
        omega
      rwa [hlen]
  · exact .inl ⟨_, rfl⟩

/-- Behind the comparison the client drains, since it makes one request a connection. -/
theorem compared_leads (h : NoMismatch x cTx cRx env) :
    (prvEchoClientTask x cTx cRx).LeadsTo env AtCompared AtDraining := by
  refine Task.LeadsTo.of_step h.undisturbed ?_
  rintro l tr evs l' ⟨hinv, -⟩ hstep ⟨v, rfl⟩
  obtain ⟨req, evs', -, hw, -⟩ := hinv
  rcases compared_step (x := x) hstep with ⟨-, rest, rfl, hrest⟩ | ⟨-, rest, rfl, hrest⟩
  · rw [nextRequest, if_neg (by simp [hw.lLoopCount, lMaxLoopCount])] at hrest
    obtain ⟨r, t, -, rfl⟩ := finish_step hrest
    exact ⟨_, rfl⟩
  · obtain ⟨r, t, -, rfl⟩ := finish_step hrest
    exact ⟨_, rfl⟩

/-- Behind the reply loop of a run without a mismatch. -/
theorem Undisturbed.replied {v : Vars mss} {tr evs : Trace Api} {l : FreeRTOS.Label (Loc mss)}
    (h : Undisturbed l tr) (hstep : (replied v).Issues evs l) :
    AtCompared l tr ∨ AtDraining l tr := by
  rcases replied_step hstep with ⟨-, -, -, rfl⟩ | ⟨-, -, -, rfl⟩ | ⟨-, hstep⟩
  · exact .inl ⟨v, rfl⟩
  · exact h.not_asserted.elim
  · obtain ⟨r, t, -, rfl⟩ := finish_step hstep
    exact .inr ⟨_, rfl⟩

/-- The reply loop ends: what is still to be received gets less. -/
theorem receiving_leads (h : NoMismatch x cTx cRx env) :
    (prvEchoClientTask x cTx cRx).LeadsTo env AtReceiving
      (fun l tr => AtCompared l tr ∨ AtDraining l tr) := by
  rintro k ⟨v, hv⟩
  refine Task.LeadsTo.of_variant (T := prvEchoClientTask x cTx cRx)
    (Q := fun l tr => AtCompared l tr ∨ AtDraining l tr)
    (P := fun m l _ => ∃ v, l = .code (.receiving v) ∧
      (v.lTransmitted - v.xReceivedBytes).toNat = m)
    h.undisturbed ?_ _ k ⟨v, hv, rfl⟩
  rintro m l tr evs l' - hundisturbed - hstep ⟨v, rfl, hm⟩
  rcases receiving_step (x := x) hstep with ⟨-, hstep⟩ | ⟨hlt, a, rest, rfl, hcases⟩
  · exact .inl (hundisturbed.replied hstep)
  rcases hcases with ⟨-, hstep⟩ | ⟨-, hstep⟩ | ⟨hpos, -, rfl⟩
  · exact .inl (hundisturbed.replied hstep)
  · exact .inl (hundisturbed.replied hstep)
  · refine .inr ⟨_, ?_, _, rfl, rfl⟩
    simp only [stored]
    omega

/-- One pass of the loop that draws a length: it is left, or the number was too short. -/
theorem drawing_pass {k : ℕ} (h : AtDrawing ((prvEchoClientTask x cTx cRx).head env k).1
    ((prvEchoClientTask x cTx cRx).head env k).2) :
    (AtReceiving ((prvEchoClientTask x cTx cRx).head env (k + 1)).1
        ((prvEchoClientTask x cTx cRx).head env (k + 1)).2 ∨
      AtDraining ((prvEchoClientTask x cTx cRx).head env (k + 1)).1
        ((prvEchoClientTask x cTx cRx).head env (k + 1)).2) ∨
    AtDrawing ((prvEchoClientTask x cTx cRx).head env (k + 1)).1
        ((prvEchoClientTask x cTx cRx).head env (k + 1)).2 ∧
      ∃ r : UInt32, ((prvEchoClientTask x cTx cRx).head env (k + 1)).2 =
          ((prvEchoClientTask x cTx cRx).head env k).2 ++ [⟨xApplicationGetRandomNumber, r⟩] ∧
        r.toNat % (mss.echoBufferSizes - 20) < 60 := by
  obtain ⟨v, hv⟩ := h
  obtain ⟨evs, htr, hstep⟩ := Task.head_step (T := prvEchoClientTask x cTx cRx) env k
  rw [hv] at hstep
  obtain ⟨r, rest, rfl, ⟨hshort, rfl, hl⟩ | ⟨n, hn, hsize, hstep⟩⟩ := drawing_step (x := x) hstep
  · exact .inr ⟨⟨v, hl⟩, r, htr, hshort⟩
  · left
    obtain ⟨a, tx, rest, -, -, ⟨-, hstep⟩ | ⟨-, -, hl⟩⟩ := sendRequest_step hn hsize hstep
    · obtain ⟨r, t, -, hl⟩ := finish_step hstep
      exact .inr ⟨_, hl⟩
    · exact .inl ⟨_, hl⟩

/-- The loop that draws a length ends: the generator draws 60, if nothing else before. -/
theorem drawing_leads (hrand : DrawsUxRand x cTx cRx env) :
    (prvEchoClientTask x cTx cRx).LeadsTo env AtDrawing
      (fun l tr => AtReceiving l tr ∨ AtDraining l tr) := by
  intro k hk
  by_contra hstays
  -- if the loop is never left, the client draws whatever the generator does
  have hdrawing : ∀ j, AtDrawing ((prvEchoClientTask x cTx cRx).head env (k + j)).1
      ((prvEchoClientTask x cTx cRx).head env (k + j)).2 := by
    intro j
    induction j with
    | zero => exact hk
    | succ j ih =>
      rcases drawing_pass ih with hleft | ⟨hnext, -⟩
      · exact absurd ⟨k + j + 1, by omega, hleft⟩ hstays
      · exact hnext
  obtain ⟨s, hs⟩ := hrand k
  obtain ⟨m, hm⟩ := Platform.exists_draw_eq s (show (60 : UInt32).toNat < 2 ^ 15 by decide)
  rcases drawing_pass (hdrawing m) with hleft | ⟨-, r, htr, hshort⟩
  · exact hstays ⟨k + m + 1, by omega, hleft⟩
  have henv := Task.head_agrees (T := prvEchoClientTask x cTx cRx) env (k + m + 1)
  rw [htr] at henv
  have hsixty : r = 60 := henv.answer.symm.trans ((hs m fun j _ => hdrawing j).trans hm)
  have hlarge := mss.large
  have hsize : 60 < mss.echoBufferSizes - 20 := by simp only [Mss.echoBufferSizes]; omega
  rw [hsixty, show (60 : UInt32).toNat = 60 from rfl, Nat.mod_eq_of_lt hsize] at hshort
  exact lt_irrefl 60 hshort

/-- **Progress.** From any place of a connected iteration the client gets back to the
start of its loop. -/
theorem connected_leads (hclock : ClockRuns env) (hrand : DrawsUxRand x cTx cRx env)
    (h : NoMismatch x cTx cRx env) : (prvEchoClientTask x cTx cRx).LeadsTo env
      (fun l tr => AtDrawing l tr ∨ AtReceiving l tr ∨ AtCompared l tr ∨ AtDraining l tr)
      AtConnecting := by
  have hdraining : (prvEchoClientTask x cTx cRx).LeadsTo env AtDraining AtConnecting :=
    draining_leads hclock
  have hcompared := (compared_leads h).trans hdraining
  have hreceiving := (receiving_leads h).trans (hcompared.or hdraining)
  have hdrawing := (drawing_leads hrand).trans (hreceiving.or hdraining)
  exact hdrawing.or (hreceiving.or (hcompared.or hdraining))

/-- At the start of its loop the client begins the next iteration. -/
theorem length_iterations_connecting {k : ℕ} (h : AtConnecting
    ((prvEchoClientTask x cTx cRx).head env k).1 ((prvEchoClientTask x cTx cRx).head env k).2) :
    (iterations ((prvEchoClientTask x cTx cRx).head env (k + 1)).2).length =
      (iterations ((prvEchoClientTask x cTx cRx).head env k).2).length + 1 := by
  obtain ⟨v, hv⟩ := h
  obtain ⟨evs, htr, hstep⟩ := Task.head_step (T := prvEchoClientTask x cTx cRx) env k
  rw [hv] at hstep
  rw [htr, iterations, iterations, length_segments, length_segments, List.countP_append]
  rcases connecting_step (x := x) hstep with ⟨s, -, rfl⟩ | ⟨-, rfl⟩ <;> simp [newSocket]

/-- Without a mismatch, a connected iteration that is not over is in one of its loops, or
back at the start. -/
theorem Undisturbed.place {l : FreeRTOS.Label (Loc mss)} {tr evs : Trace Api}
    (h : Undisturbed l tr) (hiter : IterationInv l tr) {j : ℕ} {s : Socket}
    (hj : (iterations tr)[j]? = some (s, evs)) (hconn : evs.any isConnected)
    (hlast : ¬ j + 1 < (iterations tr).length) : AtConnecting l tr ∨
      AtDrawing l tr ∨ AtReceiving l tr ∨ AtCompared l tr ∨ AtDraining l tr := by
  have hcreated : ∀ {s'}, ¬ Open s' false tr := by
    intro s' hopen
    rw [hopen.last hj hlast] at hconn
    exact absurd hconn Bool.false_ne_true
  cases l with
  | vAssertCalled looping l =>
    cases l with
    | compared v => exact h.not_asserted.elim
    | created v => exact absurd hiter hcreated
    | connecting v => exact h.1.elim
    | drawing v => exact h.1.elim
    | receiving v => exact h.1.elim
    | draining v => exact h.1.elim
  | code l =>
    cases l with
    | connecting v => exact .inl ⟨v, rfl⟩
    | created v => exact absurd hiter hcreated
    | drawing v => exact .inr (.inl ⟨v, rfl⟩)
    | receiving v => exact .inr (.inr (.inl ⟨v, rfl⟩))
    | compared v => exact .inr (.inr (.inr (.inl ⟨v, rfl⟩)))
    | draining v => exact .inr (.inr (.inr (.inr ⟨v, rfl⟩)))

/-- Without a mismatch, the next iteration begins sooner or later. -/
theorem next_iteration (hclock : ClockRuns env) (hrand : DrawsUxRand x cTx cRx env)
    (h : NoMismatch x cTx cRx env) {k j : ℕ} {s : Socket} {evs : Trace Api}
    (hj : (iterations ((prvEchoClientTask x cTx cRx).head env k).2)[j]? = some (s, evs))
    (hconn : evs.any isConnected) : ∃ n, k ≤ n ∧
      j + 1 < (iterations ((prvEchoClientTask x cTx cRx).head env n).2).length := by
  by_cases hlast : j + 1 < (iterations ((prvEchoClientTask x cTx cRx).head env k).2).length
  · exact ⟨k, le_rfl, hlast⟩
  obtain ⟨m, hkm, hm⟩ : ∃ m, k ≤ m ∧ AtConnecting ((prvEchoClientTask x cTx cRx).head env m).1
      ((prvEchoClientTask x cTx cRx).head env m).2 := by
    rcases (h.undisturbed k).place (iteration_inv x cTx cRx env k) hj hconn hlast with hat | hat
    · exact ⟨k, le_rfl, hat⟩
    · exact connected_leads hclock hrand h k hat
  refine ⟨m + 1, by omega, ?_⟩
  obtain ⟨evs', -, hj'⟩ := segments_isPrefix (Task.head_isPrefix env hkm) hj
  have hlt := (List.getElem?_eq_some_iff.mp hj').1
  rw [length_iterations_connecting hm]
  exact Nat.succ_lt_succ hlt

theorem closes_of_noMismatch (hclock : ClockRuns env) (hrand : DrawsUxRand x cTx cRx env)
    (h : NoMismatch x cTx cRx env) : Closes x cTx cRx env := by
  intro k j s evs hj hconn
  obtain ⟨n, hkn, hnext⟩ := next_iteration hclock hrand h hj hconn
  obtain ⟨evs', -, hj'⟩ := segments_isPrefix (Task.head_isPrefix env hkn) hj
  exact ⟨n, evs', hj', (iteration_inv x cTx cRx env n).closed hj' hnext, hnext⟩

/-! ## The assertion hook -/

/-- A reply that compares different is asserted on next, or is being asserted on. -/
theorem UnderWay.mismatch {l : FreeRTOS.Label (Loc mss)} {evs : Trace Api} {req : Request}
    (h : UnderWay req evs l) (hmis : Mismatch req evs) :
    (∃ v, l = .vAssertCalled 0 (.compared v)) ∨ ∃ v, l = .code (.receiving v) ∧
      v.lTransmitted ≤ v.xReceivedBytes ∧ 0 < v.xReceivedBytes ∧ compare v ≠ 0 := by
  cases l with
  | vAssertCalled looping l =>
    cases l with
    | compared v =>
      obtain ⟨-, rfl⟩ := h
      exact .inl ⟨v, rfl⟩
    | _ => exact h.elim
  | code l =>
    cases l with
    | receiving v =>
      obtain ⟨hw, hcount, hmore⟩ := h
      have hcomplete := hmis.complete
      simp only [hmore, Bool.false_eq_true, or_false] at hcomplete
      have hpos := List.length_pos_iff.mpr hmis.some
      have hsent := hw.lTransmitted
      exact .inr ⟨v, rfl, by omega, by omega, hw.compare_eq ▸ hmis.differs⟩
    | compared v => exact absurd h.2 hmis.differs
    | _ => exact h.elim

/-- A reply that compares different takes the client to the assertion hook. -/
theorem asserted_of_mismatch {k : ℕ} {req : Request} {evs : Trace Api}
    (hx : (req, evs) ∈ exchanges ((prvEchoClientTask x cTx cRx).head env k).2)
    (hmis : Mismatch req evs) :
    ∃ n v, ((prvEchoClientTask x cTx cRx).head env n).1 = .vAssertCalled 0 (.compared v) := by
  rcases (exchange_inv x cTx cRx env k).cases hx with hdecided | hway
  · exact absurd (hdecided.agrees hmis.noError hmis.some) hmis.differs
  rcases hway.mismatch hmis with ⟨v, hv⟩ | ⟨v, hv, hle, hpos, hne⟩
  · exact ⟨k, v, hv⟩
  obtain ⟨evs', -, hstep⟩ := Task.head_step (T := prvEchoClientTask x cTx cRx) env k
  rw [hv] at hstep
  rcases receiving_step (x := x) hstep with ⟨-, hstep⟩ | ⟨hlt, -⟩
  · rcases replied_step hstep with ⟨-, heq, -⟩ | ⟨-, -, -, hl⟩ | ⟨hnone, -⟩
    · exact absurd heq hne
    · exact ⟨k + 1, v, hl⟩
    · exact absurd hpos (not_lt.mpr hnone)
  · exact absurd hlt (not_lt.mpr hle)

/-- In the assertion hook no further iteration begins. -/
theorem length_iterations_le {n : ℕ} {v : Vars mss}
    (h : ((prvEchoClientTask x cTx cRx).head env n).1 = .vAssertCalled 0 (.compared v)) (m : ℕ) :
    (iterations ((prvEchoClientTask x cTx cRx).head env m).2).length ≤
      (iterations ((prvEchoClientTask x cTx cRx).head env n).2).length := by
  rw [iterations, iterations, length_segments, length_segments]
  rcases le_total m n with hmn | hnm
  · exact (Task.head_isPrefix env hmn).sublist.countP_le
  · obtain ⟨d, rfl⟩ := Nat.exists_eq_add_of_le hnm
    have hhead : (prvEchoClientTask x cTx cRx).head env n = (.vAssertCalled 0 (.compared v),
        ((prvEchoClientTask x cTx cRx).head env n).2) := Prod.ext h rfl
    have htr := congrArg Prod.snd (vAssertCalled_hangs hhead d)
    dsimp only [prvEchoClientTask] at htr ⊢
    rw [htr, List.countP_append]
    simp [newSocket, List.countP_replicate]

/-- The connected iteration in which the hook is called is never over. -/
theorem noMismatch_of_closes (h : Closes x cTx cRx env) : NoMismatch x cTx cRx env := by
  rintro k ⟨req, evs⟩ hx hmis
  obtain ⟨n, v, hv⟩ := asserted_of_mismatch hx hmis
  have hinv := iteration_inv x cTx cRx env n
  rw [hv] at hinv
  obtain ⟨ss, seg, hseg, -, hconn, -⟩ := hinv
  have hlast : (iterations ((prvEchoClientTask x cTx cRx).head env n).2)[ss.length]? =
      some (v.xSocket, seg) := by
    rw [hseg]
    exact List.getElem?_concat_length
  obtain ⟨m, -, -, -, hnext⟩ := h n ss.length v.xSocket seg hlast hconn
  have hle := length_iterations_le hv m
  rw [hseg, List.length_append, List.length_singleton] at hle
  omega

/-- No exchange of a run counts a failure. -/
theorem failures_eq_zero {k : ℕ} {req : Request} {evs : Trace Api}
    (hx : (req, evs) ∈ exchanges ((prvEchoClientTask x cTx cRx).head env k).2) :
    evs.countP (isIncrement .ulTxRxFailures) = 0 := by
  rcases (exchange_inv x cTx cRx env k).cases hx with hdecided | hway
  · exact hdecided.uncounted
  · obtain ⟨v, hw⟩ := hway.waiting
    exact hw.uncounted _

/-- So a reply that compares different is never recorded. -/
theorem noMismatch_of_records (h : Records x cTx cRx env) : NoMismatch x cTx cRx env := by
  rintro k ⟨req, evs⟩ hx hmis
  obtain ⟨i, hi⟩ := List.mem_iff_getElem?.mp hx
  obtain ⟨n, hn⟩ := h k i req evs hi hmis
  obtain ⟨evs', hi', hone, -⟩ := hn n le_rfl
  have hzero := failures_eq_zero (List.mem_of_getElem? hi')
  omega

end Progress

/-- **When every iteration comes to its close.** If the clock runs and the random numbers
are those of `uxRand`, then all connected iterations of a run close their socket once and
go round, and all mismatches are recorded, if and only if there is no mismatch. Each of the
two says so by itself: no run recovers from a mismatch, and none records one. -/
theorem iterations_complete_iff {mss : Mss} {x : ℕ} {cTx cRx : Buffer mss.echoBufferSizes}
    {env : Environment Api} (hclock : ClockRuns env) (hrand : DrawsUxRand x cTx cRx env) :
    (Closes x cTx cRx env ∧ Records x cTx cRx env ↔ NoMismatch x cTx cRx env) ∧
    (Closes x cTx cRx env ↔ NoMismatch x cTx cRx env) ∧
    (Records x cTx cRx env ↔ NoMismatch x cTx cRx env) := by
  have hcloses : Closes x cTx cRx env ↔ NoMismatch x cTx cRx env :=
    ⟨noMismatch_of_closes, closes_of_noMismatch hclock hrand⟩
  have hrecords : Records x cTx cRx env ↔ NoMismatch x cTx cRx env := by
    refine ⟨noMismatch_of_records, fun h k i req evs hi hmis => ?_⟩
    exact absurd hmis (h k (req, evs) (List.mem_of_getElem? hi))
  exact ⟨by rw [hcloses, hrecords, and_self], hcloses, hrecords⟩

/-! ## Runs with the generator -/

def isDraw : Event Api → Bool
  | ⟨.xApplicationGetRandomNumber, _⟩ => true
  | _ => false

/-- The random numbers are those of `uxRand`, whose state each of them moves on by one. -/
def withUxRand (ulSeed : UInt32) (σ : Strategy Api) : Strategy Api
  | tr, _, .xApplicationGetRandomNumber => Platform.draw ulSeed (tr.countP isDraw)
  | tr, i, c => σ tr i c

/-- **The generator makes such runs**, whatever else the client is answered. -/
theorem drawsUxRand_withUxRand {mss : Mss} (x : ℕ) (cTx cRx : Buffer mss.echoBufferSizes)
    (ulSeed : UInt32) (σ : Strategy Api) : DrawsUxRand x cTx cRx
      ((prvEchoClientTask x cTx cRx).environment (withUxRand ulSeed σ)) := by
  intro k
  refine ⟨Platform.advance (((prvEchoClientTask x cTx cRx).head
    ((prvEchoClientTask x cTx cRx).environment (withUxRand ulSeed σ)) k).2.countP isDraw) ulSeed,
    fun m hdrawing => ?_⟩
  -- each pass draws one number
  have hcount : ∀ j ≤ m, ((prvEchoClientTask x cTx cRx).head
      ((prvEchoClientTask x cTx cRx).environment (withUxRand ulSeed σ)) (k + j)).2.countP isDraw =
      ((prvEchoClientTask x cTx cRx).head
        ((prvEchoClientTask x cTx cRx).environment (withUxRand ulSeed σ)) k).2.countP isDraw
        + j := by
    intro j hj
    induction j with
    | zero => rfl
    | succ j ih =>
      obtain ⟨v, hv⟩ := hdrawing (j + 1) hj
      rcases drawing_pass (hdrawing j (by omega)) with (⟨w, hw⟩ | ⟨w, hw⟩) | ⟨-, r, htr, -⟩
      · exact absurd (hv.symm.trans hw) (by simp)
      · exact absurd (hv.symm.trans hw) (by simp)
      · rw [← Nat.add_assoc, htr, List.countP_append, ih (by omega)]
        rfl
  rw [Task.environment_apply (k := k + m) (by rw [Task.head_environment]), withUxRand,
    hcount m le_rfl]
  simp only [Platform.draw, Platform.advance_add]

/-- A clock that passes the time-out from each call to the next. -/
theorem clockRuns_of_eq {env : Environment Api}
    (h : ∀ i, env i xTaskGetTickCount = xReceiveTimeOut * UInt32.ofNat i) : ClockRuns env := by
  intro i t
  have htimeout : xReceiveTimeOut.toNat = 4000 := by decide
  by_cases hover : xReceiveTimeOut ≤ env i xTaskGetTickCount - t
  · exact ⟨0, hover⟩
  -- two calls later twice the time-out has passed
  refine ⟨1, ?_⟩
  have hlater : env (i + 2) xTaskGetTickCount - t =
      env i xTaskGetTickCount - t + 2 * xReceiveTimeOut := by
    rw [h, h, UInt32.ofNat_add]
    grind
  rw [UInt32.le_iff_toNat_le, htimeout] at hover
  rw [UInt32.le_iff_toNat_le, Nat.mul_one, hlater, UInt32.toNat_add, UInt32.toNat_mul, htimeout]
  simp
  omega

/-- Each call takes as long as the client drains, and of each request 60 bytes are taken; the
`i`-th call, if it is a `recv`, stores `recvs i`. -/
def slow (recvs : ℕ → List UInt8) : Environment Api
  | i, .xTaskGetTickCount => xReceiveTimeOut * UInt32.ofNat i
  | i, c => scripted recvs (fun _ => 60) i c

/-- Client 0, and how it is answered. -/
def clientZero : Task Api :=
  prvEchoClientTask 0 (.replicate defaultMss.echoBufferSizes 0)
    (.replicate defaultMss.echoBufferSizes 0)

def uxRandStrategy (recvs : ℕ → List UInt8) : Strategy Api := withUxRand 0 fun _ => slow recvs

noncomputable def uxRandEnv (recvs : ℕ → List UInt8) : Environment Api :=
  clientZero.environment (uxRandStrategy recvs)

theorem clockRuns_uxRandEnv (recvs : ℕ → List UInt8) : ClockRuns (uxRandEnv recvs) :=
  clockRuns_of_eq fun _ => rfl

theorem drawsUxRand_uxRandEnv (recvs : ℕ → List UInt8) :
    DrawsUxRand 0 (.replicate defaultMss.echoBufferSizes 0)
      (.replicate defaultMss.echoBufferSizes 0) (uxRandEnv recvs) :=
  drawsUxRand_withUxRand 0 _ _ 0 fun _ => slow recvs

theorem head_uxRandEnv (recvs : ℕ → List UInt8) (k : ℕ) :
    clientZero.head (uxRandEnv recvs) k = clientZero.play (uxRandStrategy recvs) k :=
  Task.head_environment k

/-- With a server that never answers, all iterations come to their close; two of them
have at the eleventh loop head. -/
theorem iterations_complete_silent :
    (Closes 0 (.replicate defaultMss.echoBufferSizes 0) (.replicate defaultMss.echoBufferSizes 0)
      (uxRandEnv fun _ => []) ∧
    Records 0 (.replicate defaultMss.echoBufferSizes 0) (.replicate defaultMss.echoBufferSizes 0)
      (uxRandEnv fun _ => [])) ∧
    (iterations (clientZero.head (uxRandEnv fun _ => []) 11).2).map (fun y =>
      (y.1, y.2.any isConnected, closedSockets y.2)) =
        [(.handle 0, true, [.handle 0]), (.handle 0, true, [.handle 0])] := by
  refine ⟨(iterations_complete_iff (clockRuns_uxRandEnv _)
    (drawsUxRand_uxRandEnv fun _ => [])).1.mpr ?_, ?_⟩
  · rintro k ⟨req, evs⟩ hx hmis
    refine hmis.some (List.flatMap_eq_nil_iff.mpr fun e he => ?_)
    -- no call of the run has stored anything
    obtain ⟨pre, post, htr⟩ := List.append_of_mem
      (((segments_isInfix _).1 _ (mem_intervals.mp hx)).subset he)
    have henv := Task.head_agrees (T := clientZero) (uxRandEnv fun _ => []) k
    rw [clientZero, htr] at henv
    obtain ⟨c, a⟩ := e
    have ha : uxRandEnv (fun _ => []) pre.length c = a := henv.answer
    subst ha
    cases c <;> rfl
  · rw [head_uxRandEnv]
    decide +kernel

/-- The server answers the first request with one wrong byte, and the client hangs. -/
theorem iterations_stop_wrong_byte : ¬ ∀ (mss : Mss) x (cTx cRx : Buffer mss.echoBufferSizes) env,
    ClockRuns env → DrawsUxRand x cTx cRx env → Closes x cTx cRx env ∧ Records x cTx cRx env := by
  intro h
  obtain ⟨hcloses, -⟩ := h defaultMss 0 (.replicate defaultMss.echoBufferSizes 0)
    (.replicate defaultMss.echoBufferSizes 0) (uxRandEnv fun i => if i = 14 then [0] else [])
    (clockRuns_uxRandEnv _) (drawsUxRand_uxRandEnv _)
  have hrun : (exchanges (clientZero.head (uxRandEnv fun i => if i = 14 then [0] else [])
      6).2).map (fun y => (receivedBytes y.2, y.2.any failedRecv, y.2.any emptyRecv,
        decide (check y.1 (receivedBytes y.2) = 0))) = [([0], false, true, false)] := by
    rw [head_uxRandEnv]
    decide +kernel
  obtain ⟨⟨req, evs⟩, hx, hsummary⟩ := List.map_eq_singleton_iff.mp hrun
  simp only [Prod.mk.injEq, decide_eq_false_iff_not] at hsummary
  obtain ⟨hreply, hfailed, hempty, hcheck⟩ := hsummary
  have hmis : Mismatch req evs := ⟨by simp [hreply], hfailed, .inr hempty, hcheck⟩
  exact noMismatch_of_closes hcloses 6 (req, evs)
    (by rw [← clientZero, hx]; exact List.mem_singleton_self _) hmis

end TcpDemo.EchoClient
