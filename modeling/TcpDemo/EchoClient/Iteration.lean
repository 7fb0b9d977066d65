import TcpDemo.EchoClient.Exchange

/-!
# Iterations of the echo client

An iteration is what the client issues from one `FreeRTOS_socket` to the next. The
invariant of this module says which socket an iteration closes and when: none until it
goes round, and then the one it created, once.
-/

namespace TcpDemo.EchoClient
open Interaction Traces CBytes FreeRTOS FreeRTOS.Call

/-- A new iteration creates its socket. -/
def newSocket : Event Api → Option Socket
  | ⟨.socket, s⟩ => some s
  | _ => none

/-- The iterations of a trace, each with its socket and what was issued in it. -/
def iterations (tr : Trace Api) : List (Socket × Trace Api) := segments newSocket tr

/-- A `connect` that succeeded. -/
def isConnected : Event Api → Bool
  | ⟨.connect _ _, r⟩ => (r : ℤ) = 0
  | _ => false

/-- Every iteration in this list has closed its socket, once. -/
def AllClosed (ss : List (Socket × Trace Api)) : Prop :=
  ∀ seg ∈ ss, closedSockets seg.2 = [seg.1]

/-- The last iteration has created `s` and closed nothing, and all earlier ones have
closed their sockets. -/
def Open (s : Socket) (connected : Bool) (tr : Trace Api) : Prop :=
  ∃ ss evs, iterations tr = ss ++ [(s, evs)] ∧ closedSockets evs = [] ∧
    evs.any isConnected = connected ∧ AllClosed ss

/-- What the iterations look like at a place in the code. -/
def IterationAt {mss : Mss} : Loc mss → Trace Api → Prop
  | .connecting _, tr => AllClosed (iterations tr)
  | .created v, tr => Open v.xSocket false tr
  | .drawing v, tr => Open v.xSocket true tr
  | .receiving v, tr => Open v.xSocket true tr
  | .compared v, tr => Open v.xSocket true tr
  | .draining v, tr => Open v.xSocket true tr

/-- The loop invariant. In the assertion hook the iteration is where the assertion is. -/
def IterationInv {mss : Mss} : FreeRTOS.Label (Loc mss) → Trace Api → Prop
  | .code l, tr => IterationAt l tr
  | .vAssertCalled _ l, tr => IterationAt l tr

section Grow
variable {s : Socket} {b : Bool} {tr evs : Trace Api}

/-- Further calls of the iteration, which close nothing. -/
theorem Open.append (h : Open s b tr) (evs : Trace Api) (hsocket : ∀ e ∈ evs, newSocket e = none)
    (hclosed : closedSockets evs = []) : Open s (b || evs.any isConnected) (tr ++ evs) := by
  obtain ⟨ss, seg, hseg, hnone, hconn, hall⟩ := h
  refine ⟨ss, seg ++ evs, segments_append_of_none evs hseg hsocket, ?_, ?_, hall⟩
  · rw [closedSockets_append, hnone, hclosed, List.append_nil]
  · rw [List.any_append, hconn]

/-- The iteration closes its socket. -/
theorem Open.close (h : Open s b tr) (evs : Trace Api) (hsocket : ∀ e ∈ evs, newSocket e = none)
    (hclosed : closedSockets evs = [s]) : AllClosed (iterations (tr ++ evs)) := by
  obtain ⟨ss, seg, hseg, hnone, -, hall⟩ := h
  rw [iterations, segments_append_of_none evs hseg hsocket]
  intro seg' hmem
  rcases List.mem_append.mp hmem with hmem | hmem
  · exact hall seg' hmem
  · rw [List.mem_singleton.mp hmem, closedSockets_append, hnone, hclosed, List.nil_append]

/-- A new iteration. -/
theorem AllClosed.open_new (h : AllClosed (iterations tr)) (s : Socket) (evs : Trace Api)
    (hsocket : ∀ e ∈ evs, newSocket e = none) (hclosed : closedSockets evs = []) :
    Open s (evs.any isConnected) (tr ++ ⟨socket, s⟩ :: evs) :=
  ⟨_, evs, segments_append_cons tr evs rfl hsocket, hclosed, rfl, h⟩

/-- Calls that create and close nothing keep closed iterations closed. -/
theorem AllClosed.append (h : AllClosed (iterations tr)) (evs : Trace Api)
    (hsocket : ∀ e ∈ evs, newSocket e = none) (hclosed : closedSockets evs = []) :
    AllClosed (iterations (tr ++ evs)) := by
  rcases List.eq_nil_or_concat (iterations tr) with hnil | ⟨ss, ⟨s, seg⟩, hss⟩
  · rw [iterations, segments_append_eq_nil evs hnil hsocket]
    simp [AllClosed]
  · rw [List.concat_eq_append] at hss
    rw [iterations, segments_append_of_none evs hss hsocket]
    intro seg' hmem
    rcases List.mem_append.mp hmem with hmem | hmem
    · exact h seg' (by simp [hss, hmem])
    · rw [List.mem_singleton.mp hmem, closedSockets_append, hclosed, List.append_nil]
      exact h (s, seg) (by simp [hss])

/-- Calls that create, connect and close nothing leave the iterations as they are. -/
theorem IterationAt.append {mss : Mss} {l : Loc mss} (h : IterationAt l tr) (evs : Trace Api)
    (hsocket : ∀ e ∈ evs, newSocket e = none) (hconn : evs.any isConnected = false)
    (hclosed : closedSockets evs = []) : IterationAt l (tr ++ evs) := by
  cases l with
  | connecting v => exact AllClosed.append h evs hsocket hclosed
  | created v => simpa [IterationAt, hconn] using Open.append h evs hsocket hclosed
  | drawing v => exact Open.append h evs hsocket hclosed
  | receiving v => exact Open.append h evs hsocket hclosed
  | compared v => exact Open.append h evs hsocket hclosed
  | draining v => exact Open.append h evs hsocket hclosed

end Grow

section Invariant
variable {mss : Mss} {v : Vars mss} {tr evs : Trace Api} {l' : FreeRTOS.Label (Loc mss)}

theorem finish_iteration (h : Open v.xSocket true tr) (hstep : (finish v).Issues evs l') :
    IterationInv l' (tr ++ evs) := by
  obtain ⟨r, t, rfl, rfl⟩ := finish_step hstep
  exact h.append _ (by simp [newSocket]) rfl

theorem nextRequest_iteration (h : Open v.xSocket true tr)
    (hstep : (nextRequest v).Issues evs l') : IterationInv l' (tr ++ evs) := by
  by_cases hagain : v.lLoopCount < lMaxLoopCount
  · simp [nextRequest, hagain] at hstep
    obtain ⟨rfl, rfl⟩ := hstep
    simpa [IterationInv, IterationAt] using h
  · rw [nextRequest, if_neg hagain] at hstep
    exact finish_iteration h hstep

theorem replied_iteration (h : Open v.xSocket true tr) (hstep : (replied v).Issues evs l') :
    IterationInv l' (tr ++ evs) := by
  rcases replied_step hstep with ⟨-, -, rfl, rfl⟩ | ⟨-, -, rfl, rfl⟩ | ⟨-, hstep⟩
  · rwa [List.append_nil]
  · exact h.append _ (by simp [newSocket]) rfl
  · exact finish_iteration h hstep

theorem sendRequest_iteration {n : ℕ} (h : Open v.xSocket true tr) (hn : 60 ≤ n)
    (hsize : n ≤ mss.echoBufferSizes) (hstep : (sendRequest v n).Issues evs l') :
    IterationInv l' (tr ++ evs) := by
  obtain ⟨a, tx, rest, -, rfl, hcases⟩ := sendRequest_step hn hsize hstep
  rw [← List.append_assoc]
  have hsent : Open v.xSocket true (tr ++ sendEvents v n a) :=
    h.append _ (by simp [sendEvents, newSocket]) rfl
  rcases hcases with ⟨-, hstep⟩ | ⟨-, rfl, rfl⟩
  · exact finish_iteration (v := offered v n tx a.result) hsent hstep
  · exact hsent.append _ (by simp [newSocket]) rfl

theorem receiving_iteration {x : ℕ} (h : Open v.xSocket true tr)
    (hstep : (body x (.receiving v)).Issues evs l') : IterationInv l' (tr ++ evs) := by
  rcases receiving_step hstep with ⟨-, hstep⟩ | ⟨-, a, rest, rfl, hcases⟩
  · exact replied_iteration h hstep
  have hrecv : Open v.xSocket true (tr ++ [⟨.recv v.xSocket v.xReceivedBytes.toNat
      (v.lStringLength - v.xReceivedBytes).toNat, a⟩]) :=
    h.append _ (by simp [newSocket]) rfl
  rw [List.append_cons]
  rcases hcases with ⟨-, hstep⟩ | ⟨-, hstep⟩ | ⟨-, rfl, rfl⟩
  · exact replied_iteration (v := stored v a.data a.result) hrecv hstep
  · exact replied_iteration (v := stored v a.data v.xReceivedBytes) hrecv hstep
  · rwa [List.append_nil]

theorem compared_iteration {x : ℕ} (h : Open v.xSocket true tr)
    (hstep : (body x (.compared v)).Issues evs l') : IterationInv l' (tr ++ evs) := by
  rcases compared_step hstep with ⟨-, rest, rfl, hrest⟩ | ⟨-, rest, rfl, hrest⟩
  · have hcounted : Open v.xSocket true (tr ++ [⟨increment .ulTxRxCycles x, ()⟩]) :=
      h.append _ (by simp [newSocket]) rfl
    rw [List.append_cons]
    exact nextRequest_iteration (v := { v with lLoopCount := v.lLoopCount + 1 }) hcounted hrest
  · have hcounted : Open v.xSocket true (tr ++ [⟨increment .ulTxRxFailures x, ()⟩]) :=
      h.append _ (by simp [newSocket]) rfl
    rw [List.append_cons]
    exact finish_iteration hcounted hrest

theorem iterationInv_step (x : ℕ) (cTx cRx : Buffer mss.echoBufferSizes)
    (l : FreeRTOS.Label (Loc mss)) (tr evs : Trace Api) (l' : FreeRTOS.Label (Loc mss))
    (h : IterationInv l tr) (hstep : ((prvEchoClientTask x cTx cRx).body l).Issues evs l') :
    IterationInv l' (tr ++ evs) := by
  match l with
  | .vAssertCalled looping loc =>
    rcases vAssertCalled_step hstep with ⟨-, rfl, rfl⟩ | ⟨-, rfl, rfl⟩
    · exact IterationAt.append h _ (by simp [newSocket]) rfl rfl
    · exact IterationAt.append h _ (by simp [newSocket]) rfl rfl
  | .code (.connecting v) =>
    rcases connecting_step (x := x) hstep with ⟨s, rfl, rfl⟩ | ⟨rfl, rfl⟩
    · exact AllClosed.open_new h s [] (by simp) rfl
    · exact AllClosed.open_new h .invalid [_] (by simp [newSocket]) rfl
  | .code (.created v) =>
    rcases created_step hstep with ⟨o, rfl, rfl⟩ | ⟨o, ret, r, hret, rfl, rfl⟩
    · exact Open.append h _ (by simp [attempt, newSocket]) rfl
    · exact Open.close h _ (by simp [attempt, newSocket]) rfl
  | .code (.drawing v) =>
    obtain ⟨r, rest, rfl, ⟨-, rfl, rfl⟩ | ⟨n, hn, hsize, hstep⟩⟩ := drawing_step (x := x) hstep
    · exact Open.append h _ (by simp [newSocket]) rfl
    · have hdrawn : Open v.xSocket true (tr ++ [⟨xApplicationGetRandomNumber, r⟩]) :=
        Open.append h _ (by simp [newSocket]) rfl
      rw [List.append_cons]
      exact sendRequest_iteration hdrawn hn hsize hstep
  | .code (.receiving v) => exact receiving_iteration (x := x) h hstep
  | .code (.compared v) => exact compared_iteration (x := x) h hstep
  | .code (.draining v) =>
    obtain ⟨a, b, ⟨t, -, rfl, rfl⟩ | ⟨ticks, r, hticks, rfl, rfl⟩⟩ := draining_step (x := x) hstep
    · exact Open.append h _ (by simp [newSocket]) rfl
    · rcases hticks with ⟨-, rfl⟩ | ⟨t, -, rfl⟩
      · exact Open.close h _ (by simp [newSocket]) rfl
      · exact Open.close h _ (by simp [newSocket]) rfl

theorem iteration_inv (x : ℕ) (cTx cRx : Buffer mss.echoBufferSizes) (env : Environment Api)
    (k : ℕ) : IterationInv ((prvEchoClientTask x cTx cRx).head env k).1
      ((prvEchoClientTask x cTx cRx).head env k).2 :=
  have h0 : AllClosed (iterations []) := by simp [AllClosed, iterations]
  Task.head_induction (prvEchoClientTask x cTx cRx) IterationInv h0 (iterationInv_step x cTx cRx)
    env k

/-- Once the next iteration has begun, an iteration has closed its socket, once. -/
theorem IterationAt.closed {l : Loc mss} (h : IterationAt l tr) {j : ℕ} {s : Socket}
    (hj : (iterations tr)[j]? = some (s, evs)) (hnext : j + 1 < (iterations tr).length) :
    closedSockets evs = [s] := by
  have hopen : ∀ {s' b}, Open s' b tr → closedSockets evs = [s] := by
    rintro s' b ⟨ss, seg, hseg, -, -, hall⟩
    rw [hseg] at hj hnext
    rw [List.length_append, List.length_singleton] at hnext
    rw [List.getElem?_append_left (by omega)] at hj
    exact hall (s, evs) (List.mem_of_getElem? hj)
  cases l with
  | connecting v => exact h (s, evs) (List.mem_of_getElem? hj)
  | created v => exact hopen h
  | drawing v => exact hopen h
  | receiving v => exact hopen h
  | compared v => exact hopen h
  | draining v => exact hopen h

theorem IterationInv.closed {l : FreeRTOS.Label (Loc mss)} (h : IterationInv l tr) {j : ℕ}
    {s : Socket} (hj : (iterations tr)[j]? = some (s, evs))
    (hnext : j + 1 < (iterations tr).length) : closedSockets evs = [s] := by
  cases l with
  | code l => exact IterationAt.closed h hj hnext
  | vAssertCalled looping l => exact IterationAt.closed h hj hnext

/-- An iteration that is not over is the last one. -/
theorem Open.last {s : Socket} {b : Bool} (h : Open s b tr) {j : ℕ} {s' : Socket}
    (hj : (iterations tr)[j]? = some (s', evs)) (hnext : ¬ j + 1 < (iterations tr).length) :
    evs.any isConnected = b := by
  obtain ⟨ss, seg, hseg, -, hconn, -⟩ := h
  have hlt := (List.getElem?_eq_some_iff.mp hj).1
  rw [hseg] at hj hnext hlt
  rw [List.length_append, List.length_singleton] at hnext hlt
  obtain rfl : j = ss.length := by omega
  rw [List.getElem?_concat_length, Option.some.injEq, Prod.mk.injEq] at hj
  rw [← hj.2, hconn]

end Invariant

end TcpDemo.EchoClient
