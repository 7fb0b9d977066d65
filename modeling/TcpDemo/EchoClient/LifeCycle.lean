import TcpDemo.EchoClient.Steps
import TcpDemo.Lib.Typestate

/-!
# The sockets of the echo client

The echo client opens a socket for each of its iterations, and takes its connection down in
order: what it has connected it shuts down once, sends nothing more on it, receives what is
still under way, and closes it. `ClientLifeCycle` lists what this asks of the calls of a run
at any moment.

`connection` is the protocol behind it: the socket of the client is absent, opened,
connected or shut down.
-/

namespace TcpDemo.EchoClient
open Interaction Traces Typestate CBytes FreeRTOS FreeRTOS.Call

/-! ## What is asked of the calls -/

/-- The calls since the last call of `socket`. -/
def sinceSocket (tr : Trace Api) : Trace Api :=
  tr.foldl (fun cur e => if e.call = .socket then [] else cur ++ [e]) []

/-- The handle is connected: since the last call of `socket`, `connect` has returned zero
for it. -/
def Connected (tr : Trace Api) (s : Socket) : Prop :=
  ∃ address, ⟨.connect s address, (0 : ℤ)⟩ ∈ sinceSocket tr

/-- The handle is shut down: `shutdown` was called on it since the last call of `socket`. -/
def ShutDown (tr : Trace Api) (s : Socket) : Prop :=
  ∃ r, ⟨.shutdown s, r⟩ ∈ sinceSocket tr

/-- What the life cycle of the sockets asks of a call, given the calls before it. -/
structure ClientInOrder (pre : Trace Api) (e : Event Api) : Prop where
  closed_before : e.call = .socket → closedSockets pre = obtained pre
  used_open : ∀ s, usedSocket e.call = some s → IsOpen pre s
  sent : ∀ s data, e.call = .send s data → Connected pre s ∧ ¬ ShutDown pre s
  received : ∀ s offset size, e.call = .recv s offset size → Connected pre s
  shut_once : ∀ s, e.call = .shutdown s → Connected pre s ∧ ¬ ShutDown pre s
  closed_shut : ∀ s, e.call = .closesocket s → (Connected pre s ↔ ShutDown pre s)

/-- The life cycle of the sockets up to some moment: at most one handle is open, handles
are closed in the order in which they were obtained and each at most once, and every call is
in order. -/
structure ClientLifeCycle (tr : Trace Api) : Prop where
  one_open : (obtained tr).length ≤ (closedSockets tr).length + 1
  closed_once : closedSockets tr <+: obtained tr
  inOrder : ∀ pre e, pre ++ [e] <+: tr → ClientInOrder pre e

/-! ## The protocol -/

/-- The life of the socket of the client. -/
inductive Life where
  | absent
  | opened (s : Socket)
  | connected (s : Socket)
  | shut (s : Socket)
  deriving DecidableEq

/-- The socket, while there is one. -/
def Life.socket : Life → Option Socket
  | .absent => none
  | .opened s | .connected s | .shut s => some s

/-- How a call changes the life of the socket, if it is allowed. -/
def Life.next (life : Life) (e : Event Api) : Option Life :=
  match e with
  | ⟨.socket, s⟩ =>
    if life = .absent then some (if s = .invalid then .absent else .opened s) else none
  | ⟨.connect s _, r⟩ =>
    if life = .opened s then some (if (r : ℤ) = 0 then .connected s else .opened s) else none
  | ⟨.send s _, _⟩ => if life = .connected s then some life else none
  | ⟨.recv s _ _, _⟩ => if life = .connected s ∨ life = .shut s then some life else none
  | ⟨.shutdown s, _⟩ => if life = .connected s then some (.shut s) else none
  | ⟨.closesocket s, _⟩ => if life = .opened s ∨ life = .shut s then some .absent else none
  | ⟨c, _⟩ => if usedSocket c = none ∨ usedSocket c = life.socket then some life else none

/-- The protocol of the connections of the client. -/
@[reducible] def connection : Typestate Api := ⟨Life, .absent, Life.next⟩

/-- What a life of the socket says about the calls so far. -/
structure Life.Holds (life : Life) (tr : Trace Api) : Prop where
  absent : life = .absent → closedSockets tr = obtained tr
  isOpen : ∀ s, life.socket = some s → IsOpen tr s
  connected : ∀ s, life.socket = some s →
    (Connected tr s ↔ life = .connected s ∨ life = .shut s)
  shut : ∀ s, life.socket = some s → (ShutDown tr s ↔ life = .shut s)

section Life
variable {life life' : Life} {pre : Trace Api} {e : Event Api} {s : Socket}

theorem sinceSocket_snoc (tr : Trace Api) (e : Event Api) :
    sinceSocket (tr ++ [e]) = if e.call = .socket then [] else sinceSocket tr ++ [e] := by
  simp [sinceSocket]

theorem connected_snoc (he : e.call ≠ .socket) : Connected (pre ++ [e]) s ↔
    Connected pre s ∨ ∃ address, ⟨.connect s address, (0 : ℤ)⟩ = e := by
  simp only [Connected, sinceSocket_snoc, if_neg he, List.mem_append, List.mem_singleton,
    exists_or]

theorem shutDown_snoc (he : e.call ≠ .socket) : ShutDown (pre ++ [e]) s ↔
    ShutDown pre s ∨ ∃ r, ⟨.shutdown s, r⟩ = e := by
  simp only [ShutDown, sinceSocket_snoc, if_neg he, List.mem_append, List.mem_singleton,
    exists_or]

/-- A call that is allowed by the life of the socket is in order. -/
theorem Life.Holds.inOrder (h : life.Holds pre) (hsocket : e.call = .socket → life = .absent)
    (hused : usedSocket e.call = none ∨ usedSocket e.call = life.socket)
    (hsend : ∀ s data, e.call = .send s data → life = .connected s)
    (hrecv : ∀ s offset size, e.call = .recv s offset size → life = .connected s ∨ life = .shut s)
    (hshut : ∀ s, e.call = .shutdown s → life = .connected s)
    (hclose : ∀ s, e.call = .closesocket s → life = .opened s ∨ life = .shut s) :
    ClientInOrder pre e where
  closed_before hcall := h.absent (hsocket hcall)
  used_open s hs := by
    rcases hused with hnone | hlife
    · simp [hnone] at hs
    · exact h.isOpen s (hlife ▸ hs)
  sent s data hcall := by
    obtain rfl := hsend s data hcall
    rw [h.connected s rfl, h.shut s rfl]
    exact ⟨.inl rfl, by simp⟩
  received s offset size hcall := by
    rcases hrecv s offset size hcall with rfl | rfl
    · exact (h.connected s rfl).mpr (.inl rfl)
    · exact (h.connected s rfl).mpr (.inr rfl)
  shut_once s hcall := by
    obtain rfl := hshut s hcall
    rw [h.connected s rfl, h.shut s rfl]
    exact ⟨.inl rfl, by simp⟩
  closed_shut s hcall := by
    rcases hclose s hcall with rfl | rfl <;> rw [h.connected s rfl, h.shut s rfl] <;> simp

/-- A call that neither obtains nor closes a handle, and neither connects nor shuts it down,
leaves the life of the socket alone. -/
theorem Life.Holds.snoc (h : life.Holds pre) (hsocket : e.call ≠ .socket)
    (hobtained : obtainedHandle e = []) (hclosed : closedSocket e = [])
    (hconnect : ∀ s address, ⟨.connect s address, (0 : ℤ)⟩ ≠ e)
    (hshut : ∀ s r, ⟨.shutdown s, r⟩ ≠ e) : life.Holds (pre ++ [e]) where
  absent hlife := by simpa [hobtained, hclosed] using h.absent hlife
  isOpen s hs := (h.isOpen s hs).snoc hobtained hclosed
  connected s hs := by
    rw [connected_snoc hsocket, ← h.connected s hs]
    simp [hconnect]
  shut s hs := by
    rw [shutDown_snoc hsocket, ← h.shut s hs]
    simp [hshut]

/-- An allowed call is in order, and the next life says what is so after it. -/
theorem Life.Holds.next (h : life.Holds pre) (hnext : life.next e = some life') :
    ClientInOrder pre e ∧ life'.Holds (pre ++ [e]) := by
  obtain ⟨c, a⟩ := e
  cases c with
  | socket =>
    simp only [Life.next, Option.ite_none_right_eq_some, Option.some.injEq] at hnext
    obtain ⟨rfl, rfl⟩ := hnext
    refine ⟨h.inOrder (fun _ => rfl) (.inl rfl) (by simp) (by simp) (by simp) (by simp), ?_⟩
    have hclosed := h.absent rfl
    have hnew : sinceSocket (pre ++ [⟨.socket, a⟩]) = [] := by simp [sinceSocket_snoc]
    by_cases ha : a = .invalid
    · rw [if_pos ha]
      exact ⟨fun _ => by simp [obtainedHandle, closedSocket, ha, hclosed], by simp [Life.socket],
        by simp [Life.socket], by simp [Life.socket]⟩
    · rw [if_neg ha]
      refine ⟨by simp, fun s hs => ?_, fun s hs => ?_, fun s hs => ?_⟩
      · obtain rfl := Option.some.inj hs
        exact ⟨ha, by simp [obtainedHandle, closedSocket, ha, hclosed]⟩
      · simp [Connected, hnew]
      · simp [ShutDown, hnew]
  | connect t address =>
    simp only [Life.next, Option.ite_none_right_eq_some, Option.some.injEq] at hnext
    obtain ⟨rfl, rfl⟩ := hnext
    refine ⟨h.inOrder (by simp) (.inr rfl) (by simp) (by simp) (by simp) (by simp), ?_⟩
    by_cases ha : (a : ℤ) = 0
    · rw [if_pos ha]
      refine ⟨by simp, fun s hs => (h.isOpen s hs).snoc rfl rfl, fun s hs => ?_, fun s hs => ?_⟩
      · obtain rfl := Option.some.inj hs
        rw [connected_snoc (by simp)]
        simp [ha]
      · rw [shutDown_snoc (by simp), h.shut s hs]
        simp
    · rw [if_neg ha]
      exact h.snoc (by simp) rfl rfl (by simpa using Ne.symm ha) (by simp)
  | send t data =>
    simp only [Life.next, Option.ite_none_right_eq_some, Option.some.injEq] at hnext
    obtain ⟨rfl, rfl⟩ := hnext
    exact ⟨h.inOrder (by simp) (.inr rfl) (by simp) (by simp) (by simp) (by simp),
      h.snoc (by simp) rfl rfl (by simp) (by simp)⟩
  | recv t offset size =>
    simp only [Life.next, Option.ite_none_right_eq_some, Option.some.injEq] at hnext
    obtain ⟨hlife, rfl⟩ := hnext
    have hused : usedSocket (.recv t offset size) = life.socket := by
      rcases hlife with rfl | rfl <;> rfl
    exact ⟨h.inOrder (by simp) (.inr hused) (by simp) (by simpa using hlife) (by simp) (by simp),
      h.snoc (by simp) rfl rfl (by simp) (by simp)⟩
  | shutdown t =>
    simp only [Life.next, Option.ite_none_right_eq_some, Option.some.injEq] at hnext
    obtain ⟨rfl, rfl⟩ := hnext
    refine ⟨h.inOrder (by simp) (.inr rfl) (by simp) (by simp) (by simp) (by simp), by simp,
      fun s hs => (h.isOpen s hs).snoc rfl rfl, fun s hs => ?_, fun s hs => ?_⟩
    · rw [connected_snoc (by simp), h.connected s hs]
      simp [Life.socket] at hs
      simp [hs]
    · obtain rfl := Option.some.inj hs
      rw [shutDown_snoc (by simp)]
      simp
  | closesocket t =>
    simp only [Life.next, Option.ite_none_right_eq_some, Option.some.injEq] at hnext
    obtain ⟨hlife, rfl⟩ := hnext
    have hused : life.socket = some t := by rcases hlife with rfl | rfl <;> rfl
    refine ⟨h.inOrder (by simp) (.inr hused.symm) (by simp) (by simp) (by simp)
      (by simpa using hlife), fun _ => ?_, by simp [Life.socket], by simp [Life.socket],
      by simp [Life.socket]⟩
    simp [obtainedHandle, closedSocket, (h.isOpen t hused).2]
  | _ =>
    simp only [Life.next, Option.ite_none_right_eq_some, Option.some.injEq] at hnext
    obtain ⟨hused, rfl⟩ := hnext
    exact ⟨h.inOrder (by simp) hused (by simp) (by simp) (by simp) (by simp),
      h.snoc (by simp) rfl rfl (by simp) (by simp)⟩

end Life

/-! ## The task follows the protocol -/

section Task
variable {mss : Mss}

/-- The life of the socket at a loop head. In `vAssertCalled` the client has no socket, or has
received a reply it does not take. -/
def LifeAt : FreeRTOS.Label (Loc mss) → Life → Prop
  | .code (.connecting _), life => life = .absent
  | .code (.created v), life => life = .opened v.xSocket
  | .code (.drawing v), life | .code (.receiving v), life | .code (.compared v), life =>
      life = .connected v.xSocket
  | .code (.draining v), life => life = .shut v.xSocket
  | .vAssertCalled looping _, _ => looping = 0

variable {v : Vars mss}

theorem finish_life (v : Vars mss) :
    connection.Leads (finish v) (.connected v.xSocket) LifeAt := by
  intro evs l h
  obtain ⟨r, t, rfl, rfl⟩ := finish_step h
  exact ⟨.shut v.xSocket, by simp [Life.next, usedSocket], rfl⟩

theorem nextRequest_life (v : Vars mss) :
    connection.Leads (nextRequest v) (.connected v.xSocket) LifeAt := by
  unfold nextRequest
  split
  · exact leads_ret rfl
  · exact finish_life v

theorem replied_life (v : Vars mss) :
    connection.Leads (replied v) (.connected v.xSocket) LifeAt := by
  intro evs l h
  rcases replied_step h with ⟨-, -, rfl, rfl⟩ | ⟨-, -, rfl, rfl⟩ | ⟨-, hfinish⟩
  · exact ⟨_, rfl, rfl⟩
  · exact ⟨.connected v.xSocket, by simp [Life.next, usedSocket], rfl⟩
  · exact finish_life v evs l hfinish

theorem drawing_life (x : ℕ) (v : Vars mss) :
    connection.Leads (body x (.drawing v)) (.connected v.xSocket) LifeAt := by
  intro evs l h
  obtain ⟨r, rest, rfl, ⟨-, rfl, rfl⟩ | ⟨n, hn, hsize, hsend⟩⟩ := drawing_step h
  · exact ⟨.connected v.xSocket, by simp [Life.next, usedSocket], rfl⟩
  · obtain ⟨a, tx, rest, -, rfl, hrest⟩ := sendRequest_step hn hsize hsend
    have hsent : connection.Reaches rest (.connected v.xSocket) (LifeAt l) := by
      rcases hrest with ⟨-, hfinish⟩ | ⟨-, rfl, rfl⟩
      · exact finish_life (offered v n tx a.result) rest l hfinish
      · exact ⟨.connected v.xSocket, by simp [Life.next, usedSocket], rfl⟩
    exact .stay (.stay (.stay (.stay hsent rfl) (by simp [Life.next])) rfl) rfl

theorem receiving_life (x : ℕ) (v : Vars mss) :
    connection.Leads (body x (.receiving v)) (.connected v.xSocket) LifeAt := by
  intro evs l h
  rcases receiving_step h with ⟨-, hreplied⟩ | ⟨-, a, rest, rfl, hcases⟩
  · exact replied_life v evs l hreplied
  refine .stay ?_ (by simp [Life.next])
  rcases hcases with ⟨-, hreplied⟩ | ⟨-, hreplied⟩ | ⟨-, rfl, rfl⟩
  · exact replied_life (stored v a.data a.result) rest l hreplied
  · exact replied_life (stored v a.data v.xReceivedBytes) rest l hreplied
  · exact ⟨.connected v.xSocket, rfl, rfl⟩

/-- The client goes on with a valid handle only. -/
theorem created_valid {x : ℕ} {v' : Vars mss} {evs : Trace Api}
    (h : (body x (.connecting v)).Issues evs (.code (.created v'))) : v'.xSocket ≠ .invalid := by
  simp only [body, FreeRTOS.socket, Program.call_bind, Program.ret_bind, Program.issues_call] at h
  obtain ⟨s, rest, rfl, h⟩ := h
  by_cases hs : s = .invalid
  · simp [hs, configASSERT] at h
  · simp [hs, configASSERT] at h
    rw [h.2]
    exact hs

/-- **The task follows the life of its socket**, whatever its calls return. -/
theorem body_life (x : ℕ) (cTxBuffer cRxBuffer : Buffer mss.echoBufferSizes)
    (l : FreeRTOS.Label (Loc mss)) (life : Life) (hl : LifeAt l life) :
    connection.Leads ((prvEchoClientTask x cTxBuffer cRxBuffer).body l) life LifeAt := by
  intro evs l' h
  match l with
  | .vAssertCalled looping loc =>
    rcases vAssertCalled_step h with ⟨h0, rfl, rfl⟩ | ⟨hne, -, -⟩
    · exact ⟨life, by simp [Life.next, usedSocket], h0⟩
    · exact absurd hl hne
  | .code (.connecting v) =>
    obtain rfl : life = .absent := hl
    rcases connecting_step (x := x) h with ⟨s, rfl, rfl⟩ | ⟨rfl, rfl⟩
    · have hvalid : s ≠ .invalid := created_valid (x := x) h
      exact ⟨.opened s, by simp [Life.next, hvalid], rfl⟩
    · exact ⟨.absent, by simp [Life.next, usedSocket], rfl⟩
  | .code (.created v) =>
    obtain rfl : life = .opened v.xSocket := hl
    rcases created_step (x := x) h with ⟨o, rfl, rfl⟩ | ⟨o, ret, r, hret, rfl, rfl⟩
    · exact ⟨.connected v.xSocket, by simp [attempt, Life.next, usedSocket, Life.socket], rfl⟩
    · exact ⟨.absent, by simp [attempt, Life.next, usedSocket, Life.socket, hret], rfl⟩
  | .code (.drawing v) =>
    obtain rfl : life = .connected v.xSocket := hl
    exact drawing_life x v evs l' h
  | .code (.receiving v) =>
    obtain rfl : life = .connected v.xSocket := hl
    exact receiving_life x v evs l' h
  | .code (.compared v) =>
    obtain rfl : life = .connected v.xSocket := hl
    rcases compared_step (x := x) h with ⟨-, rest, rfl, hnext⟩ | ⟨-, rest, rfl, hfinish⟩
    · exact (nextRequest_life { v with lLoopCount := v.lLoopCount + 1 } rest l' hnext).stay rfl
    · exact (finish_life v rest l' hfinish).stay rfl
  | .code (.draining v) =>
    obtain rfl : life = .shut v.xSocket := hl
    obtain ⟨a, b, ⟨t, -, rfl, rfl⟩ | ⟨ticks, r, hticks, rfl, rfl⟩⟩ := draining_step (x := x) h
    · exact ⟨.shut v.xSocket, by simp [Life.next, usedSocket], rfl⟩
    · refine ⟨.absent, ?_, rfl⟩
      rcases hticks with ⟨-, rfl⟩ | ⟨t, -, rfl⟩ <;> simp [Life.next, usedSocket]

/-- **The life cycle of the sockets**, at every moment of every run. -/
theorem client_lifeCycle {x : ℕ} {cTxBuffer cRxBuffer : Buffer mss.echoBufferSizes}
    {env : Environment Api} {tr : Trace Api}
    (h : (prvEchoClientTask x cTxBuffer cRxBuffer).Moment env tr) : ClientLifeCycle tr := by
  have hstart : Life.Holds .absent [] :=
    ⟨fun _ => rfl, by simp [Life.socket], by simp [Life.socket], by simp [Life.socket]⟩
  obtain ⟨life, hfollows⟩ := Follows.moment (N := connection) (J := LifeAt) rfl
    (body_life x cTxBuffer cRxBuffer) h
  obtain ⟨hall, hlife⟩ := hfollows.holds (R := ClientInOrder) (K := Life.Holds) hstart
    fun life pre e life' hpre hnext => hpre.next hnext
  have hcases : obtained tr = closedSockets tr ∨ ∃ s, obtained tr = closedSockets tr ++ [s] := by
    cases life with
    | absent => exact .inl (hlife.absent rfl).symm
    | opened s | connected s | shut s => exact .inr ⟨s, (hlife.isOpen s rfl).2⟩
  obtain ⟨hone, hclosed⟩ := at_most_one_open hcases
  exact ⟨hone, hclosed, fun pre e hpre => hall.of_snoc_isPrefix hpre⟩

/-- The first echo is complete, and the server closes its end behind it. -/
def closesBehindEcho : Environment Api
  | _, .xApplicationGetRandomNumber => 60
  | i, .recv _ _ _ => if i = 13 then .store (request 0 60) else .failed
  | i, c => scripted (fun _ => []) (fun _ => 60) i c

/-- One iteration, and the socket of the next one. -/
def nextIteration : Trace Api :=
  ((prvEchoClientTask 0 (.replicate defaultMss.echoBufferSizes 0) (.replicate _ 0)).head
    closesBehindEcho 8).2

example : obtained nextIteration = [.handle 0, .handle 0] ∧
    closedSockets nextIteration = [.handle 0] := by decide +kernel

theorem client_lifeCycle_echoed : ClientLifeCycle nextIteration :=
  client_lifeCycle (Task.moment_head _ 8)

end Task

end TcpDemo.EchoClient
