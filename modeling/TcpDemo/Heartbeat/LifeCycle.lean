import TcpDemo.Heartbeat.Task

/-!
# The sockets of the heartbeat task

The task holds one socket at a time: whichever way a pass ends, the handle it obtained is
closed before the next call of `socket`. `LifeCycle` lists what this asks of the calls of a
run at any moment.

`Life` is the abstract model: the socket of the task is absent, opened, or connected. The
task follows it (`body_follows`), and what follows it keeps the life cycle (`follows_holds`).
-/

namespace TcpDemo.Heartbeat
open Interaction Traces CBytes FreeRTOS FreeRTOS.Call

/-! ## What is asked of the calls -/

/-- Since the last call of `socket`, `connect` has returned zero for the handle. -/
def IsConnected (tr : Trace Api) (s : Socket) : Prop :=
  ∃ before address after, tr = before ++ ⟨.connect s address, (0 : ℤ)⟩ :: after ∧
    ∀ e ∈ after, e.call ≠ .socket

/-- What the life cycle of the sockets asks of a call, given the calls before it. -/
structure InOrder (pre : Trace Api) (e : Event Api) : Prop where
  closed_before : e.call = .socket → closedSockets pre = obtained pre
  used_open : ∀ s, usedSocket e.call = some s → IsOpen pre s
  sent_connected : ∀ s data, e.call = .send s data → IsConnected pre s

/-- The life cycle of the sockets up to some moment: at most one handle is open, handles
are closed in the order in which they were obtained and each at most once, all of them
before the next call of `socket`, and every call is made on the handle that is open. -/
structure LifeCycle (tr : Trace Api) : Prop where
  one_open : (obtained tr).length ≤ (closedSockets tr).length + 1
  closed_once : closedSockets tr <+: obtained tr
  inOrder : ∀ pre e, pre ++ [e] <+: tr → InOrder pre e

/-! ## The abstract model -/

/-- The life of the socket of the task. -/
inductive Life where
  | absent
  | opened (s : Socket)
  | connected (s : Socket)
  deriving DecidableEq

/-- The socket, while there is one. -/
def Life.socket : Life → Option Socket
  | .absent => none
  | .opened s | .connected s => some s

/-- How a call changes the life of the socket, if it is allowed. -/
def Life.next (life : Life) (e : Event Api) : Option Life :=
  match e with
  | ⟨.socket, s⟩ =>
    if life = .absent then some (if s = .invalid then .absent else .opened s) else none
  | ⟨.connect s _, r⟩ =>
    if life = .opened s then some (if (r : ℤ) = 0 then .connected s else .opened s) else none
  | ⟨.send s _, _⟩ => if life = .connected s then some life else none
  | ⟨.closesocket s, _⟩ => if life.socket = some s then some .absent else none
  | ⟨c, _⟩ => if usedSocket c = none ∨ usedSocket c = life.socket then some life else none

/-- The calls take the socket from one life to the other. -/
def Follows (evs : Trace Api) (life life' : Life) : Prop := evs.foldlM Life.next life = some life'

/-- What a life of the socket says about the calls so far. -/
def Life.Holds : Life → Trace Api → Prop
  | .absent, tr => closedSockets tr = obtained tr
  | .opened s, tr => IsOpen tr s
  | .connected s, tr => IsOpen tr s ∧ IsConnected tr s

section Life
variable {life life' : Life} {pre : Trace Api} {e : Event Api} {s : Socket}

/-- The socket of a life is open. -/
theorem Life.Holds.isOpen (h : life.Holds pre) (hs : life.socket = some s) : IsOpen pre s := by
  cases life with
  | absent => simp [Life.socket] at hs
  | opened t => exact Option.some.inj hs ▸ h
  | connected t => exact Option.some.inj hs ▸ h.1

theorem IsConnected.snoc (h : IsConnected pre s) (he : e.call ≠ .socket) :
    IsConnected (pre ++ [e]) s := by
  obtain ⟨before, address, after, rfl, hafter⟩ := h
  refine ⟨before, address, after ++ [e], by simp, fun e' he' => ?_⟩
  rcases List.mem_append.mp he' with he' | he'
  · exact hafter e' he'
  · rwa [List.mem_singleton.mp he']

/-- A call that obtains and closes nothing leaves the life of the socket alone. -/
theorem Life.Holds.snoc (h : life.Holds pre) (hsocket : e.call ≠ .socket)
    (hobtained : obtainedHandle e = []) (hclosed : closedSocket e = []) :
    life.Holds (pre ++ [e]) := by
  cases life with
  | absent => simpa [Life.Holds, hobtained, hclosed] using h
  | opened t => exact IsOpen.snoc h hobtained hclosed
  | connected t => exact ⟨h.1.snoc hobtained hclosed, h.2.snoc hsocket⟩

/-- A call on the socket of a life is in order, if it sends nothing. -/
theorem Life.Holds.inOrder (h : life.Holds pre) (hsocket : e.call ≠ .socket)
    (hsend : ∀ s data, e.call ≠ .send s data)
    (hused : usedSocket e.call = none ∨ usedSocket e.call = life.socket) : InOrder pre e where
  closed_before hcall := absurd hcall hsocket
  used_open s hs := by
    rcases hused with hnone | hlife
    · simp [hnone] at hs
    · exact h.isOpen (hlife ▸ hs)
  sent_connected s data hcall := absurd hcall (hsend s data)

/-- An allowed call is in order, and the next life says what is so after it. -/
theorem Life.Holds.next (h : life.Holds pre) (hnext : life.next e = some life') :
    InOrder pre e ∧ life'.Holds (pre ++ [e]) := by
  obtain ⟨c, a⟩ := e
  cases c with
  | socket =>
    simp only [Life.next, Option.ite_none_right_eq_some, Option.some.injEq] at hnext
    obtain ⟨rfl, rfl⟩ := hnext
    refine ⟨⟨fun _ => h, fun t ht => by simp [usedSocket] at ht,
      fun t data ht => by simp at ht⟩, ?_⟩
    have hclosed : closedSockets pre = obtained pre := h
    by_cases ha : a = .invalid
    · rw [if_pos ha]
      simp [Life.Holds, obtainedHandle, closedSocket, ha, hclosed]
    · rw [if_neg ha]
      exact ⟨ha, by simp [obtainedHandle, closedSocket, ha, hclosed]⟩
  | connect t address =>
    simp only [Life.next, Option.ite_none_right_eq_some, Option.some.injEq] at hnext
    obtain ⟨rfl, rfl⟩ := hnext
    refine ⟨h.inOrder (by simp) (by simp) (.inr rfl), ?_⟩
    have hopen : IsOpen (pre ++ [⟨.connect t address, a⟩]) t := IsOpen.snoc h rfl rfl
    by_cases ha : (a : ℤ) = 0
    · rw [if_pos ha]
      exact ⟨hopen, pre, address, [], by rw [ha], by simp⟩
    · rw [if_neg ha]
      exact hopen
  | send t data =>
    simp only [Life.next, Option.ite_none_right_eq_some, Option.some.injEq] at hnext
    obtain ⟨rfl, rfl⟩ := hnext
    refine ⟨⟨fun hcall => by simp at hcall, fun u hu => h.isOpen hu, fun u data' hu => ?_⟩,
      h.snoc (by simp) rfl rfl⟩
    obtain ⟨rfl, -⟩ := Call.send.inj hu
    exact h.2
  | closesocket t =>
    simp only [Life.next, Option.ite_none_right_eq_some, Option.some.injEq] at hnext
    obtain ⟨hsocket, rfl⟩ := hnext
    refine ⟨h.inOrder (by simp) (by simp) (.inr hsocket.symm), ?_⟩
    simp [Life.Holds, obtainedHandle, closedSocket, (h.isOpen hsocket).2]
  | _ =>
    simp only [Life.next, Option.ite_none_right_eq_some, Option.some.injEq] at hnext
    obtain ⟨hused, rfl⟩ := hnext
    exact ⟨h.inOrder (by simp) (by simp) hused, h.snoc (by simp) rfl rfl⟩

/-- Calls that follow the life of the socket are in order. -/
theorem follows_holds {evs : Trace Api} (h : life.Holds pre) (hevs : Follows evs life life') :
    StepwiseFrom InOrder pre evs ∧ life'.Holds (pre ++ evs) := by
  induction evs generalizing pre life with
  | nil =>
    obtain rfl := Option.some.inj hevs
    exact ⟨trivial, by simpa using h⟩
  | cons e evs ih =>
    obtain ⟨mid, hmid, hevs⟩ := Option.bind_eq_some_iff.mp hevs
    obtain ⟨he, hholds⟩ := h.next hmid
    obtain ⟨hrest, hend⟩ := ih hholds hevs
    exact ⟨⟨he, hrest⟩, by simpa using hend⟩

end Life

/-! ## The task follows the model -/

/-- The life of the socket at a loop head. -/
def Loc.life : Loc → Life
  | .connecting _ => .absent
  | .beating v => .connected v.xSocket

/-- **The task follows the life of its socket**, whatever its calls return. -/
theorem body_follows {l l' : Loc} {evs : Trace Api} (h : (body l).Issues evs l') :
    Follows evs l.life l'.life := by
  cases l with
  | connecting v =>
    rcases connecting_step h with ⟨rfl, rfl⟩ | ⟨s, o, r, hs, ⟨hr, rfl, c, rfl⟩ | ⟨rfl, rfl, rfl⟩⟩
    · rfl
    · simp [Follows, Life.next, Life.socket, Loc.life, usedSocket, hs, hr]
    · simp [Follows, Life.next, Life.socket, Loc.life, usedSocket, hs]
  | beating v =>
    obtain ⟨r, b, ⟨-, rfl, c, rfl⟩ | ⟨-, rfl, rfl⟩⟩ := beating_step h
    · simp [Follows, Life.next, Life.socket, Loc.life, usedSocket]
    · simp [Follows, Life.next, Loc.life, usedSocket]

/-- At each loop head the calls so far are in order. -/
theorem inOrder_head (b : Buffer txBufferSize) (env : Environment Api) (k : ℕ) :
    Stepwise InOrder ((prvTCPHeartbeatTask b).head env k).2 ∧
      ((prvTCPHeartbeatTask b).head env k).1.life.Holds ((prvTCPHeartbeatTask b).head env k).2 := by
  refine Task.head_induction (prvTCPHeartbeatTask b)
    (fun l tr => Stepwise InOrder tr ∧ l.life.Holds tr) ⟨trivial, rfl⟩ ?_ env k
  rintro l tr evs l' ⟨hinOrder, hholds⟩ hstep
  obtain ⟨hevs, hend⟩ := follows_holds hholds (body_follows hstep)
  exact ⟨(stepwise_append tr evs).mpr ⟨hinOrder, hevs⟩, hend⟩

/-- Where all calls are in order, the handles obtained are those closed, with at most one
that is open. -/
theorem obtained_of_stepwise {tr : Trace Api} (h : Stepwise InOrder tr) :
    obtained tr = closedSockets tr ∨ ∃ s, obtained tr = closedSockets tr ++ [s] := by
  induction tr using List.reverseRecOn with
  | nil => exact .inl rfl
  | append_singleton pre e ih =>
    have hlast := h.of_snoc_isPrefix List.prefix_rfl
    have hpre := ih (h.of_isPrefix (List.prefix_append _ _))
    obtain ⟨c, a⟩ := e
    cases c with
    | socket =>
      have hclosed := hlast.closed_before rfl
      by_cases ha : a = .invalid
      · exact .inl (by simp [obtainedHandle, closedSocket, ha, hclosed])
      · exact .inr ⟨a, by simp [obtainedHandle, closedSocket, ha, hclosed]⟩
    | closesocket s =>
      have hopen := hlast.used_open s rfl
      exact .inl (by simp [obtainedHandle, closedSocket, hopen.2])
    | _ => simpa [obtainedHandle, closedSocket] using hpre

/-- **The life cycle of the sockets**, at every moment of every run. -/
theorem socket_lifeCycle {b : Buffer txBufferSize} {env : Environment Api} {tr : Trace Api}
    (h : (prvTCPHeartbeatTask b).Moment env tr) : LifeCycle tr := by
  obtain ⟨k, hk⟩ := h
  have hinOrder := (inOrder_head b env k).1.of_isPrefix hk
  obtain ⟨hone, hclosed⟩ := at_most_one_open (obtained_of_stepwise hinOrder)
  exact ⟨hone, hclosed, fun pre e hpre => hinOrder.of_snoc_isPrefix hpre⟩

/-- Two heartbeats, the second of which fails, and a new connection. -/
theorem socket_lifeCycle_reconnect : LifeCycle ((prvTCPHeartbeatTask (.replicate _ 0)).head
    (scripted (fun _ => []) fun i => if i < 6 then 13 else -1) 4).2 :=
  socket_lifeCycle (Task.moment_head _ 4)

end TcpDemo.Heartbeat
