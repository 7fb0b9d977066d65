import TcpDemo.EchoServer.Task

/-!
# The socket protocol of the echo server

Which socket each call of the server is made on. `SocketProtocol` asks every call to be
in order given the calls before it; it counts handles, so a socket that was closed may
be handed out again by a later `accept`.

The server looks at neither the result of `bind` nor that of `listen`, and tests the
result of `accept` for `FREERTOS_INVALID_SOCKET` only, while an `accept` that times out
returns `NULL`. `socket_protocol_iff` says that nothing else can break the protocol.
-/

namespace TcpDemo.EchoServer
open Interaction Traces CBytes FreeRTOS FreeRTOS.Call

/-! ## The protocol -/

/-- The handle an `accept` has returned. -/
def acceptedHandle : Event Api → List Socket
  | ⟨.accept _, .handle n⟩ => [.handle n]
  | _ => []

/-- The report of a new client. -/
def isReport : Event Api → Bool
  | ⟨.printf text, _⟩ => text = clientConnected
  | _ => false

def acceptedHandles (tr : Trace Api) : List Socket := tr.flatMap acceptedHandle
def reports (tr : Trace Api) : ℕ := tr.countP isReport

/-- The socket was bound and put in listen state, both with success. -/
def Listening (tr : Trace Api) (s : Socket) : Prop :=
  ∃ address n, [⟨.bind s address, (0 : ℤ)⟩, ⟨.listen s n, (0 : ℤ)⟩].Sublist tr

/-- The handle was returned by `accept` and has not been closed since. -/
def Live (tr : Trace Api) (s : Socket) : Prop :=
  (closedSockets tr).count s < (acceptedHandles tr).count s

/-- What the protocol asks of a call, given the calls before it: `accept` needs a
listening socket, and every handle accepted so far reported and closed, each exactly
once; the calls on a client need a live handle; a report is for the client that was
accepted last. -/
def InOrder (pre : Trace Api) : Event Api → Prop
  | ⟨.accept s, _⟩ => Listening pre s ∧ reports pre = (acceptedHandles pre).length ∧
      ∀ c, (closedSockets pre).count c = (acceptedHandles pre).count c
  | ⟨.setsockopt s _, _⟩ => Live pre s
  | ⟨.recv s _ _, _⟩ => Live pre s
  | ⟨.send s _, _⟩ => Live pre s
  | ⟨.closesocket s, _⟩ => Live pre s
  | ⟨.printf text, _⟩ =>
      text = clientConnected → reports pre + 1 = (acceptedHandles pre).length
  | _ => True

/-- Every call is in order. -/
def SocketProtocol (tr : Trace Api) : Prop := Stepwise InOrder tr

/-- `bind` and `listen` succeed, and `accept` does not time out. -/
def Succeeds : Event Api → Prop
  | ⟨.bind _ _, r⟩ => (r : ℤ) = 0
  | ⟨.listen _ _, r⟩ => (r : ℤ) = 0
  | ⟨.accept _, s⟩ => s ≠ Socket.null
  | _ => True

/-- `accept` never hands out one handle twice. -/
def FreshHandles (env : Environment Api) : Prop :=
  ∀ i j s s' n, i < j → env i (.accept s) = .handle n → env j (.accept s') ≠ .handle n

/-! ## How the counts grow -/

section Counts
variable (tr tr' : Trace Api) (e : Event Api)

@[simp] theorem acceptedHandles_nil : acceptedHandles [] = [] := rfl
@[simp] theorem reports_nil : reports [] = 0 := rfl
@[simp] theorem acceptedHandles_append :
    acceptedHandles (tr ++ tr') = acceptedHandles tr ++ acceptedHandles tr' := List.flatMap_append
@[simp] theorem reports_append : reports (tr ++ tr') = reports tr + reports tr' :=
  List.countP_append
@[simp] theorem acceptedHandles_cons :
    acceptedHandles (e :: tr) = acceptedHandle e ++ acceptedHandles tr := rfl
@[simp] theorem reports_cons :
    reports (e :: tr) = reports tr + if isReport e then 1 else 0 := List.countP_cons

variable {tr}

theorem Listening.append {s : Socket} (h : Listening tr s) : Listening (tr ++ tr') s := by
  obtain ⟨address, n, h⟩ := h
  exact ⟨address, n, h.trans (List.sublist_append_left _ _)⟩

end Counts

theorem starting_ne : starting ≠ clientConnected := by decide
theorem waiting_ne : waiting ≠ clientConnected := by decide
theorem clientDisconnected_ne : clientDisconnected ≠ clientConnected := by decide

/-- No text of the RX log is taken for the report of a client. -/
theorem rxLog_ne (s : List UInt8) : rxLog s ≠ clientConnected := by
  intro h
  have htake := congrArg (List.take 13) h
  rw [rxLog, List.append_assoc, List.take_append_of_le_length (by decide)] at htake
  exact absurd htake (by decide)

/-! ## Enough for the protocol -/

/-- No client is connected: every accepted handle was reported and closed. -/
structure Between (tr : Trace Api) (listenSocket : Socket) : Prop where
  listening : Listening tr listenSocket
  closed : closedSockets tr = acceptedHandles tr
  reported : reports tr = (acceptedHandles tr).length

/-- The client `s` is connected, and it is the only one. -/
structure Serving (tr : Trace Api) (listenSocket s : Socket) : Prop where
  listening : Listening tr listenSocket
  closed : closedSockets tr ++ [s] = acceptedHandles tr
  reported : reports tr = (acceptedHandles tr).length

theorem live_of_closed_snoc {tr : Trace Api} {s : Socket}
    (h : closedSockets tr ++ [s] = acceptedHandles tr) : Live tr s := by
  rw [Live, ← h]
  simp

section InOrder
variable {tr : Trace Api} {listenSocket s : Socket}

/-- The server greets a client in order. -/
theorem Between.accept (h : Between tr listenSocket) (n : ℕ) (o : ℤ) :
    let evs := ⟨printf waiting, ()⟩ :: ⟨.accept listenSocket, .handle n⟩ :: opening (.handle n) o
    StepwiseFrom InOrder tr evs ∧ Serving (tr ++ evs) listenSocket (.handle n) := by
  intro evs
  refine ⟨⟨fun hw => absurd hw waiting_ne, ⟨h.listening.append _, ?_, ?_⟩, ?_, ?_, trivial⟩, ?_⟩
  · simpa [acceptedHandle, isReport, waiting_ne] using h.reported
  · simp [acceptedHandle, closedSocket, h.closed]
  · exact live_of_closed_snoc (by simp [acceptedHandle, closedSocket, h.closed])
  · simp [InOrder, acceptedHandle, isReport, waiting_ne, h.reported]
  · refine ⟨h.listening.append _, ?_, ?_⟩
    · simp [evs, opening, acceptedHandle, closedSocket, h.closed]
    · simp [evs, opening, acceptedHandle, isReport, waiting_ne, h.reported]

/-- An `accept` that reports an error leaves no client. -/
theorem Between.accept_invalid (h : Between tr listenSocket) :
    let evs : Trace Api := [⟨printf waiting, ()⟩, ⟨.accept listenSocket, .invalid⟩]
    StepwiseFrom InOrder tr evs ∧ Between (tr ++ evs) listenSocket := by
  intro evs
  refine ⟨⟨fun hw => absurd hw waiting_ne, ⟨h.listening.append _, ?_, ?_⟩, trivial⟩, ?_⟩
  · simpa [acceptedHandle, isReport, waiting_ne] using h.reported
  · simp [acceptedHandle, closedSocket, h.closed]
  · refine ⟨h.listening.append _, ?_, ?_⟩
    · simp [evs, acceptedHandle, closedSocket, h.closed]
    · simp [evs, acceptedHandle, isReport, waiting_ne, h.reported]

/-- The server echoes a chunk in order. -/
theorem Serving.exchange (h : Serving tr listenSocket s) (x : Exchange) :
    StepwiseFrom InOrder tr (x.events s) ∧ Serving (tr ++ x.events s) listenSocket s := by
  refine ⟨⟨live_of_closed_snoc h.closed, fun hrx => absurd hrx (rxLog_ne _), ?_, trivial⟩, ?_⟩
  · exact live_of_closed_snoc (by simp [acceptedHandle, closedSocket, h.closed])
  · refine ⟨h.listening.append _, ?_, ?_⟩
    · simp [Exchange.events, acceptedHandle, closedSocket, h.closed]
    · simp [Exchange.events, acceptedHandle, isReport, rxLog_ne, h.reported]

/-- The server closes a session in order. -/
theorem Serving.close (h : Serving tr listenSocket s) (a : RecvAnswer (rxBufferSize - 1)) (c : ℤ) :
    let evs : Trace Api := [⟨.recv s 0 (rxBufferSize - 1), a⟩, ⟨printf clientDisconnected, ()⟩,
      ⟨closesocket s, c⟩]
    StepwiseFrom InOrder tr evs ∧ Between (tr ++ evs) listenSocket := by
  intro evs
  refine ⟨⟨live_of_closed_snoc h.closed, fun hd => absurd hd clientDisconnected_ne, ?_, trivial⟩,
    ?_⟩
  · exact live_of_closed_snoc (by simp [acceptedHandle, closedSocket, h.closed])
  · refine ⟨h.listening.append _, ?_, ?_⟩
    · simp [evs, acceptedHandle, closedSocket, h.closed]
    · simp [evs, acceptedHandle, isReport, clientDisconnected_ne, h.reported]

end InOrder

/-- What the loop heads know about the calls so far. -/
def ProtocolState : FreeRTOS.Label Loc → Trace Api → Prop
  | .code (.accepting v), tr => Between tr v.xListenSocket
  | .code (.session v), tr => Serving tr v.xListenSocket v.xClientSocket
  | .vAssertCalled looping _, _ => looping = 0
  | _, tr => acceptedHandles tr = [] ∧ closedSockets tr = [] ∧ reports tr = 0

/-- As long as the calls succeed, a stretch of code is in order. -/
theorem protocol_step (rx : Buffer rxBufferSize) (l : FreeRTOS.Label Loc) (tr evs : Trace Api)
    (l' : FreeRTOS.Label Loc) (h : ProtocolState l tr) (hok : ∀ e ∈ evs, Succeeds e)
    (hstep : ((prvEchoServerTask rx).body l).Issues evs l') :
    StepwiseFrom InOrder tr evs ∧ ProtocolState l' (tr ++ evs) := by
  match l with
  | .vAssertCalled looping v =>
    rcases vAssertCalled_step hstep with ⟨h0, rfl, rfl⟩ | ⟨h0, -, -⟩
    · exact ⟨⟨trivial, trivial⟩, h0⟩
    · exact absurd h h0
  | .code (.start v) =>
    obtain ⟨hacc, hclosed, hrep⟩ := h
    rcases start_step hstep with ⟨s, rfl, rfl⟩ | ⟨rfl, rfl⟩
    · refine ⟨⟨fun hs => absurd hs starting_ne, trivial, trivial⟩, ?_, ?_, ?_⟩
      · simp [hacc, acceptedHandle]
      · simp [hclosed, closedSocket]
      · simp [hrep, isReport, starting_ne]
    · exact ⟨⟨fun hs => absurd hs starting_ne, trivial, trivial, trivial⟩, rfl⟩
  | .code (.created v) =>
    obtain ⟨hacc, hclosed, hrep⟩ := h
    obtain ⟨b, n, rfl, rfl⟩ := created_step hstep
    have hb : b = 0 := hok ⟨.bind _ _, b⟩ (by simp)
    have hn : n = 0 := hok ⟨.listen _ _, n⟩ (by simp)
    subst hb hn
    refine ⟨⟨trivial, trivial, trivial⟩, ⟨_, _, List.sublist_append_right _ _⟩, ?_, ?_⟩
    · simp [hacc, hclosed, acceptedHandle, closedSocket]
    · simp [hacc, hrep, acceptedHandle, isReport]
  | .code (.accepting v) =>
    rcases accepting_step hstep with ⟨rfl, rfl⟩ | ⟨s, o, hs, rfl, rfl⟩
    · exact Between.accept_invalid h
    · have hnull : s ≠ .null := hok ⟨.accept v.xListenSocket, s⟩ (by simp)
      cases s with
      | null => exact absurd rfl hnull
      | invalid => exact absurd rfl hs
      | handle n => exact Between.accept h n o
  | .code (.session v) =>
    rcases session_step hstep with ⟨a, c, ha, rfl, rfl⟩ | ⟨x, b, rfl, rfl⟩
    · exact Serving.close h a c
    · exact Serving.exchange h x

/-- **The protocol is kept while the calls succeed.** -/
theorem protocol_of_succeeds {rx : Buffer rxBufferSize} {env : Environment Api} {k : ℕ}
    (hok : ∀ e ∈ ((prvEchoServerTask rx).head env k).2, Succeeds e) :
    SocketProtocol ((prvEchoServerTask rx).head env k).2 := by
  have hinv := Task.head_induction (prvEchoServerTask rx)
    (fun l tr => (∀ e ∈ tr, Succeeds e) → SocketProtocol tr ∧ ProtocolState l tr)
    (fun _ => ⟨stepwise_nil, rfl, rfl, rfl⟩)
    (fun l tr evs l' h hstep hok => by
      obtain ⟨hpro, hstate⟩ := h fun e he => hok e (by simp [he])
      obtain ⟨hevs, hstate'⟩ := protocol_step rx l tr evs l' hstate
        (fun e he => hok e (by simp [he])) hstep
      exact ⟨(stepwise_append _ _).mpr ⟨hpro, hevs⟩, hstate'⟩) env k
  exact (hinv hok).1

/-! ## Needed for the protocol -/

/-- The calls of the set-up, up to the first loop head that accepts. -/
def setUp (s : Socket) (b n : ℤ) : Trace Api :=
  [⟨printf starting, ()⟩, ⟨socket, s⟩, ⟨.bind s bindAddress, b⟩, ⟨.listen s 2, n⟩]

theorem succeeds_setUp {s : Socket} {b n : ℤ}
    (h : Listening (setUp s b n ++ [⟨printf waiting, ()⟩]) s) :
    ∀ e ∈ setUp s b n, Succeeds e := by
  obtain ⟨address, m, hsub⟩ := h
  have hb := hsub.subset List.mem_cons_self
  have hn := hsub.subset (List.mem_cons_of_mem _ List.mem_cons_self)
  simp only [setUp, List.cons_append, List.nil_append, List.mem_cons, Event.mk.injEq, reduceCtorEq,
    false_and, false_or, Call.bind.injEq, Call.listen.injEq, heq_eq_eq, true_and, List.not_mem_nil,
    or_false] at hb hn
  obtain ⟨-, rfl⟩ := hb
  obtain ⟨-, rfl⟩ := hn
  simp [setUp, Succeeds]

/-- What the loop heads know about the calls so far if these were in order: they have
succeeded, except that a failed set-up shows only at the first `accept`. -/
def SucceededState : FreeRTOS.Label Loc → Trace Api → Prop
  | .code (.start _), tr => tr = []
  | .code (.created v), tr => tr = [⟨printf starting, ()⟩, ⟨socket, v.xListenSocket⟩]
  | .code (.accepting v), tr => (∃ b n, tr = setUp v.xListenSocket b n) ∨ ∀ e ∈ tr, Succeeds e
  | .code (.session _), tr => ∀ e ∈ tr, Succeeds e
  | .vAssertCalled looping _, tr => looping = 0 ∧ ∀ e ∈ tr, Succeeds e

/-- The first call in order after the set-up shows that the set-up succeeded. -/
theorem SucceededState.of_accept {v : Vars} {tr : Trace Api} {s : Socket}
    (h : SucceededState (.code (.accepting v)) tr)
    (hpro : InOrder (tr ++ [⟨printf waiting, ()⟩]) ⟨.accept v.xListenSocket, s⟩) :
    ∀ e ∈ tr, Succeeds e := by
  rcases h with ⟨b, n, rfl⟩ | h
  · exact succeeds_setUp hpro.1
  · exact h

/-- `NULL` is never a live handle. -/
theorem not_live_null (tr : Trace Api) : ¬ Live tr .null := by
  have hnot : Socket.null ∉ acceptedHandles tr := by
    intro hmem
    obtain ⟨e, -, he⟩ := List.mem_flatMap.mp hmem
    unfold acceptedHandle at he
    split at he <;> simp at he
  rw [Live, List.count_eq_zero.mpr hnot]
  exact Nat.not_lt_zero _

/-- The calls of a pass that accepts are in order only if the calls so far succeeded. -/
theorem succeeds_of_accepting {v : Vars} {tr evs : Trace Api} {l' : FreeRTOS.Label Loc}
    (h : SucceededState (.code (.accepting v)) tr) (hpro : StepwiseFrom InOrder tr evs)
    (hstep : (body (.accepting v)).Issues evs l') : ∀ e ∈ tr ++ evs, Succeeds e := by
  intro e he
  rcases accepting_step hstep with ⟨rfl, rfl⟩ | ⟨s, o, hs, rfl, rfl⟩
  · have htr := h.of_accept hpro.2.1
    rcases List.mem_append.mp he with he | he
    · exact htr e he
    · simp only [List.mem_cons, List.not_mem_nil, or_false] at he
      rcases he with rfl | rfl <;> simp [Succeeds]
  · have htr := h.of_accept hpro.2.1
    have hlive : Live _ s := hpro.2.2.1
    have hnull : s ≠ .null := fun hnull => not_live_null _ (hnull ▸ hlive)
    rcases List.mem_append.mp he with he | he
    · exact htr e he
    · simp only [opening, List.mem_cons, List.not_mem_nil, or_false] at he
      rcases he with rfl | rfl | rfl | rfl <;> simp [Succeeds, hnull]

theorem succeededState_step (rx : Buffer rxBufferSize) (l : FreeRTOS.Label Loc)
    (tr evs : Trace Api) (l' : FreeRTOS.Label Loc) (h : SucceededState l tr)
    (hpro : StepwiseFrom InOrder tr evs)
    (hstep : ((prvEchoServerTask rx).body l).Issues evs l') : SucceededState l' (tr ++ evs) := by
  match l with
  | .vAssertCalled looping v =>
    rcases vAssertCalled_step hstep with ⟨h0, rfl, rfl⟩ | ⟨h0, -, -⟩
    · refine ⟨h0, fun e he => ?_⟩
      rcases List.mem_append.mp he with he | he
      · exact h.2 e he
      · rw [List.mem_singleton.mp he]
        trivial
    · exact absurd h.1 h0
  | .code (.start v) =>
    obtain rfl : tr = [] := h
    rcases start_step hstep with ⟨s, rfl, rfl⟩ | ⟨rfl, rfl⟩
    · rfl
    · exact ⟨rfl, by simp [Succeeds]⟩
  | .code (.created v) =>
    obtain rfl : tr = _ := h
    obtain ⟨b, n, rfl, rfl⟩ := created_step hstep
    exact .inl ⟨b, n, rfl⟩
  | .code (.accepting v) =>
    have hall := succeeds_of_accepting h hpro hstep
    rcases accepting_step hstep with ⟨rfl, -⟩ | ⟨s, o, hs, rfl, -⟩
    · exact .inr hall
    · exact hall
  | .code (.session v) =>
    rcases session_step hstep with ⟨a, c, ha, rfl, rfl⟩ | ⟨x, b, rfl, rfl⟩
    · refine .inr fun e he => ?_
      rcases List.mem_append.mp he with he | he
      · exact h e he
      · simp only [List.mem_cons, List.not_mem_nil, or_false] at he
        rcases he with rfl | rfl | rfl <;> trivial
    · intro e he
      rcases List.mem_append.mp he with he | he
      · exact h e he
      · simp only [Exchange.events, List.mem_cons, List.not_mem_nil, or_false] at he
        rcases he with rfl | rfl | rfl <;> trivial

/-- If the next stretch of code is in order, the calls before it have succeeded. -/
theorem SucceededState.succeeds {rx : Buffer rxBufferSize} {l : FreeRTOS.Label Loc}
    {tr evs : Trace Api} {l' : FreeRTOS.Label Loc} (h : SucceededState l tr)
    (hpro : StepwiseFrom InOrder tr evs)
    (hstep : ((prvEchoServerTask rx).body l).Issues evs l') : ∀ e ∈ tr, Succeeds e := by
  match l with
  | .vAssertCalled _ _ => exact h.2
  | .code (.start _) => simp [show tr = [] from h]
  | .code (.created _) =>
    obtain rfl : tr = _ := h
    simp [Succeeds]
  | .code (.accepting _) =>
    exact fun e he => succeeds_of_accepting h hpro hstep e (List.mem_append_left _ he)
  | .code (.session _) => exact h

/-- **A run that keeps the protocol has no failing call.** -/
theorem succeeds_of_protocol {rx : Buffer rxBufferSize} {env : Environment Api}
    (hpro : ∀ k, SocketProtocol ((prvEchoServerTask rx).head env k).2) (k : ℕ) :
    ∀ e ∈ ((prvEchoServerTask rx).head env k).2, Succeeds e := by
  have hstep : ∀ k, ∃ evs, StepwiseFrom InOrder ((prvEchoServerTask rx).head env k).2 evs ∧
      ((prvEchoServerTask rx).head env (k + 1)).2 = ((prvEchoServerTask rx).head env k).2 ++ evs ∧
      ((prvEchoServerTask rx).body ((prvEchoServerTask rx).head env k).1).Issues evs
        ((prvEchoServerTask rx).head env (k + 1)).1 := by
    intro k
    obtain ⟨evs, htr, hevs⟩ := Task.head_step (T := prvEchoServerTask rx) env k
    exact ⟨evs, ((stepwise_append _ _).mp (htr ▸ hpro (k + 1))).2, htr, hevs⟩
  have hstate : ∀ k, SucceededState ((prvEchoServerTask rx).head env k).1
      ((prvEchoServerTask rx).head env k).2 := by
    intro k
    induction k with
    | zero => rfl
    | succ k ih =>
      obtain ⟨evs, hin, htr, hevs⟩ := hstep k
      exact htr ▸ succeededState_step rx _ _ evs _ ih hin hevs
  obtain ⟨evs, hin, -, hevs⟩ := hstep k
  exact (hstate k).succeeds hin hevs

/-- **What the socket protocol rests on.** A run keeps the protocol at every moment if
and only if its `bind` and `listen` succeed and no `accept` in it returns `NULL`. -/
theorem socket_protocol_iff (rx : Buffer rxBufferSize) (env : Environment Api) :
    (∀ tr, (prvEchoServerTask rx).Moment env tr → SocketProtocol tr) ↔
      ∀ tr, (prvEchoServerTask rx).Moment env tr → ∀ e ∈ tr, Succeeds e := by
  constructor
  · rintro h tr ⟨k, hk⟩ e he
    exact succeeds_of_protocol (fun k => h _ (Task.moment_head env k)) k e (hk.subset he)
  · rintro h tr ⟨k, hk⟩
    exact (protocol_of_succeeds (h _ (Task.moment_head env k))).of_isPrefix hk

/-- The listening socket of the run below times out whenever it is asked for a client. -/
def idleListener : Environment Api
  | _, .accept _ => .null
  | i, c => scripted (fun _ => []) (fun _ => 0) i c

/-- Where no client arrives in time, the server goes on with `NULL`. -/
theorem socket_protocol_times_out : ¬ ∀ rx env, FreshHandles env →
    ∀ tr, (prvEchoServerTask rx).Moment env tr → SocketProtocol tr := by
  intro h
  have hfresh : FreshHandles idleListener := by
    intro i j s s' n _ hi
    exact absurd hi (by simp [idleListener])
  have hpro := h (.replicate _ 0) idleListener hfresh
  obtain ⟨-, -, -, -, -, -, hnull, -⟩ := hpro _ (Task.moment_head idleListener 3)
  exact not_live_null _ hnull

end TcpDemo.EchoServer
