import TcpDemo.EchoClient.LifeCycle
import TcpDemo.Heartbeat.Task
import TcpDemo.Lib.Rate

/-!
# How often the clients use the network

Both clients that FreeRTOS runs sleep between what they do. The heartbeat task sends at most
one heartbeat a second, and asks for at most one socket in two seconds, also while its server
is down and every attempt fails at once. The echo client pauses after each iteration, so
its requests and its sockets are spaced by `echoLOOP_DELAY` even if the server answers at once.
-/

namespace TcpDemo
open Interaction Traces Typestate CBytes FreeRTOS FreeRTOS.Call

/-- The ticks a call sleeps. -/
def sleeps : Event Api → ℕ
  | ⟨.vTaskDelay ticks, _⟩ => ticks.toNat
  | _ => 0

/-- The calls that put a request on the network, or ask for a socket. -/
def isSend : Event Api → Bool
  | ⟨.send _ _, _⟩ => true
  | _ => false

def isSocket : Event Api → Bool
  | ⟨.socket, _⟩ => true
  | _ => false

/-! ## The heartbeat task -/

namespace Heartbeat

theorem toNat_heartbeatPeriod : (FreeRTOS.pdMsToTicks heartbeatPeriodMs).toNat = 1000 := by decide
theorem toNat_afterSocket : (FreeRTOS.pdMsToTicks 2000).toNat = 2000 := by decide
theorem toNat_afterConnect : (FreeRTOS.pdMsToTicks 3000).toNat = 3000 := by decide

/-- At both loop heads the task has slept for a heartbeat since the last one. -/
theorem sends_leads (l : Loc) (s : ℕ) (hs : 1000 ≤ s) :
    (limiter 1000 isSend sleeps).Leads (body l) s fun _ s' => 1000 ≤ s' := by
  intro evs l' h
  cases l with
  | connecting v =>
    refine ⟨_, follows_unmarked ?_, hs.trans (Nat.le_add_right _ _)⟩
    rcases connecting_step h with ⟨-, rfl⟩ | ⟨t, o, r, -, ⟨-, -, c, rfl⟩ | ⟨-, -, rfl⟩⟩ <;>
      simp [isSend]
  | beating v =>
    obtain ⟨r, b, ⟨-, -, c, rfl⟩ | ⟨-, -, rfl⟩⟩ := beating_step h
    all_goals
      refine ⟨_, ⟨_, next_marked rfl hs, follows_unmarked (by simp [isSend])⟩, ?_⟩
      simp [sleeps, toNat_heartbeatPeriod, toNat_afterSocket]

/-- When the task asks for a socket again, it has slept since it did so before. -/
def RestedAt : Loc → ℕ → Prop
  | .connecting _, s => 2000 ≤ s
  | .beating _, _ => True

theorem sockets_leads (l : Loc) (s : ℕ) (hs : RestedAt l s) :
    (limiter 2000 isSocket sleeps).Leads (body l) s RestedAt := by
  intro evs l' h
  cases l with
  | connecting v =>
    rcases connecting_step h with ⟨rfl, rfl⟩ | ⟨t, o, r, -, ⟨-, rfl, c, rfl⟩ | ⟨-, rfl, rfl⟩⟩
    all_goals
      refine ⟨_, ⟨_, next_marked rfl hs, follows_unmarked (by simp [isSocket])⟩, ?_⟩
      simp [RestedAt, sleeps, toNat_afterSocket, toNat_afterConnect]
  | beating v =>
    obtain ⟨r, b, ⟨-, rfl, c, rfl⟩ | ⟨-, rfl, rfl⟩⟩ := beating_step h
    all_goals
      refine ⟨_, follows_unmarked (by simp [isSocket]), ?_⟩
      simp [RestedAt, sleeps, toNat_afterSocket]

/-- **The pace of the heartbeats**, in every window of every run. -/
theorem heartbeats_paced {cTxBuffer : Buffer txBufferSize} {env : Environment Api} {tr : Trace Api}
    (h : (prvTCPHeartbeatTask cTxBuffer).Moment env tr) :
    Spaced 1000 isSend sleeps tr ∧ Spaced 2000 isSocket sleeps tr :=
  ⟨Spaced.moment (J := fun _ s => 1000 ≤ s) le_rfl sends_leads h,
    Spaced.moment (J := RestedAt) le_rfl sockets_leads h⟩

/-- Two heartbeats, the second of which fails, and a new connection. -/
def reconnecting : Trace Api := ((prvTCPHeartbeatTask (.replicate _ 0)).head
  (scripted (fun _ => []) fun i => if i < 6 then 13 else -1) 4).2

example : reconnecting.countP isSend = 2 ∧ reconnecting.countP isSocket = 2 ∧
    slept sleeps reconnecting = 3000 := by decide +kernel

theorem heartbeats_paced_reconnecting :
    Spaced 1000 isSend sleeps reconnecting ∧ Spaced 2000 isSocket sleeps reconnecting :=
  heartbeats_paced (Task.moment_head _ 4)

end Heartbeat

/-! ## The echo client -/

namespace EchoClient

section Pause
variable {mss : Mss} {x : ℕ} {v : Vars mss} {evs : Trace Api} {l : FreeRTOS.Label (Loc mss)}

theorem toNat_echoLoopDelay : echoLoopDelay.toNat = 150 := by decide

/-- Calls that neither ask for a socket nor send. -/
def Unmarked (evs : Trace Api) : Prop := ∀ e ∈ evs, isSocket e = false ∧ isSend e = false

/-- Where the client goes on while it waits for the reply to its only request, or drains. -/
def Waits : FreeRTOS.Label (Loc mss) → Prop
  | .code (.receiving v) | .code (.compared v) => v.lLoopCount = 0
  | .code (.draining _) => True
  | .vAssertCalled looping _ => looping = 0
  | _ => False

theorem finish_unmarked (h : (finish v).Issues evs l) : Unmarked evs ∧ Waits l := by
  obtain ⟨r, t, rfl, rfl⟩ := finish_step h
  exact ⟨by simp [Unmarked, isSocket, isSend], trivial⟩

theorem replied_unmarked (hv : v.lLoopCount = 0) (h : (replied v).Issues evs l) :
    Unmarked evs ∧ Waits l := by
  rcases replied_step h with ⟨-, -, rfl, rfl⟩ | ⟨-, -, rfl, rfl⟩ | ⟨-, h⟩
  · exact ⟨by simp [Unmarked], hv⟩
  · exact ⟨by simp [Unmarked, isSocket, isSend], rfl⟩
  · exact finish_unmarked h

theorem receiving_unmarked (hv : v.lLoopCount = 0) (h : (body x (.receiving v)).Issues evs l) :
    Unmarked evs ∧ Waits l := by
  refine receiving_rule (x := x) (P := fun evs l => Unmarked evs ∧ Waits l) (replied_unmarked hv)
    (replied_unmarked hv) ⟨by simp [Unmarked], hv⟩ ?_ h
  rintro s offset size a evs l ⟨hevs, hl⟩
  exact ⟨List.forall_mem_cons.mpr ⟨⟨rfl, rfl⟩, hevs⟩, hl⟩

/-- Behind its only request the client shuts the connection down. -/
theorem compared_unmarked (hv : v.lLoopCount = 0) (h : (body x (.compared v)).Issues evs l) :
    Unmarked evs ∧ Waits l := by
  rcases compared_step h with ⟨-, rest, rfl, hnext⟩ | ⟨-, rest, rfl, hfinish⟩
  · rw [nextRequest, if_neg (by simp [hv, lMaxLoopCount])] at hnext
    obtain ⟨hrest, hl⟩ := finish_unmarked hnext
    exact ⟨List.forall_mem_cons.mpr ⟨⟨rfl, rfl⟩, hrest⟩, hl⟩
  · obtain ⟨hrest, hl⟩ := finish_unmarked hfinish
    exact ⟨List.forall_mem_cons.mpr ⟨⟨rfl, rfl⟩, hrest⟩, hl⟩

/-- What a loop head knows of the sleep since the last marked call, with `before` for the loop
heads between the socket and the request. -/
def RestedAt (before : ℕ → Prop) : FreeRTOS.Label (Loc mss) → ℕ → Prop
  | .code (.connecting _), s => 150 ≤ s
  | .code (.created _), s => before s
  | .code (.drawing v), s => v.lLoopCount = 0 ∧ before s
  | l, _ => Waits l

/-- Waiting is all that is asked behind the request. -/
theorem Waits.restedAt {before : ℕ → Prop} {s : ℕ} (h : Waits l) : RestedAt before l s := by
  match l with
  | .code (.receiving _) | .code (.compared _) | .code (.draining _) | .vAssertCalled _ _ =>
    exact h

/-- The loop heads behind the request are the same for both kinds of calls. -/
theorem waiting_leads {mark : Event Api → Bool} {before : ℕ → Prop} {s : ℕ}
    (hmark : ∀ e, isSocket e = false → isSend e = false → mark e = false)
    (cTxBuffer cRxBuffer : Buffer mss.echoBufferSizes) (hl : Waits l) :
    (limiter 150 mark sleeps).Leads ((prvEchoClientTask x cTxBuffer cRxBuffer).body l) s
      (RestedAt before) := by
  intro evs l' h
  have hnone : ∀ {evs}, Unmarked evs → ∀ e ∈ evs, mark e = false := fun hevs e he =>
    hmark e (hevs e he).1 (hevs e he).2
  match l with
  | .code (.receiving v) =>
    obtain ⟨hevs, hl'⟩ := receiving_unmarked (x := x) hl h
    exact ⟨_, follows_unmarked (hnone hevs), hl'.restedAt⟩
  | .code (.compared v) =>
    obtain ⟨hevs, hl'⟩ := compared_unmarked (x := x) hl h
    exact ⟨_, follows_unmarked (hnone hevs), hl'.restedAt⟩
  | .code (.draining v) =>
    obtain ⟨a, b, ⟨t, -, rfl, rfl⟩ | ⟨ticks, r, hticks, rfl, rfl⟩⟩ := draining_step (x := x) h
    · exact ⟨_, follows_unmarked (hnone (by simp [Unmarked, isSocket, isSend])), trivial⟩
    · refine ⟨_, follows_unmarked (hnone ?_), ?_⟩
      · rcases hticks with ⟨-, rfl⟩ | ⟨t, -, rfl⟩ <;> simp [Unmarked, isSocket, isSend]
      · rcases hticks with ⟨-, rfl⟩ | ⟨t, -, rfl⟩ <;>
          simp [RestedAt, sleeps, toNat_echoLoopDelay]
  | .vAssertCalled looping loc =>
    rcases vAssertCalled_step h with ⟨h0, rfl, rfl⟩ | ⟨hne, -, -⟩
    · exact ⟨_, follows_unmarked (hnone (by simp [Unmarked, isSocket, isSend])), h0⟩
    · exact absurd hl hne

theorem created_unmarked (h : (body x (.created v)).Issues evs l) :
    Unmarked evs ∧ ((∃ v', l = .code (.drawing v') ∧ v'.lLoopCount = 0) ∨
      (∃ v', l = .code (.connecting v')) ∧ 150 ≤ slept sleeps evs) := by
  rcases created_step (x := x) h with ⟨o, rfl, rfl⟩ | ⟨o, ret, r, -, rfl, rfl⟩
  · exact ⟨by simp [Unmarked, attempt, isSocket, isSend], .inl ⟨_, rfl, rfl⟩⟩
  · refine ⟨by simp [Unmarked, attempt, isSocket, isSend], .inr ⟨⟨_, rfl⟩, ?_⟩⟩
    simp [attempt, sleeps, toNat_echoLoopDelay]

/-- A draw is rejected, or the client sends its request and waits. -/
theorem drawing_sends (hv : v.lLoopCount = 0) (h : (body x (.drawing v)).Issues evs l) :
    (Unmarked evs ∧ l = .code (.drawing v)) ∨ ∃ r text data a rest,
      evs = [⟨xApplicationGetRandomNumber, r⟩, ⟨printf text, ()⟩] ++
        ⟨.send v.xSocket data, a⟩ :: rest ∧ Unmarked rest ∧ Waits l := by
  obtain ⟨r, rest, rfl, ⟨-, rfl, rfl⟩ | ⟨n, hn, hsize, hsend⟩⟩ := drawing_step h
  · exact .inl ⟨by simp [Unmarked, isSocket, isSend], rfl⟩
  · obtain ⟨a, tx, rest, -, rfl, hrest⟩ := sendRequest_step hn hsize hsend
    refine .inr ⟨r, _, _, a, ⟨printf (sendReturned a.result), ()⟩ :: rest, rfl, ?_⟩
    rcases hrest with ⟨-, hfinish⟩ | ⟨-, rfl, rfl⟩
    · obtain ⟨hnone, hl⟩ := finish_unmarked hfinish
      exact ⟨List.forall_mem_cons.mpr ⟨⟨rfl, rfl⟩, hnone⟩, hl⟩
    · exact ⟨by simp [Unmarked, isSocket, isSend], hv⟩

theorem sends_leads (cTxBuffer cRxBuffer : Buffer mss.echoBufferSizes)
    (l : FreeRTOS.Label (Loc mss)) (s : ℕ) (hl : RestedAt (150 ≤ ·) l s) :
    (limiter 150 isSend sleeps).Leads ((prvEchoClientTask x cTxBuffer cRxBuffer).body l) s
      (RestedAt (150 ≤ ·)) := by
  match l with
  | .code (.connecting v) =>
    intro evs l' h
    rcases connecting_step (x := x) h with ⟨t, rfl, rfl⟩ | ⟨rfl, rfl⟩
    · exact ⟨_, follows_unmarked (by simp [isSend]), hl.trans (Nat.le_add_right _ _)⟩
    · exact ⟨_, follows_unmarked (by simp [isSend]), rfl⟩
  | .code (.created v) =>
    intro evs l' h
    obtain ⟨hnone, ⟨v', rfl, hv'⟩ | ⟨⟨v', rfl⟩, -⟩⟩ := created_unmarked (x := x) h
    · exact ⟨_, follows_unmarked fun e he => (hnone e he).2, hv', hl.trans (Nat.le_add_right _ _)⟩
    · exact ⟨_, follows_unmarked fun e he => (hnone e he).2, hl.trans (Nat.le_add_right _ _)⟩
  | .code (.drawing v) =>
    intro evs l' h
    obtain ⟨hv, hs⟩ := hl
    rcases drawing_sends (x := x) hv h with
      ⟨hnone, rfl⟩ | ⟨r, text, data, a, rest, rfl, hrest, hl'⟩
    · exact ⟨_, follows_unmarked fun e he => (hnone e he).2, hv, hs.trans (Nat.le_add_right _ _)⟩
    · refine ⟨_, ⟨_, next_unmarked rfl, _, next_unmarked rfl, _, next_marked rfl hs,
        follows_unmarked fun e he => (hrest e he).2⟩, hl'.restedAt⟩
  | .code (.receiving v) | .code (.compared v) | .code (.draining v) | .vAssertCalled _ _ =>
    exact waiting_leads (fun _ _ h => h) cTxBuffer cRxBuffer hl

theorem sockets_leads (cTxBuffer cRxBuffer : Buffer mss.echoBufferSizes)
    (l : FreeRTOS.Label (Loc mss)) (s : ℕ) (hl : RestedAt (fun _ => True) l s) :
    (limiter 150 isSocket sleeps).Leads ((prvEchoClientTask x cTxBuffer cRxBuffer).body l) s
      (RestedAt fun _ => True) := by
  match l with
  | .code (.connecting v) =>
    intro evs l' h
    rcases connecting_step (x := x) h with ⟨t, rfl, rfl⟩ | ⟨rfl, rfl⟩
    · exact ⟨_, ⟨_, next_marked rfl hl, rfl⟩, trivial⟩
    · exact ⟨_, ⟨_, next_marked rfl hl, follows_unmarked (by simp [isSocket])⟩, rfl⟩
  | .code (.created v) =>
    intro evs l' h
    obtain ⟨hnone, ⟨v', rfl, hv'⟩ | ⟨⟨v', rfl⟩, hslept⟩⟩ := created_unmarked (x := x) h
    · exact ⟨_, follows_unmarked fun e he => (hnone e he).1, hv', trivial⟩
    · exact ⟨_, follows_unmarked fun e he => (hnone e he).1,
        hslept.trans (Nat.le_add_left _ _)⟩
  | .code (.drawing v) =>
    intro evs l' h
    obtain ⟨hv, -⟩ := hl
    rcases drawing_sends (x := x) hv h with
      ⟨hnone, rfl⟩ | ⟨r, text, data, a, rest, rfl, hrest, hl'⟩
    · exact ⟨_, follows_unmarked fun e he => (hnone e he).1, hv, trivial⟩
    · refine ⟨_, ⟨_, next_unmarked rfl, _, next_unmarked rfl, _, next_unmarked rfl,
        follows_unmarked fun e he => (hrest e he).1⟩, hl'.restedAt⟩
  | .code (.receiving v) | .code (.compared v) | .code (.draining v) | .vAssertCalled _ _ =>
    exact waiting_leads (fun _ h _ => h) cTxBuffer cRxBuffer hl

/-- **The pace of the requests**, in every window of every run. -/
theorem requests_paced {cTxBuffer cRxBuffer : Buffer mss.echoBufferSizes} {env : Environment Api}
    {tr : Trace Api} (h : (prvEchoClientTask x cTxBuffer cRxBuffer).Moment env tr) :
    Spaced 150 isSend sleeps tr ∧ Spaced 150 isSocket sleeps tr :=
  ⟨Spaced.moment (J := RestedAt (150 ≤ ·)) le_rfl (sends_leads cTxBuffer cRxBuffer) h,
    Spaced.moment (J := RestedAt fun _ => True) le_rfl (sockets_leads cTxBuffer cRxBuffer) h⟩

theorem requests_paced_echoed :
    Spaced 150 isSend sleeps nextIteration ∧ Spaced 150 isSocket sleeps nextIteration :=
  requests_paced (Task.moment_head _ 8)

end Pause

end EchoClient
end TcpDemo
