import TcpDemo.FreeRTOS
import TcpDemo.Lib.Trace

/-!
# The heartbeat task

`prvTCPHeartbeatTask` from `tcp_heartbeat_demo.c`, cut at its two loop heads: the outer
loop that connects, and the inner loop that sends one heartbeat a pass.

The counter is advanced while a heartbeat is formatted, so before the outcome of its
`send` is known. `counter_inv` says what that makes of the heartbeats: the `i`-th `send`
of a run, counted over all connections, carries the number `i` modulo `2 ^ 32`.
-/

namespace TcpDemo.Heartbeat
open Interaction Traces CBytes FreeRTOS.Call

/-- `HEARTBEAT_SERVER_IP` and `HEARTBEAT_SERVER_PORT` -/
def heartbeatServerIp : UInt8 × UInt8 × UInt8 × UInt8 := (10, 0, 0, 1)
def heartbeatServerPort : UInt16 := 5001

/-- `HEARTBEAT_PERIOD_MS` -/
def heartbeatPeriodMs : UInt32 := 1000

/-- `xServerAddress` -/
def serverAddress : FreeRTOS.SockAddr := ⟨heartbeatServerIp, heartbeatServerPort⟩

/-- `sizeof( cTxBuffer )` -/
def txBufferSize : ℕ := 64

/-- `"HEARTBEAT %lu\r\n"` -/
def heartbeat (ulCounter : UInt32) : List UInt8 :=
  ascii "HEARTBEAT " ++ decimal ulCounter.toNat ++ ascii "\r\n"

/-- The texts of the log. -/
def connecting : List UInt8 :=
  ascii "HB: Connecting to 10.0.0.1:" ++ decimal heartbeatServerPort.toNat ++ ascii "\r\n"
def connectFailed : List UInt8 := ascii "HB: Connect failed\r\n"
def connected : List UInt8 := ascii "HB: Connected\r\n"
def sendFailed : List UInt8 := ascii "HB: Send failed, reconnecting\r\n"

/-- The variables of the task that are live across its loop heads. -/
structure Vars where
  xSocket : FreeRTOS.Socket
  ulCounter : UInt32
  cTxBuffer : Buffer txBufferSize

/-- The loop heads of the task. -/
inductive Loc where
  | connecting (v : Vars)
  | beating (v : Vars)

/-- The code of `prvTCPHeartbeatTask` from each loop head to the next. -/
def body : Loc → Program FreeRTOS.Api Loc
  | .connecting v => do
      let xSocket ← FreeRTOS.socket
      if xSocket = .invalid then do
        FreeRTOS.vTaskDelay (FreeRTOS.pdMsToTicks 2000)
        pure (.connecting { v with xSocket })
      else do
        let _ ← FreeRTOS.setsockopt xSocket (.sndTimeo (FreeRTOS.pdMsToTicks 2000))
        FreeRTOS.printf connecting
        let xResult ← FreeRTOS.connect xSocket serverAddress
        if xResult ≠ 0 then do
          FreeRTOS.printf connectFailed
          let _ ← FreeRTOS.closesocket xSocket
          FreeRTOS.vTaskDelay (FreeRTOS.pdMsToTicks 3000)
          pure (.connecting { v with xSocket })
        else do
          FreeRTOS.printf connected
          pure (.beating { v with xSocket })
  | .beating v => do
      let text := heartbeat v.ulCounter
      let v := { v with
        ulCounter := v.ulCounter + 1
        cTxBuffer := v.cTxBuffer.write 0 (snprintfStored txBufferSize text) }
      let xResult ← FreeRTOS.send v.xSocket (v.cTxBuffer.bytes.take text.length)
      if xResult.result < 0 then do
        FreeRTOS.printf sendFailed
        let _ ← FreeRTOS.closesocket v.xSocket
        FreeRTOS.vTaskDelay (FreeRTOS.pdMsToTicks 2000)
        pure (.connecting v)
      else do
        FreeRTOS.vTaskDelay (FreeRTOS.pdMsToTicks heartbeatPeriodMs)
        pure (.beating v)

/-- The task, started with arbitrary bytes in its transmit buffer. -/
@[reducible] def prvTCPHeartbeatTask (cTxBuffer : Buffer txBufferSize) : Task FreeRTOS.Api where
  Label := Loc
  start := .connecting ⟨.invalid, 0, cTxBuffer⟩
  body := body

/-! ## Heartbeats as bytes -/

/-- A heartbeat and its terminator fit the transmit buffer. -/
theorem length_heartbeat_lt (k : UInt32) : (heartbeat k).length < txBufferSize := by
  have hprefix : (ascii "HEARTBEAT ").length = 10 := by decide
  have hsuffix : (ascii "\r\n").length = 2 := by decide
  have hdigits := decimal_length_le_ten k
  simp only [heartbeat, List.length_append, txBufferSize]
  omega

/-- `snprintf` stores the whole heartbeat and its terminator. -/
theorem snprintfStored_heartbeat (k : UInt32) :
    snprintfStored txBufferSize (heartbeat k) = heartbeat k ++ [0] := by
  have hlt := length_heartbeat_lt k
  rw [snprintfStored, if_neg (by decide), List.take_of_length_le (by omega)]

/-- The bytes passed to `send` are the heartbeat that was formatted. -/
theorem txBuffer_after_snprintf (b : Buffer txBufferSize) (k : UInt32) :
    (b.write 0 (snprintfStored txBufferSize (heartbeat k))).bytes.take (heartbeat k).length =
      heartbeat k := by
  have hlt := length_heartbeat_lt k
  have hfit : 0 + (heartbeat k ++ [0]).length ≤ txBufferSize := by simp; omega
  rw [snprintfStored_heartbeat, Buffer.bytes_write _ hfit]
  simp

/-- A heartbeat ends in a line feed, and has no other. -/
theorem delimited_heartbeat (k : UInt32) : Delimited 10 (heartbeat k) := by
  refine ⟨ascii "HEARTBEAT " ++ decimal k.toNat ++ [13], ?_, ?_⟩
  · rw [heartbeat, show ascii "\r\n" = [13] ++ [10] by decide, List.append_assoc _ [13]]
  · simp only [List.mem_append, not_or]
    refine ⟨⟨by decide, fun hmem => ?_⟩, by decide⟩
    have := (mem_decimal hmem).1
    simp at this

/-- A heartbeat starts with an `H`, and has no other. -/
theorem marked_heartbeat (k : UInt32) : Marked 72 (heartbeat k) := by
  refine ⟨ascii "EARTBEAT " ++ decimal k.toNat ++ ascii "\r\n", ?_, ?_⟩
  · rw [heartbeat, show ascii "HEARTBEAT " = 72 :: ascii "EARTBEAT " by decide]
    rfl
  · simp only [List.mem_append, not_or]
    refine ⟨⟨by decide, fun hmem => ?_⟩, by decide⟩
    have := (mem_decimal hmem).2
    simp at this

/-- Different numbers make different heartbeats. -/
theorem heartbeat_injective : Function.Injective heartbeat := by
  intro j k h
  simp only [heartbeat, List.append_assoc, List.append_cancel_left_eq,
    List.append_cancel_right_eq] at h
  exact UInt32.toNat_inj.mp (decimal_injective h)

/-! ## What each stretch of code can do -/

section Steps
variable {v : Vars} {evs : Trace FreeRTOS.Api} {l : Loc}

/-- One pass of the outer loop gets no socket, gets no connection, or connects. -/
theorem connecting_step (h : (body (.connecting v)).Issues evs l) :
    (l = .connecting { v with xSocket := .invalid } ∧
      evs = [⟨socket, .invalid⟩, ⟨vTaskDelay (FreeRTOS.pdMsToTicks 2000), ()⟩]) ∨
    (∃ s o r, s ≠ .invalid ∧
      (r ≠ 0 ∧ l = .connecting { v with xSocket := s } ∧
        (∃ c, evs = [⟨socket, s⟩, ⟨setsockopt s (.sndTimeo (FreeRTOS.pdMsToTicks 2000)), o⟩,
          ⟨printf connecting, ()⟩, ⟨connect s serverAddress, r⟩, ⟨printf connectFailed, ()⟩,
          ⟨closesocket s, c⟩, ⟨vTaskDelay (FreeRTOS.pdMsToTicks 3000), ()⟩]) ∨
      r = 0 ∧ l = .beating { v with xSocket := s } ∧
        evs = [⟨socket, s⟩, ⟨setsockopt s (.sndTimeo (FreeRTOS.pdMsToTicks 2000)), o⟩,
          ⟨printf connecting, ()⟩, ⟨connect s serverAddress, r⟩, ⟨printf connected, ()⟩])) := by
  simp only [body, FreeRTOS.socket, Program.call_bind, Program.ret_bind, Program.issues_call] at h
  obtain ⟨s, rest, rfl, h⟩ := h
  by_cases hs : s = .invalid
  · left
    simp [hs] at h
    obtain ⟨⟨_, rfl⟩, rfl⟩ := h
    exact ⟨rfl, by rw [hs]⟩
  · right
    rw [if_neg hs] at h
    simp only [FreeRTOS.setsockopt, FreeRTOS.printf, FreeRTOS.connect, Program.call_bind,
      Program.ret_bind, Program.issues_call] at h
    obtain ⟨o, _, rfl, _, _, rfl, r, rest, rfl, h⟩ := h
    refine ⟨s, o, r, hs, ?_⟩
    by_cases hr : r = 0
    · right
      simp [hr] at h
      obtain ⟨⟨_, rfl⟩, rfl⟩ := h
      exact ⟨hr, rfl, rfl⟩
    · left
      simp [hr] at h
      obtain ⟨⟨_, c, _, rfl⟩, rfl⟩ := h
      exact ⟨hr, rfl, c, rfl⟩

/-- One pass of the inner loop sends the next heartbeat, and goes on unless that fails. -/
theorem beating_step (h : (body (.beating v)).Issues evs l) :
    ∃ (r : FreeRTOS.SendAnswer (heartbeat v.ulCounter).length) (b : Buffer txBufferSize),
      (r.result < 0 ∧ l = .connecting ⟨v.xSocket, v.ulCounter + 1, b⟩ ∧
        ∃ c, evs = [⟨.send v.xSocket (heartbeat v.ulCounter), r⟩, ⟨printf sendFailed, ()⟩,
          ⟨closesocket v.xSocket, c⟩, ⟨vTaskDelay (FreeRTOS.pdMsToTicks 2000), ()⟩]) ∨
      0 ≤ r.result ∧ l = .beating ⟨v.xSocket, v.ulCounter + 1, b⟩ ∧
        evs = [⟨.send v.xSocket (heartbeat v.ulCounter), r⟩,
          ⟨vTaskDelay (FreeRTOS.pdMsToTicks heartbeatPeriodMs), ()⟩] := by
  simp only [body] at h
  rw [txBuffer_after_snprintf] at h
  simp only [FreeRTOS.send, Program.call_bind, Program.ret_bind, Program.issues_call] at h
  obtain ⟨r, rest, rfl, h⟩ := h
  refine ⟨r, v.cTxBuffer.write 0 (snprintfStored txBufferSize (heartbeat v.ulCounter)), ?_⟩
  by_cases hr : r.result < 0
  · left
    simp [hr] at h
    obtain ⟨⟨_, c, _, rfl⟩, rfl⟩ := h
    exact ⟨hr, rfl, c, rfl⟩
  · right
    simp [hr] at h
    obtain ⟨⟨_, rfl⟩, rfl⟩ := h
    exact ⟨not_lt.mp hr, rfl, rfl⟩

end Steps

end TcpDemo.Heartbeat
