import TcpDemo.FreeRTOS
import TcpDemo.Lib.Trace

/-!
# The echo server task

`prvEchoServerTask` from `app/demos/demo_echo_server.c`, cut at its loop heads: the
code up to the first `configASSERT`, the set-up behind it, the outer loop that accepts
clients, and the inner loop that receives and echoes.

The values returned by `bind`, `listen`, `setsockopt`, `send` and `closesocket` are
discarded here because the source discards them.
-/

namespace TcpDemo.EchoServer
open Interaction CBytes FreeRTOS.Call

/-- `ECHO_SERVER_PORT` -/
def echoServerPort : UInt16 := 5001

/-- `sizeof( rxBuffer )` -/
def rxBufferSize : ℕ := 128

/-- `xBindAddress`: all zeros but for the port. -/
def bindAddress : FreeRTOS.SockAddr := ⟨(0, 0, 0, 0), echoServerPort⟩

/-- The variables of the task that are live across its loop heads. -/
structure Vars where
  xListenSocket : FreeRTOS.Socket
  xClientSocket : FreeRTOS.Socket
  rxBuffer : Buffer rxBufferSize

/-- The loop heads of the task. -/
inductive Loc where
  | start (v : Vars)
  | created (v : Vars)
  | accepting (v : Vars)
  | session (v : Vars)

/-- `"[ECHO SERVER RX] %s\r\n"` -/
def rxLog (s : List UInt8) : List UInt8 := ascii "[ECHO SERVER RX] " ++ s ++ ascii "\r\n"

/-- The other texts of the log. -/
def starting : List UInt8 :=
  ascii "\r\n[ECHO SERVER] Starting on port " ++ decimal echoServerPort.toNat ++ ascii "\r\n"
def waiting : List UInt8 := ascii "[ECHO SERVER] Waiting for client...\r\n"
def clientConnected : List UInt8 := ascii "[ECHO SERVER] Client connected\r\n"
def clientDisconnected : List UInt8 := ascii "[ECHO SERVER] Client disconnected\r\n"

/-- The code of `prvEchoServerTask` from each loop head to the next. -/
def body : Loc → Program FreeRTOS.Api (FreeRTOS.Label Loc)
  | .start v => do
      FreeRTOS.printf starting
      let xListenSocket ← FreeRTOS.socket
      FreeRTOS.configASSERT (xListenSocket ≠ .invalid) (.created { v with xListenSocket })
  | .created v => do
      let _ ← FreeRTOS.bind v.xListenSocket bindAddress
      let _ ← FreeRTOS.listen v.xListenSocket 2
      pure (.code (.accepting v))
  | .accepting v => do
      FreeRTOS.printf waiting
      let xClientSocket ← FreeRTOS.accept v.xListenSocket
      if xClientSocket = .invalid then
        pure (.code (.accepting { v with xClientSocket }))
      else do
        let _ ← FreeRTOS.setsockopt xClientSocket (.rcvTimeo FreeRTOS.portMaxDelay)
        FreeRTOS.printf clientConnected
        pure (.code (.session { v with xClientSocket }))
  | .session v => do
      let xRx ← FreeRTOS.recv v.xClientSocket 0 (rxBufferSize - 1)
      let rxBuffer := v.rxBuffer.write 0 xRx.data
      if xRx.result ≤ 0 then do
        FreeRTOS.printf clientDisconnected
        let _ ← FreeRTOS.closesocket v.xClientSocket
        pure (.code (.accepting { v with rxBuffer }))
      else do
        let rxBuffer := rxBuffer.write xRx.result.toNat [0]
        FreeRTOS.printf (rxLog (cstr rxBuffer.bytes))
        let _ ← FreeRTOS.send v.xClientSocket (rxBuffer.bytes.take xRx.result.toNat)
        pure (.code (.session { v with rxBuffer }))

/-- The task, started with arbitrary bytes in its receive buffer. -/
def prvEchoServerTask (rxBuffer : Buffer rxBufferSize) : Task FreeRTOS.Api :=
  FreeRTOS.taskOf (.start ⟨.invalid, .invalid, rxBuffer⟩) body

/-! ## What each stretch of code can do -/

/-- What the server issues once a client is accepted, before it receives. -/
def opening (s : FreeRTOS.Socket) (o : ℤ) : Trace FreeRTOS.Api :=
  [⟨setsockopt s (.rcvTimeo FreeRTOS.portMaxDelay), o⟩, ⟨printf clientConnected, ()⟩]

/-- One pass of the inner loop that received something: the chunk, and the fate of the
attempt to send it back. -/
structure Exchange where
  recv : FreeRTOS.RecvAnswer (rxBufferSize - 1)
  send : FreeRTOS.SendAnswer recv.data.length
  positive : 0 < recv.result

/-- What the server issues in such a pass. -/
def Exchange.events (s : FreeRTOS.Socket) (x : Exchange) : Trace FreeRTOS.Api :=
  [⟨.recv s 0 (rxBufferSize - 1), x.recv⟩, ⟨printf (rxLog (cstr x.recv.data)), ()⟩,
    ⟨.send s x.recv.data, x.send⟩]

section Steps
variable {v : Vars} {evs : Trace FreeRTOS.Api} {l : FreeRTOS.Label Loc}

/-- The bytes `rxBuffer` holds once a chunk and its terminator are stored. -/
theorem rxBuffer_after_recv (b : Buffer rxBufferSize)
    (a : FreeRTOS.RecvAnswer (rxBufferSize - 1)) :
    ((b.write 0 a.data).write a.result.toNat [0]).bytes.take a.result.toNat = a.data ∧
      cstr ((b.write 0 a.data).write a.result.toNat [0]).bytes = cstr a.data := by
  have hfit : a.data.length < rxBufferSize := Nat.lt_of_le_of_lt a.fits (by decide)
  rw [← a.stored]
  exact ⟨b.take_write_nul hfit, b.cstr_write_nul hfit⟩

/-- The first stretch creates the listening socket, or ends in the assertion hook. -/
theorem start_step (h : (body (.start v)).Issues evs l) :
    (∃ s, l = .code (.created { v with xListenSocket := s }) ∧
      evs = [⟨printf starting, ()⟩, ⟨socket, s⟩]) ∨
    (l = .vAssertCalled 0 (.created { v with xListenSocket := .invalid }) ∧
      evs = [⟨printf starting, ()⟩, ⟨socket, .invalid⟩, ⟨taskEnterCritical, ()⟩]) := by
  simp only [body, FreeRTOS.printf, FreeRTOS.socket, Program.call_bind, Program.ret_bind,
    Program.issues_call] at h
  obtain ⟨_, _, rfl, s, rest, rfl, h⟩ := h
  by_cases hs : s = .invalid
  · right
    simp [hs, FreeRTOS.configASSERT] at h
    obtain ⟨⟨_, rfl⟩, rfl⟩ := h
    exact ⟨rfl, by rw [hs]⟩
  · left
    simp [hs, FreeRTOS.configASSERT] at h
    obtain ⟨rfl, rfl⟩ := h
    exact ⟨s, rfl, rfl⟩

/-- The set-up goes on to accept clients whatever `bind` and `listen` return. -/
theorem created_step (h : (body (.created v)).Issues evs l) :
    ∃ b n, l = .code (.accepting v) ∧
      evs = [⟨bind v.xListenSocket bindAddress, b⟩, ⟨listen v.xListenSocket 2, n⟩] := by
  simp [body] at h
  obtain ⟨⟨b, n, rfl⟩, rfl⟩ := h
  exact ⟨b, n, rfl, rfl⟩

/-- One pass of the outer loop either gets no client and goes round, or opens a session. -/
theorem accepting_step (h : (body (.accepting v)).Issues evs l) :
    (l = .code (.accepting { v with xClientSocket := .invalid }) ∧
      evs = [⟨printf waiting, ()⟩, ⟨accept v.xListenSocket, .invalid⟩]) ∨
    (∃ s o, s ≠ .invalid ∧ l = .code (.session { v with xClientSocket := s }) ∧
      evs = ⟨printf waiting, ()⟩ :: ⟨accept v.xListenSocket, s⟩ :: opening s o) := by
  simp only [body, FreeRTOS.printf, FreeRTOS.accept, Program.call_bind, Program.ret_bind,
    Program.issues_call] at h
  obtain ⟨_, _, rfl, s, rest, rfl, h⟩ := h
  by_cases hs : s = .invalid
  · left
    simp only [hs, if_true, Program.pure_eq_ret, Program.issues_ret] at h
    exact ⟨h.2, by rw [h.1, hs]⟩
  · right
    simp [hs] at h
    obtain ⟨⟨o, _, rfl⟩, rfl⟩ := h
    exact ⟨s, o, hs, rfl, rfl⟩

/-- One pass of the inner loop either ends the session or echoes a chunk. -/
theorem session_step (h : (body (.session v)).Issues evs l) :
    (∃ a c, a.result ≤ 0 ∧
      l = .code (.accepting { v with rxBuffer := v.rxBuffer.write 0 a.data }) ∧
      evs = [⟨recv v.xClientSocket 0 127, a⟩, ⟨printf clientDisconnected, ()⟩,
        ⟨closesocket v.xClientSocket, c⟩]) ∨
    (∃ (x : Exchange) (b : Buffer rxBufferSize),
      l = .code (.session { v with rxBuffer := b }) ∧ evs = x.events v.xClientSocket) := by
  simp only [body, FreeRTOS.recv, Program.call_bind, Program.ret_bind, Program.issues_call] at h
  obtain ⟨a, rest, rfl, h⟩ := h
  obtain ⟨hdata, hstr⟩ := rxBuffer_after_recv v.rxBuffer a
  rw [hdata, hstr] at h
  by_cases ha : a.result ≤ 0
  · left
    simp [ha] at h
    obtain ⟨⟨_, c, rfl⟩, rfl⟩ := h
    exact ⟨a, c, ha, rfl, rfl⟩
  · right
    simp [ha] at h
    obtain ⟨⟨_, r, rfl⟩, rfl⟩ := h
    exact ⟨⟨a, r, by omega⟩, _, rfl, rfl⟩

/-- The server can set up its socket and accept a client. -/
theorem start_ok (v : Vars) : (body (.start v)).Issues [⟨printf starting, ()⟩, ⟨socket, .handle 0⟩]
    (.code (.created { v with xListenSocket := .handle 0 })) := by
  simp [body, FreeRTOS.configASSERT]

theorem created_ok (v : Vars) : (body (.created v)).Issues
    [⟨bind v.xListenSocket bindAddress, (0 : ℤ)⟩, ⟨listen v.xListenSocket 2, (0 : ℤ)⟩]
    (.code (.accepting v)) := by
  simp [body]

theorem accepting_ok (v : Vars) : (body (.accepting v)).Issues
    (⟨printf waiting, ()⟩ :: ⟨accept v.xListenSocket, .handle 1⟩ :: opening (.handle 1) 0)
    (.code (.session { v with xClientSocket := .handle 1 })) := by
  simp [body, opening]

/-- The server can go through any exchange. -/
theorem session_exchange (v : Vars) (x : Exchange) :
    ∃ b, (body (.session v)).Issues (x.events v.xClientSocket)
      (.code (.session { v with rxBuffer := b })) := by
  obtain ⟨hdata, hstr⟩ := rxBuffer_after_recv v.rxBuffer x.recv
  refine ⟨(v.rxBuffer.write 0 x.recv.data).write x.recv.result.toNat [0], ?_⟩
  simp only [body, FreeRTOS.recv, Program.call_bind, Program.ret_bind, Program.issues_call]
  refine ⟨x.recv, _, rfl, ?_⟩
  rw [hdata, hstr, if_neg (not_le.mpr x.positive)]
  simp

end Steps
end TcpDemo.EchoServer
