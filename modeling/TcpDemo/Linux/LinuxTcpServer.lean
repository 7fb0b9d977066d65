import TcpDemo.Linux.Posix

/-!
# The Linux echo server

`main` of `linux/linux_tcp_server.c`, cut at the head of its loop: it prints what it
receives and sends it back. Only the first two calls of the set-up are checked, so it may
enter its loop without a client, and leaves it at the first `recv`. A `SIGPIPE` of `send`
would end the program, and with it the run.
-/

namespace TcpDemo.Linux.LinuxTcpServer
open Interaction CBytes Posix.Call

/-- `SERVER_PORT` -/
def serverPort : UInt16 := 5001

/-- `BUF_SIZE` -/
def bufSize : ℕ := 512

/-- The texts of the program. -/
def listening : List UInt8 :=
  ascii "[LINUX] TCP Server listening on port " ++ decimal serverPort.toNat ++ ascii "\n"
def clientConnected : List UInt8 := ascii "[LINUX] Client connected\n"
def clientDisconnected : List UInt8 := ascii "[LINUX] Client disconnected\n"
def linuxRx (s : List UInt8) : List UInt8 := ascii "[LINUX RX] " ++ s ++ ascii "\n"

/-- The variables of `main` that are live in its loop. -/
structure Vars where
  serverFd : ℤ
  clientFd : ℤ
  buffer : Buffer bufSize

/-- The start of `main`, the head of its loop, and the return with a status. -/
inductive Loc where
  | start (buffer : Buffer bufSize)
  | receiving (v : Vars)
  | returned (status : ℤ)

/-- The code of `main` from each loop head to the next. -/
def body : Loc → Program Posix.Api Loc
  | .start buffer => do
      let serverFd ← Posix.socket
      if serverFd < 0 then do
        Posix.perror (ascii "socket")
        pure (.returned 1)
      else do
        let bound ← Posix.bind serverFd 0 serverPort
        if bound < 0 then do
          Posix.perror (ascii "bind")
          pure (.returned 1)
        else do
          let _ ← Posix.listen serverFd 1
          Posix.printf listening
          let clientFd ← Posix.accept serverFd
          Posix.printf clientConnected
          pure (.receiving ⟨serverFd, clientFd, buffer⟩)
  | .receiving v => do
      let n ← Posix.recv v.clientFd (bufSize - 1)
      let buffer := v.buffer.write 0 n.data
      if n.result ≤ 0 then do
        Posix.printf clientDisconnected
        let _ ← Posix.close v.clientFd
        let _ ← Posix.close v.serverFd
        pure (.returned 0)
      else do
        let buffer := buffer.write n.result.toNat [0]
        Posix.printf (linuxRx (cstr buffer.bytes))
        let _ ← Posix.send v.clientFd (buffer.bytes.take n.result.toNat)
        pure (.receiving { v with buffer })
  | .returned status => pure (.returned status)

/-- `main`, started with arbitrary bytes in its buffer. -/
def main (buffer : Buffer bufSize) : Task Posix.Api := ⟨Loc, .start buffer, body⟩

/-! ## What each stretch of code can do -/

/-- The bytes `buffer` holds once `n` bytes and their terminator are stored. -/
theorem buffer_after_recv (b : Buffer bufSize) (a : Posix.ReadAnswer (bufSize - 1)) :
    ((b.write 0 a.data).write a.result.toNat [0]).bytes.take a.result.toNat = a.data ∧
      cstr ((b.write 0 a.data).write a.result.toNat [0]).bytes = cstr a.data :=
  Posix.buffer_after_read (by decide) b a

/-- One pass of the loop echoes a chunk, or ends the session. -/
theorem receiving_step {v : Vars} {evs : Trace Posix.Api} {l : Loc}
    (h : (body (.receiving v)).Issues evs l) :
    ∃ a rest, evs = ⟨recv v.clientFd (bufSize - 1), a⟩ :: rest ∧
      (a.result ≤ 0 ∧ l = .returned 0 ∧ (∃ c s, rest = [⟨printf clientDisconnected, ()⟩,
        ⟨close v.clientFd, c⟩, ⟨close v.serverFd, s⟩]) ∨
      0 < a.result ∧ (∃ sent, rest = [⟨printf (linuxRx (cstr a.data)), ()⟩,
        ⟨send v.clientFd a.data, sent⟩]) ∧ ∃ buffer, l = .receiving { v with buffer }) := by
  simp only [body, Posix.recv, Program.call_bind, Program.ret_bind, Program.issues_call] at h
  obtain ⟨a, rest, rfl, h⟩ := h
  rw [(buffer_after_recv v.buffer a).1, (buffer_after_recv v.buffer a).2] at h
  refine ⟨a, rest, rfl, ?_⟩
  by_cases hnone : a.result ≤ 0
  · simp [hnone] at h
    obtain ⟨⟨_, c, s, rfl⟩, rfl⟩ := h
    exact .inl ⟨hnone, rfl, c, s, rfl⟩
  · simp [hnone] at h
    obtain ⟨⟨_, sent, rfl⟩, rfl⟩ := h
    exact .inr ⟨not_le.mp hnone, ⟨sent, rfl⟩, _, rfl⟩

end TcpDemo.Linux.LinuxTcpServer
