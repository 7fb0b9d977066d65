import TcpDemo.Linux.Posix

/-!
# The Linux client

`main` of `linux/tcp_client.c`, cut at the head of its `select` loop. It relays like the
server does, but knows no command, does not look at what `send` returns, and takes an error
of `recv` for the end of the connection.
-/

namespace TcpDemo.Linux.TcpClient
open Interaction CBytes Posix.Call

/-- `SERVER_IP`, and the address `inet_pton` makes of it. -/
def serverIp : List UInt8 := ascii "10.0.0.2"
def serverAddress : UInt32 := 0x0a000002

/-- `SERVER_PORT` -/
def serverPort : UInt16 := 5001

/-- `BUF_SIZE` -/
def bufSize : ℕ := 512

/-- The texts of the program. -/
def connectingTo : List UInt8 :=
  ascii "[LINUX] Connecting to FreeRTOS " ++ serverIp ++ ascii ":" ++ decimal serverPort.toNat ++
    ascii "...\n"
def connected : List UInt8 := ascii "[LINUX] Connected to FreeRTOS echo server\n"
def freeRtosDisconnected : List UInt8 := ascii "[LINUX] FreeRTOS disconnected\n"
def linuxRx (s : List UInt8) : List UInt8 := ascii "[LINUX RX] " ++ s ++ ascii "\n"
def linuxTx (s : List UInt8) : List UInt8 := ascii "[LINUX TX] " ++ s

/-- The variables of `main` that are live in its loop. -/
structure Vars where
  sock : ℤ
  buffer : Buffer bufSize

/-- The start of `main`, the head of its loop, and the return with a status. -/
inductive Loc where
  | start (buffer : Buffer bufSize)
  | selecting (v : Vars)
  | returned (status : ℤ)

/-- `maxfd` -/
def maxfd (v : Vars) : ℤ := if v.sock > Posix.stdinFileno then v.sock else Posix.stdinFileno

/-- The block for data from FreeRTOS; `none` stands for its `break`. -/
def fromFreeRtos (readfds : List ℤ) (v : Vars) : Program Posix.Api (Option Vars) :=
  if v.sock ∈ readfds then do
    let n ← Posix.recv v.sock (bufSize - 1)
    let buffer := v.buffer.write 0 n.data
    if n.result ≤ 0 then do
      Posix.printf freeRtosDisconnected
      pure none
    else do
      let buffer := buffer.write n.result.toNat [0]
      Posix.printf (linuxRx (cstr buffer.bytes))
      pure (some { v with buffer })
  else pure (some v)

/-- The block for data from the terminal. -/
def fromTerminal (readfds : List ℤ) (v : Vars) : Program Posix.Api Vars :=
  if Posix.stdinFileno ∈ readfds then do
    let n ← Posix.read Posix.stdinFileno (bufSize - 1)
    let buffer := v.buffer.write 0 n.data
    if 0 < n.result then do
      let _ ← Posix.send v.sock (buffer.bytes.take n.result.toNat)
      -- `%.*s` ends at a NUL as well
      Posix.printf (linuxTx (cstr (buffer.bytes.take n.result.toNat)))
      pure { v with buffer }
    else pure { v with buffer }
  else pure v

/-- Behind the loop. -/
def finish (v : Vars) : Program Posix.Api Loc := do
  let _ ← Posix.close v.sock
  pure (.returned 0)

/-- The code of `main` from each loop head to the next. -/
def body : Loc → Program Posix.Api Loc
  | .start buffer => do
      Posix.signalIgnoreSigpipe
      let sock ← Posix.socket
      if sock < 0 then do
        Posix.perror (ascii "socket")
        pure (.returned 1)
      else do
        Posix.printf connectingTo
        let connects ← Posix.connect sock serverAddress serverPort
        if connects < 0 then do
          Posix.perror (ascii "connect")
          pure (.returned 1)
        else do
          Posix.printf connected
          pure (.selecting ⟨sock, buffer⟩)
  | .selecting v => do
      let ready ← Posix.select (maxfd v + 1) [v.sock, Posix.stdinFileno]
      if ready.result < 0 then do
        Posix.perror (ascii "select")
        finish v
      else do
        let received ← fromFreeRtos ready.readfds v
        match received with
        | none => finish v
        | some v => do
            let v ← fromTerminal ready.readfds v
            pure (.selecting v)
  | .returned status => pure (.returned status)

/-- `main`, started with arbitrary bytes in its buffer. -/
def main (buffer : Buffer bufSize) : Task Posix.Api := ⟨Loc, .start buffer, body⟩

/-! ## What each stretch of code can do -/

section Steps
variable {v : Vars} {evs : Trace Posix.Api}

/-- The string `buffer` holds once `n` bytes and their terminator are stored. -/
theorem cstr_after_recv (b : Buffer bufSize) (a : Posix.ReadAnswer (bufSize - 1)) :
    cstr ((b.write 0 a.data).write a.result.toNat [0]).bytes = cstr a.data :=
  (Posix.buffer_after_read (by decide) b a).2

/-- The bytes a `read` has stored, without a terminator behind them. -/
theorem take_after_read (b : Buffer bufSize) (a : Posix.ReadAnswer (bufSize - 1)) :
    (b.write 0 a.data).bytes.take a.result.toNat = a.data := by
  rw [← a.stored]
  exact b.take_write_zero (Nat.le_trans a.fits (by decide))

/-- Data from FreeRTOS is printed, or ends the loop. -/
theorem fromFreeRtos_step {readfds : List ℤ} {r : Option Vars}
    (h : (fromFreeRtos readfds v).Issues evs r) :
    (evs = [] ∧ r = some v) ∨ ∃ a e, evs = [⟨recv v.sock (bufSize - 1), a⟩, e] ∧
      (a.result ≤ 0 ∧ e = ⟨printf freeRtosDisconnected, ()⟩ ∧ r = none ∨
      0 < a.result ∧ e = ⟨printf (linuxRx (cstr a.data)), ()⟩ ∧
        ∃ buffer, r = some { v with buffer }) := by
  by_cases hready : v.sock ∈ readfds
  · right
    simp only [fromFreeRtos, if_pos hready, Posix.recv, Program.call_bind, Program.ret_bind,
      Program.issues_call] at h
    obtain ⟨a, rest, rfl, h⟩ := h
    rw [cstr_after_recv v.buffer a] at h
    by_cases hnone : a.result ≤ 0
    · simp [hnone] at h
      obtain ⟨⟨_, rfl⟩, rfl⟩ := h
      exact ⟨a, _, rfl, .inl ⟨hnone, rfl, rfl⟩⟩
    · simp [hnone] at h
      obtain ⟨⟨_, rfl⟩, rfl⟩ := h
      exact ⟨a, _, rfl, .inr ⟨not_le.mp hnone, rfl, _, rfl⟩⟩
  · left
    simpa [fromFreeRtos, hready] using h

/-- What is typed is sent, and the end of the input is ignored. -/
theorem fromTerminal_step {readfds : List ℤ} {v' : Vars}
    (h : (fromTerminal readfds v).Issues evs v') :
    (∃ buffer, v' = { v with buffer }) ∧ (evs = [] ∨ ∃ a rest,
      evs = ⟨read Posix.stdinFileno (bufSize - 1), a⟩ :: rest ∧ (a.result ≤ 0 ∧ rest = [] ∨
        0 < a.result ∧ ∃ sent, rest = [⟨send v.sock a.data, sent⟩,
          ⟨printf (linuxTx (cstr a.data)), ()⟩])) := by
  by_cases hready : Posix.stdinFileno ∈ readfds
  swap
  · simp [fromTerminal, hready] at h
    exact ⟨⟨v.buffer, h.2⟩, .inl h.1⟩
  simp only [fromTerminal, if_pos hready, Posix.read, Program.call_bind, Program.ret_bind,
    Program.issues_call] at h
  obtain ⟨a, rest, rfl, h⟩ := h
  rw [take_after_read v.buffer a] at h
  by_cases hpos : 0 < a.result
  · simp [hpos] at h
    obtain ⟨⟨sent, _, rfl⟩, rfl⟩ := h
    exact ⟨⟨_, rfl⟩, .inr ⟨a, _, rfl, .inr ⟨hpos, sent, rfl⟩⟩⟩
  · simp [hpos] at h
    obtain ⟨rfl, rfl⟩ := h
    exact ⟨⟨_, rfl⟩, .inr ⟨a, _, rfl, .inl ⟨not_lt.mp hpos, rfl⟩⟩⟩

/-- **The rule of the loop.** What holds of the calls of each block holds of a pass. -/
theorem body_keeps {P : Trace Posix.Api → Prop} (hP : Program.AppendClosed P)
    (hstart : ∀ b, (body (.start b)).Keeps P) (hselect : ∀ n fds r, P [⟨select n fds, r⟩])
    (herror : P [⟨perror (ascii "select"), ()⟩])
    (hfreeRtos : ∀ readfds v, (fromFreeRtos readfds v).Keeps P)
    (hterminal : ∀ readfds v, (fromTerminal readfds v).Keeps P)
    (hfinish : ∀ v, (finish v).Keeps P) (l : Loc) : (body l).Keeps P := by
  cases l with
  | start b => exact hstart b
  | selecting v =>
    simp only [body, Posix.select, Posix.perror, Program.call_bind, Program.ret_bind]
    refine .call hP (hselect _ _) fun ready => ?_
    split
    · exact .call hP (fun _ => herror) fun _ => hfinish v
    refine .bind hP (hfreeRtos ready.readfds v) fun received => ?_
    cases received with
    | none => exact hfinish v
    | some v' => exact .bind hP (hterminal ready.readfds v') fun _ => Program.keeps_ret hP _
  | returned status => exact Program.keeps_ret hP _

end Steps

end TcpDemo.Linux.TcpClient
