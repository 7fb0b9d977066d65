import TcpDemo.Linux.Posix

/-!
# The Linux server

`main` of `linux/tcp_server.c`, cut at the head of its `select` loop. What comes from the
client is printed, what is typed on the terminal is sent to it, and a text that begins
with `quit` closes the session.
-/

namespace TcpDemo.Linux.TcpServer
open Interaction CBytes Posix.Call

/-- `SERVER_PORT` -/
def serverPort : UInt16 := 5001

/-- `BUF_SIZE` -/
def bufSize : ℕ := 512

/-- The texts of the program. -/
def listening : List UInt8 :=
  ascii "[LINUX] TCP Server listening on port " ++ decimal serverPort.toNat ++ ascii "\n"
def clientConnected : List UInt8 := ascii "[LINUX] Client connected\n"
def typeMessages : List UInt8 := ascii "[LINUX] Type messages to send. Type 'quit' to close.\n"
def clientDisconnected : List UInt8 := ascii "[LINUX] Client disconnected\n"
def closingConnection : List UInt8 := ascii "[LINUX] Closing connection\n"
def linuxRx (s : List UInt8) : List UInt8 := ascii "[LINUX RX] " ++ s ++ ascii "\n"
def linuxTx (s : List UInt8) : List UInt8 := ascii "[LINUX TX] " ++ s

/-- The string constant of the command. -/
def quit : List UInt8 := ascii "quit"

/-- The variables of `main` that are live in its loop. -/
structure Vars where
  serverFd : ℤ
  clientFd : ℤ
  buffer : Buffer bufSize

/-- The start of `main`, the head of its loop, and the return with a status. -/
inductive Loc where
  | start (buffer : Buffer bufSize)
  | selecting (v : Vars)
  | returned (status : ℤ)

/-- `maxfd` -/
def maxfd (v : Vars) : ℤ :=
  if v.clientFd > Posix.stdinFileno then v.clientFd else Posix.stdinFileno

/-- The block for data from the FreeRTOS client; `none` stands for its `break`s. -/
def fromClient (readfds : List ℤ) (v : Vars) : Program Posix.Api (Option Vars) :=
  if v.clientFd ∈ readfds then do
    let n ← Posix.recv v.clientFd (bufSize - 1)
    let buffer := v.buffer.write 0 n.data
    if n.result = 0 then do
      Posix.printf clientDisconnected
      pure none
    else if n.result < 0 then do
      Posix.perror (ascii "recv")
      pure none
    else do
      let buffer := buffer.write n.result.toNat [0]
      Posix.printf (linuxRx (cstr buffer.bytes))
      pure (some { v with buffer })
  else pure (some v)

/-- The block for data from the Linux terminal. -/
def fromTerminal (readfds : List ℤ) (v : Vars) : Program Posix.Api (Option Vars) :=
  if Posix.stdinFileno ∈ readfds then do
    let n ← Posix.read Posix.stdinFileno (bufSize - 1)
    let buffer := v.buffer.write 0 n.data
    if 0 < n.result then do
      let buffer := buffer.write n.result.toNat [0]
      if strncmp buffer.bytes (quit ++ [0]) 4 = 0 then do
        Posix.printf closingConnection
        pure none
      else do
        let sent ← Posix.send v.clientFd (buffer.bytes.take n.result.toNat)
        if sent < 0 then do
          Posix.perror (ascii "send")
          pure none
        else do
          Posix.printf (linuxTx (cstr buffer.bytes))
          pure (some { v with buffer })
    else pure (some { v with buffer })
  else pure (some v)

/-- Behind the loop. -/
def finish (v : Vars) : Program Posix.Api Loc := do
  let _ ← Posix.close v.clientFd
  let _ ← Posix.close v.serverFd
  pure (.returned 0)

/-- The code of `main` from each loop head to the next. -/
def body : Loc → Program Posix.Api Loc
  | .start buffer => do
      Posix.signalIgnoreSigpipe
      let serverFd ← Posix.socket
      if serverFd < 0 then do
        Posix.perror (ascii "socket")
        pure (.returned 1)
      else do
        let bound ← Posix.bind serverFd 0 serverPort
        if bound < 0 then do
          Posix.perror (ascii "bind")
          pure (.returned 1)
        else do
          let listens ← Posix.listen serverFd 1
          if listens < 0 then do
            Posix.perror (ascii "listen")
            pure (.returned 1)
          else do
            Posix.printf listening
            let clientFd ← Posix.accept serverFd
            if clientFd < 0 then do
              Posix.perror (ascii "accept")
              pure (.returned 1)
            else do
              Posix.printf clientConnected
              Posix.printf typeMessages
              pure (.selecting ⟨serverFd, clientFd, buffer⟩)
  | .selecting v => do
      let ready ← Posix.select (maxfd v + 1) [v.clientFd, Posix.stdinFileno]
      if ready.result < 0 then do
        Posix.perror (ascii "select")
        finish v
      else do
        let received ← fromClient ready.readfds v
        match received with
        | none => finish v
        | some v => do
            let typed ← fromTerminal ready.readfds v
            match typed with
            | none => finish v
            | some v => pure (.selecting v)
  | .returned status => pure (.returned status)

/-- `main`, started with arbitrary bytes in its buffer. -/
def main (buffer : Buffer bufSize) : Task Posix.Api := ⟨Loc, .start buffer, body⟩

/-! ## What each stretch of code can do -/

section Steps
variable {v : Vars} {evs : Trace Posix.Api}

/-- The bytes `buffer` holds once `n` bytes and their terminator are stored. -/
theorem buffer_after_read (b : Buffer bufSize) (a : Posix.ReadAnswer (bufSize - 1)) :
    ((b.write 0 a.data).write a.result.toNat [0]).bytes.take a.result.toNat = a.data ∧
      cstr ((b.write 0 a.data).write a.result.toNat [0]).bytes = cstr a.data :=
  Posix.buffer_after_read (by decide) b a

/-- The test for the command looks at the first bytes that were read, however few. -/
theorem strncmp_quit (b : Buffer bufSize) (a : Posix.ReadAnswer (bufSize - 1)) :
    strncmp ((b.write 0 a.data).write a.result.toNat [0]).bytes (quit ++ [0]) 4 = 0 ↔
      quit <+: a.data := by
  have hquit : 0 ∉ quit := by decide
  rw [show 4 = quit.length from rfl, strncmp_constant hquit (by simp [bufSize, quit, ascii]),
    ← isPrefix_cstr_iff hquit, (buffer_after_read b a).2, isPrefix_cstr_iff hquit]

/-- Data from the client is printed, or ends the loop. -/
theorem fromClient_step {readfds : List ℤ} {r : Option Vars}
    (h : (fromClient readfds v).Issues evs r) :
    (evs = [] ∧ r = some v) ∨ ∃ a e, evs = [⟨recv v.clientFd (bufSize - 1), a⟩, e] ∧
      (a.result = 0 ∧ e = ⟨printf clientDisconnected, ()⟩ ∧ r = none ∨
      a.result < 0 ∧ e = ⟨perror (ascii "recv"), ()⟩ ∧ r = none ∨
      0 < a.result ∧ e = ⟨printf (linuxRx (cstr a.data)), ()⟩ ∧
        ∃ buffer, r = some { v with buffer }) := by
  by_cases hready : v.clientFd ∈ readfds
  · right
    simp only [fromClient, if_pos hready, Posix.recv, Program.call_bind, Program.ret_bind,
      Program.issues_call] at h
    obtain ⟨a, rest, rfl, h⟩ := h
    rw [(buffer_after_read v.buffer a).2] at h
    rcases lt_trichotomy a.result 0 with hneg | hzero | hpos
    · simp [hneg.ne, hneg] at h
      obtain ⟨⟨_, rfl⟩, rfl⟩ := h
      exact ⟨a, _, rfl, .inr (.inl ⟨hneg, rfl, rfl⟩)⟩
    · simp [hzero] at h
      obtain ⟨⟨_, rfl⟩, rfl⟩ := h
      exact ⟨a, _, rfl, .inl ⟨hzero, rfl, rfl⟩⟩
    · simp [hpos.ne', not_lt.mpr hpos.le] at h
      obtain ⟨⟨_, rfl⟩, rfl⟩ := h
      exact ⟨a, _, rfl, .inr (.inr ⟨hpos, rfl, _, rfl⟩)⟩
  · left
    simpa [fromClient, hready] using h

/-- What is typed closes the session or is sent, and the end of the input is ignored. -/
theorem fromTerminal_step {readfds : List ℤ} {r : Option Vars}
    (h : (fromTerminal readfds v).Issues evs r) :
    (evs = [] ∧ r = some v) ∨ ∃ a rest,
      evs = ⟨read Posix.stdinFileno (bufSize - 1), a⟩ :: rest ∧
      (a.result ≤ 0 ∧ rest = [] ∧ (∃ buffer, r = some { v with buffer }) ∨
      0 < a.result ∧ quit <+: a.data ∧ rest = [⟨printf closingConnection, ()⟩] ∧ r = none ∨
      0 < a.result ∧ ¬ quit <+: a.data ∧ ∃ sent e, rest = [⟨send v.clientFd a.data, sent⟩, e] ∧
        (sent < 0 ∧ e = ⟨perror (ascii "send"), ()⟩ ∧ r = none ∨
        0 ≤ sent ∧ e = ⟨printf (linuxTx (cstr a.data)), ()⟩ ∧
          ∃ buffer, r = some { v with buffer })) := by
  by_cases hready : Posix.stdinFileno ∈ readfds
  swap
  · left
    simpa [fromTerminal, hready] using h
  right
  simp only [fromTerminal, if_pos hready, Posix.read, Program.call_bind, Program.ret_bind,
    Program.issues_call] at h
  obtain ⟨a, rest, rfl, h⟩ := h
  refine ⟨a, rest, rfl, ?_⟩
  rw [(buffer_after_read v.buffer a).1, (buffer_after_read v.buffer a).2] at h
  have hcmd := strncmp_quit v.buffer a
  by_cases hpos : 0 < a.result
  · by_cases hquit : quit <+: a.data
    · simp [hpos, hcmd.mpr hquit] at h
      obtain ⟨⟨_, rfl⟩, rfl⟩ := h
      exact .inr (.inl ⟨hpos, hquit, rfl, rfl⟩)
    · simp only [if_pos hpos, if_neg (mt hcmd.mp hquit), Posix.send, Program.call_bind,
        Program.ret_bind, Program.issues_call] at h
      obtain ⟨sent, rest, rfl, h⟩ := h
      refine .inr (.inr ⟨hpos, hquit, sent, ?_⟩)
      by_cases hsent : sent < 0
      · simp [hsent] at h
        obtain ⟨⟨_, rfl⟩, rfl⟩ := h
        exact ⟨_, rfl, .inl ⟨hsent, rfl, rfl⟩⟩
      · simp [hsent] at h
        obtain ⟨⟨_, rfl⟩, rfl⟩ := h
        exact ⟨_, rfl, .inr ⟨not_lt.mp hsent, rfl, _, rfl⟩⟩
  · simp [hpos] at h
    obtain ⟨rfl, rfl⟩ := h
    exact .inl ⟨not_lt.mp hpos, rfl, _, rfl⟩

theorem finish_step {l : Loc} (h : (finish v).Issues evs l) :
    ∃ c s, evs = [⟨close v.clientFd, c⟩, ⟨close v.serverFd, s⟩] ∧ l = .returned 0 := by
  simp [finish] at h
  obtain ⟨⟨c, s, rfl⟩, rfl⟩ := h
  exact ⟨c, s, rfl, rfl⟩

/-- A call of the set-up that failed. -/
def failedSetup : Event Posix.Api → Bool
  | ⟨.socket, r⟩ | ⟨.bind _ _ _, r⟩ | ⟨.listen _ _, r⟩ | ⟨.accept _, r⟩ => (r : ℤ) < 0
  | _ => false

/-- The set-up ends with a client, or after a failure. -/
theorem start_step {b : Buffer bufSize} {l : Loc} (h : (body (.start b)).Issues evs l) :
    (evs.any failedSetup ∧ l = .returned 1) ∨ ∃ s c rb rl, l = .selecting ⟨s, c, b⟩ ∧
      evs = [⟨signalIgnoreSigpipe, ()⟩, ⟨socket, s⟩, ⟨bind s 0 serverPort, rb⟩, ⟨listen s 1, rl⟩,
        ⟨printf listening, ()⟩, ⟨accept s, c⟩, ⟨printf clientConnected, ()⟩,
        ⟨printf typeMessages, ()⟩] := by
  simp only [body, Posix.signalIgnoreSigpipe, Posix.socket, Program.call_bind, Program.ret_bind,
    Program.issues_call] at h
  obtain ⟨_, _, rfl, s, rest, rfl, h⟩ := h
  by_cases hs : s < 0
  · left
    simp [hs] at h
    obtain ⟨⟨_, rfl⟩, rfl⟩ := h
    simp [failedSetup, hs]
  simp only [if_neg hs, Posix.bind, Program.call_bind, Program.ret_bind, Program.issues_call] at h
  obtain ⟨rb, rest, rfl, h⟩ := h
  by_cases hb : rb < 0
  · left
    simp [hb] at h
    obtain ⟨⟨_, rfl⟩, rfl⟩ := h
    simp [failedSetup, hb]
  simp only [if_neg hb, Posix.listen, Program.call_bind, Program.ret_bind, Program.issues_call] at h
  obtain ⟨rl, rest, rfl, h⟩ := h
  by_cases hl : rl < 0
  · left
    simp [hl] at h
    obtain ⟨⟨_, rfl⟩, rfl⟩ := h
    simp [failedSetup, hl]
  simp only [if_neg hl, Posix.printf, Posix.accept, Program.call_bind, Program.ret_bind,
    Program.issues_call] at h
  obtain ⟨_, _, rfl, c, rest, rfl, h⟩ := h
  by_cases hc : c < 0
  · left
    simp [hc] at h
    obtain ⟨⟨_, rfl⟩, rfl⟩ := h
    simp [failedSetup, hc]
  · right
    simp [hc] at h
    obtain ⟨⟨_, _, rfl⟩, rfl⟩ := h
    exact ⟨s, c, rb, rl, rfl, rfl⟩

/-- One pass of the loop: the client first, then the terminal. -/
theorem selecting_step {l : Loc} (h : (body (.selecting v)).Issues evs l) :
    ∃ ready rest, evs = ⟨select (maxfd v + 1) [v.clientFd, Posix.stdinFileno], ready⟩ :: rest ∧
      (ready.result < 0 ∧ (∃ last, rest = ⟨perror (ascii "select"), ()⟩ :: last ∧
          (finish v).Issues last l) ∨
        0 ≤ ready.result ∧ ∃ first received second, rest = first ++ second ∧
        (fromClient ready.readfds v).Issues first received ∧
        (received = none ∧ (finish v).Issues second l ∨
        ∃ v' third typed last, received = some v' ∧ second = third ++ last ∧
          (fromTerminal ready.readfds v').Issues third typed ∧
          (typed = none ∧ (finish v').Issues last l ∨
          ∃ v'', typed = some v'' ∧ last = [] ∧ l = .selecting v''))) := by
  simp only [body, Posix.select, Program.call_bind, Program.ret_bind, Program.issues_call] at h
  obtain ⟨ready, rest, rfl, h⟩ := h
  refine ⟨ready, rest, rfl, ?_⟩
  by_cases hready : ready.result < 0
  · left
    simp only [if_pos hready, Posix.perror, Program.call_bind, Program.ret_bind,
      Program.issues_call] at h
    obtain ⟨_, last, rfl, h⟩ := h
    exact ⟨hready, last, rfl, h⟩
  right
  rw [if_neg hready, Program.issues_bind] at h
  obtain ⟨first, received, second, rfl, hfirst, h⟩ := h
  refine ⟨not_lt.mp hready, first, received, second, rfl, hfirst, ?_⟩
  cases received with
  | none => exact .inl ⟨rfl, h⟩
  | some v' =>
    obtain ⟨third, typed, last, rfl, hthird, h⟩ := Program.issues_bind.mp h
    refine .inr ⟨v', third, typed, last, rfl, rfl, hthird, ?_⟩
    cases typed with
    | none => exact .inl ⟨rfl, h⟩
    | some v'' => exact .inr ⟨v'', rfl, Program.issues_ret.mp h⟩

/-- **The rule of the loop.** What holds of the calls of each block holds of a pass. -/
theorem body_keeps {P : Trace Posix.Api → Prop} (hP : Program.AppendClosed P)
    (hstart : ∀ b, (body (.start b)).Keeps P) (hselect : ∀ n fds r, P [⟨select n fds, r⟩])
    (herror : P [⟨perror (ascii "select"), ()⟩])
    (hclient : ∀ readfds v, (fromClient readfds v).Keeps P)
    (hterminal : ∀ readfds v, (fromTerminal readfds v).Keeps P)
    (hfinish : ∀ v, (finish v).Keeps P) (l : Loc) : (body l).Keeps P := by
  cases l with
  | start b => exact hstart b
  | selecting v =>
    simp only [body, Posix.select, Posix.perror, Program.call_bind, Program.ret_bind]
    refine .call hP (hselect _ _) fun ready => ?_
    split
    · exact .call hP (fun _ => herror) fun _ => hfinish v
    refine .bind hP (hclient ready.readfds v) fun received => ?_
    cases received with
    | none => exact hfinish v
    | some v' =>
      refine .bind hP (hterminal ready.readfds v') fun typed => ?_
      cases typed with
      | none => exact hfinish v'
      | some v'' => exact Program.keeps_ret hP _
  | returned status => exact Program.keeps_ret hP _

end Steps

end TcpDemo.Linux.TcpServer
