import TcpDemo.EchoServer.Task
import TcpDemo.Lib.Records
import TcpDemo.Linux.LinuxTcpServer
import TcpDemo.Linux.TcpClient
import TcpDemo.Linux.TcpServer

/-!
# Do the receivers show all they receive?

Three programs for Linux and the FreeRTOS echo server print what they receive. All four
store a NUL behind a chunk and print it with `%s`, so a chunk is shown up to its first NUL
(`tcpServer_prints` and its siblings), and the bytes that are shown are those received
just as long as no NUL was among them.
-/

namespace TcpDemo.Receivers
open Interaction CBytes Records

/-- What a Linux program prints and receives, and its record `"[LINUX RX] %s\n"`. -/
def linux : Receiver (Event Posix.Api) where
  printed
    | ⟨.printf text, _⟩ => some text
    | _ => none
  received
    | ⟨.recv _ _, a⟩ => a.data
    | _ => []
  record := ⟨ascii "[LINUX RX] ", ascii "\n"⟩

/-- What the FreeRTOS server prints and receives, and its record
`"[ECHO SERVER RX] %s\r\n"`. -/
def echoServer : Receiver (Event FreeRTOS.Api) where
  printed
    | ⟨.printf text, _⟩ => some text
    | _ => none
  received := FreeRTOS.received
  record := ⟨ascii "[ECHO SERVER RX] ", ascii "\r\n"⟩

theorem prints_appendClosed {I : Interface} {r : Receiver (Event I)} :
    Program.AppendClosed r.Prints := ⟨rfl, Receiver.Prints.append⟩

theorem keeps_of_silent {I : Interface} {r : Receiver (Event I)} {α : Type} {p : Program I α}
    (h : p.All r.Silent) : p.Keeps r.Prints := h.keeps Receiver.prints_of_silent

/-! ## The Linux programs -/

theorem silent_call {c : Posix.Call} {a : Posix.Api.Answer c} (hprintf : ∀ text, c ≠ .printf text)
    (hrecv : ∀ fd size, c ≠ .recv fd size) : linux.Silent ⟨c, a⟩ := by
  cases c with
  | printf text => exact absurd rfl (hprintf text)
  | recv fd size => exact absurd rfl (hrecv fd size)
  | _ => exact ⟨rfl, rfl⟩

theorem silent_printf {text : List UInt8} (h : linux.record.payload text = none) (u : Unit) :
    linux.Silent ⟨.printf text, u⟩ := ⟨h, rfl⟩

/-- A `recv` that ends a loop has received nothing. -/
theorem silent_recv {fd : ℤ} {size : ℕ} {a : Posix.ReadAnswer size} (h : a.result ≤ 0) :
    linux.Silent ⟨.recv fd size, a⟩ := ⟨rfl, Posix.ReadAnswer.data_eq_nil_iff.mpr h⟩

/-- A chunk is printed up to its first NUL. -/
theorem prints_rx {fd : ℤ} {size : ℕ} (a : Posix.ReadAnswer size) :
    linux.Prints [⟨.recv fd size, a⟩, ⟨.printf (linux.record.line (cstr a.data)), ()⟩] :=
  Receiver.prints_chunk rfl rfl rfl

/-- A text with another beginning is no record. -/
theorem payload_append {t : List UInt8} (s : List UInt8) (h : ¬ ascii "[LINUX RX] " <+: t)
    (hlen : 11 ≤ t.length) : linux.record.payload (t ++ s) = none :=
  Format.payload_append_eq_none s h hlen

theorem payload_tcpServer : linux.record.payload Linux.TcpServer.listening = none ∧
    linux.record.payload Linux.TcpServer.clientConnected = none ∧
    linux.record.payload Linux.TcpServer.typeMessages = none ∧
    linux.record.payload Linux.TcpServer.clientDisconnected = none ∧
    linux.record.payload Linux.TcpServer.closingConnection = none ∧
    ∀ s, linux.record.payload (Linux.TcpServer.linuxTx s) = none := by
  refine ⟨?_, by decide, by decide, by decide, by decide, fun s => ?_⟩
  · rw [Linux.TcpServer.listening, List.append_assoc]
    exact payload_append _ (by decide) (by decide)
  · exact payload_append _ (by decide) (by decide)

theorem payload_linuxTcpServer : linux.record.payload Linux.LinuxTcpServer.listening = none ∧
    linux.record.payload Linux.LinuxTcpServer.clientConnected = none ∧
    linux.record.payload Linux.LinuxTcpServer.clientDisconnected = none := by
  refine ⟨?_, by decide, by decide⟩
  rw [Linux.LinuxTcpServer.listening, List.append_assoc]
  exact payload_append _ (by decide) (by decide)

theorem payload_tcpClient : linux.record.payload Linux.TcpClient.connectingTo = none ∧
    linux.record.payload Linux.TcpClient.connected = none ∧
    linux.record.payload Linux.TcpClient.freeRtosDisconnected = none ∧
    ∀ s, linux.record.payload (Linux.TcpClient.linuxTx s) = none := by
  refine ⟨?_, by decide, by decide, fun s => ?_⟩
  · simp only [Linux.TcpClient.connectingTo, List.append_assoc]
    exact payload_append _ (by decide) (by decide)
  · exact payload_append _ (by decide) (by decide)

/-- What comes from the client is printed. -/
theorem fromClient_prints (readfds : List ℤ) (v : Linux.TcpServer.Vars) :
    (Linux.TcpServer.fromClient readfds v).Keeps linux.Prints := by
  intro evs r h
  have hdisconnected := payload_tcpServer.2.2.2.1
  rcases Linux.TcpServer.fromClient_step h with ⟨rfl, -⟩ | ⟨a, e, rfl, hcases⟩
  · rfl
  rcases hcases with ⟨hzero, rfl, -⟩ | ⟨hneg, rfl, -⟩ | ⟨-, rfl, -⟩
  · exact Receiver.prints_of_silent (by simp [silent_recv hzero.le, silent_printf hdisconnected])
  · exact Receiver.prints_of_silent (by simp [silent_recv hneg.le, silent_call])
  · exact prints_rx a

theorem tcpServer_prints (l : Linux.TcpServer.Loc) :
    (Linux.TcpServer.body l).Keeps linux.Prints := by
  obtain ⟨hlistening, hconnected, htype, -, hclosing, htx⟩ := payload_tcpServer
  refine Linux.TcpServer.body_keeps (P := linux.Prints) prints_appendClosed ?_
    (fun _ _ _ => rfl) rfl fromClient_prints ?_ ?_ l
  · exact fun b => keeps_of_silent (by
      simp [Linux.TcpServer.body, silent_call, silent_printf, hlistening, hconnected, htype])
  · exact fun readfds v => keeps_of_silent (by
      simp [Linux.TcpServer.fromTerminal, silent_call, silent_printf, hclosing, htx])
  · exact fun v => keeps_of_silent (by simp [Linux.TcpServer.finish, silent_call])

/-- What comes from FreeRTOS is printed. -/
theorem fromFreeRtos_prints (readfds : List ℤ) (v : Linux.TcpClient.Vars) :
    (Linux.TcpClient.fromFreeRtos readfds v).Keeps linux.Prints := by
  intro evs r h
  have hdisconnected := payload_tcpClient.2.2.1
  rcases Linux.TcpClient.fromFreeRtos_step h with ⟨rfl, -⟩ | ⟨a, e, rfl, hcases⟩
  · rfl
  rcases hcases with ⟨hnone, rfl, -⟩ | ⟨-, rfl, -⟩
  · exact Receiver.prints_of_silent (by simp [silent_recv hnone, silent_printf hdisconnected])
  · exact prints_rx a

theorem tcpClient_prints (l : Linux.TcpClient.Loc) :
    (Linux.TcpClient.body l).Keeps linux.Prints := by
  obtain ⟨hconnecting, hconnected, -, htx⟩ := payload_tcpClient
  refine Linux.TcpClient.body_keeps (P := linux.Prints) prints_appendClosed ?_
    (fun _ _ _ => rfl) rfl fromFreeRtos_prints ?_ ?_ l
  · exact fun b => keeps_of_silent (by
      simp [Linux.TcpClient.body, silent_call, silent_printf, hconnecting, hconnected])
  · exact fun readfds v => keeps_of_silent (by
      simp [Linux.TcpClient.fromTerminal, silent_call, silent_printf, htx])
  · exact fun v => keeps_of_silent (by simp [Linux.TcpClient.finish, silent_call])

theorem linuxTcpServer_prints (l : Linux.LinuxTcpServer.Loc) :
    (Linux.LinuxTcpServer.body l).Keeps linux.Prints := by
  obtain ⟨hlistening, hconnected, hdisconnected⟩ := payload_linuxTcpServer
  cases l with
  | start b =>
    exact keeps_of_silent (by
      simp [Linux.LinuxTcpServer.body, silent_call, silent_printf, hlistening, hconnected])
  | receiving v =>
    intro evs l' h
    obtain ⟨a, rest, rfl, ⟨hnone, -, c, s, rfl⟩ | ⟨-, ⟨sent, rfl⟩, -⟩⟩ :=
      Linux.LinuxTcpServer.receiving_step h
    · exact Receiver.prints_of_silent
        (by simp [silent_recv hnone, silent_printf hdisconnected, silent_call])
    · exact (prints_rx a).append (Receiver.prints_of_silent (by simp [silent_call]))
  | returned status => exact Program.keeps_ret prints_appendClosed _

/-! ## The FreeRTOS server -/

theorem payload_echoServer : echoServer.record.payload EchoServer.starting = none ∧
    echoServer.record.payload EchoServer.waiting = none ∧
    echoServer.record.payload EchoServer.clientConnected = none ∧
    echoServer.record.payload EchoServer.clientDisconnected = none := by
  refine ⟨?_, by decide, by decide, by decide⟩
  rw [EchoServer.starting, List.append_assoc]
  exact Format.payload_append_eq_none _ (by decide) (by decide)

theorem echoServer_silent_printf {text : List UInt8}
    (h : echoServer.record.payload text = none) (u : Unit) :
    echoServer.Silent ⟨.printf text, u⟩ := ⟨h, rfl⟩

theorem echoServer_silent_call {c : FreeRTOS.Call} {a : FreeRTOS.Api.Answer c}
    (hprintf : ∀ text, c ≠ .printf text) (hrecv : ∀ s offset size, c ≠ .recv s offset size) :
    echoServer.Silent ⟨c, a⟩ := by
  cases c with
  | printf text => exact absurd rfl (hprintf text)
  | recv s offset size => exact absurd rfl (hrecv s offset size)
  | _ => exact ⟨rfl, rfl⟩

theorem echoServer_prints (b : Buffer EchoServer.rxBufferSize)
    (l : FreeRTOS.Label EchoServer.Loc) :
    ((EchoServer.prvEchoServerTask b).body l).Keeps echoServer.Prints := by
  intro evs l' h
  obtain ⟨hstarting, hwaiting, hconnected, hdisconnected⟩ := payload_echoServer
  cases l with
  | vAssertCalled looping l =>
    rcases FreeRTOS.vAssertCalled_step h with ⟨-, -, rfl⟩ | ⟨-, -, rfl⟩ <;> rfl
  | code l =>
    cases l with
    | start v =>
      rcases EchoServer.start_step h with ⟨s, -, rfl⟩ | ⟨-, rfl⟩ <;>
        exact Receiver.prints_of_silent
          (by simp [echoServer_silent_call, echoServer_silent_printf hstarting])
    | created v =>
      obtain ⟨r, n, -, rfl⟩ := EchoServer.created_step h
      rfl
    | accepting v =>
      rcases EchoServer.accepting_step h with ⟨-, rfl⟩ | ⟨s, o, -, -, rfl⟩ <;>
        exact Receiver.prints_of_silent (by simp [EchoServer.opening, echoServer_silent_call,
          echoServer_silent_printf hwaiting, echoServer_silent_printf hconnected])
    | session v =>
      rcases EchoServer.session_step h with ⟨a, c, hnone, -, rfl⟩ | ⟨x, b, -, rfl⟩
      · have hrecv : echoServer.Silent ⟨.recv v.xClientSocket 0 127, a⟩ :=
          ⟨rfl, FreeRTOS.RecvAnswer.data_eq_nil_iff.mpr hnone⟩
        exact Receiver.prints_of_silent
          (by simp [hrecv, echoServer_silent_call, echoServer_silent_printf hdisconnected])
      · have hchunk : echoServer.Prints
            [⟨.recv v.xClientSocket 0 (EchoServer.rxBufferSize - 1), x.recv⟩,
              ⟨.printf (echoServer.record.line (cstr x.recv.data)), ()⟩] :=
          Receiver.prints_chunk rfl rfl rfl
        exact hchunk.append (Receiver.prints_of_silent (by simp [echoServer_silent_call]))

/-! ## All four -/

/-- The four loops, each with the bytes its buffer holds at the start. -/
inductive Loop where
  | tcpServer (buffer : Buffer Linux.TcpServer.bufSize)
  | linuxTcpServer (buffer : Buffer Linux.LinuxTcpServer.bufSize)
  | tcpClient (buffer : Buffer Linux.TcpClient.bufSize)
  | echoServer (buffer : Buffer EchoServer.rxBufferSize)

/-- What the program with this loop runs on. -/
@[reducible] def Loop.api : Loop → Interface
  | .tcpServer _ | .linuxTcpServer _ | .tcpClient _ => Posix.Api
  | .echoServer _ => FreeRTOS.Api

def Loop.receiver : (x : Loop) → Receiver (Event x.api)
  | .tcpServer _ | .linuxTcpServer _ | .tcpClient _ => linux
  | .echoServer _ => Receivers.echoServer

/-- The program with this loop. -/
def Loop.main : (x : Loop) → Task x.api
  | .tcpServer buffer => Linux.TcpServer.main buffer
  | .linuxTcpServer buffer => Linux.LinuxTcpServer.main buffer
  | .tcpClient buffer => Linux.TcpClient.main buffer
  | .echoServer buffer => EchoServer.prvEchoServerTask buffer

/-- The bytes received up to the `k`-th loop head of a run. -/
def Loop.received (x : Loop) (env : Environment x.api) (k : ℕ) : List UInt8 :=
  x.receiver.stream (x.main.head env k).2

/-- The payloads of the records printed up to there. -/
def Loop.shown (x : Loop) (env : Environment x.api) (k : ℕ) : List UInt8 :=
  x.receiver.shown (x.main.head env k).2

/-- Every chunk is printed up to its first NUL. -/
theorem Loop.prints (x : Loop) (l : x.main.Label) : (x.main.body l).Keeps x.receiver.Prints := by
  cases x with
  | tcpServer buffer => exact tcpServer_prints l
  | linuxTcpServer buffer => exact linuxTcpServer_prints l
  | tcpClient buffer => exact tcpClient_prints l
  | echoServer buffer => exact echoServer_prints buffer l

/-- **When the receivers show all they receive.** In every run of the four loops, the
payloads of the records printed so far make up the bytes received so far, if and only if
there is no NUL among these. -/
theorem receivers_show_all_iff (x : Loop) (env : Environment x.api) (k : ℕ) :
    x.shown env k = x.received env k ↔ 0 ∉ x.received env k :=
  Receiver.shown_eq_stream_iff (x.main.keeps_head prints_appendClosed x.prints env k)

/-- Every `recv` returns these bytes, and the terminal is never ready. -/
def arriving (data : List UInt8) : Environment Posix.Api
  | _, .select _ readfds => ⟨1, readfds.filter (· ≠ Posix.stdinFileno)⟩
  | _, .recv _ size => if h : data.length ≤ size then .store data h else default
  | _, .socket => (3 : ℤ)
  | _, .accept _ => (4 : ℤ)
  | _, .bind _ _ _ | _, .listen _ _ | _, .connect _ _ _ | _, .send _ _ | _, .close _ => (0 : ℤ)
  | _, .read _ _ => default
  | _, .signalIgnoreSigpipe | _, .printf _ | _, .perror _ => ()

/-- A chunk with a NUL in the middle. -/
def withNul : List UInt8 := ascii "Hi" ++ 0 :: ascii "!"

/-- None of the four shows what follows a NUL. -/
theorem receivers_cut_at_nul :
    (¬ ∀ b env k, (Loop.tcpServer b).shown env k = (Loop.tcpServer b).received env k) ∧
    (¬ ∀ b env k, (Loop.linuxTcpServer b).shown env k = (Loop.linuxTcpServer b).received env k) ∧
    (¬ ∀ b env k, (Loop.tcpClient b).shown env k = (Loop.tcpClient b).received env k) ∧
    ¬ ∀ b env k, (Loop.echoServer b).shown env k = (Loop.echoServer b).received env k := by
  refine ⟨fun h => ?_, fun h => ?_, fun h => ?_, fun h => ?_⟩
  · exact absurd (h (.replicate _ 0) (arriving withNul) 2) (by decide +kernel)
  · exact absurd (h (.replicate _ 0) (arriving withNul) 2) (by decide +kernel)
  · exact absurd (h (.replicate _ 0) (arriving withNul) 2) (by decide +kernel)
  · exact absurd (h (.replicate _ 0) (FreeRTOS.scripted (fun _ => withNul) fun _ => 0) 4)
      (by decide +kernel)

end TcpDemo.Receivers
