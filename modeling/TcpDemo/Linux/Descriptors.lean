import TcpDemo.Lib.Handles
import TcpDemo.Linux.LinuxTcpServer
import TcpDemo.Linux.TcpClient
import TcpDemo.Linux.Terminal

/-!
# The descriptors of the Linux programs

The three programs under `linux/` keep their descriptors in order: each call is made on a
descriptor that is open at that moment, apart from the terminal, and whatever was opened is
closed, once, on the way to a return with status zero. The one exception is the echo server,
which does not look at what `accept` returns, and goes on with a negative descriptor if there
is none.

After a failure in its set-up a program returns with status one and leaves it to the system to
close what it has opened.
-/

namespace TcpDemo.Linux
open Interaction Traces Typestate Handles

/-! ## What is asked of the calls -/

/-- The descriptors a call is made on, other than those it waits for or reads from. -/
def usedFds : Posix.Call → List ℤ
  | .bind fd _ _ | .listen fd _ | .accept fd | .connect fd _ _ | .recv fd _ | .send fd _
  | .close fd => [fd]
  | _ => []

/-- How a call changes the descriptors that are open. -/
def opens (fds : List ℤ) : Event Posix.Api → List ℤ
  | ⟨.socket, fd⟩ | ⟨.accept _, fd⟩ => if (fd : ℤ) < 0 then fds else fd :: fds
  | ⟨.close fd, _⟩ => fds.erase fd
  | _ => fds

/-- The call is made on open descriptors, or where `lax` on negative ones, and waits for no
descriptor that it leaves out with its bound. -/
structure OnOpenFds (lax : Bool) (fds : List ℤ) (c : Posix.Call) : Prop where
  used : ∀ fd ∈ usedFds c, fd ∈ fds ∨ (lax ∧ fd < 0)
  waited : ∀ nfds readfds, c = .select nfds readfds →
    ∀ fd ∈ readfds, (fd = Posix.stdinFileno ∨ fd ∈ fds) ∧ fd < nfds
  read : ∀ fd size, c = .read fd size → fd = Posix.stdinFileno

/-- The descriptors of a program as its handles. -/
def descriptors (lax : Bool) : Handles Posix.Api ℤ := ⟨opens, OnOpenFds lax⟩

section Descriptors
variable {lax : Bool} {fds : List ℤ} {c : Posix.Call} {e : Event Posix.Api}

@[simp] theorem descriptors_change : (descriptors lax).change fds e = opens fds e := rfl

@[simp] theorem descriptors_allowed : (descriptors lax).Allowed fds c ↔
    (∀ fd ∈ usedFds c, fd ∈ fds ∨ (lax ∧ fd < 0)) ∧
    (∀ nfds readfds, c = .select nfds readfds →
      ∀ fd ∈ readfds, (fd = Posix.stdinFileno ∨ fd ∈ fds) ∧ fd < nfds) ∧
    ∀ fd size, c = .read fd size → fd = Posix.stdinFileno :=
  ⟨fun h => ⟨h.used, h.waited, h.read⟩, fun ⟨hu, hw, hr⟩ => ⟨hu, hw, hr⟩⟩

/-- The descriptor a call has opened. -/
theorem opened_socket {fd : ℤ} (h : ¬ fd < 0) :
    (descriptors lax).change fds ⟨.socket, fd⟩ = fd :: fds := if_neg h

theorem opened_accept {s fd : ℤ} (h : ¬ fd < 0) :
    (descriptors lax).change fds ⟨.accept s, fd⟩ = fd :: fds := if_neg h

end Descriptors

/-! ## The three programs -/

/-- The descriptors of the server at its loop heads. -/
def TcpServer.OpenAt : TcpServer.Loc → List ℤ → Prop
  | .start _, fds => fds = []
  | .selecting v, fds => fds = [v.clientFd, v.serverFd]
  | .returned status, fds => status = 0 → fds = []

theorem TcpServer.finish_leads (v : TcpServer.Vars) :
    (descriptors false).Leads (TcpServer.finish v) [v.clientFd, v.serverFd] TcpServer.OpenAt := by
  unfold TcpServer.finish
  simp only [Posix.close, Program.call_bind, Program.ret_bind]
  refine leads_allowed (by simp [usedFds]) fun _ => ?_
  refine leads_allowed (by simp [usedFds, opens]) fun _ => ?_
  exact leads_ret fun _ => by simp [opens]

theorem TcpServer.start_leads (b : CBytes.Buffer TcpServer.bufSize) :
    (descriptors false).Leads (TcpServer.body (.start b)) [] TcpServer.OpenAt := by
  simp only [TcpServer.body, Posix.signalIgnoreSigpipe, Posix.socket, Posix.bind, Posix.listen,
    Posix.accept, Posix.printf, Posix.perror, Program.call_bind, Program.ret_bind]
  have hfails : ∀ fds text, (descriptors false).Leads (.call (.perror text) fun _ =>
      pure (.returned 1)) fds TcpServer.OpenAt := fun fds text =>
    leads_same (by simp [usedFds]) (fun _ => rfl) fun _ => leads_ret (by simp [TcpServer.OpenAt])
  refine leads_same (by simp [usedFds]) (fun _ => rfl) fun _ => ?_
  refine leads_allowed (by simp [usedFds]) fun s => ?_
  by_cases hs : (s : ℤ) < 0
  · rw [if_pos hs]
    exact hfails _ _
  rw [if_neg hs, opened_socket hs]
  refine leads_same (by simp [usedFds]) (fun _ => rfl) fun bound => ?_
  split
  · exact hfails _ _
  refine leads_same (by simp [usedFds]) (fun _ => rfl) fun listens => ?_
  split
  · exact hfails _ _
  refine leads_same (by simp [usedFds]) (fun _ => rfl) fun _ => ?_
  refine leads_allowed (by simp [usedFds]) fun c => ?_
  by_cases hc : (c : ℤ) < 0
  · rw [if_pos hc]
    exact hfails _ _
  rw [if_neg hc, opened_accept hc]
  refine leads_same (by simp [usedFds]) (fun _ => rfl) fun _ => ?_
  refine leads_same (by simp [usedFds]) (fun _ => rfl) fun _ => ?_
  exact leads_ret rfl

/-- A block of the loop leaves the descriptors alone. -/
def TcpServer.KeepsFds (v : TcpServer.Vars) (r : Option TcpServer.Vars) (fds : List ℤ) : Prop :=
  fds = [v.clientFd, v.serverFd] ∧
    ∀ v', r = some v' → v'.clientFd = v.clientFd ∧ v'.serverFd = v.serverFd

theorem TcpServer.fromClient_leads (readfds : List ℤ) (v : TcpServer.Vars) :
    (descriptors false).Leads (TcpServer.fromClient readfds v) [v.clientFd, v.serverFd]
      (TcpServer.KeepsFds v) := by
  intro evs r h
  rcases TcpServer.fromClient_step h with ⟨rfl, rfl⟩ | ⟨a, e, rfl, hcases⟩
  · exact ⟨_, rfl, rfl, by simp⟩
  refine ⟨_, follows_same ?_, rfl, ?_⟩
  · rcases hcases with ⟨-, rfl, -⟩ | ⟨-, rfl, -⟩ | ⟨-, rfl, -⟩ <;> simp [usedFds, opens]
  · rcases hcases with ⟨-, -, rfl⟩ | ⟨-, -, rfl⟩ | ⟨-, -, b, rfl⟩ <;> simp

theorem TcpServer.fromTerminal_leads (readfds : List ℤ) (v : TcpServer.Vars) :
    (descriptors false).Leads (TcpServer.fromTerminal readfds v) [v.clientFd, v.serverFd]
      (TcpServer.KeepsFds v) := by
  intro evs r h
  rcases TcpServer.fromTerminal_step h with ⟨rfl, rfl⟩ | ⟨a, rest, rfl, hcases⟩
  · exact ⟨_, rfl, rfl, by simp⟩
  refine ⟨_, follows_same ?_, rfl, ?_⟩
  · rcases hcases with ⟨-, rfl, -⟩ | ⟨-, -, rfl, -⟩ | ⟨-, -, sent, e, rfl, hsent⟩
    · simp [usedFds, opens]
    · simp [usedFds, opens]
    · rcases hsent with ⟨-, rfl, -⟩ | ⟨-, rfl, -⟩ <;> simp [usedFds, opens]
  · rcases hcases with ⟨-, -, b, rfl⟩ | ⟨-, -, -, rfl⟩ | ⟨-, -, sent, e, -, hsent⟩
    · simp
    · simp
    · rcases hsent with ⟨-, -, rfl⟩ | ⟨-, -, b, rfl⟩ <;> simp

/-- The bound of `select` is behind both descriptors. -/
theorem TcpServer.lt_maxfd (v : TcpServer.Vars) :
    v.clientFd < TcpServer.maxfd v + 1 ∧ Posix.stdinFileno < TcpServer.maxfd v + 1 := by
  unfold TcpServer.maxfd
  split <;> omega

/-- The server follows the protocol from each loop head to the next. -/
theorem TcpServer.body_leads (l : TcpServer.Loc) (fds : List ℤ) (hl : TcpServer.OpenAt l fds) :
    (descriptors false).Leads (TcpServer.body l) fds TcpServer.OpenAt := by
  cases l with
  | start b =>
    obtain rfl : fds = [] := hl
    exact TcpServer.start_leads b
  | selecting v =>
    obtain rfl : fds = [v.clientFd, v.serverFd] := hl
    simp only [TcpServer.body, Posix.select, Posix.perror, Program.call_bind, Program.ret_bind]
    refine leads_allowed (by simp [usedFds, TcpServer.lt_maxfd v]) fun ready => ?_
    split
    · exact leads_same (by simp [usedFds]) (fun _ => rfl) fun _ =>
        TcpServer.finish_leads v
    refine (TcpServer.fromClient_leads ready.readfds v).bind fun received fds hreceived => ?_
    obtain ⟨rfl, hsame⟩ := hreceived
    cases received with
    | none => exact TcpServer.finish_leads v
    | some v' =>
      obtain ⟨hclient, hserver⟩ := hsame v' rfl
      rw [← hclient, ← hserver]
      refine (TcpServer.fromTerminal_leads ready.readfds v').bind fun typed fds htyped => ?_
      obtain ⟨rfl, hsame'⟩ := htyped
      cases typed with
      | none => exact TcpServer.finish_leads v'
      | some v'' =>
        obtain ⟨hclient', hserver'⟩ := hsame' v'' rfl
        exact leads_ret (by simp [TcpServer.OpenAt, hclient', hserver'])
  | returned status => exact leads_ret hl

/-- The descriptors of the client at its loop heads. -/
def TcpClient.OpenAt : TcpClient.Loc → List ℤ → Prop
  | .start _, fds => fds = []
  | .selecting v, fds => fds = [v.sock]
  | .returned status, fds => status = 0 → fds = []

theorem TcpClient.finish_leads (v : TcpClient.Vars) :
    (descriptors false).Leads (TcpClient.finish v) [v.sock] TcpClient.OpenAt := by
  unfold TcpClient.finish
  simp only [Posix.close, Program.call_bind, Program.ret_bind]
  refine leads_allowed (by simp [usedFds]) fun _ => ?_
  exact leads_ret fun _ => by simp [opens]

theorem TcpClient.start_leads (b : CBytes.Buffer TcpClient.bufSize) :
    (descriptors false).Leads (TcpClient.body (.start b)) [] TcpClient.OpenAt := by
  simp only [TcpClient.body, Posix.signalIgnoreSigpipe, Posix.socket, Posix.connect,
    Posix.printf, Posix.perror, Program.call_bind, Program.ret_bind]
  have hfails : ∀ fds text, (descriptors false).Leads (.call (.perror text) fun _ =>
      pure (.returned 1)) fds TcpClient.OpenAt := fun fds text =>
    leads_same (by simp [usedFds]) (fun _ => rfl) fun _ => leads_ret (by simp [TcpClient.OpenAt])
  refine leads_same (by simp [usedFds]) (fun _ => rfl) fun _ => ?_
  refine leads_allowed (by simp [usedFds]) fun s => ?_
  by_cases hs : (s : ℤ) < 0
  · rw [if_pos hs]
    exact hfails _ _
  rw [if_neg hs, opened_socket hs]
  refine leads_same (by simp [usedFds]) (fun _ => rfl) fun _ => ?_
  refine leads_same (by simp [usedFds]) (fun _ => rfl) fun connects => ?_
  split
  · exact hfails _ _
  exact leads_same (by simp [usedFds]) (fun _ => rfl) fun _ => leads_ret rfl

theorem TcpClient.fromFreeRtos_leads (readfds : List ℤ) (v : TcpClient.Vars) :
    (descriptors false).Leads (TcpClient.fromFreeRtos readfds v) [v.sock] fun r fds =>
      fds = [v.sock] ∧ ∀ v', r = some v' → v'.sock = v.sock := by
  intro evs r h
  rcases TcpClient.fromFreeRtos_step h with ⟨rfl, rfl⟩ | ⟨a, e, rfl, hcases⟩
  · exact ⟨_, rfl, rfl, by simp⟩
  refine ⟨_, follows_same ?_, rfl, ?_⟩
  · rcases hcases with ⟨-, rfl, -⟩ | ⟨-, rfl, -⟩ <;> simp [usedFds, opens]
  · rcases hcases with ⟨-, -, rfl⟩ | ⟨-, -, b, rfl⟩ <;> simp

theorem TcpClient.fromTerminal_leads (readfds : List ℤ) (v : TcpClient.Vars) :
    (descriptors false).Leads (TcpClient.fromTerminal readfds v) [v.sock] fun v' fds =>
      fds = [v'.sock] := by
  intro evs v' h
  obtain ⟨⟨b, rfl⟩, rfl | ⟨a, rest, rfl, hrest⟩⟩ := TcpClient.fromTerminal_step h
  · exact ⟨_, rfl, rfl⟩
  refine ⟨_, follows_same ?_, rfl⟩
  rcases hrest with ⟨-, rfl⟩ | ⟨-, sent, rfl⟩ <;> simp [usedFds, opens]

/-- The bound of `select` is behind both descriptors. -/
theorem TcpClient.lt_maxfd (v : TcpClient.Vars) :
    v.sock < TcpClient.maxfd v + 1 ∧ Posix.stdinFileno < TcpClient.maxfd v + 1 := by
  unfold TcpClient.maxfd
  split <;> omega

/-- The client follows the protocol from each loop head to the next. -/
theorem TcpClient.body_leads (l : TcpClient.Loc) (fds : List ℤ) (hl : TcpClient.OpenAt l fds) :
    (descriptors false).Leads (TcpClient.body l) fds TcpClient.OpenAt := by
  cases l with
  | start b =>
    obtain rfl : fds = [] := hl
    exact TcpClient.start_leads b
  | selecting v =>
    obtain rfl : fds = [v.sock] := hl
    simp only [TcpClient.body, Posix.select, Posix.perror, Program.call_bind, Program.ret_bind]
    refine leads_allowed (by simp [usedFds, TcpClient.lt_maxfd v]) fun ready => ?_
    split
    · exact leads_same (by simp [usedFds]) (fun _ => rfl) fun _ =>
        TcpClient.finish_leads v
    refine (TcpClient.fromFreeRtos_leads ready.readfds v).bind fun received fds hreceived => ?_
    obtain ⟨rfl, hsame⟩ := hreceived
    cases received with
    | none => exact TcpClient.finish_leads v
    | some v' =>
      rw [← hsame v' rfl]
      exact (TcpClient.fromTerminal_leads ready.readfds v').bind fun v'' fds htyped =>
        leads_ret htyped
  | returned status => exact leads_ret hl

/-- The descriptors of the echo server at its loop heads: it may have no client. -/
def LinuxTcpServer.OpenAt : LinuxTcpServer.Loc → List ℤ → Prop
  | .start _, fds => fds = []
  | .receiving v, fds => 0 ≤ v.serverFd ∧
      fds = if v.clientFd < 0 then [v.serverFd] else [v.clientFd, v.serverFd]
  | .returned status, fds => status = 0 → fds = []

theorem LinuxTcpServer.start_leads (b : CBytes.Buffer LinuxTcpServer.bufSize) :
    (descriptors true).Leads (LinuxTcpServer.body (.start b)) [] LinuxTcpServer.OpenAt := by
  simp only [LinuxTcpServer.body, Posix.socket, Posix.bind, Posix.listen, Posix.accept,
    Posix.printf, Posix.perror, Program.call_bind, Program.ret_bind]
  have hfails : ∀ fds text, (descriptors true).Leads (.call (.perror text) fun _ =>
      pure (.returned 1)) fds LinuxTcpServer.OpenAt := fun fds text =>
    leads_same (by simp [usedFds]) (fun _ => rfl) fun _ =>
      leads_ret (by simp [LinuxTcpServer.OpenAt])
  refine leads_allowed (by simp [usedFds]) fun s => ?_
  by_cases hs : (s : ℤ) < 0
  · rw [if_pos hs]
    exact hfails _ _
  rw [if_neg hs, opened_socket hs]
  refine leads_same (by simp [usedFds]) (fun _ => rfl) fun bound => ?_
  split
  · exact hfails _ _
  refine leads_same (by simp [usedFds]) (fun _ => rfl) fun _ => ?_
  refine leads_same (by simp [usedFds]) (fun _ => rfl) fun _ => ?_
  refine leads_allowed (by simp [usedFds]) fun c => ?_
  exact leads_same (by simp [usedFds]) (fun _ => rfl) fun _ =>
    leads_ret ⟨not_lt.mp hs, rfl⟩

/-- The echo server follows the protocol, lax about its client. -/
theorem LinuxTcpServer.body_leads (l : LinuxTcpServer.Loc) (fds : List ℤ)
    (hl : LinuxTcpServer.OpenAt l fds) :
    (descriptors true).Leads (LinuxTcpServer.body l) fds LinuxTcpServer.OpenAt := by
  cases l with
  | start b =>
    obtain rfl : fds = [] := hl
    exact LinuxTcpServer.start_leads b
  | receiving v =>
    obtain ⟨hserver, rfl⟩ := hl
    intro evs l h
    obtain ⟨a, rest, rfl, ⟨-, rfl, c, s, rfl⟩ | ⟨-, ⟨sent, rfl⟩, b, rfl⟩⟩ :=
      LinuxTcpServer.receiving_step h
    · by_cases hclient : v.clientFd < 0
      · have hne : ¬ v.serverFd = v.clientFd := by omega
        exact ⟨[], by simp [usedFds, opens, hclient, hne], fun _ => rfl⟩
      · exact ⟨[], by simp [usedFds, opens, hclient], fun _ => rfl⟩
    · refine ⟨_, follows_same ?_, hserver, rfl⟩
      by_cases hclient : v.clientFd < 0 <;> simp [usedFds, opens, hclient]
  | returned status => exact leads_ret hl

/-! ## Every moment of every run -/

/-- The three programs. -/
inductive Main where
  | tcpServer (buffer : CBytes.Buffer TcpServer.bufSize)
  | tcpClient (buffer : CBytes.Buffer TcpClient.bufSize)
  | linuxTcpServer (buffer : CBytes.Buffer LinuxTcpServer.bufSize)

namespace Main

/-- The program. -/
@[reducible] def task : Main → Task Posix.Api
  | .tcpServer buffer => TcpServer.main buffer
  | .tcpClient buffer => TcpClient.main buffer
  | .linuxTcpServer buffer => LinuxTcpServer.main buffer

/-- The program does not look at what `accept` returns. -/
def lax : Main → Bool
  | .linuxTcpServer _ => true
  | _ => false

/-- Its return with a status. -/
def returned (status : ℤ) : (p : Main) → p.task.Label
  | .tcpServer _ => TcpServer.Loc.returned status
  | .tcpClient _ => TcpClient.Loc.returned status
  | .linuxTcpServer _ => LinuxTcpServer.Loc.returned status

/-- The descriptors that are open at its loop heads. -/
def OpenAt : (p : Main) → p.task.Label → List ℤ → Prop
  | .tcpServer _ => TcpServer.OpenAt
  | .tcpClient _ => TcpClient.OpenAt
  | .linuxTcpServer _ => LinuxTcpServer.OpenAt

variable {p : Main} {tr : Trace Posix.Api}

theorem openAt_start : p.OpenAt p.task.start [] := by
  cases p <;> exact rfl

theorem body_leads (l : p.task.Label) (fds : List ℤ) (hl : p.OpenAt l fds) :
    (descriptors p.lax).Leads (p.task.body l) fds p.OpenAt := by
  cases p with
  | tcpServer _ => exact TcpServer.body_leads l fds hl
  | tcpClient _ => exact TcpClient.body_leads l fds hl
  | linuxTcpServer _ => exact LinuxTcpServer.body_leads l fds hl

/-- **Every call is made on open descriptors**, at every moment of every run. -/
theorem calls_allowed {env : Environment Posix.Api} (h : p.task.Moment env tr) :
    (descriptors p.lax).InOrder tr :=
  inOrder_moment (J := p.OpenAt) openAt_start body_leads h

/-- **Nothing stays open behind a return with status zero.** -/
theorem closed_on_return (h : p.task.Path p.task.start tr (p.returned 0)) :
    (descriptors p.lax).held tr = [] := by
  have hopen := (held_path (J := p.OpenAt) openAt_start body_leads h).2
  cases p <;> exact hopen rfl

/-- A session of the server that ends with the command. -/
def session : Trace Posix.Api :=
  ((TcpServer.main (.replicate _ 0)).head
    (TcpServer.typing [CBytes.ascii "hi", TcpServer.quit]) 3).2

theorem calls_allowed_session : (descriptors false).InOrder session :=
  calls_allowed (p := .tcpServer (.replicate _ 0)) (Task.moment_head _ 3)

theorem closed_on_return_session : (descriptors false).held session = [] :=
  closed_on_return (p := .tcpServer (.replicate _ 0)) (Task.head_path _ 3)

end Main

end TcpDemo.Linux
