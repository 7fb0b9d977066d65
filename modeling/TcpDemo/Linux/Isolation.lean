import TcpDemo.Lib.TwoRuns
import TcpDemo.Linux.TcpClient
import TcpDemo.Linux.Terminal

/-!
# The two directions of the relays do not interfere

Both relays use one buffer for what comes from the peer and for what is typed. Whatever
the peer has left in it, a chunk from the terminal is stored over it from the first byte
on, with a NUL behind it in the server, and nothing behind the chunk is looked at. So two
runs that differ in the bytes received are twins (`tcpServer_twin`, `tcpClient_twin`).

What a run sends is settled by the terminal alone: the chunks that were read, but for one
that is taken for the command.
-/

namespace TcpDemo.Linux
open Interaction CBytes Posix.Call
open TcpServer (linuxRx pieces isQuit)

/-! ## What two runs have in common -/

/-- The buffers handed to `send`. -/
def sentBuffer : Event Posix.Api → List (List UInt8)
  | ⟨.send _ data, _⟩ => [data]
  | _ => []

def sentBuffers (tr : Trace Posix.Api) : List (List UInt8) := tr.flatMap sentBuffer

/-- The messages of the `break`s that are not errors. -/
def breakTexts : List (List UInt8) :=
  [TcpServer.clientDisconnected, TcpServer.closingConnection, TcpClient.freeRtosDisconnected]

/-- The reason a relay gives for leaving its loop, or its set-up. -/
def reason : Event Posix.Api → List (List UInt8)
  | ⟨.perror text, _⟩ => [text]
  | ⟨.printf text, _⟩ => if text ∈ breakTexts then [text] else []
  | _ => []

def reasons (tr : Trace Posix.Api) : List (List UInt8) := tr.flatMap reason

/-- The status a relay has returned with, once it has left its loop. -/
def TcpServer.status : TcpServer.Loc → Option ℤ
  | .returned status => some status
  | _ => none

def TcpClient.status : TcpClient.Loc → Option ℤ
  | .returned status => some status
  | _ => none

/-- The environments differ at most in the bytes that `recv` stores. -/
structure SameButReceived (env env' : Environment Posix.Api) : Prop where
  recv : ∀ i fd size, (env i (.recv fd size)).result = (env' i (.recv fd size)).result
  others : ∀ i c, (∀ fd size, c ≠ .recv fd size) → env i c = env' i c

/-- Two runs have sent the same buffers, and have left their loops alike or not at all. -/
structure SameRelay (status status' : Option ℤ) (tr tr' : Trace Posix.Api) : Prop where
  sent : sentBuffers tr = sentBuffers tr'
  left : status = status'
  reason : reasons tr = reasons tr'

/-! ## Twins -/

/-- The calls are the same, or show what was received. -/
def SameCall (c c' : Posix.Call) : Prop :=
  c = c' ∨ ∃ s s', c = .printf (linuxRx s) ∧ c' = .printf (linuxRx s')

/-- The events are the same but for bytes received or shown. -/
inductive Alike : Event Posix.Api → Event Posix.Api → Prop where
  | same (e : Event Posix.Api) : Alike e e
  | received {fd : ℤ} {size : ℕ} {a a' : Posix.ReadAnswer size} (h : a.result = a'.result) :
      Alike ⟨.recv fd size, a⟩ ⟨.recv fd size, a'⟩
  | shown (s s' : List UInt8) : Alike ⟨.printf (linuxRx s), ()⟩ ⟨.printf (linuxRx s'), ()⟩

section Twins
variable {α β : Type} {Q : α → β → Prop}

theorem SameButReceived.related {env env' : Environment Posix.Api} (h : SameButReceived env env') :
    Environment.Related SameCall Alike env env' := by
  rintro i c c' (rfl | ⟨s, s', rfl, rfl⟩)
  · by_cases hc : ∃ fd size, c = .recv fd size
    · obtain ⟨fd, size, rfl⟩ := hc
      exact .received (h.recv i fd size)
    · rw [h.others i c fun fd size heq => hc ⟨fd, size, heq⟩]
      exact .same _
  · exact .shown s s'

/-- Apart from `recv`, a call has the same answer in both runs. -/
theorem Alike.answer_eq {c : Posix.Call} {a a' : Posix.Api.Answer c} (h : Alike ⟨c, a⟩ ⟨c, a'⟩)
    (hc : ∀ fd size, c ≠ .recv fd size) : a = a' := by
  cases c with
  | recv fd size => exact absurd rfl (hc fd size)
  | printf text => rfl
  | _ => cases h; rfl

theorem twin_call {c : Posix.Call} {k : Posix.Api.Answer c → Program Posix.Api α}
    {k' : Posix.Api.Answer c → Program Posix.Api β} (hc : ∀ fd size, c ≠ .recv fd size)
    (h : ∀ a, (k a).Twin SameCall Alike Q (k' a)) :
    Program.Twin SameCall Alike Q (.call c k) (.call c k') :=
  .call (.inl rfl) fun a _ halike => halike.answer_eq hc ▸ h a

theorem twin_recv {fd : ℤ} {size : ℕ} {k : Posix.ReadAnswer size → Program Posix.Api α}
    {k' : Posix.ReadAnswer size → Program Posix.Api β}
    (h : ∀ a a', a.result = a'.result → (k a).Twin SameCall Alike Q (k' a')) :
    Program.Twin SameCall Alike Q (.call (.recv fd size) k) (.call (.recv fd size) k') := by
  refine .call (.inl rfl) fun a a' halike => h a a' ?_
  cases halike with
  | same => rfl
  | received h => exact h

theorem twin_shown (s s' : List UInt8) {k : Unit → Program Posix.Api α}
    {k' : Unit → Program Posix.Api β} (h : (k ()).Twin SameCall Alike Q (k' ())) :
    Program.Twin SameCall Alike Q (.call (.printf (linuxRx s)) k)
      (.call (.printf (linuxRx s')) k') :=
  .call (.inr ⟨s, s', rfl, rfl⟩) fun _ _ _ => h

/-- What two traces have in common. -/
theorem sentBuffers_eq {tr tr' : Trace Posix.Api} (h : List.Forall₂ Alike tr tr') :
    sentBuffers tr = sentBuffers tr' :=
  flatMap_eq_of_forall₂ (fun e e' he => by cases he <;> rfl) h

theorem reason_linuxRx (s : List UInt8) : reason ⟨.printf (linuxRx s), ()⟩ = [] := by
  have hne : ∀ t ∈ breakTexts, ¬ ascii "[LINUX RX] " <+: t := by decide
  have hmem : linuxRx s ∉ breakTexts := fun hmem => hne _ hmem ⟨s ++ ascii "\n", by simp [linuxRx]⟩
  simp [reason, hmem]

theorem reasons_eq {tr tr' : Trace Posix.Api} (h : List.Forall₂ Alike tr tr') :
    reasons tr = reasons tr' := by
  refine flatMap_eq_of_forall₂ (fun e e' he => ?_) h
  cases he with
  | same => rfl
  | received => rfl
  | shown s s' => rw [reason_linuxRx, reason_linuxRx]

end Twins

/-! ## The server -/

namespace TcpServer

/-- The same descriptors, and any bytes in the buffers. -/
def SameFds (v v' : Vars) : Prop := ∃ buffer, v' = { v with buffer }

/-- The same place in the code, with the same descriptors. -/
def SameLoc : Loc → Loc → Prop
  | .start _, .start _ => True
  | .selecting v, .selecting v' => SameFds v v'
  | .returned status, .returned status' => status = status'
  | _, _ => False

theorem fromClient_twin (readfds : List ℤ) {v v' : Vars} (h : SameFds v v') :
    (fromClient readfds v).Twin SameCall Alike (Option.Rel SameFds)
      (fromClient readfds v') := by
  obtain ⟨buffer, rfl⟩ := h
  by_cases hready : v.clientFd ∈ readfds
  swap
  · simp only [fromClient, if_neg hready]
    exact .ret (.some ⟨buffer, rfl⟩)
  simp only [fromClient, if_pos hready, Posix.recv, Program.call_bind, Program.ret_bind]
  refine twin_recv fun a a' hresult => ?_
  rw [← hresult]
  split
  · exact twin_call (by simp) fun _ => .ret .none
  split
  · exact twin_call (by simp) fun _ => .ret .none
  · exact twin_shown _ _ (.ret (.some ⟨_, rfl⟩))

theorem fromTerminal_twin (readfds : List ℤ) {v v' : Vars} (h : SameFds v v') :
    (fromTerminal readfds v).Twin SameCall Alike (Option.Rel SameFds)
      (fromTerminal readfds v') := by
  obtain ⟨buffer, rfl⟩ := h
  by_cases hready : Posix.stdinFileno ∈ readfds
  swap
  · simp only [fromTerminal, if_neg hready]
    exact .ret (.some ⟨buffer, rfl⟩)
  simp only [fromTerminal, if_pos hready, Posix.read, Program.call_bind,
    Program.ret_bind]
  refine twin_call (by simp) fun a => ?_
  -- the chunk and its terminator are all that is looked at
  simp only [strncmp_quit, buffer_after_read]
  simp only [Posix.send, Program.call_bind, Program.ret_bind]
  split
  swap
  · exact .ret (.some ⟨_, rfl⟩)
  split
  · exact twin_call (by simp) fun _ => .ret .none
  refine twin_call (by simp) fun sent => ?_
  split
  · exact twin_call (by simp) fun _ => .ret .none
  · exact twin_call (by simp) fun _ => .ret (.some ⟨_, rfl⟩)

theorem finish_twin {v v' : Vars} (h : SameFds v v') :
    (finish v).Twin SameCall Alike SameLoc (finish v') := by
  obtain ⟨buffer, rfl⟩ := h
  exact twin_call (by simp) fun _ => twin_call (by simp) fun _ => .ret rfl

theorem start_twin (b b' : Buffer bufSize) :
    (body (.start b)).Twin SameCall Alike SameLoc (body (.start b')) := by
  simp only [body, Posix.signalIgnoreSigpipe, Posix.socket, Posix.bind, Posix.listen,
    Posix.accept, Posix.printf, Posix.perror, Program.call_bind, Program.ret_bind]
  refine twin_call (by simp) fun _ => twin_call (by simp) fun s => ?_
  split
  · exact twin_call (by simp) fun _ => .ret rfl
  refine twin_call (by simp) fun bound => ?_
  split
  · exact twin_call (by simp) fun _ => .ret rfl
  refine twin_call (by simp) fun listens => ?_
  split
  · exact twin_call (by simp) fun _ => .ret rfl
  refine twin_call (by simp) fun _ => twin_call (by simp) fun c => ?_
  split
  · exact twin_call (by simp) fun _ => .ret rfl
  · exact twin_call (by simp) fun _ => twin_call (by simp) fun _ => .ret ⟨b', rfl⟩

/-- One pass of the loop. -/
theorem selecting_twin {v v' : Vars} (h : SameFds v v') :
    (body (.selecting v)).Twin SameCall Alike SameLoc (body (.selecting v')) := by
  have hfds : SameFds v v' := h
  obtain ⟨buffer, rfl⟩ := h
  simp only [body, Posix.select, Program.call_bind, Program.ret_bind]
  refine twin_call (by simp) fun ready => ?_
  split
  · exact twin_call (by simp) fun _ => finish_twin hfds
  refine (fromClient_twin ready.readfds hfds).bind fun received received' hreceived => ?_
  cases hreceived with
  | none => exact finish_twin hfds
  | some hfds =>
    refine (fromTerminal_twin ready.readfds hfds).bind fun typed typed' htyped => ?_
    cases htyped with
    | none => exact finish_twin hfds
    | some hfds => exact .ret hfds

theorem body_twin (l l' : Loc) (h : SameLoc l l') :
    (body l).Twin SameCall Alike SameLoc (body l') := by
  cases l with
  | start b =>
    cases l' with
    | start b' => exact start_twin b b'
    | selecting v' => exact h.elim
    | returned status' => exact h.elim
  | selecting v =>
    cases l' with
    | selecting v' => exact selecting_twin h
    | start b' => exact h.elim
    | returned status' => exact h.elim
  | returned status =>
    cases l' with
    | returned status' => exact .ret h
    | start b' => exact h.elim
    | selecting v' => exact h.elim

theorem SameLoc.status_eq {l l' : Loc} (h : SameLoc l l') : status l = status l' := by
  cases l <;> cases l' <;> first | rfl | exact h.elim | exact congrArg some h

end TcpServer

/-! ## The client -/

namespace TcpClient

/-- The same socket, and any bytes in the buffers. -/
def SameSock (v v' : Vars) : Prop := ∃ buffer, v' = { v with buffer }

/-- The same place in the code, with the same socket. -/
def SameLoc : Loc → Loc → Prop
  | .start _, .start _ => True
  | .selecting v, .selecting v' => SameSock v v'
  | .returned status, .returned status' => status = status'
  | _, _ => False

theorem fromFreeRtos_twin (readfds : List ℤ) {v v' : Vars} (h : SameSock v v') :
    (fromFreeRtos readfds v).Twin SameCall Alike (Option.Rel SameSock)
      (fromFreeRtos readfds v') := by
  obtain ⟨buffer, rfl⟩ := h
  by_cases hready : v.sock ∈ readfds
  swap
  · simp only [fromFreeRtos, if_neg hready]
    exact .ret (.some ⟨buffer, rfl⟩)
  simp only [fromFreeRtos, if_pos hready, Posix.recv, Program.call_bind, Program.ret_bind]
  refine twin_recv fun a a' hresult => ?_
  rw [← hresult]
  split
  · exact twin_call (by simp) fun _ => .ret .none
  · exact twin_shown _ _ (.ret (.some ⟨_, rfl⟩))

theorem fromTerminal_twin (readfds : List ℤ) {v v' : Vars} (h : SameSock v v') :
    (fromTerminal readfds v).Twin SameCall Alike SameSock (fromTerminal readfds v') := by
  obtain ⟨buffer, rfl⟩ := h
  by_cases hready : Posix.stdinFileno ∈ readfds
  swap
  · simp only [fromTerminal, if_neg hready]
    exact .ret ⟨buffer, rfl⟩
  simp only [fromTerminal, if_pos hready, Posix.read, Program.call_bind, Program.ret_bind]
  refine twin_call (by simp) fun a => ?_
  -- of the buffer, only the chunk is looked at
  simp only [take_after_read]
  split
  · exact twin_call (by simp) fun _ => twin_call (by simp) fun _ => .ret ⟨_, rfl⟩
  · exact .ret ⟨_, rfl⟩

theorem finish_twin {v v' : Vars} (h : SameSock v v') :
    (finish v).Twin SameCall Alike SameLoc (finish v') := by
  obtain ⟨buffer, rfl⟩ := h
  exact twin_call (by simp) fun _ => .ret rfl

theorem start_twin (b b' : Buffer bufSize) :
    (body (.start b)).Twin SameCall Alike SameLoc (body (.start b')) := by
  simp only [body, Posix.signalIgnoreSigpipe, Posix.socket, Posix.connect, Posix.printf,
    Posix.perror, Program.call_bind, Program.ret_bind]
  refine twin_call (by simp) fun _ => twin_call (by simp) fun s => ?_
  split
  · exact twin_call (by simp) fun _ => .ret rfl
  refine twin_call (by simp) fun _ => twin_call (by simp) fun connects => ?_
  split
  · exact twin_call (by simp) fun _ => .ret rfl
  · exact twin_call (by simp) fun _ => .ret ⟨b', rfl⟩

/-- One pass of the loop. -/
theorem selecting_twin {v v' : Vars} (h : SameSock v v') :
    (body (.selecting v)).Twin SameCall Alike SameLoc (body (.selecting v')) := by
  have hsock : SameSock v v' := h
  obtain ⟨buffer, rfl⟩ := h
  simp only [body, Posix.select, Program.call_bind, Program.ret_bind]
  refine twin_call (by simp) fun ready => ?_
  split
  · exact twin_call (by simp) fun _ => finish_twin hsock
  refine (fromFreeRtos_twin ready.readfds hsock).bind fun received received' hreceived => ?_
  cases hreceived with
  | none => exact finish_twin hsock
  | some hsock => exact (fromTerminal_twin ready.readfds hsock).bind fun _ _ htyped => .ret htyped

theorem body_twin (l l' : Loc) (h : SameLoc l l') :
    (body l).Twin SameCall Alike SameLoc (body l') := by
  cases l with
  | start b =>
    cases l' with
    | start b' => exact start_twin b b'
    | selecting v' => exact h.elim
    | returned status' => exact h.elim
  | selecting v =>
    cases l' with
    | selecting v' => exact selecting_twin h
    | start b' => exact h.elim
    | returned status' => exact h.elim
  | returned status =>
    cases l' with
    | returned status' => exact .ret h
    | start b' => exact h.elim
    | selecting v' => exact h.elim

theorem SameLoc.status_eq {l l' : Loc} (h : SameLoc l l') : status l = status l' := by
  cases l <;> cases l' <;> first | rfl | exact h.elim | exact congrArg some h

end TcpClient

/-! ## What is sent -/

/-- The chunks that were read from the terminal are handed to `send`, in order, but for
those that are skipped. -/
def Relays (skip : List UInt8 → Bool) (tr : Trace Posix.Api) : Prop :=
  sentBuffers tr = (pieces tr).filter fun c => !skip c

/-- A call that neither reads from the terminal nor sends. -/
def Idle (e : Event Posix.Api) : Prop := TcpServer.piece e = [] ∧ sentBuffer e = []

section Relays
variable {α : Type} {p : Program Posix.Api α} {skip : List UInt8 → Bool}
  {tr tr' : Trace Posix.Api}

theorem Relays.append (h : Relays skip tr) (h' : Relays skip tr') : Relays skip (tr ++ tr') := by
  rw [Relays, sentBuffers, List.flatMap_append, TcpServer.pieces_append, List.filter_append]
  exact congrArg₂ _ h h'

theorem relays_appendClosed : Program.AppendClosed (Relays skip) := ⟨rfl, Relays.append⟩

theorem relays_of_idle (h : ∀ e ∈ tr, Idle e) : Relays skip tr := by
  have hsent : sentBuffers tr = [] := List.flatMap_eq_nil_iff.mpr fun e he => (h e he).2
  have hpieces : pieces tr = [] := List.flatMap_eq_nil_iff.mpr fun e he => (h e he).1
  rw [Relays, hsent, hpieces]
  rfl

theorem keeps_of_idle (h : p.All Idle) : p.Keeps (Relays skip) := h.keeps relays_of_idle

/-- The end of the input is no chunk. -/
theorem idle_read {fd : ℤ} {size : ℕ} {a : Posix.ReadAnswer size} (h : a.result ≤ 0) :
    Idle ⟨read fd size, a⟩ := by
  have hnil := Posix.ReadAnswer.data_eq_nil_iff.mpr h
  exact ⟨by simp [TcpServer.piece, hnil], rfl⟩

theorem idle_call {c : Posix.Call} {a : Posix.Api.Answer c} (hread : ∀ fd size, c ≠ .read fd size)
    (hsend : ∀ fd data, c ≠ .send fd data) : Idle ⟨c, a⟩ := by
  cases c with
  | read fd size => exact absurd rfl (hread fd size)
  | send fd data => exact absurd rfl (hsend fd data)
  | _ => exact ⟨rfl, rfl⟩

/-- A chunk that is sent. -/
theorem relays_sent {fd fd' : ℤ} {size : ℕ} {a : Posix.ReadAnswer size} {sent : ℤ}
    (hpos : 0 < a.result) (hskip : skip a.data = false) :
    Relays skip [⟨read fd size, a⟩, ⟨send fd' a.data, sent⟩] := by
  rw [Relays, TcpServer.pieces_cons, TcpServer.pieces_read a hpos]
  simp [sentBuffers, sentBuffer, TcpServer.piece, hskip]

/-- A chunk that is skipped. -/
theorem relays_skipped {fd : ℤ} {size : ℕ} {a : Posix.ReadAnswer size} (hpos : 0 < a.result)
    (hskip : skip a.data) : Relays skip [⟨read fd size, a⟩] := by
  rw [Relays, TcpServer.pieces_cons, TcpServer.pieces_read a hpos]
  simp [sentBuffers, sentBuffer, hskip]

/-- What is typed is sent, or taken for the command. -/
theorem TcpServer.fromTerminal_relays {readfds : List ℤ} {v : TcpServer.Vars}
    {r : Option TcpServer.Vars} (h : (TcpServer.fromTerminal readfds v).Issues tr r) :
    Relays isQuit tr := by
  rcases TcpServer.fromTerminal_step h with ⟨rfl, -⟩ | ⟨a, rest, rfl, hcases⟩
  · rfl
  rcases hcases with ⟨hnone, rfl, -⟩ | ⟨hpos, hquit, rfl, -⟩ | ⟨hpos, hquit, sent, e, rfl, hsent⟩
  · exact relays_of_idle (by simp [idle_read hnone])
  · have hskipped : Relays isQuit [⟨read Posix.stdinFileno (TcpServer.bufSize - 1), a⟩] :=
      relays_skipped hpos (List.isPrefixOf_iff_prefix.mpr hquit)
    exact hskipped.append (relays_of_idle (by simp [idle_call]))
  · have hskip : isQuit a.data = false := by
      rw [← Bool.not_eq_true]
      exact mt List.isPrefixOf_iff_prefix.mp hquit
    have hidle : Idle e := by
      rcases hsent with ⟨-, rfl, -⟩ | ⟨-, rfl, -⟩ <;> exact ⟨rfl, rfl⟩
    exact (relays_sent hpos hskip).append (relays_of_idle (by simpa using hidle))

theorem TcpServer.body_relays (l : TcpServer.Loc) : (TcpServer.body l).Keeps (Relays isQuit) := by
  refine TcpServer.body_keeps relays_appendClosed ?_ (fun _ _ _ => rfl) rfl ?_
    (fun _ _ _ _ => TcpServer.fromTerminal_relays) ?_ l
  · exact fun b => keeps_of_idle (by simp [TcpServer.body, idle_call])
  · exact fun readfds v => keeps_of_idle (by simp [TcpServer.fromClient, idle_call])
  · exact fun v => keeps_of_idle (by simp [TcpServer.finish, idle_call])

/-- What is typed is sent. -/
theorem TcpClient.fromTerminal_relays {readfds : List ℤ} {v v' : TcpClient.Vars}
    (h : (TcpClient.fromTerminal readfds v).Issues tr v') : Relays (fun _ => false) tr := by
  obtain ⟨-, rfl | ⟨a, rest, rfl, ⟨hnone, rfl⟩ | ⟨hpos, sent, rfl⟩⟩⟩ :=
    TcpClient.fromTerminal_step h
  · rfl
  · exact relays_of_idle (by simp [idle_read hnone])
  · exact (relays_sent hpos rfl).append (relays_of_idle (by simp [idle_call]))

theorem TcpClient.body_relays (l : TcpClient.Loc) :
    (TcpClient.body l).Keeps (Relays fun _ => false) := by
  refine TcpClient.body_keeps relays_appendClosed ?_ (fun _ _ _ => rfl) rfl ?_
    (fun _ _ _ _ => TcpClient.fromTerminal_relays) ?_ l
  · exact fun b => keeps_of_idle (by simp [TcpClient.body, idle_call])
  · exact fun readfds v => keeps_of_idle (by simp [TcpClient.fromFreeRtos, idle_call])
  · exact fun v => keeps_of_idle (by simp [TcpClient.finish, idle_call])

end Relays

/-! ## Both relays -/

/-- Twins have sent the same buffers, and have left their loops alike or not at all. -/
theorem sameRelay_of_twin {T T' : Task Posix.Api} {L : T.Label → T'.Label → Prop}
    {status : T.Label → Option ℤ} {status' : T'.Label → Option ℤ} (hstart : L T.start T'.start)
    (hbody : ∀ l l', L l l' → (T.body l).Twin SameCall Alike L (T'.body l'))
    (hstatus : ∀ {l l'}, L l l' → status l = status' l') {env env' : Environment Posix.Api}
    (h : SameButReceived env env') (k : ℕ) : SameRelay (status (T.head env k).1)
      (status' (T'.head env' k).1) (T.head env k).2 (T'.head env' k).2 := by
  obtain ⟨hloc, halike⟩ := Task.twin_head T T' hstart hbody h.related k
  exact ⟨sentBuffers_eq halike, hstatus hloc, reasons_eq halike⟩

/-- **The two directions of a relay do not interfere.** Two runs that differ at most in the
bytes received, from any buffers, have at each loop head handed the same buffers to `send`,
and have left the loop alike or not at all. In every run these buffers are the chunks read
from the terminal so far, but for one that the server takes for the command. -/
theorem relays_isolated :
    (∀ b b' env env', SameButReceived env env' → ∀ k, SameRelay
      (TcpServer.status ((TcpServer.main b).head env k).1)
      (TcpServer.status ((TcpServer.main b').head env' k).1)
      ((TcpServer.main b).head env k).2 ((TcpServer.main b').head env' k).2) ∧
    (∀ b env k, Relays isQuit ((TcpServer.main b).head env k).2) ∧
    (∀ b b' env env', SameButReceived env env' → ∀ k, SameRelay
      (TcpClient.status ((TcpClient.main b).head env k).1)
      (TcpClient.status ((TcpClient.main b').head env' k).1)
      ((TcpClient.main b).head env k).2 ((TcpClient.main b').head env' k).2) ∧
    ∀ b env k, Relays (fun _ => false) ((TcpClient.main b).head env k).2 :=
  ⟨fun _ _ _ _ h k => sameRelay_of_twin (L := TcpServer.SameLoc) trivial TcpServer.body_twin
      TcpServer.SameLoc.status_eq h k,
    fun b env k => (TcpServer.main b).keeps_head relays_appendClosed TcpServer.body_relays env k,
    fun _ _ _ _ h k => sameRelay_of_twin (L := TcpClient.SameLoc) trivial TcpClient.body_twin
      TcpClient.SameLoc.status_eq h k,
    fun b env k => (TcpClient.main b).keeps_head relays_appendClosed TcpClient.body_relays env k⟩

/-- Both descriptors are always ready, the peer sends `data` again and again, and `hi` is
typed again and again. -/
def chatting (data : List UInt8) : Environment Posix.Api
  | _, .select _ readfds => ⟨2, readfds⟩
  | _, .recv _ size => if h : data.length ≤ size then .store data h else default
  | _, .read _ size => if h : (ascii "hi").length ≤ size then .store (ascii "hi") h else default
  | _, .send _ data => (data.length : ℤ)
  | _, .socket => (3 : ℤ)
  | _, .accept _ => (4 : ℤ)
  | _, .bind _ _ _ | _, .listen _ _ | _, .connect _ _ _ | _, .close _ => (0 : ℤ)
  | _, .signalIgnoreSigpipe | _, .printf _ | _, .perror _ => ()

theorem sameButReceived_chatting {data data' : List UInt8} (h : data.length = data'.length) :
    SameButReceived (chatting data) (chatting data') where
  recv i fd size := by
    simp only [chatting, h]
    split
    · simp [Posix.ReadAnswer.store, h]
    · rfl
  others i c hc := by
    cases c with
    | recv fd size => exact absurd rfl (hc fd size)
    | _ => rfl

/-- The server has sent what was typed, whether the peer has sent `quit` or `ping`. -/
theorem relays_isolated_quit : ∀ data ∈ [ascii "quit", ascii "ping"],
    sentBuffers ((TcpServer.main (.replicate _ 0)).head (chatting data) 3).2 =
      [ascii "hi", ascii "hi"] := by
  have hquit : sentBuffers ((TcpServer.main (.replicate _ 0)).head (chatting (ascii "quit")) 3).2 =
      [ascii "hi", ascii "hi"] := by decide +kernel
  have hsame := (relays_isolated.1 (.replicate _ 0) (.replicate _ 0) (chatting (ascii "quit"))
    (chatting (ascii "ping")) (sameButReceived_chatting rfl) 3).sent
  simp only [List.forall_mem_cons, List.not_mem_nil, false_imp_iff, implies_true, and_true]
  exact ⟨hquit, hsame ▸ hquit⟩

end TcpDemo.Linux
