import TcpDemo.Demos.Connections

/-!
# The echo demo

FreeRTOS runs the echo server, and any number of Linux clients are connected to it. What a
client shows as received was typed on its own terminal: it went through the client's `send`,
the network, the server's `recv` and `send`, the network, and the client's `recv`, and each of
these hands on a part of what it got, in order.

How much of it comes back depends on the `send`s alone. Where these accept all they are
given, it is the beginning of what was typed, and all of it once nothing is under way, which
the parties can always get to in a session (`can_show_all`).
-/

namespace TcpDemo.Demos.Echo
open Interaction CBytes FreeRTOS FreeRTOS.Call
open scoped List

/-- The echo server, and the clients on Linux. -/
abbrev Net (rx : Buffer EchoServer.rxBufferSize) (buffers : ℕ → Buffer Linux.TcpClient.bufSize) :=
  Star (EchoServer.prvEchoServerTask rx) (fun i => Linux.TcpClient.main (buffers i)) UInt8

/-! ## The server -/

/-- What the server accepts for a connection is a part of what it has received on it, and
all of it where each `send` accepts its chunk. -/
structure Echoes (i : ℕ) (tr : Trace FreeRTOS.Api) : Prop where
  part : (acceptedBytes (sockets.on i tr)).Sublist (receivedBytes (sockets.on i tr))
  whole : (∀ e ∈ sockets.on i tr, SendsAll e) →
    acceptedBytes (sockets.on i tr) = receivedBytes (sockets.on i tr)

section Server
variable {i : ℕ} {tr tr' : Trace FreeRTOS.Api}

theorem Echoes.append (h : Echoes i tr) (h' : Echoes i tr') : Echoes i (tr ++ tr') where
  part := by simpa using h.part.append h'.part
  whole hall := by
    simp only [Ports.on_append, List.forall_mem_append] at hall
    simp [h.whole hall.1, h'.whole hall.2]

theorem echoes_appendClosed : Program.AppendClosed (Echoes i) := ⟨⟨.slnil, fun _ => rfl⟩, .append⟩

/-- Calls about other connections, or none. -/
theorem echoes_of_other (h : ∀ e ∈ tr, sockets.peer e ≠ some i) : Echoes i tr := by
  have hon : sockets.on i tr = [] := List.filter_eq_nil_iff.mpr fun e he => by simp [h e he]
  exact ⟨by simp [hon], fun _ => by simp [hon]⟩

theorem echoes_of_none (h : ∀ e ∈ tr, sockets.peer e = none) : Echoes i tr :=
  echoes_of_other fun e he => by simp [h e he]

/-- What a pass with a chunk does on the connections. -/
theorem on_exchange (s : Socket) (x : EchoServer.Exchange) : sockets.on i (x.events s) =
    if s = .handle i then
      [⟨.recv s 0 (EchoServer.rxBufferSize - 1), x.recv⟩, ⟨.send s x.recv.data, x.send⟩]
    else [] := by
  have hpeer : sockets.peer ⟨printf (EchoServer.rxLog (cstr x.recv.data)), ()⟩ = none := rfl
  by_cases hs : s = .handle i <;> simp [Ports.on, EchoServer.Exchange.events, hs, hpeer]

/-- A chunk is sent back. -/
theorem echoes_exchange (s : Socket) (x : EchoServer.Exchange) : Echoes i (x.events s) := by
  have hon := on_exchange (i := i) s x
  by_cases hs : s = .handle i
  · rw [if_pos hs] at hon
    constructor
    · simpa [hon, accepted, received, SendAnswer.accepted] using (List.take_prefix _ _).sublist
    · intro hall
      have hsend : x.send.result = x.recv.data.length :=
        hall ⟨.send s x.recv.data, x.send⟩ (by simp [hon])
      simp [hon, accepted, received, SendAnswer.accepted, hsend]
  · rw [if_neg hs] at hon
    exact ⟨by simp [hon], fun _ => by simp [hon]⟩

/-- The `recv` that ends a session has received nothing. -/
theorem echoes_closing (s : Socket) {a : RecvAnswer 127} (ha : a.result ≤ 0) (c : ℤ) :
    Echoes i [⟨.recv s 0 127, a⟩, ⟨printf EchoServer.clientDisconnected, ()⟩,
      ⟨closesocket s, c⟩] := by
  have hrest : Echoes i [⟨printf EchoServer.clientDisconnected, ()⟩, ⟨closesocket s, c⟩] :=
    echoes_of_none (by simp [peer_eq_none])
  have hnil := RecvAnswer.data_eq_nil_iff.mpr ha
  have hrecv : Echoes i [⟨.recv s 0 127, a⟩] := by
    by_cases hs : s = .handle i
    · constructor <;> simp [Ports.on, hs, received, accepted, hnil]
    · exact echoes_of_other (by simp [hs])
  exact hrecv.append hrest

theorem server_echoes (rx : Buffer EchoServer.rxBufferSize) (l : FreeRTOS.Label EchoServer.Loc) :
    ((EchoServer.prvEchoServerTask rx).body l).Keeps (Echoes i) := by
  intro evs l' h
  match l with
  | .vAssertCalled looping loc =>
    rcases FreeRTOS.vAssertCalled_step h with ⟨-, -, rfl⟩ | ⟨-, -, rfl⟩ <;>
      exact echoes_of_none (by simp [peer_eq_none])
  | .code (.start v) =>
    rcases EchoServer.start_step h with ⟨s, -, rfl⟩ | ⟨-, rfl⟩ <;>
      exact echoes_of_none (by simp [peer_eq_none])
  | .code (.created v) =>
    obtain ⟨b, n, -, rfl⟩ := EchoServer.created_step h
    exact echoes_of_none (by simp [peer_eq_none])
  | .code (.accepting v) =>
    rcases EchoServer.accepting_step h with ⟨-, rfl⟩ | ⟨s, o, -, -, rfl⟩ <;>
      exact echoes_of_none (by simp [EchoServer.opening, peer_eq_none])
  | .code (.session v) =>
    rcases EchoServer.session_step h with ⟨a, c, ha, -, rfl⟩ | ⟨x, b, -, rfl⟩
    · exact echoes_closing v.xClientSocket ha c
    · exact echoes_exchange v.xClientSocket x

/-- **The server at any moment.** -/
theorem server_sends_back {rx : Buffer EchoServer.rxBufferSize}
    {p : Program Api (EchoServer.prvEchoServerTask rx).Label}
    (h : (EchoServer.prvEchoServerTask rx).At tr p) :
    (acceptedBytes (sockets.on i tr)).Sublist (receivedBytes (sockets.on i tr)) ∧
      ((∀ e ∈ sockets.on i tr, SendsAll e) →
        acceptedBytes (sockets.on i tr) <+: receivedBytes (sockets.on i tr)) := by
  obtain ⟨rest, hechoes, hrest⟩ := h.keeps echoes_appendClosed (server_echoes (i := i) rx) calm
  obtain ⟨hnil, hall⟩ := calm_nil hrest i
  have hpart := hechoes.part
  have hwhole := hechoes.whole
  simp only [Ports.on_append, acceptedBytes_append, receivedBytes_append, hnil, List.append_nil,
    List.forall_mem_append] at hpart hwhole
  refine ⟨(List.sublist_append_left _ _).trans hpart, fun hsends => ?_⟩
  rw [← hwhole ⟨hsends, fun e he => hall e (List.mem_filter.mp he).1⟩]
  exact List.prefix_append _ _

/-- A `recv` comes first in its stretch. -/
theorem recv_first (rx : Buffer EchoServer.rxBufferSize) {s : Socket} {offset size : ℕ}
    (l : FreeRTOS.Label EchoServer.Loc) (evs : Trace Api) (l' : FreeRTOS.Label EchoServer.Loc)
    (h : ((EchoServer.prvEchoServerTask rx).body l).Issues evs l') :
    ∀ e ∈ evs.tail, e.call ≠ Call.recv s offset size := by
  match l with
  | .vAssertCalled looping loc =>
    rcases FreeRTOS.vAssertCalled_step h with ⟨-, -, rfl⟩ | ⟨-, -, rfl⟩ <;> simp
  | .code (.start v) =>
    rcases EchoServer.start_step h with ⟨s, -, rfl⟩ | ⟨-, rfl⟩ <;> simp
  | .code (.created v) =>
    obtain ⟨b, n, -, rfl⟩ := EchoServer.created_step h
    simp
  | .code (.accepting v) =>
    rcases EchoServer.accepting_step h with ⟨-, rfl⟩ | ⟨s, o, -, -, rfl⟩ <;>
      simp [EchoServer.opening]
  | .code (.session v) =>
    rcases EchoServer.session_step h with ⟨a, c, ha, -, rfl⟩ | ⟨x, b, -, rfl⟩ <;>
      simp [EchoServer.Exchange.events]

end Server

/-! ## A client -/

/-- The call of `select` comes first in its stretch. -/
theorem select_first (b : Buffer Linux.TcpClient.bufSize) {nfds : ℤ} {readfds : List ℤ}
    (l : Linux.TcpClient.Loc) (evs : Trace Posix.Api) (l' : Linux.TcpClient.Loc)
    (h : ((Linux.TcpClient.main b).body l).Issues evs l') :
    ∀ e ∈ evs.tail, e.call ≠ Posix.Call.select nfds readfds := by
  cases l with
  | start b =>
    have hall : (Linux.TcpClient.body (.start b)).All
        fun e => e.call ≠ Posix.Call.select nfds readfds := by
      simp [Linux.TcpClient.body]
    exact fun e he => hall.of_issues h e (List.mem_of_mem_tail he)
  | selecting v =>
    have hbody : (Linux.TcpClient.body (.selecting v)).Issues evs l' := h
    simp only [Linux.TcpClient.body, Posix.select, Posix.perror, Program.call_bind,
      Program.ret_bind, Program.issues_call] at hbody
    obtain ⟨ready, rest, rfl, hrest⟩ := hbody
    refine Program.All.of_issues (P := fun e => e.call ≠ Posix.Call.select nfds readfds) ?_ hrest
    split
    · simp [Linux.TcpClient.finish]
    refine .bind (by simp [Linux.TcpClient.fromFreeRtos]) fun received => ?_
    cases received with
    | none => simp [Linux.TcpClient.finish]
    | some v' => exact .bind (by simp [Linux.TcpClient.fromTerminal]) fun _ => trivial
  | returned status =>
    obtain ⟨rfl, -⟩ := Program.issues_ret.mp h
    simp

/-- What the client issues in a pass that receives `chunk` and reads nothing. Where the
connection took the descriptor of the terminal, it is read as well. -/
def showing (v : Linux.TcpClient.Vars) (chunk : List UInt8) (hfits : chunk.length ≤ 511) :
    Trace Posix.Api :=
  [⟨.select (Linux.TcpClient.maxfd v + 1) [v.sock, Posix.stdinFileno], ⟨1, [v.sock]⟩⟩,
    ⟨.recv v.sock 511, .store chunk hfits⟩, ⟨.printf (Linux.TcpClient.linuxRx (cstr chunk)), ()⟩] ++
  if v.sock = Posix.stdinFileno then
    [⟨.read Posix.stdinFileno 511, .store [] (Nat.zero_le 511)⟩] else []

/-- The client can receive any chunk. -/
theorem selecting_showing (v : Linux.TcpClient.Vars) (chunk : List UInt8)
    (hpos : 0 < chunk.length) (hfits : chunk.length ≤ 511) :
    ∃ v', (Linux.TcpClient.body (.selecting v)).Issues (showing v chunk hfits) (.selecting v') := by
  set a : Posix.ReadAnswer (Linux.TcpClient.bufSize - 1) := .store chunk hfits with ha
  have hresult : ¬ a.result ≤ 0 := not_le.mpr (Int.natCast_pos.mpr hpos)
  set v₁ : Linux.TcpClient.Vars :=
    { v with buffer := (v.buffer.write 0 a.data).write a.result.toNat [0] } with hv₁
  have hreceives : (Linux.TcpClient.fromFreeRtos [v.sock] v).Issues
      [⟨.recv v.sock 511, a⟩, ⟨.printf (Linux.TcpClient.linuxRx (cstr chunk)), ()⟩]
      (some v₁) := by
    simp only [Linux.TcpClient.fromFreeRtos, List.mem_singleton, if_true, Posix.recv,
      Program.call_bind, Program.ret_bind, Program.issues_call]
    refine ⟨a, _, rfl, ?_⟩
    rw [Linux.TcpClient.cstr_after_recv v.buffer a, if_neg hresult]
    simp [ha, Posix.ReadAnswer.store, hv₁]
  have hreads : ∃ v', (Linux.TcpClient.fromTerminal [v.sock] v₁).Issues
      (if v.sock = Posix.stdinFileno then
        [⟨.read Posix.stdinFileno 511, .store [] (Nat.zero_le 511)⟩] else []) v' := by
    by_cases hstdin : v.sock = Posix.stdinFileno
    · refine ⟨{ v₁ with buffer := v₁.buffer.write 0 [] }, ?_⟩
      simp only [Linux.TcpClient.fromTerminal, hstdin, List.mem_singleton, if_true, Posix.read,
        Program.call_bind, Program.ret_bind, Program.issues_call]
      exact ⟨.store [] (Nat.zero_le _), [], rfl, .ret _⟩
    · refine ⟨v₁, ?_⟩
      simp [Linux.TcpClient.fromTerminal, hstdin, Ne.symm hstdin]
  obtain ⟨v', hreads⟩ := hreads
  refine ⟨v', ?_⟩
  simp only [Linux.TcpClient.body, Posix.select, Posix.perror, Program.call_bind,
    Program.ret_bind, Program.issues_call]
  refine ⟨⟨1, [v.sock]⟩, _, rfl, ?_⟩
  rw [if_neg (not_lt.mpr Int.one_nonneg)]
  refine Program.issues_bind.mpr ⟨_, some v₁, _, rfl, hreceives, ?_⟩
  exact Program.issues_bind.mpr ⟨_, v', [], (List.append_nil _).symm, hreads, .ret _⟩

/-- It takes the chunk from the connection, and does nothing else. -/
theorem showing_eq (v : Linux.TcpClient.Vars) (chunk : List UInt8) (hfits : chunk.length ≤ 511) :
    descriptor.takes (showing v chunk hfits) = chunk ∧
      descriptor.puts (showing v chunk hfits) = [] ∧ typed (showing v chunk hfits) = [] ∧
      ∀ e ∈ showing v chunk hfits, LinuxSendsAll e := by
  unfold showing
  split <;> refine ⟨List.append_nil chunk, rfl, rfl, fun e he => ?_⟩ <;>
    simp only [List.append_nil, List.cons_append, List.nil_append, List.mem_cons,
      List.not_mem_nil, or_false] at he
  · rcases he with rfl | rfl | rfl | rfl <;> trivial
  · rcases he with rfl | rfl | rfl <;> trivial

section Client
variable {b : Buffer Linux.TcpClient.bufSize} {tr : Trace Posix.Api}
  {p : Program Posix.Api (Linux.TcpClient.main b).Label}

/-- What a client has put into its connection was typed. -/
theorem client_puts (h : (Linux.TcpClient.main b).At tr p) :
    (descriptor.puts tr).Sublist (typed tr) ∧
      ((∀ e ∈ tr, LinuxSendsAll e) → descriptor.puts tr <+: typed tr) := by
  have hpre := sentBuffers_isPrefix (Linux.TcpClient.body_relays) h
  simp only [Bool.not_false, List.filter_true] at hpre
  obtain ⟨hpart, hwhole⟩ := puts_sublist tr
  refine ⟨hpart.trans hpre.flatten.sublist, fun hall => ?_⟩
  rw [hwhole hall]
  exact hpre.flatten

end Client

/-! ## The demo -/

section Demo
variable {rx : Buffer EchoServer.rxBufferSize} {buffers : ℕ → Buffer Linux.TcpClient.bufSize}
  {s : Net rx buffers}

/-- **A client shows nothing that was not typed on its own terminal**, at any moment of any
interleaving, whatever the calls of all parties return: the bytes shown as received are a
part of those typed, in order. -/
theorem shown_typed (h : s.Reachable sockets descriptor) (i : ℕ) :
    (Receivers.linux.shown (s.spoke i).done).Sublist (typed (s.spoke i).done) := by
  obtain ⟨hup, hdown⟩ := Star.takes_isPrefix h i
  calc
    Receivers.linux.shown (s.spoke i).done
    _ <+ descriptor.takes (s.spoke i).done :=
      (shown_sublist Receivers.tcpClient_prints (s.spoke i).reached).1
    _ <+ acceptedBytes (sockets.on i s.hub.done) := hdown.sublist
    _ <+ receivedBytes (sockets.on i s.hub.done) := (server_sends_back s.hub.reached).1
    _ <+ descriptor.puts (s.spoke i).done := hup.sublist
    _ <+ typed (s.spoke i).done := (client_puts (s.spoke i).reached).1

/-- On connection `i`, every `send` of either party accepts what it is given. -/
structure SendsWhole (s : Net rx buffers) (i : ℕ) : Prop where
  server : ∀ e ∈ sockets.on i s.hub.done, SendsAll e
  client : ∀ e ∈ (s.spoke i).done, LinuxSendsAll e

/-- **What comes back is the beginning of what was typed**, if every `send` on the
connection accepts all it is given and no NUL was typed. -/
theorem shown_beginning (h : s.Reachable sockets descriptor) {i : ℕ} (hsends : SendsWhole s i)
    (hnul : 0 ∉ typed (s.spoke i).done) :
    Receivers.linux.shown (s.spoke i).done <+: typed (s.spoke i).done := by
  obtain ⟨hup, hdown⟩ := Star.takes_isPrefix h i
  have hback : descriptor.takes (s.spoke i).done <+: typed (s.spoke i).done := calc
    descriptor.takes (s.spoke i).done
    _ <+: acceptedBytes (sockets.on i s.hub.done) := hdown
    _ <+: receivedBytes (sockets.on i s.hub.done) :=
      (server_sends_back s.hub.reached).2 hsends.server
    _ <+: descriptor.puts (s.spoke i).done := hup
    _ <+: typed (s.spoke i).done := (client_puts (s.spoke i).reached).2 hsends.client
  refine ((shown_sublist Receivers.tcpClient_prints (s.spoke i).reached).2 ?_).trans hback
  exact fun hmem => hnul (hback.subset hmem)

/-- Nothing is under way on connection `i`: the server waits in `recv`, the client waits in
`select`, and nothing is in flight. -/
structure AtRest (s : Net rx buffers) (i : ℕ) : Prop where
  server : ∃ offset size k, s.hub.next = .call (.recv (.handle i) offset size) k
  client : ∃ nfds readfds k, (s.spoke i).next = .call (.select nfds readfds) k
  up : s.up i = []
  down : s.down i = []

/-- What a client has received at rest. -/
theorem comes_back (h : s.Reachable sockets descriptor) {i : ℕ} (hsends : SendsWhole s i)
    (hrest : AtRest s i) :
    descriptor.takes (s.spoke i).done = typed (s.spoke i).done ∧
      Receivers.linux.Prints (s.spoke i).done := by
  obtain ⟨⟨offset, size, k, hhub⟩, ⟨nfds, readfds, k', hspoke⟩, hup, hdown⟩ := hrest
  obtain ⟨hsent, hback⟩ := Star.conserves h i
  have hechoes : Echoes i s.hub.done :=
    Task.At.keeps_first echoes_appendClosed (server_echoes rx) calm (recv_first rx)
      (hhub ▸ s.hub.reached)
  have hprints : Receivers.linux.Prints (s.spoke i).done :=
    Task.At.keeps_first Receivers.prints_appendClosed Receivers.tcpClient_prints quiet
      (select_first _) (hspoke ▸ (s.spoke i).reached)
  have hrelays : Linux.Relays (fun _ => false) (s.spoke i).done :=
    Task.At.keeps_first Linux.relays_appendClosed Linux.TcpClient.body_relays quiet
      (select_first _) (hspoke ▸ (s.spoke i).reached)
  have hputs : descriptor.puts (s.spoke i).done = typed (s.spoke i).done := by
    rw [(puts_sublist _).2 hsends.client, hrelays]
    simp [typed]
  have hwhole := hechoes.whole hsends.server
  simp only [hup, hdown, List.append_nil, sockets_puts, sockets_takes] at hsent hback
  exact ⟨by rw [← hback, hwhole, ← hsent, hputs], hprints⟩

/-- **All that was typed has come back** once nothing is under way. -/
theorem shown_all (h : s.Reachable sockets descriptor) {i : ℕ} (hsends : SendsWhole s i)
    (hrest : AtRest s i) (hnul : 0 ∉ typed (s.spoke i).done) :
    Receivers.linux.shown (s.spoke i).done = typed (s.spoke i).done := by
  obtain ⟨htakes, hprints⟩ := comes_back h hsends hrest
  rw [← htakes] at hnul ⊢
  exact (Records.Receiver.shown_eq_stream_iff hprints).mpr hnul

/-! ## Progress -/

/-- The server is at the head of its inner loop, with the client of connection `i`. -/
def AtSession (s : Net rx buffers) (i : ℕ) : Prop :=
  ∃ v : EchoServer.Vars, v.xClientSocket = .handle i ∧ s.hub.next = EchoServer.body (.session v)

def NoRecv (e : Event Api) : Prop := ∀ s offset size, e.call ≠ .recv s offset size

/-- Whatever its calls are answered, the code left receives nothing more and leads to the head
of the inner loop, with the client of connection `i`. -/
structure Returns (i : ℕ) (p : Program Api (FreeRTOS.Label EchoServer.Loc)) : Prop where
  noRecv : p.All NoRecv
  back : ∀ evs l, p.Issues evs l → ∃ v : EchoServer.Vars, v.xClientSocket = .handle i ∧
    l = .code (.session v)

/-- The server is in a session with the client of connection `i`: it is about to receive, or on
its way to the next `recv`. -/
def Serves (s : Net rx buffers) (i : ℕ) : Prop := AtSession s i ∨ Returns i s.hub.next

/-- What is left of a pass that has received something. -/
theorem returns_echo {v : EchoServer.Vars} {i : ℕ} (text data : List UInt8)
    (hv : v.xClientSocket = .handle i) : Returns i (.call (.printf text) fun _ =>
      .call (.send (.handle i) data) fun _ => .ret (.code (.session v))) := by
  refine ⟨by simp [NoRecv], fun evs l h => ?_⟩
  simp at h
  exact ⟨v, hv, h.2⟩

/-- A `recv` of a session gets something, or nothing. -/
theorem returns_of_pos {v : EchoServer.Vars} {i : ℕ} (hv : v.xClientSocket = .handle i)
    {c : Call} {k : Api.Answer c → Program Api (FreeRTOS.Label EchoServer.Loc)}
    (hbody : EchoServer.body (.session v) = .call c k) (a : Api.Answer c) :
    Returns i (k a) ∨ ∃ offset size, ∃ b : RecvAnswer size,
      (⟨c, a⟩ : Event Api) = ⟨.recv (.handle i) offset size, b⟩ ∧ b.result ≤ 0 := by
  obtain ⟨xListenSocket, xClientSocket, rxBuffer⟩ := v
  obtain rfl : xClientSocket = .handle i := hv
  simp only [EchoServer.body, FreeRTOS.recv, Program.call_bind, Program.ret_bind,
    Program.call.injEq] at hbody
  obtain ⟨rfl, hk⟩ := hbody
  obtain rfl := eq_of_heq hk
  by_cases ha : a.result ≤ 0
  · exact .inr ⟨_, _, a, rfl, ha⟩
  · left
    simp only [if_neg ha]
    exact returns_echo _ _ rfl

/-- **A session ends with a `recv` that gets nothing**, and in no other way. -/
theorem Serves.step {s' : Net rx buffers} {i : ℕ} (h : Serves s i)
    (hstep : Star.Step sockets descriptor s s') : Serves s' i ∨
      ∃ offset size, ∃ a : RecvAnswer size, a.result ≤ 0 ∧
        s'.hub.done = s.hub.done ++ [⟨.recv (.handle i) offset size, a⟩] := by
  cases hstep with
  | spoke j hmove htaken => exact .inl h
  | hub hmove htaken =>
    obtain ⟨⟨tr, p, hat⟩, spoke, up, down⟩ := s
    cases hmove with
    | next _ =>
      rcases h with ⟨v, -, hnext⟩ | hreturns
      · simp [EchoServer.body] at hnext
      · obtain ⟨v, hv, rfl⟩ := hreturns.back [] _ (.ret _)
        exact .inl (.inl ⟨v, hv, rfl⟩)
    | call _ a =>
      rcases h with ⟨v, hv, hnext⟩ | hreturns
      · rcases returns_of_pos hv hnext.symm a with hreturns | ⟨offset, size, b, he, hb⟩
        · exact .inl (.inr hreturns)
        · exact .inr ⟨offset, size, b, hb, by rw [← he]⟩
      · exact .inl (.inr ⟨(hreturns.noRecv a).2, fun evs l h => hreturns.back _ l (.call a h)⟩)

/-- The client of connection `i` is about to wait. -/
def Waits (s : Net rx buffers) (i : ℕ) : Prop :=
  ∃ v : Linux.TcpClient.Vars, (s.spoke i).next = Linux.TcpClient.body (.selecting v)

theorem accepted_le (chunk : List UInt8) : (chunk.length : ℤ) ≤ chunk.length := Int.le_refl _

theorem received_pos {chunk : List UInt8} (h : 0 < chunk.length) : (0 : ℤ) < chunk.length :=
  Int.natCast_pos.mpr h

/-- The server receives a chunk, and all of it is accepted when it is sent back. -/
def handedBack (chunk : List UInt8) (hpos : 0 < chunk.length) (hfits : chunk.length ≤ 127) :
    EchoServer.Exchange :=
  ⟨⟨chunk.length, chunk, Posix.length_stored chunk, hfits⟩,
    ⟨chunk.length, accepted_le chunk⟩, received_pos hpos⟩

/-- The server can finish its pass, and accept what it is given there. -/
theorem server_returns {i : ℕ} (hserves : Serves s i) (hsends : SendsWhole s i) :
    ∃ s', Relation.ReflTransGen (Star.Step sockets descriptor) s s' ∧ AtSession s' i ∧
      SendsWhole s' i ∧ s'.spoke = s.spoke := by
  rcases hserves with hhead | hreturns
  · exact ⟨s, .refl, hhead, hsends, rfl⟩
  obtain ⟨rest, l, hissues, hcalm⟩ := Task.exists_issues calm s.hub.next
  obtain ⟨v, hv, rfl⟩ := hreturns.back rest l hissues
  have htakes : ∀ j, s.up j = sockets.takes (sockets.on j rest) ++ s.up j := by
    intro j
    refine List.self_eq_append_left.mpr (List.flatMap_eq_nil_iff.mpr fun e he => ?_)
    have hno := hreturns.noRecv.of_issues hissues e (List.mem_filter.mp he).1
    obtain ⟨c, a⟩ := e
    cases c with
    | recv s offset size => exact absurd rfl (hno s offset size)
    | _ => rfl
  obtain ⟨s', hmove, hbody, hdone, hspoke, -⟩ := Star.hub_issues (P := sockets) (Q := descriptor)
    hissues rfl htakes
  refine ⟨s', hmove, ⟨v, hv, hbody⟩, ⟨?_, ?_⟩, hspoke⟩
  · rw [hdone, Ports.on_append]
    refine List.forall_mem_append.mpr ⟨hsends.server, fun e he => ?_⟩
    exact (calm_nil hcalm i).2 e (List.mem_filter.mp he).1
  · rw [hspoke]
    exact hsends.client

/-- The server can hand back a chunk of what is in flight to it. -/
theorem server_turn {i : ℕ} (hserves : AtSession s i) (hsends : SendsWhole s i)
    (hup : (s.up i).length ≠ 0) : ∃ s', Relation.ReflTransGen (Star.Step sockets descriptor) s s' ∧
      AtSession s' i ∧ SendsWhole s' i ∧ s'.spoke = s.spoke ∧
      (s'.up i).length < (s.up i).length := by
  obtain ⟨v, hv, hnext⟩ := hserves
  set chunk := (s.up i).take 127 with hchunk
  have hlen : chunk.length = min 127 (s.up i).length := by simp [hchunk]
  set x := handedBack chunk (by omega) (by omega) with hx
  obtain ⟨b, hissues⟩ := EchoServer.session_exchange v x
  rw [hv] at hissues
  have htakes : ∀ j, s.up j = sockets.takes (sockets.on j (x.events (.handle i))) ++
      Function.update s.up i ((s.up i).drop 127) j := by
    intro j
    rw [on_exchange]
    by_cases hij : i = j
    · subst hij
      simp [received, hx, handedBack, hchunk]
    · simp [hij, Ne.symm hij]
  obtain ⟨s', hmove, hbody, hdone, hspoke, hup'⟩ :=
    Star.hub_issues (Q := descriptor) hissues hnext htakes
  refine ⟨s', hmove, ⟨_, rfl, hbody⟩, ⟨?_, ?_⟩, hspoke, ?_⟩
  · rw [hdone, Ports.on_append, on_exchange, if_pos rfl]
    refine List.forall_mem_append.mpr ⟨hsends.server, fun e he => ?_⟩
    simp only [List.mem_cons, List.not_mem_nil, or_false] at he
    rcases he with rfl | rfl
    · trivial
    · rfl
  · rw [hspoke]
    exact hsends.client
  · rw [hup', Function.update_self, List.length_drop]
    omega

/-- The client can show a chunk of what is in flight to it. -/
theorem client_turn {i : ℕ} (hwaits : Waits s i) (hsends : SendsWhole s i)
    (hdown : (s.down i).length ≠ 0) :
    ∃ s', Relation.ReflTransGen (Star.Step sockets descriptor) s s' ∧ Waits s' i ∧
      SendsWhole s' i ∧ s'.hub = s.hub ∧ s'.up i = s.up i ∧
      typed (s'.spoke i).done = typed (s.spoke i).done ∧
      (s'.down i).length < (s.down i).length := by
  obtain ⟨v, hnext⟩ := hwaits
  set chunk := (s.down i).take 511 with hchunk
  have hlen : chunk.length = min 511 (s.down i).length := by simp [hchunk]
  have hfits : chunk.length ≤ 511 := by omega
  obtain ⟨v', hissues⟩ := selecting_showing v chunk (by omega) hfits
  obtain ⟨htakes, hputs, htyped, hall⟩ := showing_eq v chunk hfits
  have hdata : s.down i = descriptor.takes (showing v chunk hfits) ++ (s.down i).drop 511 := by
    rw [htakes, hchunk, List.take_append_drop]
  obtain ⟨s', hmove, hbody, hdone, hhub, hup, hdown'⟩ :=
    Star.spoke_issues (P := sockets) hissues hnext hdata
  refine ⟨s', hmove, ⟨v', hbody⟩, ⟨?_, ?_⟩, hhub, by simpa [hputs] using hup, ?_, ?_⟩
  · rw [hhub]
    exact hsends.server
  · rw [hdone]
    exact List.forall_mem_append.mpr ⟨hsends.client, hall⟩
  · rw [hdone, typed_append, htyped, List.append_nil]
  · rw [hdown', List.length_drop]
    omega

/-- **Nothing gets stuck.** While the server is in a session with a client that waits, and no
`send` has failed to accept all it was given, the parties can go on so that the client shows
all it has typed. -/
theorem can_show_all (h : s.Reachable sockets descriptor) {i : ℕ} (hserves : Serves s i)
    (hwaits : Waits s i) (hsends : SendsWhole s i) (hnul : 0 ∉ typed (s.spoke i).done) :
    ∃ s', Relation.ReflTransGen (Star.Step sockets descriptor) s s' ∧
      typed (s'.spoke i).done = typed (s.spoke i).done ∧
      Receivers.linux.shown (s'.spoke i).done = typed (s.spoke i).done := by
  obtain ⟨s₀, hmove₀, hserves₀, hsends₀, hspoke₀⟩ := server_returns hserves hsends
  obtain ⟨s₁, hmove₁, ⟨hserves₁, hsends₁, hspoke₁⟩, hup₁⟩ := Star.exists_of_variant
    (R := Star.Step sockets descriptor)
    (P := fun s' => AtSession s' i ∧ SendsWhole s' i ∧ s'.spoke = s.spoke)
    (fun s' => (s'.up i).length)
    (fun s' hs' hne => by
      obtain ⟨s'', hmove, hserves, hsends, hspoke, hlt⟩ := server_turn hs'.1 hs'.2.1 hne
      exact ⟨s'', hmove, ⟨hserves, hsends, hspoke.trans hs'.2.2⟩, hlt⟩)
    (s := s₀) ⟨hserves₀, hsends₀, hspoke₀⟩
  obtain ⟨s₂, hmove₂, ⟨hwaits₂, hsends₂, hhub₂, hup₂, htyped₂⟩, hdown₂⟩ := Star.exists_of_variant
    (R := Star.Step sockets descriptor)
    (P := fun s' => Waits s' i ∧ SendsWhole s' i ∧ s'.hub = s₁.hub ∧ s'.up i = s₁.up i ∧
      typed (s'.spoke i).done = typed (s₁.spoke i).done)
    (fun s' => (s'.down i).length)
    (fun s' hs' hne => by
      obtain ⟨s'', hmove, hwaits, hsends, hhub, hup, htyped, hlt⟩ := client_turn hs'.1 hs'.2.1 hne
      exact ⟨s'', hmove, ⟨hwaits, hsends, hhub.trans hs'.2.2.1, hup.trans hs'.2.2.2.1,
        htyped.trans hs'.2.2.2.2⟩, hlt⟩)
    (s := s₁) ⟨by rw [Waits, hspoke₁]; exact hwaits, hsends₁, rfl, rfl, rfl⟩
  have hmoves := (hmove₀.trans hmove₁).trans hmove₂
  have htyped : typed (s₂.spoke i).done = typed (s.spoke i).done := by rw [htyped₂, hspoke₁]
  obtain ⟨v, hv, hnext⟩ := hserves₁
  obtain ⟨w, hw⟩ := hwaits₂
  have hrest : AtRest s₂ i :=
    ⟨⟨0, 127, _, by rw [hhub₂, hnext, ← hv]; rfl⟩, ⟨_, _, _, hw⟩,
      by rw [hup₂]; exact List.length_eq_zero_iff.mp hup₁, List.length_eq_zero_iff.mp hdown₂⟩
  obtain ⟨htakes, hprints⟩ := comes_back (h.trans hmoves) hsends₂ hrest
  refine ⟨s₂, hmoves, htyped, ?_⟩
  rw [← htyped, ← htakes] at hnul ⊢
  exact (Records.Receiver.shown_eq_stream_iff hprints).mpr hnul

/-- The client types `hi` in its first pass and receives it in its second. -/
def typesHi : Environment Posix.Api
  | i, .select _ readfds => ⟨1, if i = 5 then [Posix.stdinFileno] else readfds.take 1⟩
  | _, .read _ size => if h : (ascii "hi").length ≤ size then .store (ascii "hi") h else default
  | _, .recv _ size => if h : (ascii "hi").length ≤ size then .store (ascii "hi") h else default
  | _, .socket => (3 : ℤ)
  | _, c => quiet c

/-- A run of the demo: client 5 connects and types, the server accepts it and sends the chunk
back, and the client shows it. -/
def hiEchoed : Net (.replicate _ 0) (fun _ => .replicate _ 0) :=
  Star.run sockets descriptor
    (scripted (fun i => if i = 8 then ascii "hi" else []) fun _ => 2) (fun _ => typesHi)
    (List.replicate 11 (some 5) ++ List.replicate 15 none ++ List.replicate 4 (some 5))

theorem hiEchoed_sends : SendsWhole hiEchoed 5 := ⟨by decide +kernel, by decide +kernel⟩

theorem hiEchoed_atRest : AtRest hiEchoed 5 :=
  ⟨⟨_, _, _, rfl⟩, ⟨_, _, _, rfl⟩, by decide +kernel, by decide +kernel⟩

/-- The run up to the moment where the server has received the chunk, and not sent it yet. -/
def hiReceived : Net (.replicate _ 0) (fun _ => .replicate _ 0) :=
  Star.run sockets descriptor
    (scripted (fun i => if i = 8 then ascii "hi" else []) fun _ => 2) (fun _ => typesHi)
    (List.replicate 11 (some 5) ++ List.replicate 12 none)

theorem hiReceived_serves : Serves hiReceived 5 :=
  .inr (returns_echo _ _ rfl)

theorem can_show_all_hi :
    ∃ s', Relation.ReflTransGen (Star.Step sockets descriptor) hiReceived s' ∧
      typed (s'.spoke 5).done = typed (hiReceived.spoke 5).done ∧
      Receivers.linux.shown (s'.spoke 5).done = typed (hiReceived.spoke 5).done :=
  can_show_all (Star.reachable_run _) hiReceived_serves
    ⟨⟨3, (Buffer.replicate _ 0).write 0 (ascii "hi")⟩, rfl⟩
    ⟨by decide +kernel, by decide +kernel⟩ (by decide +kernel)

theorem shown_typed_hi : (Receivers.linux.shown (hiEchoed.spoke 5).done).Sublist
    (typed (hiEchoed.spoke 5).done) :=
  shown_typed (Star.reachable_run _) 5

theorem shown_beginning_hi :
    Receivers.linux.shown (hiEchoed.spoke 5).done <+: typed (hiEchoed.spoke 5).done :=
  shown_beginning (Star.reachable_run _) hiEchoed_sends (by decide +kernel)

theorem shown_all_hi :
    Receivers.linux.shown (hiEchoed.spoke 5).done = typed (hiEchoed.spoke 5).done :=
  shown_all (Star.reachable_run _) hiEchoed_sends hiEchoed_atRest (by decide +kernel)

end Demo

end TcpDemo.Demos.Echo
