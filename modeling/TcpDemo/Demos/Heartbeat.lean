import TcpDemo.Demos.Connections
import TcpDemo.Heartbeat.Framing

/-!
# The heartbeat demo

FreeRTOS runs the heartbeat task, and each of its connections ends in a server on Linux:
the one that relays its terminal, or the one that echoes. The heartbeats of a run are
numbered over all connections (`beatsOn`), so what the servers show can be compared across
reconnects. Until the counter wraps, the numbers in the lines a server shows grow, and no
number is shown twice (`shown_once`).

In the other direction nothing arrives. The task never receives, so what a server sends to it
stays in flight.
-/

namespace TcpDemo.Demos.Heartbeat
open Interaction CBytes FreeRTOS FreeRTOS.Call TcpDemo.Heartbeat

/-- The servers on Linux, each with the bytes its buffer holds at the start. -/
inductive Server where
  | tcpServer (buffer : Buffer Linux.TcpServer.bufSize)
  | linuxTcpServer (buffer : Buffer Linux.LinuxTcpServer.bufSize)

/-- The program of a server. -/
def Server.main : Server → Task Posix.Api
  | .tcpServer buffer => Linux.TcpServer.main buffer
  | .linuxTcpServer buffer => Linux.LinuxTcpServer.main buffer

/-- The heartbeat task, and the servers on Linux. -/
abbrev Net (b : Buffer txBufferSize) (servers : ℕ → Server) :=
  Star (prvTCPHeartbeatTask b) (fun i => (servers i).main) UInt8

theorem Server.prints (x : Server) (l : x.main.Label) :
    (x.main.body l).Keeps Receivers.linux.Prints := by
  cases x with
  | tcpServer buffer => exact Receivers.tcpServer_prints l
  | linuxTcpServer buffer => exact Receivers.linuxTcpServer_prints l

/-! ## The server that echoes -/

/-- All that was received is handed to `send`. -/
def HandsBack (tr : Trace Posix.Api) : Prop :=
  (Linux.sentBuffers tr).flatten = descriptor.takes tr

theorem handsBack_appendClosed : Program.AppendClosed HandsBack where
  nil := rfl
  append h h' := by
    rw [HandsBack, Ends.takes_append, ← h, ← h']
    simp [Linux.sentBuffers]

/-- A call that neither receives nor sends. -/
def Neither (e : Event Posix.Api) : Prop := Linux.sentBuffer e = [] ∧ descriptor.taken e = []

theorem neither_call {c : Posix.Call} {a : Posix.Api.Answer c}
    (hrecv : ∀ fd size, c ≠ .recv fd size) (hsend : ∀ fd data, c ≠ .send fd data) :
    Neither ⟨c, a⟩ := by
  cases c with
  | recv fd size => exact absurd rfl (hrecv fd size)
  | send fd data => exact absurd rfl (hsend fd data)
  | _ => exact ⟨rfl, rfl⟩

theorem handsBack_of_neither {tr : Trace Posix.Api} (h : ∀ e ∈ tr, Neither e) : HandsBack tr := by
  have hsent : Linux.sentBuffers tr = [] := List.flatMap_eq_nil_iff.mpr fun e he => (h e he).1
  have htakes : descriptor.takes tr = [] := List.flatMap_eq_nil_iff.mpr fun e he => (h e he).2
  rw [HandsBack, hsent, htakes]
  rfl

/-- The program is the server that echoes. -/
def Server.Echoes (x : Server) : Prop := ∃ buffer, x = .linuxTcpServer buffer

section EchoServer
variable {x : Server} (hx : x.Echoes)
include hx

theorem Server.Echoes.handsBack (l : x.main.Label) : (x.main.body l).Keeps HandsBack := by
  obtain ⟨buffer, rfl⟩ := hx
  intro evs l' h
  cases l with
  | start b =>
    have hall : (Linux.LinuxTcpServer.body (.start b)).All Neither := by
      simp [Linux.LinuxTcpServer.body, neither_call]
    exact hall.keeps handsBack_of_neither evs l' h
  | receiving v =>
    obtain ⟨a, rest, rfl, ⟨hnone, -, c, s, rfl⟩ | ⟨-, ⟨sent, rfl⟩, -⟩⟩ :=
      Linux.LinuxTcpServer.receiving_step h
    · have hnil := Posix.ReadAnswer.data_eq_nil_iff.mpr hnone
      simp [HandsBack, Linux.sentBuffers, Linux.sentBuffer, descriptor, Ends.takes,
        Receivers.linux, hnil]
    · simp [HandsBack, Linux.sentBuffers, Linux.sentBuffer, descriptor, Ends.takes,
        Receivers.linux]
  | returned status =>
    obtain ⟨rfl, -⟩ := Program.issues_ret.mp h
    rfl

/-- A `recv` comes first in its stretch. -/
theorem Server.Echoes.recv_first {fd : ℤ} {size : ℕ} (l : x.main.Label) (evs : Trace Posix.Api)
    (l' : x.main.Label) (h : (x.main.body l).Issues evs l') :
    ∀ e ∈ evs.tail, e.call ≠ Posix.Call.recv fd size := by
  obtain ⟨buffer, rfl⟩ := hx
  cases l with
  | start b =>
    have hall : (Linux.LinuxTcpServer.body (.start b)).All
        fun e => e.call ≠ Posix.Call.recv fd size := by
      simp [Linux.LinuxTcpServer.body]
    exact fun e he => hall.of_issues h e (List.mem_of_mem_tail he)
  | receiving v =>
    obtain ⟨a, rest, rfl, ⟨-, -, c, s, rfl⟩ | ⟨-, ⟨sent, rfl⟩, -⟩⟩ :=
      Linux.LinuxTcpServer.receiving_step h <;> simp
  | returned status =>
    obtain ⟨rfl, -⟩ := Program.issues_ret.mp h
    simp

end EchoServer

/-! ## The heartbeats of a connection -/

/-- The socket of a `send`, and its result. -/
def sentOn : Event Api → List (Socket × ℤ)
  | ⟨.send s _, a⟩ => [(s, a.result)]
  | _ => []

/-- The sends of a trace, over all connections, each with its number. -/
def beats (tr : Trace Api) : List ((Socket × ℤ) × ℕ) := (tr.flatMap sentOn).zipIdx

/-- The number and the result of a `send` on connection `i`. -/
def onConnection (i : ℕ) (x : (Socket × ℤ) × ℕ) : Option (ℕ × ℤ) :=
  if x.1.1 = .handle i then some (x.2, x.1.2) else none

/-- The heartbeats of connection `i`: their numbers, and what `send` returned for them. -/
def beatsOn (i : ℕ) (tr : Trace Api) : List (ℕ × ℤ) := (beats tr).filterMap (onConnection i)

/-- What `send` accepts of a heartbeat. -/
def shownPart (x : ℕ × ℤ) : List UInt8 := (heartbeat (.ofNat x.1)).take x.2.toNat

section Beats
variable {i j : ℕ} {tr : Trace Api}

theorem onConnection_eq_some {x : (Socket × ℤ) × ℕ} {y : ℕ × ℤ} :
    onConnection i x = some y ↔ x.1.1 = .handle i ∧ y = (x.2, x.1.2) := by
  simp [onConnection, eq_comm]

/-- The numbers grow along a connection. -/
theorem beatsOn_increasing (i : ℕ) (tr : Trace Api) :
    (beatsOn i tr).Pairwise fun x y => x.1 < y.1 := by
  have hnumbers : (beats tr).Pairwise fun x y => x.2 < y.2 := by
    rw [← List.pairwise_map, beats, List.zipIdx_map_snd]
    exact List.pairwise_lt_range'
  refine List.pairwise_filterMap.mpr (hnumbers.imp fun {x y} hlt x' hx y' hy => ?_)
  rw [(onConnection_eq_some.mp hx).2, (onConnection_eq_some.mp hy).2]
  exact hlt

/-- A heartbeat belongs to one connection. -/
theorem beatsOn_disjoint (hij : i ≠ j) {x y : ℕ × ℤ} (hx : x ∈ beatsOn i tr)
    (hy : y ∈ beatsOn j tr) : x.1 ≠ y.1 := by
  obtain ⟨x', hx', hxi⟩ := List.mem_filterMap.mp hx
  obtain ⟨y', hy', hyj⟩ := List.mem_filterMap.mp hy
  obtain ⟨hi, rfl⟩ := onConnection_eq_some.mp hxi
  obtain ⟨hj, rfl⟩ := onConnection_eq_some.mp hyj
  intro hnumber
  have hget := List.mem_zipIdx_iff_getElem?.mp hx'
  rw [show x'.2 = y'.2 from hnumber, List.mem_zipIdx_iff_getElem?.mp hy'] at hget
  have hsame := congrArg Prod.fst (Option.some.inj hget)
  rw [hi, hj] at hsame
  exact hij (Socket.handle.inj hsame).symm

/-- The sends are counted as in `sends`. -/
theorem length_sentOn (tr : Trace Api) : (tr.flatMap sentOn).length = (sends tr).length := by
  have hone : ∀ e, (sentOn e).length = (sendOf e).length := by
    rintro ⟨c, a⟩
    cases c <;> rfl
  simp only [sends, List.length_flatMap, hone]

/-- A call that sends nothing is no heartbeat of any connection. -/
theorem beatsOn_idle {e : Event Api} (he : sentOn e = []) (i : ℕ) (tr : Trace Api) :
    beatsOn i (tr ++ [e]) = beatsOn i tr := by
  simp [beatsOn, beats, he]

theorem beatsOn_send (s : Socket) (data : List UInt8) (a : SendAnswer data.length) (i : ℕ)
    (tr : Trace Api) : beatsOn i (tr ++ [⟨.send s data, a⟩]) =
      beatsOn i tr ++ if s = .handle i then [((sends tr).length, a.result)] else [] := by
  have hbeats : beats (tr ++ [⟨.send s data, a⟩]) =
      beats tr ++ [((s, a.result), (sends tr).length)] := by
    rw [beats, List.flatMap_append, List.zipIdx_append, length_sentOn]
    simp [beats, sentOn]
  rw [beatsOn, hbeats, List.filterMap_append]
  by_cases hs : s = .handle i <;> simp [beatsOn, onConnection, hs]

/-- What is accepted on a connection are parts of its heartbeats. -/
theorem acceptedBytes_on (h : Numbered 0 (sends tr)) (i : ℕ) :
    acceptedBytes (sockets.on i tr) = (beatsOn i tr).flatMap shownPart := by
  induction tr using List.reverseRecOn with
  | nil => rfl
  | append_singleton tr e ih =>
    rw [sends_append, numbered_append] at h
    rw [Ports.on_append, acceptedBytes_append, ih h.1]
    obtain ⟨c, a⟩ := e
    cases c
    case send s data =>
      have hdata : data = heartbeat (.ofNat (sends tr).length) := by
        simpa [sendOf, Numbered] using h.2
      rw [beatsOn_send]
      by_cases hs : s = .handle i
      · simp [Ports.on, hs, accepted, SendAnswer.accepted, shownPart, ← hdata]
      · simp [Ports.on, hs]
    case recv s offset size =>
      rw [beatsOn_idle rfl]
      by_cases hs : s = .handle i <;> simp [Ports.on, hs, accepted]
    all_goals rw [beatsOn_idle rfl]; simp [Ports.on, peer_eq_none]

/-- The numbers are below the number of sends. -/
theorem lt_of_mem_beatsOn {x : ℕ × ℤ} (hx : x ∈ beatsOn i tr) : x.1 < (sends tr).length := by
  obtain ⟨y, hy, hyi⟩ := List.mem_filterMap.mp hx
  rw [(onConnection_eq_some.mp hyi).2, ← length_sentOn]
  exact (List.getElem?_eq_some_iff.mp (List.mem_zipIdx_iff_getElem?.mp hy)).1

/-- The line of heartbeat `k` stands in the text at position `m`. -/
def StandsAt (text : List UInt8) (m : ℕ) (k : UInt32) : Prop := heartbeat k <+: text.drop m

instance (text : List UInt8) (m : ℕ) (k : UInt32) : Decidable (StandsAt text m k) :=
  inferInstanceAs (Decidable (heartbeat k <+: text.drop m))

/-- A line in what was accepted is a heartbeat that was accepted whole, and stands behind what
was accepted of those before it. -/
theorem StandsAt.exists_beat {bs : List (ℕ × ℤ)} {text : List UInt8} {m : ℕ} {k : UInt32}
    (h : StandsAt text m k) (htext : text <+: bs.flatMap shownPart) : ∃ n x, bs[n]? = some x ∧
      k = .ofNat x.1 ∧ m = ((bs.take n).flatMap shownPart).length := by
  have hparts : ∀ bs : List (ℕ × ℤ), (bs.map fun x => (UInt32.ofNat x.1, x.2.toNat)).flatMap
      (fun x => (heartbeat x.1).take x.2) = bs.flatMap shownPart := fun bs => by
    rw [List.flatMap_map]
    rfl
  have hpre : heartbeat k <+: (bs.flatMap shownPart).drop m := h.trans (htext.drop m)
  rw [← hparts] at hpre
  obtain ⟨n, y, hy, hrecord, hm⟩ :=
    exists_part_of_isPrefix_drop marked_heartbeat delimited_heartbeat hpre
  rw [List.getElem?_map, Option.map_eq_some_iff] at hy
  obtain ⟨x, hx, rfl⟩ := hy
  refine ⟨n, x, hx, (heartbeat_injective hrecord).symm, ?_⟩
  rw [hm, ← List.map_take, hparts]

/-- There is no NUL in a heartbeat. -/
theorem zero_notMem_shownPart (x : ℕ × ℤ) : 0 ∉ shownPart x := by
  intro h
  have hmem := List.mem_of_mem_take h
  simp only [heartbeat, List.mem_append] at hmem
  rcases hmem with (hmem | hmem) | hmem
  · exact absurd hmem (by decide)
  · exact zero_notMem_decimal _ hmem
  · exact absurd hmem (by decide)

end Beats

/-! ## The task -/

section Task
variable {b : Buffer txBufferSize} {tr : Trace Api}
  {p : Program Api (prvTCPHeartbeatTask b).Label}

/-- The task never receives. -/
theorem body_receives_nothing (l : Loc) : (body l).Keeps fun evs => receivedBytes evs = [] := by
  intro evs l' h
  cases l with
  | connecting v =>
    rcases connecting_step h with ⟨-, rfl⟩ | ⟨s, o, r, -, ⟨-, -, c, rfl⟩ | ⟨-, -, rfl⟩⟩ <;> rfl
  | beating v =>
    obtain ⟨r, b, ⟨-, -, c, rfl⟩ | ⟨-, -, rfl⟩⟩ := beating_step h <;> rfl

theorem receives_nothing (h : (prvTCPHeartbeatTask b).At tr p) : receivedBytes tr = [] := by
  have hclosed : Program.AppendClosed fun evs : Trace Api => receivedBytes evs = [] :=
    ⟨rfl, fun h h' => by simp [h, h']⟩
  obtain ⟨rest, hnil, -⟩ := h.keeps hclosed body_receives_nothing calm
  simp only [receivedBytes_append, List.append_eq_nil_iff] at hnil
  exact hnil.1

/-- What the task has got accepted on a connection. -/
theorem accepted_heartbeats (h : (prvTCPHeartbeatTask b).At tr p) (i : ℕ) :
    acceptedBytes (sockets.on i tr) = (beatsOn i tr).flatMap shownPart := by
  obtain ⟨env, hmoment⟩ := h.moment
  exact acceptedBytes_on (numbered_sends hmoment) i

end Task

/-! ## The demo -/

section Demo
variable {b : Buffer txBufferSize} {servers : ℕ → Server} {s : Net b servers}

/-- A server shows the beginning of what was accepted on its connection. -/
theorem shown_isPrefix_accepted (h : s.Reachable sockets descriptor) (i : ℕ) :
    Receivers.linux.shown (s.spoke i).done <+: (beatsOn i s.hub.done).flatMap shownPart := by
  have hdown := (Star.takes_isPrefix h i).2
  rw [sockets_puts, accepted_heartbeats s.hub.reached] at hdown
  refine ((shown_sublist (servers i).prints (s.spoke i).reached).2 fun hmem => ?_).trans hdown
  obtain ⟨x, -, hx⟩ := List.mem_flatMap.mp (hdown.subset hmem)
  exact zero_notMem_shownPart x hx

/-- A line that a server shows is the heartbeat of a `send` on its connection. -/
theorem shown_line (h : s.Reachable sockets descriptor) {i m : ℕ} {k : UInt32}
    (hline : StandsAt (Receivers.linux.shown (s.spoke i).done) m k)
    (hfew : (sends s.hub.done).length ≤ 2 ^ 32) : ∃ n x, (beatsOn i s.hub.done)[n]? = some x ∧
      k.toNat = x.1 ∧ m = (((beatsOn i s.hub.done).take n).flatMap shownPart).length := by
  obtain ⟨n, x, hx, rfl, hm⟩ := hline.exists_beat (shown_isPrefix_accepted h i)
  have hlt := lt_of_mem_beatsOn (List.mem_of_getElem? hx)
  refine ⟨n, x, hx, ?_, hm⟩
  rw [UInt32.toNat_ofNat', Nat.mod_eq_of_lt (by omega)]

/-- The numbers of the lines grow along what a server shows. -/
theorem shown_increasing (h : s.Reachable sockets descriptor)
    (hfew : (sends s.hub.done).length ≤ 2 ^ 32) {i m m' : ℕ} {k k' : UInt32}
    (hline : StandsAt (Receivers.linux.shown (s.spoke i).done) m k)
    (hline' : StandsAt (Receivers.linux.shown (s.spoke i).done) m' k') (hlt : m < m') : k < k' := by
  obtain ⟨n, x, hx, hk, hm⟩ := shown_line h hline hfew
  obtain ⟨n', x', hx', hk', hm'⟩ := shown_line h hline' hfew
  have hbefore : n < n' := by
    by_contra hle
    have hpre := (List.take_isPrefix_take (l := beatsOn i s.hub.done)).mpr (.inl (not_lt.mp hle))
    have hlen := (hpre.sublist.flatMap shownPart).length_le
    omega
  obtain ⟨hn, rfl⟩ := List.getElem?_eq_some_iff.mp hx
  obtain ⟨hn', rfl⟩ := List.getElem?_eq_some_iff.mp hx'
  have hnumbers :=
    List.pairwise_iff_getElem.mp (beatsOn_increasing i s.hub.done) n n' hn hn' hbefore
  rw [UInt32.lt_iff_toNat_lt, hk, hk']
  exact hnumbers

/-- A line is shown by one server. -/
theorem shown_by_one (h : s.Reachable sockets descriptor)
    (hfew : (sends s.hub.done).length ≤ 2 ^ 32) {i j m m' : ℕ} {k : UInt32}
    (hline : StandsAt (Receivers.linux.shown (s.spoke i).done) m k)
    (hline' : StandsAt (Receivers.linux.shown (s.spoke j).done) m' k) : i = j := by
  by_contra hij
  obtain ⟨n, x, hx, hk, -⟩ := shown_line h hline hfew
  obtain ⟨n', x', hx', hk', -⟩ := shown_line h hline' hfew
  exact beatsOn_disjoint hij (List.mem_of_getElem? hx) (List.mem_of_getElem? hx')
    (hk.symm.trans hk')

/-- **No heartbeat is shown twice**, at any moment of any interleaving. What a server shows
is the beginning of the heartbeats sent on its connection, each up to what was accepted of it.
Until the counter wraps, the numbers of the lines it shows grow, and no number is shown at two
places or by two servers. -/
theorem shown_once (h : s.Reachable sockets descriptor) :
    (∀ i, Receivers.linux.shown (s.spoke i).done <+: (beatsOn i s.hub.done).flatMap shownPart) ∧
    ((sends s.hub.done).length ≤ 2 ^ 32 →
      (∀ i m m' k k', StandsAt (Receivers.linux.shown (s.spoke i).done) m k →
        StandsAt (Receivers.linux.shown (s.spoke i).done) m' k' → m < m' → k < k') ∧
      ∀ i j m m' k, StandsAt (Receivers.linux.shown (s.spoke i).done) m k →
        StandsAt (Receivers.linux.shown (s.spoke j).done) m' k → i = j ∧ m = m') := by
  refine ⟨shown_isPrefix_accepted h, fun hfew => ⟨fun i m m' k k' => shown_increasing h hfew, ?_⟩⟩
  intro i j m m' k hline hline'
  obtain rfl := shown_by_one h hfew hline hline'
  refine ⟨rfl, ?_⟩
  rcases lt_trichotomy m m' with hlt | heq | hgt
  · exact absurd (shown_increasing h hfew hline hline' hlt) (UInt32.lt_irrefl k)
  · exact heq
  · exact absurd (shown_increasing h hfew hline' hline hgt) (UInt32.lt_irrefl k)

/-- The `send` accepted the whole heartbeat. -/
def IsWhole (x : ℕ × ℤ) : Bool := x.2 = ((heartbeat (.ofNat x.1)).length : ℤ)

/-- The numbers of the heartbeats that were accepted whole. -/
def wholeLines (bs : List (ℕ × ℤ)) : List UInt32 := (bs.filter IsWhole).map fun x => .ofNat x.1

/-- Where each `send` accepts its heartbeat whole or not at all, whole lines are accepted. -/
theorem flatMap_shownPart {bs : List (ℕ × ℤ)} (h : ∀ x ∈ bs, x.2 ≤ 0 ∨ IsWhole x) :
    bs.flatMap shownPart = (wholeLines bs).flatMap heartbeat := by
  induction bs with
  | nil => rfl
  | cons x bs ih =>
    obtain ⟨hx, hbs⟩ := List.forall_mem_cons.mp h
    rw [List.flatMap_cons, ih hbs]
    by_cases hw : IsWhole x
    · have hlen : x.2 = ((heartbeat (.ofNat x.1)).length : ℤ) := by simpa [IsWhole] using hw
      simp [wholeLines, hw, shownPart, hlen]
    · simp [wholeLines, hw, shownPart, Int.toNat_of_nonpos (hx.resolve_right hw)]

/-- **A server shows whole lines, as they were sent**, where each `send` on its connection
accepts its heartbeat whole or not at all: what is shown is the beginning of those accepted,
and if it can be read as lines, these are the first of them. -/
theorem shown_lines (h : s.Reachable sockets descriptor) {i : ℕ}
    (hwhole : ∀ x ∈ beatsOn i s.hub.done, x.2 ≤ 0 ∨ IsWhole x) :
    Receivers.linux.shown (s.spoke i).done <+:
      (wholeLines (beatsOn i s.hub.done)).flatMap heartbeat ∧
    ∀ ks : List UInt32, Receivers.linux.shown (s.spoke i).done = ks.flatMap heartbeat →
      ks <+: wholeLines (beatsOn i s.hub.done) := by
  have hshown := shown_isPrefix_accepted h i
  rw [flatMap_shownPart hwhole] at hshown
  refine ⟨hshown, fun ks hks => ?_⟩
  rw [hks] at hshown
  exact isPrefix_of_flatMap_isPrefix delimited_heartbeat heartbeat_injective hshown

/-- Nothing arrives at the task: what a server has sent to it is still in flight. -/
theorem nothing_arrives (h : s.Reachable sockets descriptor) (i : ℕ) :
    s.up i = descriptor.puts (s.spoke i).done := by
  have hup := (Star.conserves h i).up
  have hnil : receivedBytes (sockets.on i s.hub.done) = [] := by
    have hall := List.flatMap_eq_nil_iff.mp (receives_nothing s.hub.reached)
    exact List.flatMap_eq_nil_iff.mpr fun e he => hall e (List.mem_filter.mp he).1
  rw [hup, sockets_takes, hnil, List.nil_append]

/-- **The echo piles up.** Where the server is the one that echoes and each of its `send`s
accepts its chunk, all it has ever received is in flight back to the task whenever it waits
for more. -/
theorem echo_piles_up (h : s.Reachable sockets descriptor) {i : ℕ} (hi : (servers i).Echoes)
    (hsends : ∀ e ∈ (s.spoke i).done, LinuxSendsAll e)
    (hwaits : ∃ fd size k, (s.spoke i).next = .call (.recv fd size) k) :
    s.up i = descriptor.takes (s.spoke i).done := by
  obtain ⟨fd, size, k, hnext⟩ := hwaits
  have hback : HandsBack (s.spoke i).done :=
    Task.At.keeps_first handsBack_appendClosed hi.handsBack quiet hi.recv_first
      (hnext ▸ (s.spoke i).reached)
  rw [nothing_arrives h, (puts_sublist _).2 hsends, hback]

/-- The third `send` fails, and the task connects again. -/
def failsOnce : Environment Api
  | i, .socket => .handle (if i = 0 then 0 else 1)
  | i, c => scripted (fun _ => []) (fun i => if i = 9 then -1 else 64) i c

/-- One server of each kind, and what each receives. -/
def eachServer (i : ℕ) : Server :=
  if i = 0 then .linuxTcpServer (.replicate _ 0) else .tcpServer (.replicate _ 0)

def eachReceives (i : ℕ) : Environment Posix.Api :=
  Receivers.arriving
    (if i = 0 then ascii "HEARTBEAT 0\r\nHEARTBEAT 1\r\n" else ascii "HEARTBEAT 3\r\n")

/-- The task sends two heartbeats, loses one, and sends another on its second connection. -/
def reconnected : Net (.replicate _ 0) eachServer :=
  Star.run sockets descriptor failsOnce eachReceives
    (List.replicate 24 none ++ List.replicate 10 (some 0) ++ List.replicate 13 (some 1))

example : Receivers.linux.shown (reconnected.spoke 0).done = heartbeat 0 ++ heartbeat 1 ∧
    Receivers.linux.shown (reconnected.spoke 1).done = heartbeat 3 := by decide +kernel

/-- Behind the first line the numbers are larger, and the second is shown nowhere else. -/
theorem shown_once_reconnected :
    (∀ i, Receivers.linux.shown (reconnected.spoke i).done <+:
      (beatsOn i reconnected.hub.done).flatMap shownPart) ∧
    (∀ m k, StandsAt (Receivers.linux.shown (reconnected.spoke 0).done) m k → 0 < m → 0 < k) ∧
    ∀ j m, StandsAt (Receivers.linux.shown (reconnected.spoke j).done) m 1 → 0 = j ∧ 13 = m := by
  obtain ⟨hparts, hlines⟩ := shown_once (s := reconnected) (Star.reachable_run _)
  obtain ⟨hgrow, hone⟩ := hlines (by decide +kernel)
  refine ⟨hparts, fun m k => hgrow 0 0 m 0 k (by decide +kernel), fun j m => ?_⟩
  exact hone 0 j 13 m 1 (by decide +kernel)

theorem shown_lines_reconnected : Receivers.linux.shown (reconnected.spoke 0).done <+:
      (wholeLines (beatsOn 0 reconnected.hub.done)).flatMap heartbeat ∧
    [0, 1] <+: wholeLines (beatsOn 0 reconnected.hub.done) := by
  obtain ⟨hshown, hread⟩ := shown_lines (s := reconnected) (i := 0) (Star.reachable_run _)
    (by decide +kernel)
  exact ⟨hshown, hread [0, 1] (by decide +kernel)⟩

/-- The server receives the first heartbeat and sends it back. -/
def echoesFirst : Environment Posix.Api
  | _, .send _ data => (data.length : ℤ)
  | i, c => Receivers.arriving (ascii "HEARTBEAT 0\r\n") i c

/-- A run of the demo: the task connects and sends a heartbeat, and the server that echoes
shows it. -/
def firstShown : Net (.replicate _ 0) (fun _ => .linuxTcpServer (.replicate _ 0)) :=
  Star.run sockets descriptor (scripted (fun _ => []) fun _ => 64) (fun _ => echoesFirst)
    (List.replicate 9 none ++ List.replicate 11 (some 0))

example : Receivers.linux.shown (firstShown.spoke 0).done = heartbeat 0 := by decide +kernel

theorem echo_piles_up_first : firstShown.up 0 = descriptor.takes (firstShown.spoke 0).done :=
  echo_piles_up (Star.reachable_run _) ⟨_, rfl⟩ (by decide +kernel) ⟨_, _, _, rfl⟩

end Demo

end TcpDemo.Demos.Heartbeat
