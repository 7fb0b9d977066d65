import Mathlib.Data.List.Flatten
import TcpDemo.Lib.Network
import TcpDemo.Linux.Isolation
import TcpDemo.Receivers

/-!
# The programs on the network

In both demos one FreeRTOS task talks to programs on Linux, over one connection for each of
them. The connections are those of a star with the FreeRTOS task as its hub: the socket
`.handle i` of the task and the TCP descriptor of the `i`-th Linux program are the two ends
of connection `i`. What a `send` accepts is put into the stream, and what a `recv` stores is
taken from it.

How connections are set up and torn down is left open, so a star has all runs of the two
programs over a network, and more.
-/

namespace TcpDemo.Demos
open Interaction CBytes Records Receivers

/-- The connection of a socket. -/
def connection : FreeRTOS.Socket → Option ℕ
  | .handle i => some i
  | _ => none

@[simp] theorem connection_eq_some {s : FreeRTOS.Socket} {i : ℕ} :
    connection s = some i ↔ s = .handle i := by
  cases s <;> simp [connection]

/-- The connections of a FreeRTOS task. -/
def sockets : Ports FreeRTOS.Api ℕ UInt8 where
  peer
    | ⟨.recv s _ _, _⟩ | ⟨.send s _, _⟩ => connection s
    | _ => none
  put := FreeRTOS.accepted
  taken := FreeRTOS.received

@[simp] theorem sockets_puts (tr : Trace FreeRTOS.Api) :
    sockets.puts tr = FreeRTOS.acceptedBytes tr := rfl
@[simp] theorem sockets_takes (tr : Trace FreeRTOS.Api) :
    sockets.takes tr = FreeRTOS.receivedBytes tr := rfl
@[simp] theorem peer_recv (s : FreeRTOS.Socket) (offset size : ℕ) (a : FreeRTOS.RecvAnswer size) :
    sockets.peer ⟨.recv s offset size, a⟩ = connection s := rfl
@[simp] theorem peer_send (s : FreeRTOS.Socket) (data : List UInt8)
    (a : FreeRTOS.SendAnswer data.length) : sockets.peer ⟨.send s data, a⟩ = connection s := rfl

/-- Only `recv` and `send` are about a connection. -/
theorem peer_eq_none {c : FreeRTOS.Call} {a : FreeRTOS.Api.Answer c}
    (hrecv : ∀ s offset size, c ≠ .recv s offset size) (hsend : ∀ s data, c ≠ .send s data) :
    sockets.peer ⟨c, a⟩ = none := by
  cases c with
  | recv s offset size => exact absurd rfl (hrecv s offset size)
  | send s data => exact absurd rfl (hsend s data)
  | _ => rfl

/-- The one connection of a Linux program. -/
def descriptor : Ends Posix.Api UInt8 where
  put
    | ⟨.send _ data, r⟩ => data.take (r : ℤ).toNat
    | _ => []
  taken := linux.received

/-- The call is no `send`, or one that accepts all it was given. -/
def SendsAll : Event FreeRTOS.Api → Prop
  | ⟨.send _ data, a⟩ => a.result = data.length
  | _ => True

def LinuxSendsAll : Event Posix.Api → Prop
  | ⟨.send _ data, r⟩ => (r : ℤ) = data.length
  | _ => True

instance : DecidablePred SendsAll := fun ⟨c, a⟩ => by
  cases c <;> unfold SendsAll <;> infer_instance

instance : DecidablePred LinuxSendsAll := fun ⟨c, a⟩ => by
  cases c <;> unfold LinuxSendsAll <;> infer_instance

/-! ## Programs that nothing more happens to -/

/-- Nothing arrives any more, and what is sent is accepted. -/
def calm : (c : FreeRTOS.Call) → FreeRTOS.Api.Answer c
  | .socket | .accept _ => .invalid
  | .bind _ _ | .listen _ _ | .connect _ _ | .setsockopt _ _ | .shutdown _ | .closesocket _ =>
      (0 : ℤ)
  | .recv _ _ _ => default
  | .send _ data => ⟨data.length, Int.le_refl _⟩
  | .xTaskGetTickCount | .xApplicationGetRandomNumber => UInt32.ofNat 0
  | .printf _ | .vTaskDelay _ | .taskEnterCritical | .taskExitCritical | .portNOP
  | .increment _ _ => ()

theorem calm_nil {rest : Trace FreeRTOS.Api} (h : ∀ e ∈ rest, e.answer = calm e.call) (i : ℕ) :
    FreeRTOS.receivedBytes (sockets.on i rest) = [] ∧ ∀ e ∈ rest, SendsAll e := by
  refine ⟨List.flatMap_eq_nil_iff.mpr fun e he => ?_, fun e he => ?_⟩
  · have ha := h e (List.mem_filter.mp he).1
    obtain ⟨c, a⟩ := e
    obtain rfl : a = calm c := ha
    cases c <;> rfl
  · have ha := h e he
    obtain ⟨c, a⟩ := e
    obtain rfl : a = calm c := ha
    cases c <;> trivial

/-- Nothing arrives and nothing is typed any more, and what is sent is accepted. -/
def quiet : (c : Posix.Call) → Posix.Api.Answer c
  | .signalIgnoreSigpipe | .printf _ | .perror _ => ()
  | .socket | .bind _ _ _ | .listen _ _ | .accept _ | .connect _ _ _ | .close _ => (0 : ℤ)
  | .select _ _ | .recv _ _ | .read _ _ => default
  | .send _ data => (data.length : ℤ)

/-- The bytes read from the terminal. -/
def typed (tr : Trace Posix.Api) : List UInt8 := (Linux.TcpServer.pieces tr).flatten

/-! ## Linux programs at any moment -/

section Linux
variable {tr rest : Trace Posix.Api}

theorem typed_append (tr tr' : Trace Posix.Api) : typed (tr ++ tr') = typed tr ++ typed tr' := by
  simp [typed]

/-- Quiet calls receive nothing and read nothing. -/
theorem quiet_nil (h : ∀ e ∈ rest, e.answer = quiet e.call) :
    (∀ e ∈ rest, linux.received e = []) ∧ Linux.TcpServer.pieces rest = [] := by
  refine ⟨fun e he => ?_, List.flatMap_eq_nil_iff.mpr fun e he => ?_⟩
  all_goals
    have ha := h e he
    obtain ⟨c, a⟩ := e
    obtain rfl : a = quiet c := ha
    cases c <;> rfl

theorem shown_append (tr tr' : Trace Posix.Api) :
    linux.shown (tr ++ tr') = linux.shown tr ++ linux.shown tr' := List.flatMap_append

/-- A program that prints what it receives has at any moment shown the beginning of it,
each chunk up to its first NUL. -/
theorem shown_isPrefix {T : Task Posix.Api} (hT : ∀ l, (T.body l).Keeps linux.Prints)
    {p : Program Posix.Api T.Label} (h : T.At tr p) :
    linux.shown tr <+: tr.flatMap fun e => cstr (linux.received e) := by
  obtain ⟨rest, hprints, hrest⟩ := h.keeps prints_appendClosed hT quiet
  have hnone : (rest.flatMap fun e => cstr (linux.received e)) = [] :=
    List.flatMap_eq_nil_iff.mpr fun e he => by rw [(quiet_nil hrest).1 e he]; rfl
  rw [Receiver.Prints, shown_append, List.flatMap_append, hnone, List.append_nil] at hprints
  exact hprints ▸ List.prefix_append _ _

/-- What is shown is a part of what was received, and the beginning of it where there is no
NUL. -/
theorem shown_sublist {T : Task Posix.Api} (hT : ∀ l, (T.body l).Keeps linux.Prints)
    {p : Program Posix.Api T.Label} (h : T.At tr p) :
    (linux.shown tr).Sublist (descriptor.takes tr) ∧
      (0 ∉ descriptor.takes tr → linux.shown tr <+: descriptor.takes tr) := by
  have hpre := shown_isPrefix hT h
  refine ⟨hpre.sublist.trans (.flatMap_right tr fun e _ => (cstr_isPrefix _).sublist), ?_⟩
  intro hnul
  rwa [(flatMap_cstr_eq_iff linux.received tr).mpr hnul] at hpre

/-- A program that relays the terminal has at any moment sent the first chunks of it. -/
theorem sentBuffers_isPrefix {T : Task Posix.Api} {skip : List UInt8 → Bool}
    (hT : ∀ l, (T.body l).Keeps (Linux.Relays skip)) {p : Program Posix.Api T.Label}
    (h : T.At tr p) :
    Linux.sentBuffers tr <+: (Linux.TcpServer.pieces tr).filter fun c => !skip c := by
  obtain ⟨rest, hrelays, hrest⟩ := h.keeps Linux.relays_appendClosed hT quiet
  rw [Linux.Relays, Linux.TcpServer.pieces_append, (quiet_nil hrest).2, List.append_nil,
    Linux.sentBuffers, List.flatMap_append] at hrelays
  exact hrelays ▸ List.prefix_append _ _

/-- What a program puts into its connection is a part of what it hands to `send`, and all of
it if that is accepted. -/
theorem puts_sublist (tr : Trace Posix.Api) :
    (descriptor.puts tr).Sublist (Linux.sentBuffers tr).flatten ∧
      ((∀ e ∈ tr, LinuxSendsAll e) → descriptor.puts tr = (Linux.sentBuffers tr).flatten) := by
  have hflat : (Linux.sentBuffers tr).flatten =
      tr.flatMap fun e => (Linux.sentBuffer e).flatten := by
    rw [Linux.sentBuffers, List.flatten_eq_flatMap, List.flatMap_assoc]
    simp only [List.flatten_eq_flatMap]
  rw [hflat]
  refine ⟨.flatMap_right tr fun e _ => ?_, fun hall => List.flatMap_congr fun e he => ?_⟩
  · obtain ⟨c, r⟩ := e
    cases c with
    | send fd data => simpa [descriptor, Linux.sentBuffer] using (List.take_prefix _ _).sublist
    | _ => exact .slnil
  · have hsend := hall e he
    obtain ⟨c, r⟩ := e
    cases c with
    | send fd data =>
      obtain rfl : (r : ℤ) = data.length := hsend
      simp [descriptor, Linux.sentBuffer]
    | _ => rfl

end Linux

end TcpDemo.Demos
