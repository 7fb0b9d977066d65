import TcpDemo.App.Node
import TcpDemo.EchoClient.Steps
import TcpDemo.Lib.Handles

/-!
# The sockets of the node

Each demo task makes its calls on sockets that it has obtained itself and not closed yet. So
if the stack never hands out a socket that some task has open, no two tasks of the node ever
have a socket in common, however their steps interleave, and none touches the socket of
another. A socket that was closed may be handed out again, to whichever task.

`FREERTOS_INVALID_SOCKET` and `NULL` are no sockets here: the tasks do make calls on `NULL`.
-/

namespace TcpDemo.App
open Interaction Traces Typestate Handles CBytes FreeRTOS
open FreeRTOS.Call (bind listen accept connect setsockopt recv send shutdown closesocket printf)

/-! ## What a task holds -/

/-- The number of a socket that is one. -/
def ids : Socket → List ℕ
  | .handle i => [i]
  | _ => []

/-- How a call changes the sockets a task has open. -/
def opensSockets (hs : List ℕ) : Event FreeRTOS.Api → List ℕ
  | ⟨.socket, s⟩ | ⟨.accept _, s⟩ => ids s ++ hs
  | ⟨.closesocket (.handle i), _⟩ => hs.erase i
  | _ => hs

/-- The sockets of a task as its handles: a call is made on one that is open. -/
def owned : Handles FreeRTOS.Api ℕ where
  change := opensSockets
  Allowed hs c := ∀ s, usedSocket c = some s → ids s ⊆ hs

section Owned
variable {hs : List ℕ} {c : FreeRTOS.Call} {e : Event FreeRTOS.Api} {s : Socket}

@[simp] theorem owned_change : owned.change hs e = opensSockets hs e := rfl

@[simp] theorem owned_allowed :
    owned.Allowed hs c ↔ ∀ s, usedSocket c = some s → ids s ⊆ hs := Iff.rfl

end Owned

/-! ## The three tasks -/

/-- What the heartbeat task has open at its loop heads. -/
def HeartbeatOwns : Heartbeat.Loc → List ℕ → Prop
  | .connecting _, hs => hs = []
  | .beating v, hs => hs = ids v.xSocket

theorem heartbeat_owns (l : Heartbeat.Loc) (hs : List ℕ) (hl : HeartbeatOwns l hs) :
    owned.Leads (Heartbeat.body l) hs HeartbeatOwns := by
  intro evs l' h
  cases l with
  | connecting v =>
    obtain rfl : hs = [] := hl
    rcases Heartbeat.connecting_step h with
      ⟨rfl, rfl⟩ | ⟨t, o, r, -, ⟨-, rfl, c, rfl⟩ | ⟨-, rfl, rfl⟩⟩
    · exact ⟨[], by simp [opensSockets, usedSocket, ids], rfl⟩
    · exact ⟨[], by cases t <;> simp [opensSockets, usedSocket, ids], rfl⟩
    · exact ⟨ids t, by simp [opensSockets, usedSocket], rfl⟩
  | beating v =>
    obtain rfl : hs = ids v.xSocket := hl
    obtain ⟨r, b, ⟨-, rfl, c, rfl⟩ | ⟨-, rfl, rfl⟩⟩ := Heartbeat.beating_step h
    · refine ⟨[], ?_, rfl⟩
      cases v.xSocket <;> simp [opensSockets, usedSocket, ids]
    · exact ⟨ids v.xSocket, by simp [opensSockets, usedSocket], rfl⟩

/-- What the echo server has open at its loop heads: its own socket, and its client's. -/
def ServerOwns : FreeRTOS.Label EchoServer.Loc → List ℕ → Prop
  | .code (.start _), hs => hs = []
  | .code (.created v), hs | .code (.accepting v), hs => hs = ids v.xListenSocket
  | .code (.session v), hs => hs = ids v.xClientSocket ++ ids v.xListenSocket
  | .vAssertCalled looping _, _ => looping = 0

theorem server_owns (rx : Buffer EchoServer.rxBufferSize) (l : FreeRTOS.Label EchoServer.Loc)
    (hs : List ℕ) (hl : ServerOwns l hs) :
    owned.Leads ((EchoServer.prvEchoServerTask rx).body l) hs ServerOwns := by
  intro evs l' h
  match l with
  | .vAssertCalled looping loc =>
    rcases vAssertCalled_step h with ⟨h0, rfl, rfl⟩ | ⟨hne, -, -⟩
    · exact ⟨hs, by simp [opensSockets, usedSocket], h0⟩
    · exact absurd hl hne
  | .code (.start v) =>
    obtain rfl : hs = [] := hl
    rcases EchoServer.start_step h with ⟨s, rfl, rfl⟩ | ⟨rfl, rfl⟩
    · exact ⟨ids s, by simp [opensSockets, usedSocket], rfl⟩
    · exact ⟨[], by simp [opensSockets, usedSocket, ids], rfl⟩
  | .code (.created v) =>
    obtain rfl : hs = ids v.xListenSocket := hl
    obtain ⟨b, n, rfl, rfl⟩ := EchoServer.created_step h
    exact ⟨ids v.xListenSocket, by simp [opensSockets, usedSocket], rfl⟩
  | .code (.accepting v) =>
    obtain rfl : hs = ids v.xListenSocket := hl
    rcases EchoServer.accepting_step h with ⟨rfl, rfl⟩ | ⟨t, o, -, rfl, rfl⟩
    · exact ⟨ids v.xListenSocket, by simp [opensSockets, usedSocket, ids], rfl⟩
    · exact ⟨ids t ++ ids v.xListenSocket,
        by simp [opensSockets, usedSocket, EchoServer.opening], rfl⟩
  | .code (.session v) =>
    obtain rfl : hs = ids v.xClientSocket ++ ids v.xListenSocket := hl
    rcases EchoServer.session_step h with ⟨a, c, ha, rfl, rfl⟩ | ⟨x, b, rfl, rfl⟩
    · refine ⟨ids v.xListenSocket, ?_, rfl⟩
      cases v.xClientSocket <;> simp [opensSockets, usedSocket, ids]
    · exact ⟨_, by simp [opensSockets, usedSocket, EchoServer.Exchange.events], rfl⟩

section Client
variable {mss : EchoClient.Mss} {v : EchoClient.Vars mss}

/-- What an echo client has open at its loop heads. -/
def ClientOwns : FreeRTOS.Label (EchoClient.Loc mss) → List ℕ → Prop
  | .code (.connecting _), hs => hs = []
  | .code (.created v), hs | .code (.drawing v), hs | .code (.receiving v), hs
  | .code (.compared v), hs | .code (.draining v), hs => hs = ids v.xSocket
  | .vAssertCalled looping _, _ => looping = 0

theorem finish_owns (v : EchoClient.Vars mss) :
    owned.Leads (EchoClient.finish v) (ids v.xSocket) ClientOwns := by
  intro evs l h
  obtain ⟨r, t, rfl, rfl⟩ := EchoClient.finish_step h
  exact ⟨ids v.xSocket, by simp [opensSockets, usedSocket], rfl⟩

theorem nextRequest_owns (v : EchoClient.Vars mss) :
    owned.Leads (EchoClient.nextRequest v) (ids v.xSocket) ClientOwns := by
  unfold EchoClient.nextRequest
  split
  · exact leads_ret rfl
  · exact finish_owns v

theorem replied_owns (v : EchoClient.Vars mss) :
    owned.Leads (EchoClient.replied v) (ids v.xSocket) ClientOwns := by
  intro evs l h
  rcases EchoClient.replied_step h with ⟨-, -, rfl, rfl⟩ | ⟨-, -, rfl, rfl⟩ | ⟨-, hfinish⟩
  · exact ⟨_, rfl, rfl⟩
  · exact ⟨ids v.xSocket, by simp [opensSockets, usedSocket], rfl⟩
  · exact finish_owns v evs l hfinish

theorem drawing_owns (x : ℕ) (v : EchoClient.Vars mss) :
    owned.Leads (EchoClient.body x (.drawing v)) (ids v.xSocket) ClientOwns := by
  intro evs l h
  obtain ⟨r, rest, rfl, ⟨-, rfl, rfl⟩ | ⟨n, hn, hsize, hsend⟩⟩ := EchoClient.drawing_step h
  · exact ⟨ids v.xSocket, by simp [opensSockets, usedSocket], rfl⟩
  · obtain ⟨a, tx, rest, -, rfl, hrest⟩ := EchoClient.sendRequest_step hn hsize hsend
    have hsent : owned.protocol.Reaches rest (ids v.xSocket) (ClientOwns l) := by
      rcases hrest with ⟨-, hfinish⟩ | ⟨-, rfl, rfl⟩
      · exact finish_owns (EchoClient.offered v n tx a.result) rest l hfinish
      · exact ⟨ids v.xSocket, by simp [opensSockets, usedSocket], rfl⟩
    refine reaches_same (reaches_same (reaches_same (reaches_same hsent ?_ rfl) ?_ rfl) ?_ rfl)
      ?_ rfl <;> simp [usedSocket]

theorem receiving_owns (x : ℕ) (v : EchoClient.Vars mss) :
    owned.Leads (EchoClient.body x (.receiving v)) (ids v.xSocket) ClientOwns := by
  intro evs l h
  rcases EchoClient.receiving_step h with ⟨-, hreplied⟩ | ⟨-, a, rest, rfl, hcases⟩
  · exact replied_owns v evs l hreplied
  refine reaches_same ?_ (by simp [usedSocket]) rfl
  rcases hcases with ⟨-, hreplied⟩ | ⟨-, hreplied⟩ | ⟨-, rfl, rfl⟩
  · exact replied_owns (EchoClient.stored v a.data a.result) rest l hreplied
  · exact replied_owns (EchoClient.stored v a.data v.xReceivedBytes) rest l hreplied
  · exact ⟨ids v.xSocket, rfl, rfl⟩

theorem client_owns (x : ℕ) (tx rx : Buffer mss.echoBufferSizes)
    (l : FreeRTOS.Label (EchoClient.Loc mss)) (hs : List ℕ) (hl : ClientOwns l hs) :
    owned.Leads ((EchoClient.prvEchoClientTask x tx rx).body l) hs ClientOwns := by
  intro evs l' h
  match l with
  | .vAssertCalled looping loc =>
    rcases vAssertCalled_step h with ⟨h0, rfl, rfl⟩ | ⟨hne, -, -⟩
    · exact ⟨hs, by simp [opensSockets, usedSocket], h0⟩
    · exact absurd hl hne
  | .code (.connecting v) =>
    obtain rfl : hs = [] := hl
    rcases EchoClient.connecting_step (x := x) h with ⟨s, rfl, rfl⟩ | ⟨rfl, rfl⟩
    · exact ⟨ids s, by simp [opensSockets, usedSocket], rfl⟩
    · exact ⟨[], by simp [opensSockets, usedSocket, ids], rfl⟩
  | .code (.created v) =>
    obtain rfl : hs = ids v.xSocket := hl
    rcases EchoClient.created_step (x := x) h with ⟨o, rfl, rfl⟩ | ⟨o, ret, r, -, rfl, rfl⟩
    · exact ⟨ids v.xSocket, by simp [opensSockets, usedSocket, EchoClient.attempt], rfl⟩
    · refine ⟨[], ?_, rfl⟩
      cases v.xSocket <;> simp [opensSockets, usedSocket, EchoClient.attempt, ids]
  | .code (.drawing v) =>
    obtain rfl : hs = ids v.xSocket := hl
    exact drawing_owns x v evs l' h
  | .code (.receiving v) =>
    obtain rfl : hs = ids v.xSocket := hl
    exact receiving_owns x v evs l' h
  | .code (.compared v) =>
    obtain rfl : hs = ids v.xSocket := hl
    rcases EchoClient.compared_step (x := x) h with ⟨-, rest, rfl, hnext⟩ | ⟨-, rest, rfl, hfinish⟩
    · exact reaches_same (nextRequest_owns { v with lLoopCount := v.lLoopCount + 1 } rest l' hnext)
        (by simp [usedSocket]) rfl
    · exact reaches_same (finish_owns v rest l' hfinish) (by simp [usedSocket]) rfl
  | .code (.draining v) =>
    obtain rfl : hs = ids v.xSocket := hl
    obtain ⟨a, b, ⟨t, -, rfl, rfl⟩ | ⟨ticks, r, hticks, rfl, rfl⟩⟩ :=
      EchoClient.draining_step (x := x) h
    · exact ⟨ids v.xSocket, by simp [opensSockets, usedSocket], rfl⟩
    · refine ⟨[], ?_, rfl⟩
      rcases hticks with ⟨-, rfl⟩ | ⟨t, -, rfl⟩ <;>
        cases v.xSocket <;> simp [opensSockets, usedSocket, ids]

end Client

/-! ## The node -/

/-- Each task of the node makes its calls on sockets it has open. -/
theorem code_owns (m : Contents) (entry : TaskFunction × ℕ) {tr : Trace FreeRTOS.Api}
    {p : Program FreeRTOS.Api (code m entry).Label} (h : (code m entry).At tr p) :
    owned.InOrder tr := by
  obtain ⟨function, x⟩ := entry
  cases function with
  | prvEchoServerTask => exact inOrder_at (J := ServerOwns) rfl (server_owns m.rxBuffer) h
  | prvTCPHeartbeatTask => exact inOrder_at (J := HeartbeatOwns) rfl heartbeat_owns h
  | prvEchoClientTask =>
    exact inOrder_at (J := ClientOwns) rfl (client_owns x (m.cTxBuffers x) (m.cRxBuffers x)) h

/-- The sockets a task has open. -/
def DemoTask.opened {m : Contents} (x : DemoTask m) : List ℕ := owned.held x.process.done

/-- The sockets that calls hand out. -/
def handed : Event FreeRTOS.Api → List ℕ
  | ⟨.socket, s⟩ | ⟨.accept _, s⟩ => ids s
  | _ => []

def handedOut (evs : Trace FreeRTOS.Api) : List ℕ := evs.flatMap handed

theorem mem_opensSockets {hs : List ℕ} {e : Event FreeRTOS.Api} {i : ℕ}
    (h : i ∈ opensSockets hs e) : i ∈ hs ∨ i ∈ handed e := by
  obtain ⟨c, a⟩ := e
  cases c with
  | socket | accept _ => exact (List.mem_append.mp h).symm
  | closesocket s =>
    cases s with
    | handle j => exact .inl (List.mem_of_mem_erase h)
    | null | invalid => exact .inl h
  | _ => exact .inl h

/-- What is open was open before, or has been handed out since. -/
theorem mem_held {tr evs : Trace FreeRTOS.Api} {i : ℕ} (h : i ∈ owned.held (tr ++ evs)) :
    i ∈ owned.held tr ∨ i ∈ handedOut evs := by
  induction evs using List.reverseRecOn with
  | nil => exact .inl (by simpa using h)
  | append_singleton evs e ih =>
    rw [← List.append_assoc, held_snoc] at h
    rw [handedOut, List.flatMap_append]
    rcases mem_opensSockets h with hheld | hnew
    · exact (ih hheld).imp id fun hout => List.mem_append_left _ hout
    · exact .inr (List.mem_append_right _ (by simpa using hnew))

namespace Node
variable {config : AppConfig} {m : Contents} {n n' : Node config m}

/-- A step in which the stack hands out no socket that a task has open. -/
inductive FreshStep (n : Node config m) : Node config m → Prop where
  | system {n' : Node config m} (h : SystemStep n n') : FreshStep n n'
  | task {before after : List (DemoTask m)} {x : DemoTask m} {evs : Trace FreeRTOS.Api}
      {process : Process (code m x.entry)} (hrun : n.Running)
      (hx : n.tasks = before ++ x :: after) (h : x.process.Step evs process)
      (hfresh : ∀ i ∈ handedOut evs, ∀ y ∈ n.tasks, i ∉ y.opened) :
      FreshStep n ⟨n.main, n.ip, before ++ ⟨x.entry, process⟩ :: after⟩

theorem FreshStep.step (h : FreshStep n n') : Step n n' := by
  cases h with
  | system h => exact .system h
  | task hrun hx h _ => exact .task hrun hx h

/-- The states of the node in all runs in which sockets are handed out fresh. -/
def FreshReachable (n : Node config m) : Prop := Relation.ReflTransGen FreshStep (start config m) n

theorem FreshReachable.reachable (h : FreshReachable n) : n.Reachable := by
  induction h with
  | refl => exact .refl
  | tail _ hstep ih => exact ih.tail hstep.step

/-- The tasks have no open socket in common. -/
def Apart (n : Node config m) : Prop := n.tasks.Pairwise fun x y => x.opened.Disjoint y.opened

/-- In a list of tasks that are apart, one moves and is still apart from the others. -/
theorem pairwise_replace {before after : List (DemoTask m)} {x x' : DemoTask m}
    (h : (before ++ x :: after).Pairwise fun x y => x.opened.Disjoint y.opened)
    (hmoved : ∀ y ∈ before ++ after, ∀ i ∈ x'.opened, i ∈ y.opened → i ∈ x.opened) :
    (before ++ x' :: after).Pairwise fun x y => x.opened.Disjoint y.opened := by
  obtain ⟨hbefore, hafter, hacross⟩ := List.pairwise_append.mp h
  obtain ⟨hx, hafter⟩ := List.pairwise_cons.mp hafter
  refine List.pairwise_append.mpr ⟨hbefore, List.pairwise_cons.mpr ⟨fun y hy i hi hi' => ?_,
    hafter⟩, fun y hy z hz => ?_⟩
  · exact hx y hy (hmoved y (List.mem_append_right _ hy) i hi hi') hi'
  · rcases List.mem_cons.mp hz with rfl | hz
    · intro i hi hi'
      exact hacross y hy x List.mem_cons_self hi
        (hmoved y (List.mem_append_left _ hy) i hi' hi)
    · exact hacross y hy z (List.mem_cons_of_mem _ hz)

theorem apart_step (h : n.Apart) (hstep : FreshStep n n') : n'.Apart := by
  cases hstep with
  | system h' =>
    obtain ⟨new, hnew⟩ := h'.tasks_eq
    have hnone : ∀ y ∈ new.map (DemoTask.start m), y.opened = [] := by
      intro y hy
      obtain ⟨entry, -, rfl⟩ := List.mem_map.mp hy
      rfl
    rw [Apart, hnew]
    refine List.pairwise_append.mpr ⟨h, ?_, fun x _ y hy => ?_⟩
    · refine List.pairwise_of_forall_mem_list fun x hx y _ => ?_
      rw [hnone x hx]
      exact List.disjoint_nil_left _
    · rw [hnone y hy]
      exact List.disjoint_nil_right _
  | @task before after x evs process hrun hx h' hfresh =>
    rw [Apart, hx] at h
    refine pairwise_replace h fun y hy i hi hi' => ?_
    have hy' : y ∈ n.tasks := by
      rw [hx]
      rcases List.mem_append.mp hy with hy | hy
      · exact List.mem_append_left _ hy
      · exact List.mem_append_right _ (List.mem_cons_of_mem _ hy)
    rw [DemoTask.opened, h'.done_eq] at hi
    rcases mem_held hi with hheld | hout
    · exact hheld
    · exact absurd hi' (hfresh i hout y hy')

/-- **No task touches the socket of another**, however the steps of the node interleave, as
long as the stack hands out no socket that is open: no two tasks ever have one open together,
and a task makes its calls on what it has open itself. -/
theorem sockets_apart (h : n.FreshReachable) :
    n.Apart ∧ ∀ x ∈ n.tasks, owned.InOrder x.process.done := by
  refine ⟨?_, fun x _ => code_owns m x.entry x.process.reached⟩
  induction h with
  | refl => exact List.Pairwise.nil
  | tail _ hstep ih => exact apart_step ih hstep

section Run
variable {env : Environment Api} {envs : ℕ → Environment FreeRTOS.Api}

/-- The turn of a task hands out no socket that is open. -/
def FreshTurn (envs : ℕ → Environment FreeRTOS.Api) (n : Node config m) : Turn → Prop
  | .task i => ∀ x ∈ (n.tasks.drop i).head?, ∀ j ∈ handedOut (x.process.issued (envs i)),
      ∀ y ∈ n.tasks, j ∉ y.opened
  | _ => True

instance (n : Node config m) : DecidablePred (FreshTurn envs n)
  | .main | .ip => inferInstanceAs (Decidable True)
  | .task i => inferInstanceAs (Decidable (∀ x ∈ (n.tasks.drop i).head?, _))

/-- All turns do. -/
def FreshTurns (env : Environment Api) (envs : ℕ → Environment FreeRTOS.Api) :
    Node config m → List Turn → Prop
  | _, [] => True
  | n, t :: turns => FreshTurn envs n t ∧ FreshTurns env envs (turn env envs n t) turns

instance decidableFreshTurns : ∀ (n : Node config m) (turns : List Turn),
    Decidable (FreshTurns env envs n turns)
  | _, [] => inferInstanceAs (Decidable True)
  | n, t :: turns =>
    have := decidableFreshTurns (turn env envs n t) turns
    inferInstanceAs (Decidable (FreshTurn envs n t ∧ _))

theorem turn_freshStep {t : Turn} (h : FreshTurn envs n t) :
    turn env envs n t = n ∨ FreshStep n (turn env envs n t) := by
  cases t with
  | main => exact (turn_systemStep n (.inl rfl)).imp id .system
  | ip => exact (turn_systemStep n (.inr rfl)).imp id .system
  | task i =>
    simp only [turn]
    split
    case h_1 k x after hk hdrop =>
      have htasks : n.tasks = n.tasks.take i ++ x :: after := by
        rw [← hdrop, List.take_append_drop]
      exact .inr (.task ⟨k, hk⟩ htasks (x.process.turn_step (envs i)) (h x (by simp [hdrop])))
    case h_2 => exact .inl rfl

theorem freshReachable_run {turns : List Turn} (h : FreshTurns env envs (start config m) turns) :
    FreshReachable (run env envs config m turns) := by
  have hall : ∀ n : Node config m, n.FreshReachable → FreshTurns env envs n turns →
      FreshReachable (turns.foldl (turn env envs) n) := by
    clear h
    induction turns with
    | nil => exact fun _ hn _ => hn
    | cons t turns ih =>
      rintro n hn ⟨ht, hturns⟩
      have hturn : turn env envs n t = n ∨ FreshStep n (turn env envs n t) := turn_freshStep ht
      rcases hturn with heq | hstep
      · exact ih _ (heq.symm ▸ hn) hturns
      · exact ih _ (hn.tail hstep) hturns
  exact hall _ .refl h

end Run

/-- Each task is handed a socket of its own. -/
def numbered (i : ℕ) : Environment FreeRTOS.Api
  | _, .socket => .handle i
  | k, c => scripted (fun _ => []) (fun _ => 0) k c

/-- The turns in which two echo clients connect, one after the other. -/
def bothConnect : List Turn := List.replicate 7 .main ++ List.replicate 13 .ip ++
  List.replicate 5 (.task 0) ++ List.replicate 5 (.task 1)

/-- Two echo clients with a socket each. -/
def twoSockets : Node twoClients zeroed := run comesUp numbered twoClients zeroed bothConnect

example : twoSockets.tasks.map DemoTask.opened = [[0], [1]] := by decide +kernel

theorem sockets_apart_two :
    twoSockets.Apart ∧ ∀ x ∈ twoSockets.tasks, owned.InOrder x.process.done :=
  sockets_apart (freshReachable_run (by decide +kernel))

end Node
end TcpDemo.App
