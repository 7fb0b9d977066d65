import TcpDemo.App.Start
import TcpDemo.EchoClient.Task
import TcpDemo.EchoServer.Task
import TcpDemo.Heartbeat.Task

/-!
# The node

The board as a whole: `main` up to the scheduler, the IP task with the event hook, and the demo
tasks it creates, each of which runs on its own from then on. The scheduler runs while `main`
is inside `vTaskStartScheduler`, and switches between the tasks as it likes; events come in
whatever order the network has them, and a creation may fail for lack of memory.

Each demo task is a process of its own task, so what was proved of the task alone holds of it
on the node. What is added here is how many there are: those the configuration selects, each
at most once, however often the network goes down and comes up again (`demo_started`).
-/

namespace TcpDemo.App
open Interaction CBytes

/-- What the buffers of the demo tasks hold at the start, and the segment size that gives
those of the echo clients their length. -/
structure Contents where
  mss : EchoClient.Mss
  rxBuffer : Buffer EchoServer.rxBufferSize
  cTxBuffer : Buffer Heartbeat.txBufferSize
  cTxBuffers : ℕ → Buffer mss.echoBufferSizes
  cRxBuffers : ℕ → Buffer mss.echoBufferSizes

/-- The code of a task function with its parameter. -/
def code (m : Contents) : TaskFunction × ℕ → Task FreeRTOS.Api
  | (.prvEchoServerTask, _) => EchoServer.prvEchoServerTask m.rxBuffer
  | (.prvTCPHeartbeatTask, _) => Heartbeat.prvTCPHeartbeatTask m.cTxBuffer
  | (.prvEchoClientTask, x) => EchoClient.prvEchoClientTask x (m.cTxBuffers x) (m.cRxBuffers x)

/-- A demo task that was created: its function and parameter, and how far it has got. -/
structure DemoTask (m : Contents) where
  entry : TaskFunction × ℕ
  process : Process (code m entry)

/-- A task that has just been created. -/
def DemoTask.start (m : Contents) (entry : TaskFunction × ℕ) : DemoTask m :=
  ⟨entry, .start (code m entry)⟩

/-- The node: `main`, the IP task, and the demo tasks in the order of their creation. -/
structure Node (config : AppConfig) (m : Contents) where
  main : Process mainTask
  ip : Process (ipTask config)
  tasks : List (DemoTask m)

namespace Node
variable {config : AppConfig} {m : Contents}

/-- After reset. -/
def start (config : AppConfig) (m : Contents) : Node config m :=
  ⟨.start mainTask, .start (ipTask config), []⟩

/-- The scheduler runs. -/
def Running (n : Node config m) : Prop := ∃ k, n.main.next = .call .vTaskStartScheduler k

/-- One step of `main` or of the IP task. A task that the hook creates is there from then on. -/
inductive SystemStep : Node config m → Node config m → Prop where
  | main {n : Node config m} {evs : Trace Api} {main : Process mainTask}
      (h : n.main.Step evs main) : SystemStep n ⟨main, n.ip, n.tasks⟩
  | ip {n : Node config m} {evs : Trace Api} {ip : Process (ipTask config)} (hrun : n.Running)
      (h : n.ip.Step evs ip) :
      SystemStep n ⟨n.main, ip, n.tasks ++ (creations evs).map (DemoTask.start m)⟩

/-- One step of one thread. -/
inductive Step : Node config m → Node config m → Prop where
  | system {n n' : Node config m} (h : SystemStep n n') : Step n n'
  | task {n : Node config m} {before after : List (DemoTask m)} {x : DemoTask m}
      {evs : Trace FreeRTOS.Api} {process : Process (code m x.entry)} (hrun : n.Running)
      (hx : n.tasks = before ++ x :: after) (h : x.process.Step evs process) :
      Step n ⟨n.main, n.ip, before ++ ⟨x.entry, process⟩ :: after⟩

/-- The states of the node in all its runs. -/
def Reachable (n : Node config m) : Prop := Relation.ReflTransGen Step (start config m) n

/-- The functions and parameters of the demo tasks. -/
def entries (n : Node config m) : List (TaskFunction × ℕ) := n.tasks.map DemoTask.entry

section Invariants
variable {n : Node config m}

/-- The system leaves the tasks alone, and adds new ones behind them. -/
theorem SystemStep.tasks_eq {n' : Node config m} (h : SystemStep n n') :
    ∃ new : List (TaskFunction × ℕ), n'.tasks = n.tasks ++ new.map (DemoTask.start m) := by
  cases h with
  | main h => exact ⟨[], (List.append_nil _).symm⟩
  | ip hrun h => exact ⟨_, rfl⟩

/-- The demo tasks are those that were created. -/
theorem entries_eq (h : n.Reachable) : n.entries = creations n.ip.done := by
  induction h with
  | refl => rfl
  | tail _ hstep ih =>
    cases hstep with
    | system h =>
      cases h with
      | main h => exact ih
      | @ip evs ip hrun h =>
        have hstarted : (creations evs).map (DemoTask.entry ∘ DemoTask.start m) = creations evs :=
          List.map_id _
        rw [entries, List.map_append, List.map_map, hstarted, h.done_eq, creations_append, ← ih]
        rfl
    | task hrun hx h =>
      rw [← ih, entries, entries, hx]
      simp

/-- The demo tasks are some of those that are selected. -/
theorem entries_sublist (h : n.Reachable) : n.entries.Sublist (selected config) := by
  rw [entries_eq h]
  exact (creations_sublist n.ip.done).trans (attempts_isPrefix n.ip.reached).1.sublist

/-- Before `main` has initialised the node, the IP task has done nothing and there is no demo
task. -/
theorem booted_or_idle (h : n.Reachable) :
    (n.ip.done = [] ∧ n.tasks = []) ∨ ∃ t, bootEvents t <+: n.main.done := by
  have hbooted : ∀ n : Node config m, n.Running → ∃ t, bootEvents t <+: n.main.done := by
    rintro n ⟨k, hk⟩
    obtain ⟨t, ht⟩ := booted (hk ▸ n.main.reached)
    exact ⟨t, ht ▸ List.prefix_rfl⟩
  induction h with
  | refl => exact .inl ⟨rfl, rfl⟩
  | @tail n n' _ hstep ih =>
    cases hstep with
    | system h =>
      cases h with
      | main h =>
        refine ih.imp id fun ⟨t, ht⟩ => ⟨t, ht.trans ?_⟩
        rw [h.done_eq]
        exact List.prefix_append _ _
      | ip hrun h => exact .inr (hbooted n hrun)
    | task hrun hx h => exact .inr (hbooted n hrun)

/-- **Which demo tasks there are**, in any interleaving and for any order of network events:
those the configuration selects, created in this order, each at most once, and all of them
are tried at the first `eNetworkUp`. A creation that fails is not repeated. -/
theorem demo_started (h : n.Reachable) :
    n.entries = creations n.ip.done ∧ n.entries.Sublist (selected config) ∧
    attempts n.ip.done <+: selected config ∧
    ∀ k, n.ip.next = .call .networkEvent k →
      attempts n.ip.done = if .eNetworkUp ∈ reports n.ip.done then selected config else [] :=
  ⟨entries_eq h, entries_sublist h, (attempts_isPrefix n.ip.reached).1,
    fun _ hk => startedAt_wait (hk ▸ n.ip.reached)⟩

/-- **Nothing runs before the node is initialised.** Once the IP task or a demo task has done
anything, `main` has seeded the generator, set the interrupt priority, and initialised the
stack with success. -/
theorem boot_first (h : n.Reachable) (hmoved : n.ip.done ≠ [] ∨ n.tasks ≠ []) :
    ∃ t, bootEvents t <+: n.main.done := by
  rcases booted_or_idle h with ⟨hip, htasks⟩ | hbooted
  · exact absurd hmoved (by simp [hip, htasks])
  · exact hbooted

end Invariants

/-! ## The node comes up -/

section ComesUp
variable {n : Node config m} {evs : Trace Api}

theorem systemSteps_main {main main' : Process mainTask} (h : main.Runs evs main')
    (ip : Process (ipTask config)) (tasks : List (DemoTask m)) :
    Relation.ReflTransGen SystemStep (⟨main, ip, tasks⟩ : Node config m) ⟨main', ip, tasks⟩ := by
  induction h with
  | refl => exact .refl
  | step h _ ih => exact .head (.main h) ih

theorem systemSteps_ip {ip ip' : Process (ipTask config)} (h : ip.Runs evs ip')
    {main : Process mainTask} (hmain : ∃ k, main.next = .call .vTaskStartScheduler k)
    (tasks : List (DemoTask m)) : Relation.ReflTransGen SystemStep
      (⟨main, ip, tasks⟩ : Node config m)
      ⟨main, ip', tasks ++ (creations evs).map (DemoTask.start m)⟩ := by
  induction h generalizing tasks with
  | refl => simpa [creations] using .refl
  | step h _ ih =>
    rw [creations_append, List.map_append, ← List.append_assoc]
    exact .head (.ip hmain h) (ih _)

/-- The network comes up, and what is called succeeds. -/
def up : (c : Call) → Api.Answer c
  | .networkEvent => .eNetworkUp
  | .xTaskCreate _ _ _ _ _ => pdPASS
  | c => idle c

/-- Where every creation succeeds, what is tried is created. -/
theorem creations_of_up (h : ∀ e ∈ evs, e.answer = up e.call) : creations evs = attempts evs := by
  refine List.flatMap_congr fun e he => ?_
  have ha := h e he
  obtain ⟨c, a⟩ := e
  obtain rfl : a = up c := ha
  cases c <;> rfl

/-- **The node can come up** with all the tasks that are selected. -/
theorem comes_up (config : AppConfig) (m : Contents) : ∃ n : Node config m,
    Relation.ReflTransGen SystemStep (start config m) n ∧ n.Running ∧
      n.tasks = (selected config).map (DemoTask.start m) := by
  have hboot : (mainTask.body .start).Issues (bootEvents 0) .initialised := by
    simp [mainTask, initBody, prvMiscInitialisation, bootEvents]
  obtain ⟨main, hmain, hnext⟩ := Process.runs_of_issues hboot (x := .start mainTask) rfl
  obtain ⟨evs, b, hissues, hup⟩ := Task.exists_issues up ((ipTask config).body false)
  obtain ⟨ip, hip, -⟩ := Process.runs_of_issues hissues (x := .start (ipTask config)) rfl
  have hevs : creations evs = selected config := by
    rw [creations_of_up hup]
    obtain ⟨e, rest, rfl, hhook⟩ := ipTask_step hissues
    obtain rfl : e = .eNetworkUp := hup _ List.mem_cons_self
    rcases hook_step hhook with ⟨-, -, -, hrest⟩ | ⟨hcreated, -, -⟩
    · exact hrest.attempts_eq
    · exact absurd (hcreated rfl) Bool.false_ne_true
  refine ⟨_, (systemSteps_main hmain _ _).trans (systemSteps_ip hip ⟨_, hnext⟩ []), ⟨_, hnext⟩, ?_⟩
  rw [List.nil_append, hevs]

end ComesUp

/-! ## The node of the repository -/

/-- The calls that set a listening socket up. -/
def setUp : Event FreeRTOS.Api → List FreeRTOS.Call
  | ⟨.socket, _⟩ => [.socket]
  | ⟨.bind s address, _⟩ => [.bind s address]
  | ⟨.listen s xBacklog, _⟩ => [.listen s xBacklog]
  | _ => []

def setUps (tr : Trace FreeRTOS.Api) : List FreeRTOS.Call := tr.flatMap setUp

/-- The calls that set the socket `s` of the echo server up. -/
def listener (s : FreeRTOS.Socket) : List FreeRTOS.Call :=
  [.socket, .bind s EchoServer.bindAddress, .listen s 2]

/-- What the echo server has set up at each of its loop heads. -/
def SetUpAt : FreeRTOS.Label EchoServer.Loc → Trace FreeRTOS.Api → Prop
  | .code (.start _), tr => setUps tr = []
  | .code (.created _), tr => setUps tr = [.socket]
  | .code (.accepting _), tr | .code (.session _), tr => ∃ s, setUps tr = listener s
  | .vAssertCalled looping _, tr => looping = 0 ∧ setUps tr = [.socket]

theorem setUps_append (tr tr' : Trace FreeRTOS.Api) :
    setUps (tr ++ tr') = setUps tr ++ setUps tr' := List.flatMap_append

theorem setUps_append_of_eq {tr evs : Trace FreeRTOS.Api} {cs : List FreeRTOS.Call}
    (htr : setUps tr = cs) : setUps (tr ++ evs) = cs ++ setUps evs := by
  rw [setUps_append, htr]

theorem setUpAt_step {rx : Buffer EchoServer.rxBufferSize} {l l' : FreeRTOS.Label EchoServer.Loc}
    {tr evs : Trace FreeRTOS.Api} (htr : SetUpAt l tr)
    (h : ((EchoServer.prvEchoServerTask rx).body l).Issues evs l') : SetUpAt l' (tr ++ evs) := by
  match l with
  | .vAssertCalled looping loc =>
    obtain ⟨h0, htr⟩ := htr
    rcases FreeRTOS.vAssertCalled_step h with ⟨-, rfl, rfl⟩ | ⟨hne, -, -⟩
    · exact ⟨h0, setUps_append_of_eq htr⟩
    · exact absurd h0 hne
  | .code (.start v) =>
    rcases EchoServer.start_step h with ⟨s, rfl, rfl⟩ | ⟨rfl, rfl⟩
    · exact setUps_append_of_eq htr
    · exact ⟨rfl, setUps_append_of_eq htr⟩
  | .code (.created v) =>
    obtain ⟨b, n, rfl, rfl⟩ := EchoServer.created_step h
    exact ⟨v.xListenSocket, setUps_append_of_eq htr⟩
  | .code (.accepting v) =>
    obtain ⟨s, htr⟩ := htr
    rcases EchoServer.accepting_step h with ⟨rfl, rfl⟩ | ⟨t, o, -, rfl, rfl⟩ <;>
      exact ⟨s, setUps_append_of_eq htr⟩
  | .code (.session v) =>
    obtain ⟨s, htr⟩ := htr
    rcases EchoServer.session_step h with ⟨a, c, ha, rfl, rfl⟩ | ⟨x, b, rfl, rfl⟩ <;>
      exact ⟨s, setUps_append_of_eq htr⟩

/-- At any moment the echo server has set up a part of one socket. -/
theorem setUps_isPrefix {rx : Buffer EchoServer.rxBufferSize} {tr : Trace FreeRTOS.Api}
    {p : Program FreeRTOS.Api (EchoServer.prvEchoServerTask rx).Label}
    (h : (EchoServer.prvEchoServerTask rx).At tr p) : ∃ s, setUps tr <+: listener s := by
  obtain ⟨rest, l, hpath, -⟩ := h.exists_head fun c => Classical.arbitrary (FreeRTOS.Api.Answer c)
  have hat := hpath.induction (J := SetUpAt) rfl fun _ _ _ _ htr hstep => setUpAt_step htr hstep
  have hall : ∃ s, setUps (tr ++ rest) <+: listener s := by
    match l with
    | .vAssertCalled _ _ => exact ⟨.invalid, hat.2 ▸ ⟨_, rfl⟩⟩
    | .code (.start _) => exact ⟨.invalid, (show setUps _ = [] from hat) ▸ List.nil_prefix⟩
    | .code (.created _) => exact ⟨.invalid, (show setUps _ = _ from hat) ▸ ⟨_, rfl⟩⟩
    | .code (.accepting _) | .code (.session _) =>
      obtain ⟨s, hs⟩ := hat
      exact ⟨s, hs ▸ List.prefix_rfl⟩
  obtain ⟨s, hs⟩ := hall
  rw [setUps_append] at hs
  exact ⟨s, (List.prefix_append _ _).trans hs⟩

/-- **The node listens once.** As the repository configures it, at most one demo task exists
in any run of the node, and of all calls its tasks make, those that create, bind or listen
on a socket are at any moment the first of `socket`, `bind` to port 5001 and `listen` on
one socket. -/
theorem one_listener {n : Node appConfig m} (h : n.Reachable) : n.tasks.length ≤ 1 ∧
    ∃ s, setUps (n.tasks.flatMap fun x => x.process.done) <+: listener s := by
  have hentries : n.entries.Sublist [(.prvEchoServerTask, 0)] := entries_sublist h
  obtain ⟨main, ip, tasks⟩ := n
  rcases List.sublist_singleton.mp hentries with hnone | hone
  · obtain rfl : tasks = [] := List.map_eq_nil_iff.mp hnone
    exact ⟨Nat.zero_le 1, .invalid, List.nil_prefix⟩
  · obtain ⟨⟨entry, process⟩, rfl, hentry⟩ := List.map_eq_singleton_iff.mp hone
    obtain rfl : entry = (.prvEchoServerTask, 0) := hentry
    refine ⟨Nat.le_refl 1, ?_⟩
    simpa using setUps_isPrefix process.reached

/-! ## Runs -/

/-- Which thread takes a turn. -/
inductive Turn where
  | main
  | ip
  | task (i : ℕ)

section Run
variable (env : Environment Api) (envs : ℕ → Environment FreeRTOS.Api)

/-- The thread makes its next step, if it can. `main` stays inside `vTaskStartScheduler`. -/
def turn (n : Node config m) : Turn → Node config m
  | .main =>
    match n.main.next with
    | .call .vTaskStartScheduler _ => n
    | _ => ⟨n.main.turn env, n.ip, n.tasks⟩
  | .ip =>
    match n.main.next with
    | .call .vTaskStartScheduler _ =>
      ⟨n.main, n.ip.turn env, n.tasks ++ (creations (n.ip.issued env)).map (DemoTask.start m)⟩
    | _ => n
  | .task i =>
    match n.main.next, n.tasks.drop i with
    | .call .vTaskStartScheduler _, x :: after =>
      ⟨n.main, n.ip, n.tasks.take i ++ ⟨x.entry, x.process.turn (envs i)⟩ :: after⟩
    | _, _ => n

/-- The run in which the threads take these turns. -/
def run (config : AppConfig) (m : Contents) (turns : List Turn) : Node config m :=
  turns.foldl (turn env envs) (start config m)

variable {env envs}

/-- A turn of a thread of the system. -/
theorem turn_systemStep (n : Node config m) {t : Turn} (ht : t = .main ∨ t = .ip) :
    turn env envs n t = n ∨ SystemStep n (turn env envs n t) := by
  rcases ht with rfl | rfl
  · simp only [turn]
    split
    · exact .inl rfl
    · exact .inr (.main (n.main.turn_step env))
  · simp only [turn]
    split
    case h_1 k hk => exact .inr (.ip ⟨k, hk⟩ (n.ip.turn_step env))
    case h_2 => exact .inl rfl

theorem turn_step (n : Node config m) (t : Turn) :
    turn env envs n t = n ∨ Step n (turn env envs n t) := by
  cases t with
  | main => exact (turn_systemStep n (.inl rfl)).imp id .system
  | ip => exact (turn_systemStep n (.inr rfl)).imp id .system
  | task i =>
    simp only [turn]
    split
    case h_1 k x after hk hdrop =>
      have htasks : n.tasks = n.tasks.take i ++ x :: after := by
        rw [← hdrop, List.take_append_drop]
      exact .inr (.task ⟨k, hk⟩ htasks (x.process.turn_step (envs i)))
    case h_2 => exact .inl rfl

theorem reachable_run (turns : List Turn) : Reachable (run env envs config m turns) := by
  induction turns using List.reverseRecOn with
  | nil => exact .refl
  | append_singleton turns t ih =>
    have hturn : run env envs config m (turns ++ [t]) =
        turn env envs (run env envs config m turns) t := by simp [run]
    rw [hturn]
    rcases turn_step (run env envs config m turns) t with heq | hstep
    · rw [heq]
      exact ih
    · exact ih.tail hstep

end Run

/-- The network is down at first, and then comes up again and again. -/
def comesUp : Environment Api
  | _, .ipInitMulti => pdTRUE
  | i, .networkEvent => if i = 0 then .eNetworkDown else .eNetworkUp
  | _, .xTaskCreate _ _ _ _ _ => pdPASS
  | _, c => idle c

/-- Every buffer is zero. -/
def zeroed : Contents where
  mss := EchoClient.defaultMss
  rxBuffer := .replicate _ 0
  cTxBuffer := .replicate _ 0
  cTxBuffers _ := .replicate _ 0
  cRxBuffers _ := .replicate _ 0

/-- A run in which the network comes up twice, and the first demo task begins. -/
def upTwice (config : AppConfig) : Node config zeroed :=
  run comesUp (fun _ => FreeRTOS.scripted (fun _ => []) fun _ => 0) config zeroed
    (List.replicate 7 .main ++ List.replicate 13 .ip ++ List.replicate 7 (.task 0))

/-- Two echo clients. -/
def twoClients : AppConfig where
  demoHeartbeat := 0
  demoEcho := 1
  appRoleClient := 1
  appRoleServer := 0
  echoNumEchoClients := 2

example : (upTwice twoClients).entries = [(.prvEchoClientTask, 0), (.prvEchoClientTask, 1)] ∧
    reports (upTwice twoClients).ip.done = [.eNetworkDown, .eNetworkUp, .eNetworkUp] := by
  decide +kernel

theorem demo_started_twice : (upTwice twoClients).entries.Sublist (selected twoClients) :=
  (demo_started (reachable_run _)).2.1

theorem boot_first_twice : ∃ t, bootEvents t <+: (upTwice appConfig).main.done :=
  boot_first (reachable_run _) (.inl (by decide +kernel))

theorem one_listener_twice : (upTwice appConfig).tasks.length ≤ 1 ∧
    ∃ s, setUps ((upTwice appConfig).tasks.flatMap fun x => x.process.done) <+: listener s :=
  one_listener (reachable_run _)

example : setUps ((upTwice appConfig).tasks.flatMap fun x => x.process.done) =
    listener (.handle 0) := by decide +kernel

end Node
end TcpDemo.App
