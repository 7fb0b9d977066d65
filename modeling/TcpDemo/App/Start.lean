import TcpDemo.Lib.Network
import TcpDemo.Lib.Text

/-!
# From reset to the demo tasks

`main_tcp_network_init` and the network event hook of `platform/main_networking.c`, with the
functions under `app/` and in the demo files that the hook calls to create the demo tasks.
Which tasks these are is decided by the preprocessor, so the macros it tests are a parameter
here (`AppConfig`); `appConfig` has the values of `app/app_config.h`.

Two threads run this code, against the kernel and the TCP stack: `main`, up to the call that
starts the scheduler, and afterwards the IP task, which calls the hook for each event.
-/

namespace TcpDemo.App
open Interaction CBytes

/-! ## The kernel and the stack -/

/-- The functions that are made tasks. -/
inductive TaskFunction where
  | prvEchoServerTask
  | prvTCPHeartbeatTask
  | prvEchoClientTask
  deriving DecidableEq, Repr

/-- `eIPCallbackEvent_t` -/
inductive NetworkEvent where
  | eNetworkUp
  | eNetworkDown
  deriving DecidableEq, Repr

/-- Four bytes of an address. -/
abbrev Quad := UInt8 × UInt8 × UInt8 × UInt8

/-- What `FreeRTOS_GetEndPointConfiguration` stores. -/
structure EndPointConfiguration where
  ulIPAddress : UInt32
  ulNetMask : UInt32
  ulGateway : UInt32
  ulDNS : UInt32

/-- The calls of the two threads. `networkEvent` is where the IP task waits for the next
event to report; `prvSRand` is listed because the tasks share the generator it seeds. -/
inductive Call where
  | time
  | prvSRand (ulSeed : UInt32)
  | nvicSetPriority (irqn : ℤ) (priority : UInt32)
  | pxMPS2FillInterfaceDescriptor (xEMACIndex : ℤ)
  | fillEndPoint (ucIPAddress ucNetMask ucGatewayAddress ucDNSServerAddress : Quad)
      (ucMACAddress : List UInt8)
  | ipInitMulti
  | vTaskStartScheduler
  | taskEnterCritical
  | taskExitCritical
  | portNOP
  | networkEvent
  | getEndPointConfiguration
  | inetNtoa (ulIPAddress : UInt32)
  | printf (text : List UInt8)
  | xTaskCreate (pxTaskCode : TaskFunction) (pcName : List UInt8) (usStackDepth : UInt16)
      (pvParameters : ℕ) (uxPriority : UInt32)
  deriving DecidableEq

/-- The type of the answer to each call; `inet_ntoa` answers with the string it stores. -/
@[reducible] def Call.Answer : Call → Type
  | .time => UInt32
  | .prvSRand _ => Unit
  | .nvicSetPriority _ _ => Unit
  | .pxMPS2FillInterfaceDescriptor _ => Unit
  | .fillEndPoint _ _ _ _ _ => Unit
  | .ipInitMulti => ℤ
  | .vTaskStartScheduler => Unit
  | .taskEnterCritical => Unit
  | .taskExitCritical => Unit
  | .portNOP => Unit
  | .networkEvent => NetworkEvent
  | .getEndPointConfiguration => EndPointConfiguration
  | .inetNtoa _ => List UInt8
  | .printf _ => Unit
  | .xTaskCreate _ _ _ _ _ => ℤ

/-- The interface between the two threads and the rest of the system. -/
@[reducible] def Api : Interface where
  Call := Call
  Answer := Call.Answer

/-- `pdTRUE` and `pdPASS` -/
def pdTRUE : ℤ := 1
def pdPASS : ℤ := 1

/-- The network stays down, and what is called fails. -/
def idle : (c : Call) → Api.Answer c
  | .time => UInt32.ofNat 0
  | .ipInitMulti => (0 : ℤ)
  | .xTaskCreate _ _ _ _ _ => (0 : ℤ)
  | .networkEvent => .eNetworkDown
  | .getEndPointConfiguration =>
      ⟨UInt32.ofNat 0, UInt32.ofNat 0, UInt32.ofNat 0, UInt32.ofNat 0⟩
  | .inetNtoa _ => []
  | .prvSRand _ | .nvicSetPriority _ _ | .pxMPS2FillInterfaceDescriptor _
  | .fillEndPoint _ _ _ _ _ | .vTaskStartScheduler | .taskEnterCritical | .taskExitCritical
  | .portNOP | .printf _ => ()

instance (c : Call) : Nonempty (Api.Answer c) := ⟨idle c⟩

/-- Issue a call. -/
@[simp] def issue (c : Call) : Program Api (Api.Answer c) := .call c .ret

/-! ## Configuration -/

/-- `ETHERNET_IRQn` and `configMAC_INTERRUPT_PRIORITY` -/
def ethernetIRQn : ℤ := 13
def configMacInterruptPriority : UInt32 := 5

/-- The addresses of the end point. -/
def ucIPAddress : Quad := (10, 0, 0, 2)
def ucNetMask : Quad := (255, 255, 255, 0)
def ucGatewayAddress : Quad := (10, 0, 0, 1)
def ucDNSServerAddress : Quad := (127, 0, 0, 53)
def ucMACAddress : List UInt8 := [0x52, 0x54, 0x00, 0x12, 0x34, 0xad]

/-- `configMINIMAL_STACK_SIZE` and `tskIDLE_PRIORITY` -/
def configMinimalStackSize : UInt16 := 2000
def tskIdlePriority : UInt32 := 0

/-- What the preprocessor is told: the macros that select the demo and the role, where an
undefined macro is zero, and the number of echo clients. -/
structure AppConfig where
  demoHeartbeat : ℤ
  demoEcho : ℤ
  appRoleClient : ℤ
  appRoleServer : ℤ
  echoNumEchoClients : ℕ

/-- The configuration in the repository. -/
def appConfig : AppConfig where
  demoHeartbeat := 0
  demoEcho := 1
  appRoleClient := 0
  appRoleServer := 1
  echoNumEchoClients := 1

/-! ## Before the scheduler -/

/-- The places of `main_tcp_network_init`: its start, the code behind its assertion, the loop
behind `vTaskStartScheduler`, and the loop of `vAssertCalled` with `looping`. -/
inductive InitLoc where
  | start
  | initialised
  | forever
  | vAssertCalled (looping : UInt32)

/-- `prvMiscInitialisation` -/
def prvMiscInitialisation : Program Api Unit := do
  let xTimeNow ← issue .time
  issue (.prvSRand xTimeNow)

/-- `main_tcp_network_init`, which `main` calls first. -/
def initBody : InitLoc → Program Api InitLoc
  | .start => do
      prvMiscInitialisation
      issue (.nvicSetPriority ethernetIRQn configMacInterruptPriority)
      issue (.pxMPS2FillInterfaceDescriptor 0)
      issue (.fillEndPoint ucIPAddress ucNetMask ucGatewayAddress ucDNSServerAddress
        ucMACAddress)
      let xReturn ← issue .ipInitMulti
      if xReturn = pdTRUE then pure .initialised
      else do
        issue .taskEnterCritical
        pure (.vAssertCalled 0)
  | .initialised => do
      issue .vTaskStartScheduler
      pure .forever
  | .forever => pure .forever
  | .vAssertCalled looping =>
      if looping = 0 then do
        issue .portNOP
        pure (.vAssertCalled looping)
      else do
        issue .taskExitCritical
        pure .initialised

/-- The thread `main` runs in. -/
def mainTask : Task Api := ⟨InitLoc, .start, initBody⟩

/-! ## The demo tasks -/

/-- `vStartEchoServer` -/
def vStartEchoServer : Program Api Unit := do
  issue (.printf (ascii "[ECHO SERVER] Creating server task\r\n"))
  let _ ← issue (.xTaskCreate .prvEchoServerTask (ascii "EchoServer")
    (configMinimalStackSize * 2) 0 (tskIdlePriority + 1))
  pure ()

/-- `vStartTCPHeartbeatDemo` -/
def vStartTCPHeartbeatDemo : Program Api Unit := do
  let _ ← issue (.xTaskCreate .prvTCPHeartbeatTask (ascii "TCP-HB")
    (configMinimalStackSize * 2) 0 (tskIdlePriority + 1))
  pure ()

/-- The loop of `vStartTCPEchoClientTasks_SingleTasks` from `x` on, with `n` passes left. -/
def createClients (usTaskStackSize : UInt16) (uxTaskPriority : UInt32) :
    ℕ → ℕ → Program Api Unit
  | 0, _ => pure ()
  | n + 1, x => do
      let _ ← issue (.xTaskCreate .prvEchoClientTask (ascii "Echo0") usTaskStackSize x
        uxTaskPriority)
      createClients usTaskStackSize uxTaskPriority n (x + 1)

section Config
variable (config : AppConfig)

/-- `vStartTCPEchoClientTasks_SingleTasks` -/
def vStartTCPEchoClientTasks (usTaskStackSize : UInt16) (uxTaskPriority : UInt32) :
    Program Api Unit :=
  createClients usTaskStackSize uxTaskPriority config.echoNumEchoClients 0

/-- `vStartEchoDemo` -/
def vStartEchoDemo : Program Api Unit :=
  if config.appRoleClient ≠ 0 then do
    issue (.printf (ascii "ECHO: Starting TCP Echo CLIENT\r\n"))
    vStartTCPEchoClientTasks config (configMinimalStackSize * 2) (tskIdlePriority + 1)
  else if config.appRoleServer ≠ 0 then do
    issue (.printf (ascii "ECHO: Starting TCP Echo SERVER\r\n"))
    vStartEchoServer
  else pure ()

/-- `vApplicationStart` -/
def vApplicationStart : Program Api Unit :=
  if config.demoHeartbeat ≠ 0 then vStartTCPHeartbeatDemo
  else if config.demoEcho ≠ 0 then vStartEchoDemo config
  else issue (.printf (ascii "APP: No demo selected\r\n"))

/-- `vApplicationIPNetworkEventHook_Multi`, with the static `xTasksAlreadyCreated` passed in
and out. -/
def vApplicationIPNetworkEventHook (eNetworkEvent : NetworkEvent) (xTasksAlreadyCreated : Bool) :
    Program Api Bool :=
  if eNetworkEvent = .eNetworkUp ∧ xTasksAlreadyCreated = false then do
    let endPoint ← issue .getEndPointConfiguration
    issue (.printf (ascii "\r\nNetwork configuration:\r\n"))
    let cBuffer ← issue (.inetNtoa endPoint.ulIPAddress)
    issue (.printf (ascii "IP Address: " ++ cBuffer ++ ascii "\r\n"))
    vApplicationStart config
    pure true
  else pure xTasksAlreadyCreated

/-- What the IP task does with its events: each is reported to the hook. -/
def ipTask : Task Api where
  Label := Bool
  start := false
  body xTasksAlreadyCreated := do
    let eNetworkEvent ← issue .networkEvent
    vApplicationIPNetworkEventHook config eNetworkEvent xTasksAlreadyCreated

end Config

/-! ## Which tasks are created -/

/-- The tasks a configuration selects: the function and the parameter of each. -/
def selected (config : AppConfig) : List (TaskFunction × ℕ) :=
  if config.demoHeartbeat ≠ 0 then [(.prvTCPHeartbeatTask, 0)]
  else if config.demoEcho ≠ 0 then
    if config.appRoleClient ≠ 0 then
      (List.range' 0 config.echoNumEchoClients).map fun x => (.prvEchoClientTask, x)
    else if config.appRoleServer ≠ 0 then [(.prvEchoServerTask, 0)] else []
  else []

/-- The task a call tries to create. -/
def attempted : Call → List (TaskFunction × ℕ)
  | .xTaskCreate pxTaskCode _ _ pvParameters _ => [(pxTaskCode, pvParameters)]
  | _ => []

/-- The task a call has created. -/
def created : Event Api → List (TaskFunction × ℕ)
  | ⟨.xTaskCreate pxTaskCode _ _ pvParameters _, r⟩ =>
    if (r : ℤ) = pdPASS then [(pxTaskCode, pvParameters)] else []
  | _ => []

/-- The event a call has reported. -/
def reported : Event Api → List NetworkEvent
  | ⟨.networkEvent, e⟩ => [e]
  | _ => []

def attempts (tr : Trace Api) : List (TaskFunction × ℕ) := tr.flatMap fun e => attempted e.call
def creations (tr : Trace Api) : List (TaskFunction × ℕ) := tr.flatMap created
def reports (tr : Trace Api) : List NetworkEvent := tr.flatMap reported

section Growth
variable (tr tr' : Trace Api)

@[simp] theorem attempts_append : attempts (tr ++ tr') = attempts tr ++ attempts tr' :=
  List.flatMap_append
@[simp] theorem creations_append : creations (tr ++ tr') = creations tr ++ creations tr' :=
  List.flatMap_append
@[simp] theorem reports_append : reports (tr ++ tr') = reports tr ++ reports tr' :=
  List.flatMap_append

/-- Only what was tried is created. -/
theorem creations_sublist : (creations tr).Sublist (attempts tr) := by
  refine .flatMap_right tr fun e _ => ?_
  obtain ⟨c, a⟩ := e
  cases c with
  | xTaskCreate fn name depth param prio =>
    simp only [created, attempted]
    split
    · exact .refl _
    · exact List.nil_sublist _
  | _ => exact .slnil

end Growth

/-- The calls report no event, and try to create these tasks in this order. -/
structure Tries (fns : List (TaskFunction × ℕ)) (evs : Trace Api) : Prop where
  attempts_eq : attempts evs = fns
  not_reported : ∀ e ∈ evs, e.call ≠ .networkEvent

section Tries
variable {α : Type} {fns : List (TaskFunction × ℕ)}

theorem tries_ret (a : α) : (Program.ret a : Program Api α).Keeps (Tries []) := by
  intro evs b h
  obtain ⟨rfl, -⟩ := Program.issues_ret.mp h
  exact ⟨rfl, by simp⟩

theorem tries_call {c : Call} {k : Api.Answer c → Program Api α} (hc : c ≠ .networkEvent)
    (hk : ∀ r, (k r).Keeps (Tries fns)) :
    (Program.call c k).Keeps (Tries (attempted c ++ fns)) := by
  intro evs b h
  obtain ⟨r, rest, rfl, hrest⟩ := Program.issues_call.mp h
  obtain ⟨hattempts, hreported⟩ := hk r rest b hrest
  exact ⟨congrArg (attempted c ++ ·) hattempts, List.forall_mem_cons.mpr ⟨hc, hreported⟩⟩

end Tries

theorem createClients_tries (usTaskStackSize : UInt16) (uxTaskPriority : UInt32) (n x : ℕ) :
    (createClients usTaskStackSize uxTaskPriority n x).Keeps
      (Tries ((List.range' x n).map fun x => (.prvEchoClientTask, x))) := by
  induction n generalizing x with
  | zero => exact tries_ret ()
  | succ n ih =>
    rw [List.range'_succ, List.map_cons]
    exact tries_call (by simp) fun _ => ih (x + 1)

theorem vStartEchoServer_tries : vStartEchoServer.Keeps (Tries [(.prvEchoServerTask, 0)]) :=
  tries_call (by simp) fun _ => tries_call (by simp) fun _ => tries_ret ()

theorem vStartTCPHeartbeatDemo_tries :
    vStartTCPHeartbeatDemo.Keeps (Tries [(.prvTCPHeartbeatTask, 0)]) :=
  tries_call (by simp) fun _ => tries_ret ()

section Hook
variable {config : AppConfig} {e : NetworkEvent} {xTasksAlreadyCreated b : Bool}
  {evs : Trace Api}

/-- **The application creates what is selected**, in order, whatever the creations return. -/
theorem vApplicationStart_tries : (vApplicationStart config).Keeps (Tries (selected config)) := by
  unfold vApplicationStart vStartEchoDemo selected
  split_ifs with hheartbeat hecho hclient hserver
  · exact vStartTCPHeartbeatDemo_tries
  · exact tries_call (by simp) fun _ => createClients_tries _ _ _ _
  · exact tries_call (by simp) fun _ => vStartEchoServer_tries
  · exact tries_ret ()
  · exact tries_call (by simp) fun _ => tries_ret ()

/-- The hook creates the tasks at the first `eNetworkUp`, and does nothing at any other event. -/
theorem hook_step
    (h : (vApplicationIPNetworkEventHook config e xTasksAlreadyCreated).Issues evs b) :
    (e = .eNetworkUp ∧ xTasksAlreadyCreated = false ∧ b = true ∧ Tries (selected config) evs) ∨
    ((e = .eNetworkUp → xTasksAlreadyCreated = true) ∧ b = xTasksAlreadyCreated ∧ evs = []) := by
  unfold vApplicationIPNetworkEventHook at h
  split_ifs at h with hfirst
  · simp only [issue, Program.call_bind, Program.ret_bind, Program.issues_call,
      Program.issues_bind, Program.pure_eq_ret, Program.issues_ret] at h
    obtain ⟨endPoint, _, rfl, _, _, rfl, cBuffer, _, rfl, _, _, rfl, rest, u, _, rfl, hstart,
      rfl, rfl⟩ := h
    have htries := vApplicationStart_tries rest u hstart
    rw [List.append_nil]
    exact .inl ⟨hfirst.1, hfirst.2, rfl, htries.attempts_eq, by simpa using htries.not_reported⟩
  · obtain ⟨rfl, rfl⟩ := Program.issues_ret.mp h
    exact .inr ⟨fun he => by simpa [he] using hfirst, rfl, rfl⟩

/-- One pass of the IP task. -/
theorem ipTask_step (h : ((ipTask config).body xTasksAlreadyCreated).Issues evs b) :
    ∃ e rest, evs = ⟨.networkEvent, e⟩ :: rest ∧
      (vApplicationIPNetworkEventHook config e xTasksAlreadyCreated).Issues rest b :=
  Program.issues_call.mp h

/-- What the IP task has done at a loop head: nothing was created up to the first
`eNetworkUp`, and everything with it. -/
def StartedAt (config : AppConfig) (xTasksAlreadyCreated : Bool) (tr : Trace Api) : Prop :=
  (xTasksAlreadyCreated = true ↔ .eNetworkUp ∈ reports tr) ∧
    attempts tr = if xTasksAlreadyCreated then selected config else []

theorem startedAt_start : StartedAt config false [] := ⟨by simp [reports], rfl⟩

theorem startedAt_step {tr : Trace Api} (htr : StartedAt config xTasksAlreadyCreated tr)
    (h : ((ipTask config).body xTasksAlreadyCreated).Issues evs b) :
    StartedAt config b (tr ++ evs) := by
  obtain ⟨e, rest, rfl, hhook⟩ := ipTask_step h
  obtain ⟨hup, hattempts⟩ := htr
  have hreports : reports (⟨.networkEvent, e⟩ :: rest) = e :: reports rest := rfl
  have htries : attempts (⟨.networkEvent, e⟩ :: rest) = attempts rest := rfl
  rw [StartedAt, reports_append, attempts_append, hreports, htries, hattempts]
  rcases hook_step hhook with ⟨rfl, rfl, rfl, hrest⟩ | ⟨hother, rfl, rfl⟩
  · simp [hrest.attempts_eq]
  · refine ⟨?_, List.append_nil _⟩
    rw [List.mem_append, ← hup]
    exact ⟨.inl, fun h => h.elim id fun he => hother (List.mem_singleton.mp he).symm⟩

/-- The IP task tries to create the selected tasks, one after the other and each once, and none
before the network is up. -/
theorem attempts_isPrefix {tr : Trace Api} {p : Program Api Bool} (h : (ipTask config).At tr p) :
    attempts tr <+: selected config ∧ (attempts tr ≠ [] → .eNetworkUp ∈ reports tr) := by
  obtain ⟨rest, l, hpath, hidle⟩ := h.exists_head idle
  obtain ⟨hup, hattempts⟩ := hpath.induction (J := StartedAt config) startedAt_start
    fun _ _ _ _ htr hstep => startedAt_step htr hstep
  rw [attempts_append] at hattempts
  rw [reports_append, List.mem_append] at hup
  have hrest : NetworkEvent.eNetworkUp ∉ reports rest := by
    intro hmem
    obtain ⟨e, he, hreported⟩ := List.mem_flatMap.mp hmem
    have ha := hidle e he
    obtain ⟨c, a⟩ := e
    obtain rfl : a = idle c := ha
    cases c <;> simp [reported, idle] at hreported
  cases l with
  | true =>
    rw [if_pos rfl] at hattempts
    exact ⟨⟨_, hattempts⟩, fun _ => (hup.mp rfl).resolve_right hrest⟩
  | false =>
    have hnil : attempts tr = [] := (List.append_eq_nil_iff.mp hattempts).1
    exact ⟨hnil ▸ List.nil_prefix, fun hne => absurd hnil hne⟩

/-- While the IP task waits for an event, all selected tasks were tried if the network was
up, and none otherwise. -/
theorem startedAt_wait {tr : Trace Api} {k : NetworkEvent → Program Api Bool}
    (h : (ipTask config).At tr (.call .networkEvent k)) :
    attempts tr = if .eNetworkUp ∈ reports tr then selected config else [] := by
  obtain ⟨l, hpath, -⟩ := h.exists_head_of_first idle fun l evs l' hstep => by
    obtain ⟨e, rest, rfl, hhook⟩ := ipTask_step hstep
    rcases hook_step hhook with ⟨-, -, -, hrest⟩ | ⟨-, -, rfl⟩
    · exact hrest.not_reported
    · simp
  obtain ⟨hup, hattempts⟩ := hpath.induction (J := StartedAt config)
    startedAt_start fun _ _ _ _ htr hstep => startedAt_step htr hstep
  rw [hattempts]
  simp only [hup]

end Hook

/-! ## Before the scheduler starts -/

/-- What is done before the scheduler starts, at time `t`. -/
def bootEvents (t : UInt32) : Trace Api :=
  [⟨.time, t⟩, ⟨.prvSRand t, ()⟩, ⟨.nvicSetPriority ethernetIRQn configMacInterruptPriority, ()⟩,
    ⟨.pxMPS2FillInterfaceDescriptor 0, ()⟩,
    ⟨.fillEndPoint ucIPAddress ucNetMask ucGatewayAddress ucDNSServerAddress ucMACAddress, ()⟩,
    ⟨.ipInitMulti, pdTRUE⟩]

/-- What `main` has done at each of its places. -/
def BootedAt : InitLoc → Trace Api → Prop
  | .start, tr => tr = []
  | .initialised, tr => ∃ t, tr = bootEvents t
  | .forever, _ => True
  | .vAssertCalled looping, _ => looping = 0

theorem bootedAt_step {l l' : InitLoc} {tr evs : Trace Api} (htr : BootedAt l tr)
    (h : (initBody l).Issues evs l') : BootedAt l' (tr ++ evs) := by
  cases l with
  | start =>
    obtain rfl : tr = [] := htr
    simp only [initBody, prvMiscInitialisation, issue, Program.call_bind, Program.ret_bind,
      Program.issues_call] at h
    obtain ⟨t, _, rfl, _, _, rfl, _, _, rfl, _, _, rfl, _, _, rfl, r, rest, rfl, hret⟩ := h
    split_ifs at hret with hr
    · obtain ⟨rfl, rfl⟩ := Program.issues_ret.mp hret
      exact ⟨t, by rw [hr]; rfl⟩
    · obtain ⟨_, _, -, hend⟩ := Program.issues_call.mp hret
      obtain ⟨-, rfl⟩ := Program.issues_ret.mp hend
      rfl
  | initialised =>
    obtain ⟨_, _, -, hend⟩ := Program.issues_call.mp h
    obtain ⟨-, rfl⟩ := Program.issues_ret.mp hend
    trivial
  | forever =>
    obtain ⟨-, rfl⟩ := Program.issues_ret.mp h
    trivial
  | vAssertCalled looping =>
    obtain rfl : looping = 0 := htr
    obtain ⟨_, _, -, hend⟩ := Program.issues_call.mp h
    obtain ⟨-, rfl⟩ := Program.issues_ret.mp hend
    rfl

/-- Only the code behind the assertion starts the scheduler. -/
theorem starts_no_scheduler {l : InitLoc} (hl : l ≠ .initialised) :
    (initBody l).All fun e => e.call ≠ Call.vTaskStartScheduler := by
  cases l with
  | start => simp [initBody, prvMiscInitialisation]
  | initialised => exact absurd rfl hl
  | forever => trivial
  | vAssertCalled looping => simp [initBody]

/-- **When the scheduler starts**, the generator is seeded, the interrupt has its priority,
and the stack was initialised with success. -/
theorem booted {tr : Trace Api} {k : Unit → Program Api InitLoc}
    (h : mainTask.At tr (.call .vTaskStartScheduler k)) : ∃ t, tr = bootEvents t := by
  obtain ⟨l, hpath, a, rest, l', hissues⟩ := h.exists_head_of_first idle fun l evs l' hstep => by
    by_cases hl : l = .initialised
    · subst hl
      obtain ⟨_, _, rfl, hend⟩ := Program.issues_call.mp hstep
      obtain ⟨rfl, -⟩ := Program.issues_ret.mp hend
      simp
    · exact fun e he => (starts_no_scheduler hl).of_issues hstep e (List.mem_of_mem_tail he)
  have hbooted := hpath.induction (J := BootedAt) rfl fun _ _ _ _ htr hstep =>
    bootedAt_step htr hstep
  by_cases hl : l = .initialised
  · subst hl
    exact hbooted
  · exact absurd rfl ((starts_no_scheduler hl).of_issues hissues _ List.mem_cons_self)

end TcpDemo.App
