import TcpDemo.Lib.Interaction
import TcpDemo.Lib.Text

/-!
# The calls of a FreeRTOS task

The three demo tasks run against FreeRTOS and FreeRTOS+TCP, whose code is not part of
the repository. `Api` lists the calls they make and the type of what each call
answers; an answer carries the part of the documented contract that every task relies
on, so that a `recv` cannot store more bytes than it was asked for and a `send` cannot
accept more than it was given.

Calls that only touch memory several tasks share are listed as well: the counters of
the echo client are read by the health monitor, and every `++` on one is a call here.

What the results are about is read off a trace: the bytes received and accepted, and the
sockets obtained, used and closed.

`vAssertCalled` never returns to a task, so the labels of a task that contains a
`configASSERT` have one more case for it (`Label.vAssertCalled`).
-/

namespace TcpDemo.FreeRTOS
open Interaction CBytes

/-- A `Socket_t`: `NULL`, `FREERTOS_INVALID_SOCKET`, or the address of a socket. -/
inductive Socket where
  | null
  | invalid
  | handle (id : ℕ)
  deriving DecidableEq, Repr, Inhabited

/-- A `struct freertos_sockaddr`, with the port in host byte order. -/
structure SockAddr where
  ip : UInt8 × UInt8 × UInt8 × UInt8
  port : UInt16
  deriving DecidableEq, Repr

/-- The socket options the tasks set, each with its value. -/
inductive SockOpt where
  | rcvTimeo (ticks : UInt32)
  | sndTimeo (ticks : UInt32)
  | winProperties (lTxBufSize lTxWinSize lRxBufSize lRxWinSize : ℤ)
  deriving DecidableEq, Repr

/-- What a `recv` into `size` bytes leaves behind: the value it returns, and the bytes
it stores from the given address on. Only a positive value stores bytes, and as many. -/
@[ext] structure RecvAnswer (size : ℕ) where
  result : ℤ
  data : List UInt8
  stored : data.length = result.toNat
  fits : data.length ≤ size

/-- What a `send` of `len` bytes returns: a count of accepted bytes, or an error. -/
@[ext] structure SendAnswer (len : ℕ) where
  result : ℤ
  fits : result ≤ len

/-- An error or an end of the connection stores nothing. -/
theorem RecvAnswer.data_eq_nil_iff {size : ℕ} {a : RecvAnswer size} :
    a.data = [] ↔ a.result ≤ 0 := by
  rw [← List.length_eq_zero_iff, a.stored, Int.toNat_eq_zero]

/-- The bytes a `send` has accepted. -/
def SendAnswer.accepted {data : List UInt8} (a : SendAnswer data.length) : List UInt8 :=
  data.take a.result.toNat

/-- The statistics an echo client keeps about itself. -/
inductive Counter where
  | ulConnections
  | ulTxRxCycles
  | ulTxRxFailures
  deriving DecidableEq, Repr

/-- The calls of the demo tasks. A `recv` names the offset in the caller's receive
buffer it stores to; a `send` carries the bytes it is given. -/
inductive Call where
  | socket
  | bind (xSocket : Socket) (address : SockAddr)
  | listen (xSocket : Socket) (xBacklog : ℕ)
  | accept (xSocket : Socket)
  | connect (xSocket : Socket) (address : SockAddr)
  | setsockopt (xSocket : Socket) (option : SockOpt)
  | recv (xSocket : Socket) (offset size : ℕ)
  | send (xSocket : Socket) (data : List UInt8)
  | shutdown (xSocket : Socket)
  | closesocket (xSocket : Socket)
  | printf (text : List UInt8)
  | vTaskDelay (ticks : UInt32)
  | xTaskGetTickCount
  | xApplicationGetRandomNumber
  | taskEnterCritical
  | taskExitCritical
  | portNOP
  | increment (counter : Counter) (xInstance : ℕ)
  deriving DecidableEq

/-- The type of the answer to each call. -/
@[reducible] def Call.Answer : Call → Type
  | .socket => Socket
  | .bind _ _ => ℤ
  | .listen _ _ => ℤ
  | .accept _ => Socket
  | .connect _ _ => ℤ
  | .setsockopt _ _ => ℤ
  | .recv _ _ size => RecvAnswer size
  | .send _ data => SendAnswer data.length
  | .shutdown _ => ℤ
  | .closesocket _ => ℤ
  | .printf _ => Unit
  | .vTaskDelay _ => Unit
  | .xTaskGetTickCount => UInt32
  | .xApplicationGetRandomNumber => UInt32
  | .taskEnterCritical => Unit
  | .taskExitCritical => Unit
  | .portNOP => Unit
  | .increment _ _ => Unit

/-- The interface between a demo task and FreeRTOS. -/
@[reducible] def Api : Interface where
  Call := Call
  Answer := Call.Answer

instance (size : ℕ) : Inhabited (RecvAnswer size) := ⟨⟨0, [], rfl, Nat.zero_le _⟩⟩
instance (len : ℕ) : Inhabited (SendAnswer len) := ⟨⟨0, Int.natCast_nonneg _⟩⟩

/-- The answer of a `recv` that stores `data`, if that fits. -/
def RecvAnswer.store {size : ℕ} (data : List UInt8) : RecvAnswer size :=
  if h : data.length ≤ size then ⟨data.length, data, by simp, h⟩ else default

theorem RecvAnswer.data_store {size : ℕ} {data : List UInt8} (h : data.length ≤ size) :
    (store data : RecvAnswer size).data = data := by
  rw [store, dif_pos h]

/-- The answer of a `recv` that fails. -/
def RecvAnswer.failed {size : ℕ} : RecvAnswer size := ⟨-1, [], rfl, Nat.zero_le _⟩

/-- The answer of a `send` that returns `r`, or `len` where `r` is larger. -/
def SendAnswer.upTo {len : ℕ} (r : ℤ) : SendAnswer len := ⟨min r len, min_le_right _ _⟩

instance (c : Call) : Nonempty (Api.Answer c) := by
  cases c <;> exact ⟨default⟩

/-- An environment in which nothing fails but what its arguments say: the `i`-th call,
if it is a `recv`, stores `recvs i`, and if it is a `send`, returns `sends i`. -/
def scripted (recvs : ℕ → List UInt8) (sends : ℕ → ℤ) : Environment Api
  | _, .socket => .handle 0
  | i, .accept _ => .handle i
  | i, .recv _ _ _ => .store (recvs i)
  | i, .send _ _ => .upTo (sends i)
  | _, .bind _ _ => (0 : ℤ)
  | _, .listen _ _ => (0 : ℤ)
  | _, .connect _ _ => (0 : ℤ)
  | _, .setsockopt _ _ => (0 : ℤ)
  | _, .shutdown _ => (0 : ℤ)
  | _, .closesocket _ => (0 : ℤ)
  | i, .xTaskGetTickCount => UInt32.ofNat i
  | i, .xApplicationGetRandomNumber => UInt32.ofNat i
  | _, .printf _ | _, .vTaskDelay _ | _, .taskEnterCritical | _, .taskExitCritical
  | _, .portNOP | _, .increment _ _ => ()

/-! ## Issuing the calls -/

@[simp] def socket : Program Api Socket := .call .socket .ret
@[simp] def bind (s : Socket) (address : SockAddr) : Program Api ℤ := .call (.bind s address) .ret
@[simp] def listen (s : Socket) (n : ℕ) : Program Api ℤ := .call (.listen s n) .ret
@[simp] def accept (s : Socket) : Program Api Socket := .call (.accept s) .ret
@[simp] def connect (s : Socket) (address : SockAddr) : Program Api ℤ :=
  .call (.connect s address) .ret
@[simp] def setsockopt (s : Socket) (o : SockOpt) : Program Api ℤ := .call (.setsockopt s o) .ret
@[simp] def recv (s : Socket) (offset size : ℕ) : Program Api (RecvAnswer size) :=
  .call (.recv s offset size) .ret
@[simp] def send (s : Socket) (data : List UInt8) : Program Api (SendAnswer data.length) :=
  .call (.send s data) .ret
@[simp] def shutdown (s : Socket) : Program Api ℤ := .call (.shutdown s) .ret
@[simp] def closesocket (s : Socket) : Program Api ℤ := .call (.closesocket s) .ret
@[simp] def printf (text : List UInt8) : Program Api Unit := .call (.printf text) .ret
@[simp] def vTaskDelay (ticks : UInt32) : Program Api Unit := .call (.vTaskDelay ticks) .ret
@[simp] def xTaskGetTickCount : Program Api UInt32 := .call .xTaskGetTickCount .ret
@[simp] def xApplicationGetRandomNumber : Program Api UInt32 :=
  .call .xApplicationGetRandomNumber .ret
@[simp] def taskEnterCritical : Program Api Unit := .call .taskEnterCritical .ret
@[simp] def taskExitCritical : Program Api Unit := .call .taskExitCritical .ret
@[simp] def portNOP : Program Api Unit := .call .portNOP .ret
@[simp] def increment (counter : Counter) (xInstance : ℕ) : Program Api Unit :=
  .call (.increment counter xInstance) .ret

/-! ## What a trace shows -/

/-- The bytes a call has received. -/
def received : Event Api → List UInt8
  | ⟨.recv _ _ _, a⟩ => a.data
  | _ => []

/-- The bytes a call got accepted for transmission. -/
def accepted : Event Api → List UInt8
  | ⟨.send _ _, a⟩ => a.accepted
  | _ => []

def receivedBytes (tr : Trace Api) : List UInt8 := tr.flatMap received
def acceptedBytes (tr : Trace Api) : List UInt8 := tr.flatMap accepted

@[simp] theorem receivedBytes_nil : receivedBytes [] = [] := rfl
@[simp] theorem acceptedBytes_nil : acceptedBytes [] = [] := rfl
@[simp] theorem receivedBytes_append (tr tr' : Trace Api) :
    receivedBytes (tr ++ tr') = receivedBytes tr ++ receivedBytes tr' := List.flatMap_append
@[simp] theorem acceptedBytes_append (tr tr' : Trace Api) :
    acceptedBytes (tr ++ tr') = acceptedBytes tr ++ acceptedBytes tr' := List.flatMap_append
@[simp] theorem receivedBytes_cons (e : Event Api) (tr : Trace Api) :
    receivedBytes (e :: tr) = received e ++ receivedBytes tr := rfl
@[simp] theorem acceptedBytes_cons (e : Event Api) (tr : Trace Api) :
    acceptedBytes (e :: tr) = accepted e ++ acceptedBytes tr := rfl

/-- The bytes a `send` was given, and what it returned. -/
def sendOf : Event Api → List (List UInt8 × ℤ)
  | ⟨.send _ data, r⟩ => [(data, r.result)]
  | _ => []

def sends (tr : Trace Api) : List (List UInt8 × ℤ) := tr.flatMap sendOf

@[simp] theorem sends_nil : sends [] = [] := rfl
@[simp] theorem sends_append (tr tr' : Trace Api) : sends (tr ++ tr') = sends tr ++ sends tr' :=
  List.flatMap_append
@[simp] theorem sends_cons (e : Event Api) (tr : Trace Api) :
    sends (e :: tr) = sendOf e ++ sends tr := rfl

/-- The socket a `closesocket` has closed. -/
def closedSocket : Event Api → List Socket
  | ⟨.closesocket s, _⟩ => [s]
  | _ => []

def closedSockets (tr : Trace Api) : List Socket := tr.flatMap closedSocket

@[simp] theorem closedSockets_nil : closedSockets [] = [] := rfl
@[simp] theorem closedSockets_append (tr tr' : Trace Api) :
    closedSockets (tr ++ tr') = closedSockets tr ++ closedSockets tr' := List.flatMap_append
@[simp] theorem closedSockets_cons (e : Event Api) (tr : Trace Api) :
    closedSockets (e :: tr) = closedSocket e ++ closedSockets tr := rfl

/-- No `send` accepts more than it was given. -/
theorem le_length_of_mem_sends {tr : Trace Api} {s : List UInt8 × ℤ} (h : s ∈ sends tr) :
    s.2 ≤ s.1.length := by
  obtain ⟨⟨c, r⟩, -, hs⟩ := List.mem_flatMap.mp h
  cases c <;> simp only [sendOf, List.mem_singleton, List.not_mem_nil] at hs
  rw [hs]
  exact r.fits

/-- The accepted bytes are those of the sends. -/
theorem acceptedBytes_eq (tr : Trace Api) :
    acceptedBytes tr = (sends tr).flatMap fun s => s.1.take s.2.toNat := by
  rw [sends, List.flatMap_assoc]
  refine List.flatMap_congr fun e _ => ?_
  obtain ⟨c, r⟩ := e
  cases c <;> simp [accepted, sendOf, SendAnswer.accepted]

/-! ## The sockets a task holds

Handles are compared in the order in which they were obtained, so it makes no difference
whether the address of a closed socket is handed out again.
-/

/-- The handle a call of `socket` has returned. -/
def obtainedHandle : Event Api → List Socket
  | ⟨.socket, s⟩ => if s = .invalid then [] else [s]
  | _ => []

/-- The handles obtained so far, oldest first. -/
def obtained (tr : Trace Api) : List Socket := tr.flatMap obtainedHandle

/-- The socket a call is made on. -/
def usedSocket : Call → Option Socket
  | .bind s _ | .listen s _ | .accept s | .connect s _ | .setsockopt s _ | .recv s _ _
  | .send s _ | .shutdown s | .closesocket s => some s
  | _ => none

/-- The handle is a valid one, and it is the one handle that is open: it was obtained last,
and those before it are closed. -/
def IsOpen (tr : Trace Api) (s : Socket) : Prop :=
  s ≠ .invalid ∧ obtained tr = closedSockets tr ++ [s]

section Held
variable (tr tr' : Trace Api) (e : Event Api)

@[simp] theorem obtained_nil : obtained [] = [] := rfl
@[simp] theorem obtained_append : obtained (tr ++ tr') = obtained tr ++ obtained tr' :=
  List.flatMap_append
@[simp] theorem obtained_cons : obtained (e :: tr) = obtainedHandle e ++ obtained tr := rfl

variable {tr e}

/-- A call that obtains and closes nothing leaves the socket open. -/
theorem IsOpen.snoc {s : Socket} (h : IsOpen tr s) (hobtained : obtainedHandle e = [])
    (hclosed : closedSocket e = []) : IsOpen (tr ++ [e]) s :=
  ⟨h.1, by simp [hobtained, hclosed, h.2]⟩

/-- Where the handles obtained are those closed but the last, at most one is open, and
handles are closed in the order in which they were obtained. -/
theorem at_most_one_open
    (h : obtained tr = closedSockets tr ∨ ∃ s, obtained tr = closedSockets tr ++ [s]) :
    (obtained tr).length ≤ (closedSockets tr).length + 1 ∧ closedSockets tr <+: obtained tr := by
  rcases h with heq | ⟨s, heq⟩ <;> rw [heq]
  · exact ⟨Nat.le_succ _, List.prefix_rfl⟩
  · exact ⟨by rw [List.length_append, List.length_singleton], List.prefix_append _ _⟩

end Held

/-! ## Times -/

/-- `configTICK_RATE_HZ` -/
def configTickRateHz : UInt32 := 1000

/-- `pdMS_TO_TICKS` -/
def pdMsToTicks (ms : UInt32) : UInt32 := ms * configTickRateHz / 1000

/-- `portMAX_DELAY` with 32-bit ticks. -/
def portMaxDelay : UInt32 := 0xffffffff

/-! ## Assertions -/

/-- The loop heads of a task that uses `configASSERT`: those of its own code, and the
loop of `vAssertCalled`, with the place its return would lead to. -/
inductive Label (Loc : Type) where
  | code (l : Loc)
  | vAssertCalled (looping : UInt32) (resume : Loc)

/-- `configASSERT( x )` in front of the code at `l`. `vAssertCalled` starts with
`looping = 0` inside a critical section. -/
def configASSERT {Loc : Type} (x : Bool) (l : Loc) : Program Api (Label Loc) :=
  if x then pure (.code l)
  else do
    taskEnterCritical
    pure (.vAssertCalled 0 l)

/-- The loop of `vAssertCalled`, which nothing but a debugger ends. -/
def vAssertCalled {Loc : Type} (looping : UInt32) (resume : Loc) : Program Api (Label Loc) :=
  if looping = 0 then do
    portNOP
    pure (.vAssertCalled looping resume)
  else do
    taskExitCritical
    pure (.code resume)

/-- A task whose code between two loop heads is `body`. -/
@[reducible] def taskOf {Loc : Type} (start : Loc) (body : Loc → Program Api (Label Loc)) :
    Task Api where
  Label := Label Loc
  start := .code start
  body
    | .code l => body l
    | .vAssertCalled looping resume => vAssertCalled looping resume

theorem vAssertCalled_step {Loc : Type} {looping : UInt32} {resume : Loc} {evs : Trace Api}
    {l : Label Loc} (h : (vAssertCalled looping resume).Issues evs l) :
    (looping = 0 ∧ l = .vAssertCalled looping resume ∧ evs = [⟨.portNOP, ()⟩]) ∨
      (looping ≠ 0 ∧ l = .code resume ∧ evs = [⟨.taskExitCritical, ()⟩]) := by
  by_cases h0 : looping = 0
  · simp [vAssertCalled, h0] at h
    obtain ⟨⟨_, rfl⟩, rfl⟩ := h
    exact .inl ⟨h0, by rw [h0], rfl⟩
  · simp [vAssertCalled, h0] at h
    obtain ⟨⟨_, rfl⟩, rfl⟩ := h
    exact .inr ⟨h0, rfl, rfl⟩

/-- Once a task is in `vAssertCalled` it stays there, and only executes `portNOP`. -/
theorem vAssertCalled_hangs {Loc : Type} {start : Loc} {body : Loc → Program Api (Label Loc)}
    {env : Environment Api} {k : ℕ} {l : Loc} {tr : Trace Api}
    (h : (taskOf start body).head env k = (.vAssertCalled 0 l, tr)) (n : ℕ) :
    (taskOf start body).head env (k + n) =
      (.vAssertCalled 0 l, tr ++ List.replicate n ⟨.portNOP, ()⟩) := by
  induction n with
  | zero => simpa using h
  | succ n ih =>
    rw [← Nat.add_assoc, Task.head_succ, ih]
    simp [vAssertCalled, List.replicate_succ']

end TcpDemo.FreeRTOS
