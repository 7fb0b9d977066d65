import TcpDemo.FreeRTOS
import TcpDemo.Lib.Trace

/-!
# The echo client task

`prvEchoClientTask` and `prvCreateTxData` from `TCPEchoClient_SingleTasks.c`, cut at
their loop heads: the outer loop that connects, the loop that draws a length, the loop
that receives the reply, and the loop that drains the socket. A `configASSERT` may end
in the loop of `vAssertCalled`, so the code behind one starts at a label of its own.

The maximum segment size is not configured in the repository, which leaves it to
FreeRTOS+TCP; the task is modelled for every size that leaves room for a request.
-/

namespace TcpDemo.EchoClient
open Interaction CBytes FreeRTOS.Call

/-- `ipconfigTCP_MSS`. The random length of a request is at least 60 and below this size
less 20. -/
structure Mss where
  ipconfigTcpMss : ℕ
  large : 81 ≤ ipconfigTcpMss
  word : ipconfigTcpMss < 2 ^ 31

/-- The size FreeRTOS+TCP takes by default for a network MTU of 1500. -/
def defaultMss : Mss := ⟨1460, by decide, by decide⟩

/-- `echoBUFFER_SIZES`, with `echoBUFFER_SIZE_MULTIPLIER` one. -/
def Mss.echoBufferSizes (mss : Mss) : ℕ := mss.ipconfigTcpMss * 1

/-- `echoLOOP_DELAY`, with `portTICK_PERIOD_MS` one. -/
def echoLoopDelay : UInt32 := 150 / (1000 / FreeRTOS.configTickRateHz)

/-- `xReceiveTimeOut` and `xSendTimeOut` -/
def xReceiveTimeOut : UInt32 := FreeRTOS.pdMsToTicks 4000
def xSendTimeOut : UInt32 := FreeRTOS.pdMsToTicks 2000

/-- `lMaxLoopCount` -/
def lMaxLoopCount : ℤ := 1

/-- `lMinimumLength` -/
def lMinimumLength : ℤ := 60

/-- `xEchoServerAddress`: `configECHO_SERVER_ADDR0` to `3`, and `echoECHO_PORT`. -/
def xEchoServerAddress : FreeRTOS.SockAddr := ⟨(10, 0, 0, 1), 7⟩

/-- `xWinProps` -/
def xWinProps (mss : Mss) : FreeRTOS.SockOpt :=
  .winProperties (6 * mss.ipconfigTcpMss) 3 (6 * mss.ipconfigTcpMss) 3

/-- `"TxRx message number %lu"` -/
def header (ulTxCount : UInt32) : List UInt8 :=
  ascii "TxRx message number " ++ decimal ulTxCount.toNat

/-- The texts of the log. -/
def connecting : List UInt8 := ascii "connecting to echo server....\n"
def connected : List UInt8 := ascii "Connected to server.. \n"
def couldNotConnect (ret : ℤ) : List UInt8 :=
  ascii "Could not connect to server " ++ decimalInt ret ++ ascii "\n"
def sending (lStringLength : ℤ) (size : ℕ) : List UInt8 :=
  ascii "sending data to the echo server size " ++ decimalInt lStringLength ++
    ascii " original " ++ decimal size ++ ascii "\n"
def sendReturned (lTransmitted : ℤ) : List UInt8 :=
  ascii "FreeRTOS_send returned...transmitted " ++ decimalInt lTransmitted ++ ascii "\n"
def receivingData : List UInt8 := ascii "data send receiving data... \n"

/-- The variables of the task that are live across its loop heads. -/
structure Vars (mss : Mss) where
  xSocket : FreeRTOS.Socket
  lLoopCount : ℤ
  ulTxCount : UInt32
  xReceivedBytes : ℤ
  lTransmitted : ℤ
  lStringLength : ℤ
  pcTransmittedString : Buffer mss.echoBufferSizes
  pcReceivedString : Buffer mss.echoBufferSizes
  xTimeOnEntering : UInt32

/-- The loop heads of the task, and the places behind its assertions. -/
inductive Loc (mss : Mss) where
  | connecting (v : Vars mss)
  | created (v : Vars mss)
  | drawing (v : Vars mss)
  | receiving (v : Vars mss)
  | compared (v : Vars mss)
  | draining (v : Vars mss)

section Code
variable {mss : Mss}

/-- The fill loop of `prvCreateTxData`: the bytes it writes, from the character `cChar`
on. -/
def fill : ℕ → UInt8 → List UInt8
  | 0, _ => []
  | n + 1, cChar => cChar :: fill n (if cChar + 1 > byte '~' then byte '0' else cChar + 1)

/-- The length `prvCreateTxData` draws, before it is tested. -/
def lCharactersToAdd (ulRandomNumber ulBufferLength : UInt32) : ℤ :=
  (ulRandomNumber % (ulBufferLength - 20)).toInt32.toInt

/-- What `sprintf` stores. -/
def sprintfStored (formatted : List UInt8) : List UInt8 := formatted ++ [0]

/-- Behind the branches on the result of `connect`: close the socket and go round. -/
def close (v : Vars mss) : Program FreeRTOS.Api (FreeRTOS.Label (Loc mss)) := do
  let _ ← FreeRTOS.closesocket v.xSocket
  FreeRTOS.vTaskDelay echoLoopDelay
  pure (.code (.connecting v))

/-- Behind the loop that sends requests: shut the connection down and start to drain. -/
def finish (v : Vars mss) : Program FreeRTOS.Api (FreeRTOS.Label (Loc mss)) := do
  let _ ← FreeRTOS.shutdown v.xSocket
  let xTimeOnEntering ← FreeRTOS.xTaskGetTickCount
  pure (.code (.draining { v with xTimeOnEntering }))

/-- The test of the loop that sends requests. -/
def nextRequest (v : Vars mss) : Program FreeRTOS.Api (FreeRTOS.Label (Loc mss)) :=
  if v.lLoopCount < lMaxLoopCount then pure (.code (.drawing v)) else finish v

/-- Behind the draw of the length: fill the buffer, add the header and send. -/
def sendRequest (v : Vars mss) (lStringLength : ℤ) :
    Program FreeRTOS.Api (FreeRTOS.Label (Loc mss)) := do
  let filled := v.pcTransmittedString.write 0 (fill lStringLength.toNat (byte '0'))
  let pcTransmittedString := filled.write 0 (sprintfStored (header v.ulTxCount))
  let v := { v with
    lStringLength
    pcTransmittedString
    ulTxCount := v.ulTxCount + 1 }
  FreeRTOS.printf (sending lStringLength mss.echoBufferSizes)
  let lTransmitted ← FreeRTOS.send v.xSocket
    (v.pcTransmittedString.bytes.take v.lStringLength.toNat)
  FreeRTOS.printf (sendReturned lTransmitted.result)
  let v := { v with lTransmitted := lTransmitted.result }
  if v.lTransmitted < 0 then finish v
  else do
    FreeRTOS.printf receivingData
    pure (.code (.receiving { v with
      pcReceivedString := .replicate mss.echoBufferSizes 0
      xReceivedBytes := 0 }))

/-- The comparison of the reply with the request. -/
def compare (v : Vars mss) : ℤ :=
  strncmp v.pcReceivedString.bytes v.pcTransmittedString.bytes v.lTransmitted.toNat

/-- Behind the loop that receives the reply. -/
def replied (v : Vars mss) : Program FreeRTOS.Api (FreeRTOS.Label (Loc mss)) :=
  if 0 < v.xReceivedBytes then FreeRTOS.configASSERT (compare v = 0) (.compared v)
  else finish v

/-- The code of instance `xInstance` of `prvEchoClientTask` from each loop head to the
next. -/
def body (xInstance : ℕ) : Loc mss → Program FreeRTOS.Api (FreeRTOS.Label (Loc mss))
  | .connecting v => do
      let xSocket ← FreeRTOS.socket
      FreeRTOS.configASSERT (xSocket ≠ .invalid) (.created { v with xSocket })
  | .created v => do
      let _ ← FreeRTOS.setsockopt v.xSocket (.rcvTimeo xReceiveTimeOut)
      let _ ← FreeRTOS.setsockopt v.xSocket (.sndTimeo xSendTimeOut)
      let _ ← FreeRTOS.setsockopt v.xSocket (xWinProps mss)
      FreeRTOS.printf connecting
      let ret ← FreeRTOS.connect v.xSocket xEchoServerAddress
      if ret = 0 then do
        FreeRTOS.printf connected
        FreeRTOS.increment .ulConnections xInstance
        nextRequest { v with lLoopCount := 0 }
      else do
        FreeRTOS.printf (couldNotConnect ret)
        close v
  | .drawing v => do
      let ulRandomNumber ← FreeRTOS.xApplicationGetRandomNumber
      let lCharactersToAdd := lCharactersToAdd ulRandomNumber (.ofNat mss.echoBufferSizes)
      if lCharactersToAdd = 0 ∨ lCharactersToAdd < lMinimumLength then pure (.code (.drawing v))
      else sendRequest v lCharactersToAdd
  | .receiving v =>
      if v.xReceivedBytes < v.lTransmitted then do
        let xReturned ← FreeRTOS.recv v.xSocket v.xReceivedBytes.toNat
          (v.lStringLength - v.xReceivedBytes).toNat
        let v := { v with
          pcReceivedString := v.pcReceivedString.write v.xReceivedBytes.toNat xReturned.data }
        -- an error and a time-out both leave the loop, with different `xReceivedBytes`
        if xReturned.result < 0 then replied { v with xReceivedBytes := xReturned.result }
        else if xReturned.result = 0 then replied v
        else pure (.code (.receiving { v with
          xReceivedBytes := v.xReceivedBytes + xReturned.result }))
      else replied v
  | .compared v =>
      if compare v = 0 then do
        FreeRTOS.increment .ulTxRxCycles xInstance
        nextRequest { v with lLoopCount := v.lLoopCount + 1 }
      else do
        FreeRTOS.increment .ulTxRxFailures xInstance
        finish v
  | .draining v => do
      let xReturned ← FreeRTOS.recv v.xSocket 0 mss.echoBufferSizes
      let v := { v with pcReceivedString := v.pcReceivedString.write 0 xReturned.data }
      if xReturned.result < 0 then close v
      else do
        let xTickCount ← FreeRTOS.xTaskGetTickCount
        if xTickCount - v.xTimeOnEntering < xReceiveTimeOut then pure (.code (.draining v))
        else close v

/-- Instance `xInstance` of the task, started with arbitrary bytes in its buffers. -/
def prvEchoClientTask (xInstance : ℕ) (cTxBuffer cRxBuffer : Buffer mss.echoBufferSizes) :
    Task FreeRTOS.Api :=
  FreeRTOS.taskOf (.connecting ⟨.invalid, 0, 0, 0, 0, 0, cTxBuffer, cRxBuffer, 0⟩)
    (body xInstance)

end Code

end TcpDemo.EchoClient
