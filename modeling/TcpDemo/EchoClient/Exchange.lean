import TcpDemo.EchoClient.Steps

/-!
# Exchanges of the echo client

An exchange is what the client issues from the `send` of a request until it starts to
drain the socket. While the client waits, its receive buffer holds the reply so far and
zeros behind it (`Waiting`); an exchange that is over has been counted if and only if
some reply arrived without an error (`Decided`), since a reply that compares different
leads to the assertion hook and stays there. At any moment in between, an exchange has been
counted if and only if the comparison has passed (`Balanced`).
-/

namespace TcpDemo.EchoClient
open Interaction Traces CBytes FreeRTOS FreeRTOS.Call

/-! ## What an exchange shows -/

/-- An exchange starts with a `send` and ends when the client notes the time at which it
starts to drain. -/
def boundary : Event Api → Option (Option Request)
  | ⟨.send _ data, a⟩ => some (some ⟨data, a.result⟩)
  | ⟨.xTaskGetTickCount, _⟩ => some none
  | _ => none

/-- The exchanges of a trace, each with its request and what was issued for it. -/
def exchanges (tr : Trace Api) : List (Request × Trace Api) := intervals boundary tr

/-- A `recv` that returned an error. -/
def failedRecv : Event Api → Bool
  | ⟨.recv _ _ _, a⟩ => a.result < 0
  | _ => false

/-- A `recv` that timed out. -/
def emptyRecv : Event Api → Bool
  | ⟨.recv _ _ _, a⟩ => a.result = 0
  | _ => false

def isShutdown : Event Api → Bool
  | ⟨.shutdown _, _⟩ => true
  | _ => false

/-- An increment of this counter, in whichever instance; a client only makes its own. -/
def isIncrement (counter : Counter) : Event Api → Bool
  | ⟨.increment c _, _⟩ => c = counter
  | _ => false

/-- The result of `strncmp` for this reply, in a receive buffer that was cleared. -/
def check (req : Request) (reply : List UInt8) : ℤ :=
  strncmp (reply ++ List.replicate req.data.length 0) req.data req.lTransmitted.toNat

def isRecv : Event Api → Bool
  | ⟨.recv _ _ _, _⟩ => true
  | _ => false

/-- The client has left the reply loop, since its last call is not a `recv`, and the reply has
come without an error and compares equal. -/
def isEchoed (x : Request × Trace Api) : Bool :=
  x.2.getLast?.any (fun e => !isRecv e) ∧ x.2.any failedRecv = false ∧ receivedBytes x.2 ≠ [] ∧
    check x.1 (receivedBytes x.2) = 0

/-- At no moment of the exchange so far has it been echoed. -/
def Unechoed (req : Request) (evs : Trace Api) : Prop :=
  ∀ pre, pre <+: evs → isEchoed (req, pre) = false

/-- At every moment of the exchange so far, a cycle was counted if and only if it had been
echoed. -/
def Balanced (req : Request) (evs : Trace Api) : Prop :=
  ∀ pre, pre <+: evs →
    pre.countP (isIncrement .ulTxRxCycles) = if isEchoed (req, pre) then 1 else 0

/-- The exchange `req` is under way, and its reply so far is stored. -/
structure Waiting {mss : Mss} (v : Vars mss) (req : Request) (evs : Trace Api) : Prop where
  isRequest : IsRequest req.data
  lLoopCount : v.lLoopCount = 0
  lStringLength : v.lStringLength = req.data.length
  lTransmitted : v.lTransmitted = req.lTransmitted
  accepted_le : req.lTransmitted ≤ req.data.length
  transmitted : v.pcTransmittedString.bytes.take req.data.length = req.data
  fits : req.data.length ≤ mss.echoBufferSizes
  reply_le : (receivedBytes evs).length ≤ req.data.length
  stored : v.pcReceivedString.bytes = receivedBytes evs ++
    List.replicate (mss.echoBufferSizes - (receivedBytes evs).length) 0
  noError : evs.any failedRecv = false
  notEnded : evs.any isShutdown = false
  uncounted : ∀ c, evs.countP (isIncrement c) = 0
  unechoed : Unechoed req evs

/-- What an exchange looks like when it is over. -/
structure Decided (req : Request) (evs : Trace Api) : Prop where
  isRequest : IsRequest req.data
  accepted_le : req.lTransmitted ≤ req.data.length
  ended : evs.any isShutdown
  counted : evs.countP (isIncrement .ulTxRxCycles) =
    if evs.any failedRecv = false ∧ receivedBytes evs ≠ [] then 1 else 0
  agrees : evs.any failedRecv = false → receivedBytes evs ≠ [] →
    check req (receivedBytes evs) = 0
  uncounted : evs.countP (isIncrement .ulTxRxFailures) = 0
  balanced : Balanced req evs

/-- The reply is over and compares different. -/
structure Mismatch (req : Request) (evs : Trace Api) : Prop where
  some : receivedBytes evs ≠ []
  noError : evs.any failedRecv = false
  complete : req.lTransmitted ≤ (receivedBytes evs).length ∨ evs.any emptyRecv
  differs : check req (receivedBytes evs) ≠ 0

/-- An entry that is no part of the reply. -/
theorem Mismatch.snoc {req : Request} {evs : Trace Api} (h : Mismatch req evs) {e : Event Api}
    (hrecv : received e = []) (hfailed : failedRecv e = false) (hempty : emptyRecv e = false) :
    Mismatch req (evs ++ [e]) where
  some := by simpa [hrecv] using h.some
  noError := by simp [hfailed, h.noError]
  complete := by simpa [hrecv, hempty] using h.complete
  differs := by simpa [hrecv] using h.differs

/-! ## What an exchange counts -/

section Balanced
variable {req : Request} {evs : Trace Api} {e : Event Api}

theorem Unechoed.snoc (h : Unechoed req evs) (he : isEchoed (req, evs ++ [e]) = false) :
    Unechoed req (evs ++ [e]) := by
  intro pre hpre
  rcases List.prefix_concat_iff.mp hpre with rfl | hpre
  · exact he
  · exact h pre hpre

/-- Without a reply there is no echo. -/
theorem unechoed_of_nil (h : receivedBytes evs = []) : Unechoed req evs := by
  rintro pre ⟨rest, rfl⟩
  rw [receivedBytes_append, List.append_eq_nil_iff] at h
  simp [isEchoed, h.1]

theorem isEchoed_recv (s : Socket) (offset size : ℕ) (a : RecvAnswer size) :
    isEchoed (req, evs ++ [⟨.recv s offset size, a⟩]) = false := by
  simp [isEchoed, isRecv]

theorem Balanced.snoc (h : Balanced req evs)
    (he : (evs ++ [e]).countP (isIncrement .ulTxRxCycles) =
      if isEchoed (req, evs ++ [e]) then 1 else 0) : Balanced req (evs ++ [e]) := by
  intro pre hpre
  rcases List.prefix_concat_iff.mp hpre with rfl | hpre
  · exact he
  · exact h pre hpre

/-- As long as there is no echo, nothing is to be counted. -/
theorem Unechoed.balanced (h : Unechoed req evs)
    (hcount : evs.countP (isIncrement .ulTxRxCycles) = 0) : Balanced req evs := by
  intro pre hpre
  have hle := hpre.sublist.countP_le (p := isIncrement .ulTxRxCycles)
  rw [h pre hpre, if_neg Bool.false_ne_true]
  omega

end Balanced

/-! ## Storing the reply -/

section Waiting
variable {mss : Mss} {v : Vars mss} {req : Request} {evs : Trace Api}

/-- The comparison sees the reply and zeros behind it. -/
theorem Waiting.compare_eq (h : Waiting v req evs) :
    compare v = check req (receivedBytes evs) := by
  have hle := h.accepted_le
  have hfits := h.fits
  rw [compare, check, h.lTransmitted, ← strncmp_take, ← strncmp_take _ req.data]
  congr 1
  · rw [h.stored, List.take_append, List.take_append, List.take_replicate, List.take_replicate]
    congr 2
    omega
  · rw [← h.transmitted, List.take_take]
    congr 1
    omega

/-- An entry that is no part of a reply that compares different, and counts nothing. -/
theorem Waiting.snoc (h : Waiting v req evs) (hdiffers : check req (receivedBytes evs) ≠ 0)
    {e : Event Api} (hrecv : received e = []) (hfailed : failedRecv e = false)
    (hover : isShutdown e = false) (hcount : ∀ c, isIncrement c e = false) :
    Waiting v req (evs ++ [e]) where
  isRequest := h.isRequest
  lLoopCount := h.lLoopCount
  lStringLength := h.lStringLength
  lTransmitted := h.lTransmitted
  accepted_le := h.accepted_le
  transmitted := h.transmitted
  fits := h.fits
  reply_le := by simpa [hrecv] using h.reply_le
  stored := by simpa [hrecv] using h.stored
  noError := by simp [hfailed, h.noError]
  notEnded := by simp [hover, h.notEnded]
  uncounted c := by simp [hcount c, h.uncounted c]
  unechoed := h.unechoed.snoc (by simp [isEchoed, hrecv, hdiffers])

/-- A `recv` without an error stores its bytes behind the reply so far. -/
theorem Waiting.recv (h : Waiting v req evs) {s : Socket} {size : ℕ} (a : RecvAnswer size)
    (hcount : v.xReceivedBytes = (receivedBytes evs).length)
    (hsize : size = (v.lStringLength - v.xReceivedBytes).toNat) (ha : 0 ≤ a.result) (n : ℤ) :
    Waiting (EchoClient.stored v a.data n) req
      (evs ++ [⟨.recv s v.xReceivedBytes.toNat size, a⟩]) := by
  have hreply : receivedBytes (evs ++ [⟨.recv s v.xReceivedBytes.toNat size, a⟩]) =
      receivedBytes evs ++ a.data := by simp [received]
  have hdata : a.data.length ≤ req.data.length - (receivedBytes evs).length := by
    have hfit := a.fits
    have hlen := h.lStringLength
    omega
  have hle := h.reply_le
  have hfits := h.fits
  refine ⟨h.isRequest, h.lLoopCount, h.lStringLength, h.lTransmitted, h.accepted_le,
    h.transmitted, h.fits, ?_, ?_, ?_, ?_, ?_, h.unechoed.snoc (isEchoed_recv s _ size a)⟩
  · rw [hreply, List.length_append]
    omega
  · have hoff : v.xReceivedBytes.toNat = (receivedBytes evs).length := by omega
    rw [hreply]
    simp only [EchoClient.stored, hoff]
    rw [Buffer.bytes_write _ (by omega), h.stored, List.take_left, List.drop_append,
      List.drop_eq_nil_of_le (by omega), List.nil_append, List.drop_replicate,
      List.length_append]
    congr 2
    omega
  · simp [failedRecv, h.noError, ha]
  · simp [isShutdown, h.notEnded]
  · intro c
    simp [isIncrement, h.uncounted c]

/-- Nothing is counted where there is no reply, or an error. -/
theorem decided_of_uncounted {evs : Trace Api} (hreq : IsRequest req.data)
    (hle : req.lTransmitted ≤ req.data.length)
    (hnone : evs.any failedRecv = true ∨ receivedBytes evs = [])
    (hcount : ∀ c, evs.countP (isIncrement c) = 0) (hopen : Unechoed req evs)
    (s : Socket) (r : ℤ) :
    Decided req (evs ++ [⟨.shutdown s, r⟩]) where
  isRequest := hreq
  accepted_le := hle
  ended := by simp [isShutdown]
  counted := by
    rcases hnone with hfail | hnil
    · simp [isIncrement, hcount, failedRecv, hfail]
    · simp [isIncrement, hcount, received, hnil]
  agrees := by
    intro hno hsome
    rcases hnone with hfail | hnil
    · simp [hfail] at hno
    · simp [received, hnil] at hsome
  uncounted := by simp [isIncrement, hcount]
  balanced := by
    refine (hopen.snoc ?_).balanced (by simp [isIncrement, hcount])
    rcases hnone with hfail | hnil
    · simp [isEchoed, hfail]
    · simp [isEchoed, received, hnil]

/-- A reply that compares equal is counted. -/
theorem Waiting.decided_counted (h : Waiting v req evs) (hsome : receivedBytes evs ≠ [])
    (hcheck : check req (receivedBytes evs) = 0) (x : ℕ) (s : Socket) (r : ℤ) :
    Decided req (evs ++ [⟨increment .ulTxRxCycles x, ()⟩, ⟨.shutdown s, r⟩]) where
  isRequest := h.isRequest
  accepted_le := h.accepted_le
  ended := by simp [isShutdown]
  counted := by simp [isIncrement, h.uncounted, failedRecv, h.noError, received, hsome]
  agrees _ _ := by simpa [received] using hcheck
  uncounted := by simp [isIncrement, h.uncounted]
  balanced := by
    rw [List.append_cons]
    refine ((h.unechoed.balanced (h.uncounted _)).snoc ?_).snoc ?_ <;>
      simp [isEchoed, isIncrement, isRecv, failedRecv, received, h.uncounted, h.noError, hsome,
        hcheck]

end Waiting

/-! ## The invariant -/

/-- The loop invariant: an exchange is under way in the reply loop, behind its assertion,
and in the assertion hook after a reply that compared different. -/
def ExchangeInv {mss : Mss} : FreeRTOS.Label (Loc mss) → Trace Api → Prop
  | .code (.receiving v), tr => ∃ req evs, Busy Decided boundary tr req evs ∧ Waiting v req evs ∧
      v.xReceivedBytes = (receivedBytes evs).length ∧ evs.any emptyRecv = false
  | .code (.compared v), tr => ∃ req evs, Busy Decided boundary tr req evs ∧ Waiting v req evs ∧
      receivedBytes evs ≠ [] ∧ check req (receivedBytes evs) = 0
  | .code (.drawing v), tr => v.lLoopCount = 0 ∧ Idle Decided boundary tr
  | .vAssertCalled looping (.compared v), tr => looping = 0 ∧ ∃ req evs,
      Busy Decided boundary tr req evs ∧ Waiting v req evs ∧ Mismatch req evs
  | .vAssertCalled looping (.created _), tr => looping = 0 ∧ Idle Decided boundary tr
  | .vAssertCalled _ _, _ => False
  | _, tr => Idle Decided boundary tr

section Invariant
variable {mss : Mss} {v : Vars mss} {req : Request} {tr evs evs' : Trace Api}
  {l' : FreeRTOS.Label (Loc mss)}

/-- An exchange ends when the client starts to drain. -/
theorem finish_inv (hbusy : Busy Decided boundary tr req evs)
    (hdecided : ∀ r, Decided req (evs ++ [⟨.shutdown v.xSocket, r⟩]))
    (h : (finish v).Issues evs' l') : ExchangeInv l' (tr ++ evs') := by
  obtain ⟨r, t, rfl, rfl⟩ := finish_step h
  have hlast := hbusy.append [⟨.shutdown v.xSocket, r⟩] (by simp [boundary])
  have hstop : boundary ⟨.xTaskGetTickCount, t⟩ = some none := rfl
  have hidle := hlast.stop (hdecided r) [] hstop (by simp)
  simpa [ExchangeInv] using hidle

/-- Behind a reply loop that ended without an error. -/
theorem replied_inv (hbusy : Busy Decided boundary tr req evs) (hw : Waiting v req evs)
    (hcount : v.xReceivedBytes = (receivedBytes evs).length)
    (hend : req.lTransmitted ≤ (receivedBytes evs).length ∨ evs.any emptyRecv)
    (h : (replied v).Issues evs' l') : ExchangeInv l' (tr ++ evs') := by
  rcases replied_step h with ⟨hpos, hcmp, rfl, rfl⟩ | ⟨hpos, hcmp, rfl, rfl⟩ | ⟨hle, h⟩
  · have hsome : receivedBytes evs ≠ [] := List.ne_nil_of_length_pos (by omega)
    exact ⟨req, evs, by simpa using hbusy, hw, hsome, by rw [← hw.compare_eq, hcmp]⟩
  · have hsome : receivedBytes evs ≠ [] := List.ne_nil_of_length_pos (by omega)
    have hlast := hbusy.append [⟨taskEnterCritical, ()⟩] (by simp [boundary])
    have hdiffers : check req (receivedBytes evs) ≠ 0 := by rwa [← hw.compare_eq]
    refine ⟨rfl, req, _, hlast, hw.snoc hdiffers rfl rfl rfl fun _ => rfl, ?_⟩
    exact Mismatch.snoc ⟨hsome, hw.noError, hend, hdiffers⟩ rfl rfl rfl
  · have hnil : receivedBytes evs = [] := List.eq_nil_of_length_eq_zero (by omega)
    exact finish_inv hbusy
      (decided_of_uncounted hw.isRequest hw.accepted_le (.inr hnil) hw.uncounted hw.unechoed _) h

/-- One pass of the reply loop. -/
theorem receiving_inv {x : ℕ} (hbusy : Busy Decided boundary tr req evs) (hw : Waiting v req evs)
    (hcount : v.xReceivedBytes = (receivedBytes evs).length) (hmore : evs.any emptyRecv = false)
    (h : (body x (.receiving v)).Issues evs' l') : ExchangeInv l' (tr ++ evs') := by
  rcases receiving_step h with ⟨hle, h⟩ | ⟨hlt, a, rest, rfl, hcases⟩
  · rw [hw.lTransmitted, hcount] at hle
    exact replied_inv hbusy hw hcount (.inl hle) h
  -- the exchange once the result of this `recv` is known
  have hlast := hbusy.append [⟨.recv v.xSocket v.xReceivedBytes.toNat
    (v.lStringLength - v.xReceivedBytes).toNat, a⟩] (by simp [boundary])
  rw [List.append_cons]
  rcases hcases with ⟨hneg, h⟩ | ⟨hzero, h⟩ | ⟨hpos, rfl, rfl⟩
  · rcases replied_step h with ⟨hpos, -⟩ | ⟨hpos, -⟩ | ⟨-, h⟩
    · exact absurd hpos (not_lt.mpr hneg.le)
    · exact absurd hpos (not_lt.mpr hneg.le)
    · refine finish_inv hlast (decided_of_uncounted hw.isRequest hw.accepted_le (.inl ?_) ?_
        (hw.unechoed.snoc (isEchoed_recv _ _ _ a)) _) h
      · simp [failedRecv, hneg]
      · intro c
        simp [isIncrement, hw.uncounted c]
  · refine replied_inv hlast (hw.recv a hcount rfl hzero.ge _) ?_ (.inr ?_) h
    · have hnil := RecvAnswer.data_eq_nil_iff.mpr hzero.le
      simp [EchoClient.stored, received, hnil, hcount]
    · simp [emptyRecv, hzero]
  · refine ⟨req, _, by simpa using hlast, hw.recv a hcount rfl hpos.le _, ?_, ?_⟩
    · have hlen := a.stored
      simp only [EchoClient.stored, receivedBytes_append, receivedBytes_cons, received,
        receivedBytes_nil, List.append_nil, List.length_append]
      omega
    · simp [emptyRecv, hmore, hpos.ne']

/-- A request is sent. -/
theorem sendRequest_inv {n : ℕ} (hidle : Idle Decided boundary tr) (hloop : v.lLoopCount = 0)
    (hn : 60 ≤ n) (hsize : n ≤ mss.echoBufferSizes) (h : (sendRequest v n).Issues evs' l') :
    ExchangeInv l' (tr ++ evs') := by
  obtain ⟨a, tx, rest, htx, rfl, hcases⟩ := sendRequest_step hn hsize h
  have hlen := length_request v.ulTxCount hn
  have hreq : IsRequest (request v.ulTxCount n) := ⟨_, n, hn, rfl⟩
  have htake : tx.bytes.take (request v.ulTxCount n).length = request v.ulTxCount n := by
    rw [hlen, htx]
  have hbefore := hidle.append [⟨printf (sending n mss.echoBufferSizes), ()⟩] (by simp [boundary])
  have hopen : boundary ⟨.send v.xSocket (request v.ulTxCount n), a⟩ =
      some (some ⟨request v.ulTxCount n, a.result⟩) := rfl
  have hbusy := hbefore.start [⟨printf (sendReturned a.result), ()⟩] hopen (by simp [boundary])
  have htr : tr ++ (sendEvents v n a ++ rest) =
      tr ++ [⟨printf (sending n mss.echoBufferSizes), ()⟩] ++
        ⟨.send v.xSocket (request v.ulTxCount n), a⟩ ::
          [⟨printf (sendReturned a.result), ()⟩] ++ rest := by
    simp [sendEvents]
  rw [htr]
  rcases hcases with ⟨hneg, h⟩ | ⟨hpos, rfl, rfl⟩
  · exact finish_inv hbusy
      (decided_of_uncounted hreq a.fits (.inr rfl) (fun _ => rfl) (unechoed_of_nil rfl) _) h
  · refine ⟨_, _, hbusy.append _ (by simp [boundary]), ?_, rfl, rfl⟩
    refine ⟨hreq, hloop, ?_, rfl, a.fits, ?_, ?_, ?_, ?_, rfl, rfl, fun _ => rfl,
      unechoed_of_nil rfl⟩
    · simp [awaiting, offered, hlen]
    · exact htake
    · rwa [hlen]
    · exact Nat.zero_le _
    · simp [awaiting, received]

/-- Behind the assertion, which held. -/
theorem compared_inv {x : ℕ} (hbusy : Busy Decided boundary tr req evs) (hw : Waiting v req evs)
    (hsome : receivedBytes evs ≠ []) (hcheck : check req (receivedBytes evs) = 0)
    (hstep : (body x (.compared v)).Issues evs' l') : ExchangeInv l' (tr ++ evs') := by
  rcases compared_step hstep with ⟨-, rest, rfl, h⟩ | ⟨hne, -⟩
  · have hlast := hbusy.append [⟨increment .ulTxRxCycles x, ()⟩] (by simp [boundary])
    rw [nextRequest, if_neg (by simp [hw.lLoopCount, lMaxLoopCount])] at h
    rw [List.append_cons]
    refine finish_inv hlast (fun r => ?_) h
    simpa using hw.decided_counted hsome hcheck x v.xSocket r
  · exact absurd (hw.compare_eq.trans hcheck) hne

/-- One pass of the drain loop: it reads the clock, or receives an error. -/
theorem draining_inv {x : ℕ} (h : Idle Decided boundary tr)
    (hstep : (body x (.draining v)).Issues evs l') : ExchangeInv l' (tr ++ evs) := by
  obtain ⟨a, b, hcases⟩ := draining_step (x := x) hstep
  have hrecv := h.append [⟨.recv v.xSocket 0 mss.echoBufferSizes, a⟩] (by simp [boundary])
  have hstop (t : UInt32) : boundary ⟨.xTaskGetTickCount, t⟩ = some none := rfl
  rcases hcases with ⟨t, -, rfl, rfl⟩ | ⟨ticks, r, hticks, rfl, rfl⟩
  · have hidle := hrecv.stop [] (hstop t) (by simp)
    simpa [ExchangeInv] using hidle
  · rw [List.append_cons]
    rcases hticks with ⟨-, rfl⟩ | ⟨t, -, rfl⟩
    · exact hrecv.append _ (by simp [boundary])
    · exact hrecv.stop _ (hstop t) (by simp [boundary])

/-- One pass of the loop of the assertion hook, which is never left. -/
theorem asserted_inv {looping : UInt32} {l : Loc mss}
    (h : ExchangeInv (.vAssertCalled looping l) tr)
    (hstep : (vAssertCalled looping l).Issues evs l') : ExchangeInv l' (tr ++ evs) := by
  cases l with
  | compared v =>
    obtain ⟨h0, req, evs, hbusy, hw, hmis⟩ := h
    rcases vAssertCalled_step hstep with ⟨-, rfl, rfl⟩ | ⟨hne, -, -⟩
    · exact ⟨h0, req, _, hbusy.append _ (by simp [boundary]),
        hw.snoc hmis.differs rfl rfl rfl fun _ => rfl, hmis.snoc rfl rfl rfl⟩
    · exact absurd h0 hne
  | created v =>
    rcases vAssertCalled_step hstep with ⟨h0, rfl, rfl⟩ | ⟨hne, -, -⟩
    · exact ⟨h0, h.2.append _ (by simp [boundary])⟩
    · exact absurd h.1 hne
  | connecting v => exact h.elim
  | drawing v => exact h.elim
  | receiving v => exact h.elim
  | draining v => exact h.elim

theorem exchangeInv_step (x : ℕ) (cTx cRx : Buffer mss.echoBufferSizes)
    (l : FreeRTOS.Label (Loc mss)) (tr evs : Trace Api) (l' : FreeRTOS.Label (Loc mss))
    (h : ExchangeInv l tr) (hstep : ((prvEchoClientTask x cTx cRx).body l).Issues evs l') :
    ExchangeInv l' (tr ++ evs) := by
  cases l with
  | vAssertCalled looping l => exact asserted_inv h hstep
  | code l =>
    cases l with
    | connecting v =>
      rcases connecting_step (x := x) hstep with ⟨s, rfl, rfl⟩ | ⟨rfl, rfl⟩
      · exact Idle.append h _ (by simp [boundary])
      · exact ⟨rfl, Idle.append h _ (by simp [boundary])⟩
    | created v =>
      rcases created_step hstep with ⟨o, rfl, rfl⟩ | ⟨o, ret, r, -, rfl, rfl⟩
      · exact ⟨rfl, Idle.append h _ (by simp [boundary, attempt])⟩
      · exact Idle.append h _ (by simp [boundary, attempt])
    | drawing v =>
      obtain ⟨hloop, hidle⟩ := h
      obtain ⟨r, rest, rfl, ⟨-, rfl, rfl⟩ | ⟨n, hn, hsize, hsend⟩⟩ := drawing_step (x := x) hstep
      · exact ⟨hloop, hidle.append _ (by simp [boundary])⟩
      · rw [List.append_cons]
        exact sendRequest_inv (hidle.append _ (by simp [boundary])) hloop hn hsize hsend
    | receiving v =>
      obtain ⟨req, evs, hbusy, hw, hcount, hmore⟩ := h
      exact receiving_inv (x := x) hbusy hw hcount hmore hstep
    | compared v =>
      obtain ⟨req, evs, hbusy, hw, hsome, hcheck⟩ := h
      exact compared_inv (x := x) hbusy hw hsome hcheck hstep
    | draining v => exact draining_inv (x := x) h hstep

theorem exchange_inv (x : ℕ) (cTx cRx : Buffer mss.echoBufferSizes) (env : Environment Api)
    (k : ℕ) : ExchangeInv ((prvEchoClientTask x cTx cRx).head env k).1
      ((prvEchoClientTask x cTx cRx).head env k).2 :=
  Task.head_induction (prvEchoClientTask x cTx cRx) ExchangeInv idle_nil
    (exchangeInv_step x cTx cRx) env k

/-- The exchange under way at a place in the code. -/
def UnderWay {mss : Mss} (req : Request) (evs : Trace Api) : FreeRTOS.Label (Loc mss) → Prop
  | .code (.receiving v) => Waiting v req evs ∧ v.xReceivedBytes = (receivedBytes evs).length ∧
      evs.any emptyRecv = false
  | .code (.compared v) => Waiting v req evs ∧ check req (receivedBytes evs) = 0
  | .vAssertCalled looping (.compared v) => Waiting v req evs ∧ looping = 0
  | _ => False

/-- While an exchange is under way the client waits in it. -/
theorem UnderWay.waiting {l : FreeRTOS.Label (Loc mss)} (h : UnderWay req evs l) :
    ∃ v : Vars mss, Waiting v req evs := by
  cases l with
  | vAssertCalled looping l =>
    cases l with
    | compared v => exact ⟨v, h.1⟩
    | _ => exact h.elim
  | code l =>
    cases l with
    | receiving v => exact ⟨v, h.1⟩
    | compared v => exact ⟨v, h.1⟩
    | _ => exact h.elim

/-- An exchange of the trace is over, or it is the one under way. -/
theorem ExchangeInv.cases {l : FreeRTOS.Label (Loc mss)} (h : ExchangeInv l tr)
    (hx : (req, evs) ∈ exchanges tr) : Decided req evs ∨ UnderWay req evs l := by
  have hbusy : ∀ {req' evs'}, Busy Decided boundary tr req' evs' →
      Decided req evs ∨ req' = req ∧ evs' = evs := by
    rintro req' evs' ⟨ss, hss, hset⟩
    rw [exchanges, mem_intervals, hss] at hx
    rcases List.mem_append.mp hx with hx | hx
    · exact .inl (hset _ _ hx)
    · simp only [List.mem_singleton, Prod.mk.injEq, Option.some.injEq] at hx
      exact .inr ⟨hx.1.symm, hx.2.symm⟩
  cases l with
  | vAssertCalled looping l =>
    cases l with
    | compared v =>
      obtain ⟨h0, req', evs', hb, hw, -⟩ := h
      rcases hbusy hb with hdecided | ⟨rfl, rfl⟩
      · exact .inl hdecided
      · exact .inr ⟨hw, h0⟩
    | created v => exact .inl (h.2.settled _ _ hx)
    | connecting v => exact h.elim
    | drawing v => exact h.elim
    | receiving v => exact h.elim
    | draining v => exact h.elim
  | code l =>
    cases l with
    | connecting v => exact .inl (Idle.settled h _ _ hx)
    | created v => exact .inl (Idle.settled h _ _ hx)
    | drawing v => exact .inl (h.2.settled _ _ hx)
    | receiving v =>
      obtain ⟨req', evs', hb, hw, hcount, hmore⟩ := h
      rcases hbusy hb with hdecided | ⟨rfl, rfl⟩
      · exact .inl hdecided
      · exact .inr ⟨hw, hcount, hmore⟩
    | compared v =>
      obtain ⟨req', evs', hb, hw, -, hcheck⟩ := h
      rcases hbusy hb with hdecided | ⟨rfl, rfl⟩
      · exact .inl hdecided
      · exact .inr ⟨hw, hcheck⟩
    | draining v => exact .inl (Idle.settled h _ _ hx)

/-- What an exchange has counted, at every moment of it. -/
theorem ExchangeInv.balanced {l : FreeRTOS.Label (Loc mss)} (h : ExchangeInv l tr)
    (hx : (req, evs) ∈ exchanges tr) : Balanced req evs := by
  rcases h.cases hx with hdecided | hway
  · exact hdecided.balanced
  · obtain ⟨v, hw⟩ := hway.waiting
    exact hw.unechoed.balanced (hw.uncounted _)

end Invariant

end TcpDemo.EchoClient
