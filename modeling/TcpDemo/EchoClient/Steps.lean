import TcpDemo.EchoClient.Task

/-!
# What the echo client can do from one loop head to the next

First the bytes of a request: the printable characters `prvCreateTxData` fills in, with
the header and its terminating NUL on top of the first of them. Then one lemma for each
loop head, from which all invariants of the task are derived.
-/

namespace TcpDemo.EchoClient
open Interaction CBytes FreeRTOS FreeRTOS.Call

/-! ## Requests -/

/-- The request with the number `ulTxCount` and length `n`. -/
def request (ulTxCount : UInt32) (n : ℕ) : List UInt8 :=
  sprintfStored (header ulTxCount) ++
    (fill n (byte '0')).drop (sprintfStored (header ulTxCount)).length

/-- What a `send` was given and what it returned. -/
structure Request where
  data : List UInt8
  lTransmitted : ℤ

/-- The bytes are a request that the client may build. -/
def IsRequest (data : List UInt8) : Prop := ∃ ulTxCount n, 60 ≤ n ∧ data = request ulTxCount n

@[simp] theorem length_fill (n : ℕ) (c : UInt8) : (fill n c).length = n := by
  induction n generalizing c with
  | zero => rfl
  | succ n ih => simp [fill, ih]

theorem length_header_le (k : UInt32) : (header k).length ≤ 30 := by
  have hprefix : (ascii "TxRx message number ").length = 20 := by decide
  have hdigits := decimal_length_le_ten k
  simp only [header, List.length_append]
  omega

theorem length_header_pos (k : UInt32) : 0 < (header k).length := by
  have hprefix : (ascii "TxRx message number ").length = 20 := by decide
  simp only [header, List.length_append]
  omega

/-- The header has no NUL of its own. -/
theorem zero_notMem_header (k : UInt32) : 0 ∉ header k := by
  simp only [header, List.mem_append, not_or]
  exact ⟨by decide, zero_notMem_decimal _⟩

theorem length_request (k : UInt32) {n : ℕ} (hn : 60 ≤ n) : (request k n).length = n := by
  have := length_header_le k
  simp only [request, sprintfStored, List.length_append, List.length_singleton, List.length_drop,
    length_fill]
  omega

/-- The string at the start of a request is its header. -/
theorem cstr_request (k : UInt32) (n : ℕ) : cstr (request k n) = header k := by
  rw [request, sprintfStored, List.append_assoc, List.singleton_append, cstr_append_nul]
  exact cstr_eq_self (zero_notMem_header k)

/-- The bytes passed to `send` are a request. -/
theorem take_txBuffer {size : ℕ} (b : Buffer size) (k : UInt32) {n : ℕ} (hn : 60 ≤ n)
    (hsize : n ≤ size) :
    ((b.write 0 (fill n (byte '0'))).write 0 (sprintfStored (header k))).bytes.take n =
      request k n := by
  have hheader := length_header_le k
  have hstored : (sprintfStored (header k)).length = (header k).length + 1 := by
    simp [sprintfStored]
  have hfill : 0 + (fill n (byte '0')).length ≤ size := by simpa using hsize
  rw [Buffer.bytes_write _ (by omega), Buffer.bytes_write _ hfill, List.take_zero,
    List.take_zero, List.nil_append, List.nil_append, Nat.zero_add, Nat.zero_add, request]
  rw [List.take_append, List.drop_append_of_le_length (by rw [length_fill]; omega),
    List.take_of_length_le (by omega)]
  congr 1
  rw [List.take_append_of_le_length (by rw [List.length_drop, length_fill])]
  exact List.take_of_length_le (by rw [List.length_drop, length_fill])

theorem toInt_toInt32 {x : UInt32} (hx : x.toNat < 2 ^ 31) : x.toInt32.toInt = x.toNat := by
  have h : x.toInt32.toInt = x.toBitVec.toInt := rfl
  rw [h, BitVec.toInt_eq_toNat_of_lt (by simpa using by omega)]
  rfl

/-- The length that is drawn, as a natural number. -/
theorem lCharactersToAdd_eq (mss : Mss) (r : UInt32) :
    lCharactersToAdd r (.ofNat mss.echoBufferSizes) =
      ((r.toNat % (mss.echoBufferSizes - 20) : ℕ) : ℤ) := by
  have hlarge : 81 ≤ mss.echoBufferSizes := by simpa [Mss.echoBufferSizes] using mss.large
  have hword : mss.echoBufferSizes < 2 ^ 31 := by simpa [Mss.echoBufferSizes] using mss.word
  have hsub : (UInt32.ofNat mss.echoBufferSizes - 20).toNat = mss.echoBufferSizes - 20 := by
    simp only [UInt32.toNat_sub, UInt32.toNat_ofNat', UInt32.reduceToNat]
    omega
  have hmod : (r % (UInt32.ofNat mss.echoBufferSizes - 20)).toNat =
      r.toNat % (mss.echoBufferSizes - 20) := by rw [UInt32.toNat_mod, hsub]
  have hlt := Nat.mod_lt r.toNat (show 0 < mss.echoBufferSizes - 20 by omega)
  rw [lCharactersToAdd, toInt_toInt32 (by omega), hmod]

/-! ## Stretches of code -/

section Steps
variable {mss : Mss} {v : Vars mss} {evs : Trace Api} {l : FreeRTOS.Label (Loc mss)}

theorem close_step (h : (close v).Issues evs l) :
    ∃ r, evs = [⟨closesocket v.xSocket, r⟩, ⟨vTaskDelay echoLoopDelay, ()⟩] ∧
      l = .code (.connecting v) := by
  simp [close] at h
  obtain ⟨⟨r, _, rfl⟩, rfl⟩ := h
  exact ⟨r, rfl, rfl⟩

theorem finish_step (h : (finish v).Issues evs l) :
    ∃ r t, evs = [⟨shutdown v.xSocket, r⟩, ⟨xTaskGetTickCount, t⟩] ∧
      l = .code (.draining { v with xTimeOnEntering := t }) := by
  simp [finish] at h
  obtain ⟨r, t, rfl, rfl⟩ := h
  exact ⟨r, t, rfl, rfl⟩

/-- One pass of the outer loop creates the socket, or ends in the assertion hook. -/
theorem connecting_step {x : ℕ} (h : (body x (.connecting v)).Issues evs l) :
    (∃ s, l = .code (.created { v with xSocket := s }) ∧ evs = [⟨socket, s⟩]) ∨
    (l = .vAssertCalled 0 (.created { v with xSocket := .invalid }) ∧
      evs = [⟨socket, .invalid⟩, ⟨taskEnterCritical, ()⟩]) := by
  simp only [body, FreeRTOS.socket, Program.call_bind, Program.ret_bind, Program.issues_call] at h
  obtain ⟨s, rest, rfl, h⟩ := h
  by_cases hs : s = .invalid
  · right
    simp [hs, configASSERT] at h
    obtain ⟨⟨_, rfl⟩, rfl⟩ := h
    exact ⟨rfl, by rw [hs]⟩
  · left
    simp [hs, configASSERT] at h
    obtain ⟨rfl, rfl⟩ := h
    exact ⟨s, rfl, rfl⟩

/-- What is issued before the result of `connect` is looked at. -/
def attempt (s : Socket) (mss : Mss) (o : ℤ × ℤ × ℤ) (ret : ℤ) : Trace Api :=
  [⟨setsockopt s (.rcvTimeo xReceiveTimeOut), o.1⟩, ⟨setsockopt s (.sndTimeo xSendTimeOut), o.2.1⟩,
    ⟨setsockopt s (xWinProps mss), o.2.2⟩, ⟨printf connecting, ()⟩,
    ⟨connect s xEchoServerAddress, ret⟩]

/-- With its socket, the client connects or closes the socket again. -/
theorem created_step {x : ℕ} (h : (body x (.created v)).Issues evs l) :
    (∃ o, l = .code (.drawing { v with lLoopCount := 0 }) ∧
      evs = attempt v.xSocket mss o 0 ++
        [⟨printf connected, ()⟩, ⟨increment .ulConnections x, ()⟩]) ∨
    (∃ o ret r, ret ≠ 0 ∧ l = .code (.connecting v) ∧
      evs = attempt v.xSocket mss o ret ++ [⟨printf (couldNotConnect ret), ()⟩,
        ⟨closesocket v.xSocket, r⟩, ⟨vTaskDelay echoLoopDelay, ()⟩]) := by
  simp only [body, FreeRTOS.setsockopt, FreeRTOS.printf, FreeRTOS.connect, Program.call_bind,
    Program.ret_bind, Program.issues_call] at h
  obtain ⟨o, _, rfl, o', _, rfl, o'', _, rfl, _, _, rfl, ret, rest, rfl, h⟩ := h
  by_cases hret : ret = 0
  · left
    simp [hret, nextRequest, lMaxLoopCount] at h
    obtain ⟨⟨_, _, rfl⟩, rfl⟩ := h
    exact ⟨(o, o', o''), rfl, by rw [hret]; rfl⟩
  · right
    simp only [if_neg hret, Program.issues_call] at h
    obtain ⟨_, _, rfl, h⟩ := h
    obtain ⟨r, rfl, rfl⟩ := close_step h
    exact ⟨(o, o', o''), ret, r, hret, rfl, rfl⟩

/-- The variables once a request of length `n` was offered to `send`. -/
def offered (v : Vars mss) (n : ℕ) (tx : Buffer mss.echoBufferSizes) (lTransmitted : ℤ) :
    Vars mss :=
  { v with
    lStringLength := n
    pcTransmittedString := tx
    ulTxCount := v.ulTxCount + 1
    lTransmitted }

/-- The variables before the first byte of the reply. -/
def awaiting (v : Vars mss) : Vars mss :=
  { v with
    pcReceivedString := .replicate mss.echoBufferSizes 0
    xReceivedBytes := 0 }

/-- What is issued up to the `send` of a request, and what `send` returns. -/
def sendEvents (v : Vars mss) (n : ℕ) (a : SendAnswer (request v.ulTxCount n).length) : Trace Api :=
  [⟨printf (sending n mss.echoBufferSizes), ()⟩, ⟨.send v.xSocket (request v.ulTxCount n), a⟩,
    ⟨printf (sendReturned a.result), ()⟩]

theorem sendRequest_step {n : ℕ} (hn : 60 ≤ n) (hsize : n ≤ mss.echoBufferSizes)
    (h : (sendRequest v n).Issues evs l) :
    ∃ a tx rest, tx.bytes.take n = request v.ulTxCount n ∧ evs = sendEvents v n a ++ rest ∧
      (a.result < 0 ∧ (finish (offered v n tx a.result)).Issues rest l ∨
        0 ≤ a.result ∧ rest = [⟨printf receivingData, ()⟩] ∧
          l = .code (.receiving (awaiting (offered v n tx a.result)))) := by
  have htx := take_txBuffer v.pcTransmittedString v.ulTxCount hn hsize
  simp only [sendRequest, Int.toNat_natCast] at h
  rw [htx] at h
  simp only [FreeRTOS.printf, FreeRTOS.send, Program.call_bind, Program.ret_bind,
    Program.issues_call] at h
  obtain ⟨_, _, rfl, a, _, rfl, _, rest, rfl, h⟩ := h
  refine ⟨a, _, rest, htx, rfl, ?_⟩
  by_cases ha : a.result < 0
  · left
    rw [if_pos ha] at h
    exact ⟨ha, h⟩
  · right
    simp [ha] at h
    obtain ⟨⟨_, rfl⟩, rfl⟩ := h
    exact ⟨not_lt.mp ha, rfl, rfl⟩

/-- One draw is rejected, or a request of the length drawn is sent. -/
theorem drawing_step {x : ℕ} (h : (body x (.drawing v)).Issues evs l) :
    ∃ r rest, evs = ⟨xApplicationGetRandomNumber, r⟩ :: rest ∧
      (r.toNat % (mss.echoBufferSizes - 20) < 60 ∧ rest = [] ∧ l = .code (.drawing v) ∨
      ∃ n, 60 ≤ n ∧ n ≤ mss.echoBufferSizes ∧ (sendRequest v n).Issues rest l) := by
  simp only [body, FreeRTOS.xApplicationGetRandomNumber, Program.call_bind, Program.ret_bind,
    Program.issues_call, lCharactersToAdd_eq, lMinimumLength] at h
  obtain ⟨r, rest, rfl, h⟩ := h
  refine ⟨r, rest, rfl, ?_⟩
  have hlarge := mss.large
  have hsize : r.toNat % (mss.echoBufferSizes - 20) ≤ mss.echoBufferSizes := by
    have := Nat.mod_lt r.toNat (show 0 < mss.echoBufferSizes - 20 by
      simp only [Mss.echoBufferSizes]; omega)
    omega
  generalize r.toNat % (mss.echoBufferSizes - 20) = n at h hsize ⊢
  by_cases hn : n < 60
  · left
    rw [if_pos (by omega)] at h
    simp at h
    exact ⟨hn, h.1, h.2⟩
  · right
    rw [if_neg (by omega)] at h
    exact ⟨n, by omega, hsize, h⟩

/-- Behind the reply loop: the comparison is asserted, or there is nothing to compare. -/
theorem replied_step (h : (replied v).Issues evs l) :
    (0 < v.xReceivedBytes ∧ compare v = 0 ∧ evs = [] ∧ l = .code (.compared v)) ∨
    (0 < v.xReceivedBytes ∧ compare v ≠ 0 ∧ evs = [⟨taskEnterCritical, ()⟩] ∧
      l = .vAssertCalled 0 (.compared v)) ∨
    (v.xReceivedBytes ≤ 0 ∧ (finish v).Issues evs l) := by
  rw [replied] at h
  by_cases hpos : 0 < v.xReceivedBytes
  · rw [if_pos hpos] at h
    by_cases hcmp : compare v = 0
    · left
      simp [configASSERT, hcmp] at h
      exact ⟨hpos, hcmp, h.1, h.2⟩
    · right; left
      simp [configASSERT, hcmp] at h
      obtain ⟨⟨_, rfl⟩, rfl⟩ := h
      exact ⟨hpos, hcmp, rfl, rfl⟩
  · right; right
    rw [if_neg hpos] at h
    exact ⟨not_lt.mp hpos, h⟩

/-- One `recv` of the reply, stored behind what was received before. -/
def stored (v : Vars mss) (data : List UInt8) (xReceivedBytes : ℤ) : Vars mss :=
  { v with
    pcReceivedString := v.pcReceivedString.write v.xReceivedBytes.toNat data
    xReceivedBytes }

/-- The reply loop is over, or it receives: more of the reply, nothing, or an error. -/
theorem receiving_step {x : ℕ} (h : (body x (.receiving v)).Issues evs l) :
    (v.lTransmitted ≤ v.xReceivedBytes ∧ (replied v).Issues evs l) ∨
    (v.xReceivedBytes < v.lTransmitted ∧ ∃ a rest,
      evs = ⟨.recv v.xSocket v.xReceivedBytes.toNat
        (v.lStringLength - v.xReceivedBytes).toNat, a⟩ :: rest ∧
      (a.result < 0 ∧ (replied (stored v a.data a.result)).Issues rest l ∨
      a.result = 0 ∧ (replied (stored v a.data v.xReceivedBytes)).Issues rest l ∨
      0 < a.result ∧ rest = [] ∧
        l = .code (.receiving (stored v a.data (v.xReceivedBytes + a.result))))) := by
  simp only [body] at h
  by_cases hmore : v.xReceivedBytes < v.lTransmitted
  · right
    simp only [if_pos hmore, FreeRTOS.recv, Program.call_bind, Program.ret_bind,
      Program.issues_call] at h
    obtain ⟨a, rest, rfl, h⟩ := h
    refine ⟨hmore, a, rest, rfl, ?_⟩
    rcases lt_trichotomy a.result 0 with hneg | hzero | hpos
    · rw [if_pos hneg] at h
      exact .inl ⟨hneg, h⟩
    · rw [if_neg (by omega), if_pos hzero] at h
      exact .inr (.inl ⟨hzero, h⟩)
    · rw [if_neg (by omega), if_neg (by omega)] at h
      simp at h
      exact .inr (.inr ⟨hpos, h.1, h.2⟩)
  · left
    rw [if_neg hmore] at h
    exact ⟨not_lt.mp hmore, h⟩

/-- **The rule of the reply loop.** What holds behind the loop, and still holds with a `recv`
in front of it, holds of a pass. -/
theorem receiving_rule {x : ℕ} {P : Trace Api → FreeRTOS.Label (Loc mss) → Prop}
    (hover : ∀ {evs l}, (replied v).Issues evs l → P evs l)
    (hends : ∀ {data y evs l}, (replied (stored v data y)).Issues evs l → P evs l)
    (hmore : ∀ {data y}, P [] (.code (.receiving (stored v data y))))
    (hrecv : ∀ {s offset size a evs l}, P evs l → P (⟨.recv s offset size, a⟩ :: evs) l)
    (h : (body x (.receiving v)).Issues evs l) : P evs l := by
  rcases receiving_step h with ⟨-, hreplied⟩ | ⟨-, a, rest, rfl, hcases⟩
  · exact hover hreplied
  rcases hcases with ⟨-, hreplied⟩ | ⟨-, hreplied⟩ | ⟨-, rfl, rfl⟩
  · exact hrecv (hends hreplied)
  · exact hrecv (hends hreplied)
  · exact hrecv hmore

/-- Behind the assertion the outcome is counted. -/
theorem compared_step {x : ℕ} (h : (body x (.compared v)).Issues evs l) :
    (compare v = 0 ∧ ∃ rest, evs = ⟨increment .ulTxRxCycles x, ()⟩ :: rest ∧
      (nextRequest { v with lLoopCount := v.lLoopCount + 1 }).Issues rest l) ∨
    (compare v ≠ 0 ∧ ∃ rest, evs = ⟨increment .ulTxRxFailures x, ()⟩ :: rest ∧
      (finish v).Issues rest l) := by
  simp only [body] at h
  by_cases hcmp : compare v = 0
  · left
    simp only [if_pos hcmp, FreeRTOS.increment, Program.call_bind, Program.ret_bind,
      Program.issues_call] at h
    obtain ⟨_, rest, rfl, h⟩ := h
    exact ⟨hcmp, rest, rfl, h⟩
  · right
    simp only [if_neg hcmp, FreeRTOS.increment, Program.call_bind, Program.ret_bind,
      Program.issues_call] at h
    obtain ⟨_, rest, rfl, h⟩ := h
    exact ⟨hcmp, rest, rfl, h⟩

/-- One pass of the drain loop goes round again, or closes the socket after an error or
when the time is up. -/
theorem draining_step {x : ℕ} (h : (body x (.draining v)).Issues evs l) :
    ∃ (a : RecvAnswer mss.echoBufferSizes) (b : Buffer mss.echoBufferSizes),
      (∃ t, t - v.xTimeOnEntering < xReceiveTimeOut ∧
        l = .code (.draining { v with pcReceivedString := b }) ∧
        evs = [⟨.recv v.xSocket 0 mss.echoBufferSizes, a⟩, ⟨xTaskGetTickCount, t⟩]) ∨
      ∃ ticks r, (a.result < 0 ∧ ticks = [] ∨
          ∃ t, ¬ t - v.xTimeOnEntering < xReceiveTimeOut ∧ ticks = [⟨xTaskGetTickCount, t⟩]) ∧
        l = .code (.connecting { v with pcReceivedString := b }) ∧
        evs = ⟨.recv v.xSocket 0 mss.echoBufferSizes, a⟩ :: (ticks ++
          [⟨closesocket v.xSocket, r⟩, ⟨vTaskDelay echoLoopDelay, ()⟩]) := by
  simp only [body, FreeRTOS.recv, Program.call_bind, Program.ret_bind, Program.issues_call] at h
  obtain ⟨a, rest, rfl, h⟩ := h
  refine ⟨a, v.pcReceivedString.write 0 a.data, ?_⟩
  by_cases hneg : a.result < 0
  · right
    rw [if_pos hneg] at h
    obtain ⟨r, rfl, rfl⟩ := close_step h
    exact ⟨[], r, .inl ⟨hneg, rfl⟩, rfl, rfl⟩
  · simp only [if_neg hneg, FreeRTOS.xTaskGetTickCount, Program.call_bind, Program.ret_bind,
      Program.issues_call] at h
    obtain ⟨t, rest, rfl, h⟩ := h
    by_cases ht : t - v.xTimeOnEntering < xReceiveTimeOut
    · left
      rw [if_pos ht] at h
      simp at h
      obtain ⟨rfl, rfl⟩ := h
      exact ⟨t, ht, rfl, rfl⟩
    · right
      rw [if_neg ht] at h
      obtain ⟨r, rfl, rfl⟩ := close_step h
      exact ⟨_, r, .inr ⟨t, ht, rfl⟩, rfl, rfl⟩

end Steps

end TcpDemo.EchoClient
