import TcpDemo.EchoClient.Exchange

/-!
# What the client counts as a good reply

The client compares the reply with the request by `strncmp`, and a request has a NUL
behind its header. So whatever the reply holds behind that NUL, and whether it goes on
at all, makes no difference to the verdict; `echo_check_iff` says that this is the only
way in which a wrong reply gets counted.
-/

namespace TcpDemo.EchoClient
open Interaction Traces CBytes FreeRTOS FreeRTOS.Call

/-- The reply is complete, and equal to what was sent. -/
structure Verified (req : Request) (reply : List UInt8) : Prop where
  complete : req.lTransmitted ≤ reply.length
  equal : ∀ i : ℕ, i < req.lTransmitted → reply[i]? = req.data[i]?

/-- The reply is wrong only where the comparison does not look: it agrees with the
request up to the NUL behind the header, with zeros for what is missing, and is wrong or
missing behind that. -/
structure Masked (req : Request) (evs : Trace Api) : Prop where
  ended : evs.any isShutdown
  noError : evs.any failedRecv = false
  inside : ((cstr req.data).length : ℤ) < req.lTransmitted
  agrees : (receivedBytes evs ++ List.replicate req.data.length 0).take
    ((cstr req.data).length + 1) = req.data.take ((cstr req.data).length + 1)
  wrong : ¬ Verified req (receivedBytes evs)

/-- The exchange was counted as a good one. -/
def Counted (evs : Trace Api) : Prop := 0 < evs.countP (isIncrement .ulTxRxCycles)

section Verdict
variable {req : Request} {reply : List UInt8}

theorem IsRequest.length_cstr_lt (h : IsRequest req.data) :
    0 < (cstr req.data).length ∧ (cstr req.data).length < req.data.length := by
  obtain ⟨k, n, hn, hdata⟩ := h
  rw [hdata, cstr_request, length_request k hn]
  exact ⟨length_header_pos k, by have := length_header_le k; omega⟩

/-- `strncmp` compares the strings at the start of the reply and of the request. -/
theorem check_eq_zero_iff (hle : req.lTransmitted ≤ req.data.length) :
    check req reply = 0 ↔
      (cstr (reply ++ List.replicate req.data.length 0)).take req.lTransmitted.toNat =
        (cstr req.data).take req.lTransmitted.toNat := by
  rw [check, strncmp_eq_zero_iff (by simp; omega) (by omega), cstr_take, cstr_take]

/-- If the comparison ends inside the header, an equal reply is a good one. -/
theorem verified_of_check (hle : req.lTransmitted ≤ req.data.length)
    (hshort : req.lTransmitted ≤ (cstr req.data).length) (hcheck : check req reply = 0) :
    Verified req reply := by
  rw [check_eq_zero_iff hle] at hcheck
  obtain ⟨n, hn⟩ : ∃ n, n = req.lTransmitted.toNat := ⟨_, rfl⟩
  rw [← hn] at hcheck
  have hlen : n ≤ (cstr (reply ++ List.replicate req.data.length 0)).length := by
    have hlen := congrArg List.length hcheck
    rw [List.length_take, List.length_take] at hlen
    omega
  -- the reply cannot end before the comparison, or a NUL would end the string
  have hcomplete : n ≤ reply.length := by
    by_contra hlt
    have hzero : 0 ∈ (reply ++ List.replicate req.data.length 0).take n := by
      rw [List.take_append, List.take_replicate]
      refine List.mem_append_right _ (List.mem_replicate.mpr ⟨?_, rfl⟩)
      omega
    rw [← take_cstr_of_le hlen] at hzero
    exact zero_notMem_cstr _ (List.mem_of_mem_take hzero)
  have htake : reply.take n = req.data.take n := by
    rw [take_cstr_of_le hlen, take_cstr_of_le (by omega),
      List.take_append_of_le_length hcomplete] at hcheck
    exact hcheck
  refine ⟨by omega, fun i hi => ?_⟩
  have hat := congrArg (·[i]?) htake
  simpa [List.getElem?_take, show i < n by omega] using hat

/-- If the comparison reaches the NUL behind the header, it compares equal if and only if
the reply agrees with the request up to there. -/
theorem check_eq_zero_iff_agrees (hreq : IsRequest req.data)
    (hle : req.lTransmitted ≤ req.data.length)
    (hlong : ((cstr req.data).length : ℤ) < req.lTransmitted) :
    check req reply = 0 ↔ (reply ++ List.replicate req.data.length 0).take
      ((cstr req.data).length + 1) = req.data.take ((cstr req.data).length + 1) := by
  obtain ⟨-, hdata⟩ := hreq.length_cstr_lt
  rw [check_eq_zero_iff hle, take_length_cstr hdata,
    List.take_of_length_le (show (cstr req.data).length ≤ req.lTransmitted.toNat by omega)]
  generalize hfilled : reply ++ List.replicate req.data.length 0 = filled
  have hlen : (cstr req.data).length < filled.length := by
    rw [← hfilled, List.length_append, List.length_replicate]
    omega
  constructor
  · intro h
    have heq : cstr filled = cstr req.data := by
      have hshort := congrArg List.length h
      rw [List.length_take] at hshort
      rwa [List.take_of_length_le (by omega)] at h
    rw [← heq] at hlen ⊢
    exact take_length_cstr hlen
  · intro h
    have heq : cstr filled = cstr req.data := by
      rw [← List.take_append_drop ((cstr req.data).length + 1) filled, h, List.append_assoc,
        List.singleton_append, cstr_append_nul, cstr_eq_self (zero_notMem_cstr _)]
    rw [heq]
    exact List.take_of_length_le (by omega)

/-- What was counted without being verified is masked, and the other way round. -/
theorem Decided.counted_imp_verified_iff {evs : Trace Api} (h : Decided req evs) :
    (Counted evs → Verified req (receivedBytes evs)) ↔ ¬ Masked req evs := by
  obtain ⟨hsome, hlt⟩ := h.isRequest.length_cstr_lt
  constructor
  · intro himp hmask
    refine hmask.wrong (himp ?_)
    have hreply : receivedBytes evs ≠ [] := by
      -- an empty reply differs from the first character of the header
      intro hnil
      have hagrees := hmask.agrees
      rw [hnil, take_length_cstr hlt, List.nil_append, List.take_replicate] at hagrees
      have hmem : ∀ y ∈ cstr req.data, y = 0 := by
        intro y hy
        have : y ∈ cstr req.data ++ [0] := List.mem_append_left _ hy
        rw [← hagrees] at this
        exact (List.mem_replicate.mp this).2
      obtain ⟨y, hy⟩ := List.exists_mem_of_length_pos hsome
      exact zero_notMem_cstr req.data (hmem y hy ▸ hy)
    rw [Counted, h.counted, if_pos ⟨hmask.noError, hreply⟩]
    exact Nat.one_pos
  · intro hmask hcounted
    rw [Counted, h.counted] at hcounted
    obtain ⟨hno, hreply⟩ : evs.any failedRecv = false ∧ receivedBytes evs ≠ [] := by
      by_contra hnot
      rw [if_neg hnot] at hcounted
      exact absurd hcounted (lt_irrefl 0)
    have hcheck := h.agrees hno hreply
    rcases le_or_gt req.lTransmitted (cstr req.data).length with hshort | hlong
    · exact verified_of_check h.accepted_le hshort hcheck
    · by_contra hwrong
      exact hmask ⟨h.ended, hno, hlong,
        (check_eq_zero_iff_agrees h.isRequest h.accepted_le hlong).mp hcheck, hwrong⟩

/-- While the client waits, nothing is counted and nothing is masked. -/
theorem Waiting.counted_imp_verified_iff {mss : Mss} {v : Vars mss} {evs : Trace Api}
    (h : Waiting v req evs) :
    (Counted evs → Verified req (receivedBytes evs)) ↔ ¬ Masked req evs := by
  refine ⟨fun _ hmask => ?_, fun _ hcounted => ?_⟩
  · have := hmask.ended
    simp [h.notEnded] at this
  · rw [Counted, h.uncounted] at hcounted
    exact absurd hcounted (lt_irrefl 0)

end Verdict

/-- **When the check is sound.** For each exchange of a run: if the client counts it, the
reply is complete and equal to what was sent, unless the reply agrees with the request
up to the NUL behind the header and is wrong only behind that. -/
theorem echo_check_iff {mss : Mss} {x : ℕ} {cTx cRx : Buffer mss.echoBufferSizes}
    {env : Environment Api} {k : ℕ} {req : Request} {evs : Trace Api}
    (h : (req, evs) ∈ exchanges ((prvEchoClientTask x cTx cRx).head env k).2) :
    (Counted evs → Verified req (receivedBytes evs)) ↔ ¬ Masked req evs := by
  rcases (exchange_inv x cTx cRx env k).cases h with hdecided | hway
  · exact hdecided.counted_imp_verified_iff
  · obtain ⟨v, hwaiting⟩ := hway.waiting
    exact hwaiting.counted_imp_verified_iff

/-- The server takes the first request, of 60 bytes, and answers with `reply`. -/
def answering (reply : List UInt8) : Environment Api
  | _, .xApplicationGetRandomNumber => 60
  | i, c => scripted (fun i => if i = 13 then reply else []) (fun _ => 60) i c

/-- The first exchange of that run, once it is over. -/
def firstExchange (reply : List UInt8) (heads : ℕ) : List (Request × Trace Api) :=
  exchanges ((prvEchoClientTask 0 (.replicate defaultMss.echoBufferSizes 0)
    (.replicate defaultMss.echoBufferSizes 0)).head (answering reply) heads).2

/-- A full echo is a good reply, and nothing in it is masked. -/
theorem echo_check_full : ∃ req evs, (req, evs) ∈ firstExchange (request 0 60) 6 ∧
    receivedBytes evs = req.data ∧ ¬ Masked req evs := by
  obtain ⟨⟨req, evs⟩, hx, hsummary⟩ := List.map_eq_singleton_iff.mp
    (show (firstExchange (request 0 60) 6).map (fun x => (x.1.lTransmitted, receivedBytes x.2,
      x.1.data)) = [(60, request 0 60, request 0 60)] by decide +kernel)
  simp only [Prod.mk.injEq] at hsummary
  obtain ⟨hsent, hreply, hdata⟩ := hsummary
  have hmem : (req, evs) ∈ firstExchange (request 0 60) 6 := by simp [hx]
  have hequal : receivedBytes evs = req.data := hreply.trans hdata.symm
  refine ⟨req, evs, hmem, hequal, (echo_check_iff hmem).mp fun _ => ⟨?_, fun i _ => by rw [hequal]⟩⟩
  rw [hsent, hreply, length_request 0 le_rfl]
  rfl

/-- The header alone is counted as a good reply: the client got 21 bytes of 60. -/
theorem echo_check_header_only : ¬ ∀ (mss : Mss) x (cTx cRx : Buffer mss.echoBufferSizes) env k req
    evs, (req, evs) ∈ exchanges ((prvEchoClientTask x cTx cRx).head env k).2 →
      0 < req.lTransmitted → Counted evs → Verified req (receivedBytes evs) := by
  intro h
  obtain ⟨⟨req, evs⟩, hx, hsummary⟩ := List.map_eq_singleton_iff.mp
    (show (firstExchange (header 0) 6).map (fun x => (x.1.lTransmitted, (receivedBytes x.2).length,
      x.2.countP (isIncrement .ulTxRxCycles))) = [(60, 21, 1)] by decide +kernel)
  simp only [Prod.mk.injEq] at hsummary
  obtain ⟨hlen, hreply, hcount⟩ := hsummary
  have hmem : (req, evs) ∈ firstExchange (header 0) 6 := by simp [hx]
  have hcomplete := (h _ _ _ _ _ _ _ _ hmem (by omega) (by rw [Counted]; omega)).complete
  omega

end TcpDemo.EchoClient
