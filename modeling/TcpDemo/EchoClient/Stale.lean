import TcpDemo.EchoClient.Verdict
import TcpDemo.Lib.Wrap

/-!
# Stale replies

The requests of a run are numbered from zero on, over all its connections, and the number
stands in the header. A reply that is the beginning of an earlier request is told apart from
the request it came for: the comparison ends at the first NUL, and what is compared until
then is the header of the earlier request or a part of it. Its number is smaller, so it has
no more digits and no header is the beginning of the other (`stale_reply_not_counted`).
-/

namespace TcpDemo.EchoClient
open Interaction Traces CBytes FreeRTOS FreeRTOS.Call

/-! ## The numbers of the requests -/

section Numbers
variable {mss : Mss}

/-- The variables at a loop head. -/
def Loc.vars : Loc mss → Vars mss
  | .connecting v | .created v | .drawing v | .receiving v | .compared v | .draining v => v

/-- `ulTxCount` at a loop head. -/
def ulTxCount : FreeRTOS.Label (Loc mss) → UInt32
  | .code l | .vAssertCalled _ l => l.vars.ulTxCount

/-- A stretch of code that sends nothing, and leaves the counter alone. -/
def SendsNothing (count : UInt32) (evs : Trace Api) (l : FreeRTOS.Label (Loc mss)) : Prop :=
  sends evs = [] ∧ ulTxCount l = count

/-- A stretch of code that sends the next request. -/
def SendsNext (count : UInt32) (evs : Trace Api) (l : FreeRTOS.Label (Loc mss)) : Prop :=
  ∃ n r, 60 ≤ n ∧ sends evs = [(request count n, r)] ∧ ulTxCount l = count + 1

variable {v : Vars mss} {evs : Trace Api} {l : FreeRTOS.Label (Loc mss)}

theorem SendsNothing.cons {count : UInt32} (h : SendsNothing count evs l) {e : Event Api}
    (he : sendOf e = []) : SendsNothing count (e :: evs) l :=
  ⟨by rw [sends_cons, he, List.nil_append, h.1], h.2⟩

theorem SendsNext.cons {count : UInt32} (h : SendsNext count evs l) {e : Event Api}
    (he : sendOf e = []) : SendsNext count (e :: evs) l := by
  obtain ⟨n, r, hn, hsends, hl⟩ := h
  exact ⟨n, r, hn, by rw [sends_cons, he, List.nil_append, hsends], hl⟩

theorem finish_sends (h : (finish v).Issues evs l) : SendsNothing v.ulTxCount evs l := by
  obtain ⟨r, t, rfl, rfl⟩ := finish_step h
  exact ⟨rfl, rfl⟩

theorem nextRequest_sends (h : (nextRequest v).Issues evs l) : SendsNothing v.ulTxCount evs l := by
  rw [nextRequest] at h
  split at h
  · obtain ⟨rfl, rfl⟩ := Program.issues_ret.mp h
    exact ⟨rfl, rfl⟩
  · exact finish_sends h

theorem replied_sends (h : (replied v).Issues evs l) : SendsNothing v.ulTxCount evs l := by
  rcases replied_step h with ⟨-, -, rfl, rfl⟩ | ⟨-, -, rfl, rfl⟩ | ⟨-, h⟩
  · exact ⟨rfl, rfl⟩
  · exact ⟨rfl, rfl⟩
  · exact finish_sends h

theorem sendRequest_sends {n : ℕ} (hn : 60 ≤ n) (hsize : n ≤ mss.echoBufferSizes)
    (h : (sendRequest v n).Issues evs l) : SendsNext v.ulTxCount evs l := by
  obtain ⟨a, tx, rest, -, rfl, ⟨-, h⟩ | ⟨-, rfl, rfl⟩⟩ := sendRequest_step hn hsize h
  · obtain ⟨hrest, hcount⟩ := finish_sends h
    exact ⟨n, a.result, hn, by rw [sends_append, hrest]; rfl, hcount⟩
  · exact ⟨n, a.result, hn, rfl, rfl⟩

/-- Only the loop that draws a length goes on to send a request. -/
theorem body_sendsNothing {x : ℕ} {cTx cRx : Buffer mss.echoBufferSizes}
    {l' : FreeRTOS.Label (Loc mss)} (hl : ∀ v, l ≠ .code (.drawing v))
    (h : ((prvEchoClientTask x cTx cRx).body l).Issues evs l') :
    SendsNothing (ulTxCount l) evs l' := by
  cases l with
  | vAssertCalled looping l =>
    rcases vAssertCalled_step h with ⟨-, rfl, rfl⟩ | ⟨-, rfl, rfl⟩ <;> exact ⟨rfl, rfl⟩
  | code l =>
    cases l with
    | connecting v =>
      rcases connecting_step (x := x) h with ⟨s, rfl, rfl⟩ | ⟨rfl, rfl⟩ <;> exact ⟨rfl, rfl⟩
    | created v =>
      rcases created_step (x := x) h with ⟨o, rfl, rfl⟩ | ⟨o, ret, r, -, rfl, rfl⟩ <;>
        exact ⟨rfl, rfl⟩
    | drawing v => exact absurd rfl (hl v)
    | receiving v =>
      refine receiving_rule (x := x) (P := SendsNothing v.ulTxCount) replied_sends ?_ ⟨rfl, rfl⟩
        (fun hrest => hrest.cons rfl) h
      intro data y evs l hreplied
      exact replied_sends (v := stored v data y) hreplied
    | compared v =>
      rcases compared_step (x := x) h with ⟨-, rest, rfl, hnext⟩ | ⟨-, rest, rfl, hfinish⟩
      · exact (nextRequest_sends hnext).cons rfl
      · exact (finish_sends hfinish).cons rfl
    | draining v =>
      obtain ⟨a, b, ⟨t, -, rfl, rfl⟩ | ⟨ticks, r, hticks, rfl, rfl⟩⟩ := draining_step (x := x) h
      · exact ⟨rfl, rfl⟩
      · rcases hticks with ⟨-, rfl⟩ | ⟨t, -, rfl⟩ <;> exact ⟨rfl, rfl⟩

/-- From one loop head to the next, the client sends nothing or the next request. -/
theorem body_sends {x : ℕ} {cTx cRx : Buffer mss.echoBufferSizes} {l' : FreeRTOS.Label (Loc mss)}
    (h : ((prvEchoClientTask x cTx cRx).body l).Issues evs l') :
    SendsNothing (ulTxCount l) evs l' ∨ SendsNext (ulTxCount l) evs l' := by
  by_cases hl : ∃ v, l = .code (.drawing v)
  · obtain ⟨v, rfl⟩ := hl
    obtain ⟨r, rest, rfl, ⟨-, rfl, rfl⟩ | ⟨n, hn, hsize, hsend⟩⟩ := drawing_step (x := x) h
    · exact .inl ⟨rfl, rfl⟩
    · exact .inr ((sendRequest_sends hn hsize hsend).cons rfl)
  · exact .inl (body_sendsNothing (fun v hv => hl ⟨v, hv⟩) h)

/-- The loop invariant: the counter holds the number of requests, and the `i`-th request
carries the number `i`. -/
structure NumberInv (l : FreeRTOS.Label (Loc mss)) (tr : Trace Api) : Prop where
  count : ulTxCount l = .ofNat (sends tr).length
  numbered : ∀ i s, (sends tr)[i]? = some s → ∃ n, 60 ≤ n ∧ s.1 = request (.ofNat i) n

theorem number_inv (x : ℕ) (cTx cRx : Buffer mss.echoBufferSizes) (env : Environment Api) (k : ℕ) :
    NumberInv ((prvEchoClientTask x cTx cRx).head env k).1
      ((prvEchoClientTask x cTx cRx).head env k).2 := by
  refine Task.head_induction (prvEchoClientTask x cTx cRx) NumberInv ⟨rfl, by simp⟩ ?_ env k
  rintro l tr evs l' ⟨hcount, hnumbered⟩ hstep
  rcases body_sends hstep with ⟨hsends, hl⟩ | ⟨n, r, hn, hsends, hl⟩
  · constructor
    · rw [hl, hcount, sends_append, hsends, List.append_nil]
    · rw [sends_append, hsends, List.append_nil]
      exact hnumbered
  · constructor
    · rw [hl, hcount, sends_append, hsends, List.length_append, List.length_singleton,
        Wrap.ofNat_succ]
    · intro i s hs
      rw [sends_append, hsends] at hs
      rcases Nat.lt_or_ge i (sends tr).length with hlt | hge
      · rw [List.getElem?_append_left hlt] at hs
        exact hnumbered i s hs
      · rw [List.getElem?_append_right hge, List.getElem?_singleton,
          Option.ite_none_right_eq_some] at hs
        obtain ⟨hi, hs⟩ := hs
        obtain rfl := Option.some.inj hs
        obtain rfl : i = (sends tr).length := by omega
        exact ⟨n, hn, by rw [hcount]⟩

/-- The requests of the exchanges are what was sent. -/
theorem map_fst_exchanges (tr : Trace Api) :
    (exchanges tr).map Prod.fst = (sends tr).map fun s => ⟨s.1, s.2⟩ := by
  rw [exchanges, map_fst_intervals, sends, List.map_flatMap, List.filterMap_eq_flatMap_toList]
  refine List.flatMap_congr fun e _ => ?_
  obtain ⟨c, a⟩ := e
  cases c <;> rfl

/-- The `i`-th exchange of a run is for the request with the number `i`. -/
theorem request_of_exchange {x : ℕ} {cTx cRx : Buffer mss.echoBufferSizes}
    {env : Environment Api} {k i : ℕ} {req : Request} {evs : Trace Api}
    (h : (exchanges ((prvEchoClientTask x cTx cRx).head env k).2)[i]? = some (req, evs)) :
    ∃ n, 60 ≤ n ∧ req.data = request (.ofNat i) n := by
  have hfst := congrArg (Option.map Prod.fst) h
  rw [← List.getElem?_map, map_fst_exchanges, List.getElem?_map] at hfst
  obtain ⟨s, hs, rfl⟩ := Option.map_eq_some_iff.mp hfst
  exact (number_inv x cTx cRx env k).numbered i s hs

end Numbers

/-! ## The comparison -/

/-- The header of a smaller number is no longer than that of a larger one, and it does not
begin with it. -/
theorem not_header_isPrefix {i j : ℕ} (hij : i < j) (hj : j < 2 ^ 32) :
    ¬ header (.ofNat j) <+: header (.ofNat i) := by
  intro hpre
  have htoNat : ∀ n < 2 ^ 32, (UInt32.ofNat n).toNat = n := fun n hn => by
    rw [UInt32.toNat_ofNat', Nat.mod_eq_of_lt hn]
  rw [header, header, htoNat j hj, htoNat i (hij.trans hj),
    List.prefix_append_right_inj] at hpre
  have heq := hpre.eq_of_length_le (decimal_length_mono hij.le)
  exact hij.ne' (decimal_injective heq)

/-- A reply that is the beginning of an earlier request compares different. -/
theorem check_stale_ne_zero {i j : ℕ} (hij : i < j) (hj : j < 2 ^ 32) {n n' m : ℕ} (hn' : 60 ≤ n')
    {req : Request} (hreq : req.data = request (.ofNat j) n')
    (hfull : req.lTransmitted = req.data.length) :
    check req ((request (.ofNat i) n).take m) ≠ 0 := by
  have hlen : req.data.length = n' := by rw [hreq, length_request _ hn']
  have hheader := length_header_le (.ofNat j)
  rw [Ne, check_eq_zero_iff hfull.le, hfull, Int.toNat_natCast, hlen, hreq, cstr_request,
    List.take_of_length_le (show (header (.ofNat j)).length ≤ n' by omega),
    show n' = (n' - 1) + 1 by omega, List.replicate_succ, cstr_append_nul, cstr_take, cstr_request]
  intro heq
  refine not_header_isPrefix hij hj ?_
  rw [← heq]
  exact (List.take_prefix _ _).trans (List.take_prefix _ _)

/-- **A stale reply is never accepted.** If the bytes received for request `j` of a run are
the beginning of an earlier request `i`, the exchange is not counted as a good one. -/
theorem stale_reply_not_counted {mss : Mss} {x : ℕ} {cTx cRx : Buffer mss.echoBufferSizes}
    {env : Environment Api} {k i j : ℕ} {reqi reqj : Request} {evsi evsj : Trace Api} {m : ℕ}
    (hi : (exchanges ((prvEchoClientTask x cTx cRx).head env k).2)[i]? = some (reqi, evsi))
    (hj : (exchanges ((prvEchoClientTask x cTx cRx).head env k).2)[j]? = some (reqj, evsj))
    (hij : i < j) (hword : j < 2 ^ 32) (hfull : reqj.lTransmitted = reqj.data.length)
    (hreply : receivedBytes evsj = reqi.data.take m) : ¬ Counted evsj := by
  obtain ⟨n, -, hdatai⟩ := request_of_exchange hi
  obtain ⟨n', hn', hdataj⟩ := request_of_exchange hj
  have hcheck := check_stale_ne_zero hij hword (n := n) (m := m) hn' hdataj hfull
  rw [← hdatai, ← hreply] at hcheck
  rw [Counted]
  rcases (exchange_inv x cTx cRx env k).cases (List.mem_of_getElem? hj) with hdecided | hway
  · rw [hdecided.counted]
    split
    · rename_i hgood
      exact absurd (hdecided.agrees hgood.1 hgood.2) hcheck
    · exact lt_irrefl 0
  · obtain ⟨v, hwaiting⟩ := hway.waiting
    rw [hwaiting.uncounted]
    exact lt_irrefl 0

/-- The first request is not answered in time, and the beginning of its echo comes as the
reply to the second; each drain ends in an error. -/
def lateReply : Environment Api
  | _, .xApplicationGetRandomNumber => 60
  | i, .recv _ _ size =>
    if size = defaultMss.echoBufferSizes then .failed
    else if 16 ≤ i ∧ size = 60 then .store ((request 0 60).take 30)
    else default
  | i, c => scripted (fun _ => []) (fun _ => 60) i c

/-- The late beginning of request 0 is no good reply to request 1. -/
theorem stale_reply_not_counted_late : ∃ reqj evsj,
    (exchanges ((prvEchoClientTask 0 (.replicate defaultMss.echoBufferSizes 0)
      (.replicate defaultMss.echoBufferSizes 0)).head lateReply 10).2)[1]? = some (reqj, evsj) ∧
    receivedBytes evsj = (request 0 60).take 30 ∧ ¬ Counted evsj := by
  have hsummary : (exchanges ((prvEchoClientTask 0 (.replicate defaultMss.echoBufferSizes 0)
      (.replicate defaultMss.echoBufferSizes 0)).head lateReply 10).2).map
        (fun y => (y.1.data, y.1.lTransmitted, receivedBytes y.2)) =
      [(request 0 60, 60, []), (request 1 60, 60, (request 0 60).take 30)] := by decide +kernel
  have hat := fun i : ℕ => congrArg (·[i]?) hsummary
  simp only [List.getElem?_map] at hat
  obtain ⟨⟨reqi, evsi⟩, hi, hsumi⟩ := Option.map_eq_some_iff.mp (hat 0)
  obtain ⟨⟨reqj, evsj⟩, hj, hsumj⟩ := Option.map_eq_some_iff.mp (hat 1)
  simp only [Prod.mk.injEq] at hsumi hsumj
  refine ⟨reqj, evsj, hj, hsumj.2.2, ?_⟩
  refine stale_reply_not_counted (m := 30) hi hj (by decide) (by decide) ?_ ?_
  · rw [hsumj.2.1, hsumj.1, length_request _ (by decide)]
    rfl
  · rw [hsumj.2.2, hsumi.1]

end TcpDemo.EchoClient
