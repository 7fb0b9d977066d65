import TcpDemo.EchoClient.Progress
import TcpDemo.EchoClient.Stale

/-!
# A faithful echo is counted

The peer returns the bytes it was sent, and the network delivers them when and in
whatever pieces it likes, in both directions (`Serves`). As long as bytes are outstanding
a `recv` gets some of them, so the reply loop ends with all that was accepted for
transmission (`faithful_echo_counted`).

What bounds the loop is the number of bytes accepted, although a `recv` asks for the rest
of the whole request: nothing else can arrive, since the bytes received and the bytes on
their way make up what was accepted (`Serves.conserves`).
-/

namespace TcpDemo.EchoClient
open Interaction Traces CBytes FreeRTOS FreeRTOS.Call

/-! ## The peer and the network -/

/-- The bytes on their way: sent and not yet returned by the peer, and returned and not yet
received. -/
structure Wire where
  toPeer : List UInt8
  toClient : List UInt8

/-- From one state of the wire to another, `recv` gets the answers of a faithful peer: at
any time it returns a piece of what it was sent, and a `recv` gets a piece of what was
returned. It gets nothing only where nothing is outstanding. -/
inductive Serves : Wire → Trace Api → Wire → Prop where
  | done (w : Wire) : Serves w [] w
  | echo {piece toPeer toClient : List UInt8} {evs : Trace Api} {w : Wire} (hne : piece ≠ [])
      (h : Serves ⟨toPeer, toClient ++ piece⟩ evs w) : Serves ⟨piece ++ toPeer, toClient⟩ evs w
  | recv {s : Socket} {offset size : ℕ} {a : RecvAnswer size} {toPeer toClient : List UInt8}
      {evs : Trace Api} {w : Wire} (hne : a.data ≠ []) (h : Serves ⟨toPeer, toClient⟩ evs w) :
      Serves ⟨toPeer, a.data ++ toClient⟩ (⟨.recv s offset size, a⟩ :: evs) w
  | idle {s : Socket} {offset size : ℕ} {a : RecvAnswer size} {evs : Trace Api} {w : Wire}
      (hnil : a.data = []) (h : Serves ⟨[], []⟩ evs w) :
      Serves ⟨[], []⟩ (⟨.recv s offset size, a⟩ :: evs) w
  | other {e : Event Api} {evs : Trace Api} {w w' : Wire}
      (he : ∀ s offset size, e.call ≠ .recv s offset size) (h : Serves w evs w') :
      Serves w (e :: evs) w'

/-- The exchange `req` is served by a faithful peer. -/
def Served (req : Request) (evs : Trace Api) : Prop :=
  ∃ w, Serves ⟨req.data.take req.lTransmitted.toNat, []⟩ evs w

section Serves
variable {w w' : Wire} {evs evs' : Trace Api}

theorem received_eq_nil {e : Event Api} (he : ∀ s offset size, e.call ≠ .recv s offset size) :
    received e = [] := by
  obtain ⟨c, a⟩ := e
  cases c with
  | recv s offset size => exact absurd rfl (he s offset size)
  | _ => rfl

/-- **Conservation.** The bytes received and those still outstanding are the bytes that were
outstanding before, in order. -/
theorem Serves.conserves (h : Serves w evs w') :
    receivedBytes evs ++ (w'.toClient ++ w'.toPeer) = w.toClient ++ w.toPeer := by
  induction h with
  | done w => rfl
  | echo _ _ ih => simpa using ih
  | recv _ _ ih => simpa [received] using ih
  | idle hnil _ ih => simpa [received, hnil] using ih
  | other he _ ih => rw [receivedBytes_cons, received_eq_nil he, List.nil_append, ih]

/-- What is outstanding is what was sent, less what has been received. -/
theorem Serves.drop_eq {sent : List UInt8} (h : Serves ⟨sent, []⟩ evs w) :
    sent.drop (receivedBytes evs).length = w.toClient ++ w.toPeer := by
  have hall : receivedBytes evs ++ (w.toClient ++ w.toPeer) = sent := h.conserves
  rw [← hall, List.drop_left]

theorem Serves.split (h : Serves w (evs ++ evs') w') :
    ∃ between, Serves w evs between ∧ Serves between evs' w' := by
  generalize htr : evs ++ evs' = tr at h
  induction h generalizing evs with
  | done w =>
    obtain ⟨rfl, rfl⟩ := List.append_eq_nil_iff.mp htr
    exact ⟨w, .done w, .done w⟩
  | echo hne _ ih =>
    obtain ⟨between, hfirst, hrest⟩ := ih htr
    exact ⟨between, .echo hne hfirst, hrest⟩
  | recv hne h ih =>
    rcases List.append_eq_cons_iff.mp htr with ⟨rfl, rfl⟩ | ⟨evs, rfl, rfl⟩
    · exact ⟨_, .done _, .recv hne h⟩
    · obtain ⟨between, hfirst, hrest⟩ := ih rfl
      exact ⟨between, .recv hne hfirst, hrest⟩
  | idle hnil h ih =>
    rcases List.append_eq_cons_iff.mp htr with ⟨rfl, rfl⟩ | ⟨evs, rfl, rfl⟩
    · exact ⟨_, .done _, .idle hnil h⟩
    · obtain ⟨between, hfirst, hrest⟩ := ih rfl
      exact ⟨between, .idle hnil hfirst, hrest⟩
  | other he h ih =>
    rcases List.append_eq_cons_iff.mp htr with ⟨rfl, rfl⟩ | ⟨evs, rfl, rfl⟩
    · exact ⟨_, .done _, .other he h⟩
    · obtain ⟨between, hfirst, hrest⟩ := ih rfl
      exact ⟨between, .other he hfirst, hrest⟩

/-- A `recv` that gets nothing leaves nothing outstanding. -/
theorem Serves.outstanding {s : Socket} {offset size : ℕ} {a : RecvAnswer size}
    (h : Serves w [⟨.recv s offset size, a⟩] w') (hnil : a.data = []) :
    w.toClient ++ w.toPeer = [] := by
  generalize htr : [(⟨.recv s offset size, a⟩ : Event Api)] = tr at h
  induction h with
  | done w => simp at htr
  | echo hne _ ih => simpa using ih htr
  | recv hne _ _ =>
    simp only [List.cons.injEq, Event.mk.injEq, Call.recv.injEq] at htr
    obtain ⟨⟨⟨-, -, rfl⟩, ha⟩, -⟩ := htr
    rw [← eq_of_heq ha] at hne
    exact absurd hnil hne
  | idle _ _ _ => rfl
  | other he _ _ =>
    simp only [List.cons.injEq] at htr
    obtain ⟨rfl, -⟩ := htr
    exact absurd rfl (he s offset size)

variable {req : Request}

/-- No more is received than was accepted, and that in order. -/
theorem Served.isPrefix (h : Served req evs) :
    receivedBytes evs <+: req.data.take req.lTransmitted.toNat := by
  obtain ⟨w, hserves⟩ := h
  exact ⟨_, hserves.conserves⟩

/-- A `recv` gets something as long as not all accepted bytes are received. -/
theorem Served.recv_ne_nil {s : Socket} {offset size : ℕ} {a : RecvAnswer size}
    (h : Served req (evs ++ [⟨.recv s offset size, a⟩])) (hle : req.lTransmitted ≤ req.data.length)
    (hmore : (receivedBytes evs).length < req.lTransmitted) : a.data ≠ [] := by
  intro hnil
  obtain ⟨w, hserves⟩ := h
  obtain ⟨between, hfirst, hlast⟩ := hserves.split
  have hall := hfirst.conserves
  rw [hlast.outstanding hnil, List.append_nil, List.nil_append] at hall
  rw [hall, List.length_take] at hmore
  omega

theorem Serves.append {w'' : Wire} (h : Serves w evs w') (h' : Serves w' evs' w'') :
    Serves w (evs ++ evs') w'' := by
  induction h with
  | done w => exact h'
  | echo hne _ ih => exact .echo hne (ih h')
  | recv hne _ ih => exact .recv hne (ih h')
  | idle hnil _ ih => exact .idle hnil (ih h')
  | other he _ ih => exact .other he (ih h')

theorem Served.other {e : Event Api} (h : Served req evs)
    (he : ∀ s offset size, e.call ≠ .recv s offset size) : Served req (evs ++ [e]) := by
  obtain ⟨w, hserves⟩ := h
  exact ⟨w, hserves.append (.other he (.done w))⟩

/-- A `recv` may get any beginning of what is outstanding but the empty one, -/
theorem Served.recv {s : Socket} {offset size : ℕ} {a : RecvAnswer size} (h : Served req evs)
    (hne : a.data ≠ [])
    (hpre : a.data <+: (req.data.take req.lTransmitted.toNat).drop (receivedBytes evs).length) :
    Served req (evs ++ [⟨.recv s offset size, a⟩]) := by
  obtain ⟨⟨toPeer, toClient⟩, hserves⟩ := h
  rw [hserves.drop_eq] at hpre
  obtain ⟨rest, hrest⟩ := hpre
  -- the peer returns all it still has, before this `recv`
  have hlast : Serves ⟨[], toClient ++ toPeer⟩ [⟨.recv s offset size, a⟩] ⟨[], rest⟩ :=
    hrest ▸ .recv hne (.done _)
  refine ⟨⟨[], rest⟩, hserves.append ?_⟩
  by_cases hnil : toPeer = []
  · rw [hnil, List.append_nil] at hlast
    rwa [hnil]
  · have hecho := Serves.echo hnil hlast
    rwa [List.append_nil] at hecho

/-- and nothing where nothing is. -/
theorem Served.idle {s : Socket} {offset size : ℕ} {a : RecvAnswer size} (h : Served req evs)
    (hnil : a.data = [])
    (hall : (req.data.take req.lTransmitted.toNat).drop (receivedBytes evs).length = []) :
    Served req (evs ++ [⟨.recv s offset size, a⟩]) := by
  obtain ⟨⟨toPeer, toClient⟩, hserves⟩ := h
  rw [hserves.drop_eq, List.append_eq_nil_iff] at hall
  obtain ⟨rfl, rfl⟩ := hall
  exact ⟨_, hserves.append (.idle hnil (.done _))⟩

/-- A reply that comes in non-empty pieces is delivered by a faithful network. -/
theorem serves_pieces (hfailed : evs.any failedRecv = false) (hempty : evs.any emptyRecv = false) :
    Serves ⟨[], receivedBytes evs⟩ evs ⟨[], []⟩ := by
  induction evs with
  | nil => exact .done _
  | cons e evs ih =>
    simp only [List.any_cons, Bool.or_eq_false_iff] at hfailed hempty
    specialize ih hfailed.2 hempty.2
    by_cases he : ∃ s offset size, e.call = .recv s offset size
    · obtain ⟨c, a⟩ := e
      obtain ⟨s, offset, size, rfl⟩ := he
      have hneg := hfailed.1
      have hzero := hempty.1
      simp only [failedRecv, emptyRecv, decide_eq_false_iff_not] at hneg hzero
      exact .recv (mt RecvAnswer.data_eq_nil_iff.mp (by omega)) ih
    · rw [receivedBytes_cons, received_eq_nil fun s offset size hc => he ⟨s, offset, size, hc⟩]
      exact .other (fun s offset size hc => he ⟨s, offset, size, hc⟩) ih

/-- The peer returns all it was sent at once, and the reply comes in non-empty pieces. -/
theorem served_pieces (hpos : 0 < (receivedBytes evs).length)
    (hreply : receivedBytes evs = req.data.take req.lTransmitted.toNat)
    (hfailed : evs.any failedRecv = false) (hempty : evs.any emptyRecv = false) :
    Served req evs := by
  have h : Serves ⟨receivedBytes evs ++ [], []⟩ evs ⟨[], []⟩ :=
    .echo (List.ne_nil_of_length_pos hpos) (serves_pieces hfailed hempty)
  rw [List.append_nil, hreply] at h
  exact ⟨_, h⟩

theorem Served.of_isPrefix (h : Served req evs') (hpre : evs <+: evs') : Served req evs := by
  obtain ⟨w, hserves⟩ := h
  obtain ⟨rest, rfl⟩ := hpre
  obtain ⟨between, hfirst, -⟩ := hserves.split
  exact ⟨between, hfirst⟩

/-- All is received once the loop is over, and it compares equal. -/
theorem Served.complete (h : Served req evs)
    (hover : req.lTransmitted ≤ (receivedBytes evs).length) :
    receivedBytes evs = req.data.take req.lTransmitted.toNat := by
  refine h.isPrefix.eq_of_length_le ?_
  rw [List.length_take]
  omega

theorem check_take (hle : req.lTransmitted ≤ req.data.length) :
    check req (req.data.take req.lTransmitted.toNat) = 0 := by
  have hlen : (req.data.take req.lTransmitted.toNat).length = req.lTransmitted.toNat := by
    rw [List.length_take]
    omega
  rw [check_eq_zero_iff hle, ← cstr_take, ← cstr_take, List.take_append_of_le_length hlen.ge,
    List.take_take, min_self]

end Serves

/-! ## The reply loop -/

section Loop
variable {mss : Mss} {x : ℕ} {cTx cRx : Buffer mss.echoBufferSizes} {env : Environment Api} {i : ℕ}

/-- In the `i`-th exchange of the run the peer is faithful, at every moment. -/
def FaithfulPeer (x : ℕ) (cTx cRx : Buffer mss.echoBufferSizes) (env : Environment Api) (i : ℕ) :
    Prop :=
  ∀ tr, (prvEchoClientTask x cTx cRx).Moment env tr → ∀ req evs,
    (exchanges tr)[i]? = some (req, evs) → Served req evs

/-- A peer that was faithful until the exchange was over is a faithful one. -/
theorem faithfulPeer_of_idle {P : Request → Trace Api → Prop} {k : ℕ} {req : Request}
    {evs : Trace Api} (hidle : Idle P boundary ((prvEchoClientTask x cTx cRx).head env k).2)
    (hi : (exchanges ((prvEchoClientTask x cTx cRx).head env k).2)[i]? = some (req, evs))
    (hserved : Served req evs) : FaithfulPeer x cTx cRx env i := by
  rintro tr ⟨m, hm⟩ req' evs' hi'
  have hgrow := hm.trans (Task.head_isPrefix env (Nat.le_max_left m k))
  obtain ⟨ys, hys⟩ := Task.head_isPrefix (T := prvEchoClientTask x cTx cRx) env
    (Nat.le_max_right m k)
  have hover := hidle.getElem?_append ys hi
  obtain ⟨s, hs, hi'⟩ := intervals_isPrefix hgrow hi'
  rw [← hys, hover, Option.some.injEq, Prod.mk.injEq] at hi'
  obtain ⟨rfl, rfl⟩ := hi'
  exact hserved.of_isPrefix hs

/-- The client is in the reply loop of its `i`-th exchange, and some bytes of the request
were accepted for transmission. -/
structure AwaitsReply (i : ℕ) (req : Request) (l : FreeRTOS.Label (Loc mss)) (tr : Trace Api) :
    Prop where
  place : AtReceiving l tr
  last : (exchanges tr).length = i + 1
  request : ((exchanges tr)[i]?).map Prod.fst = some req
  some : 0 < req.lTransmitted

/-- The reply loop of the `i`-th exchange is over, the whole reply is received, and the
assertion on the comparison holds. -/
def Complete (i : ℕ) (req : Request) (l : FreeRTOS.Label (Loc mss)) (tr : Trace Api) : Prop :=
  ∃ v evs, l = .code (.compared v) ∧ (exchanges tr)[i]? = some (req, evs) ∧ compare v = 0 ∧
    v.xReceivedBytes = req.lTransmitted ∧
    receivedBytes evs = req.data.take req.lTransmitted.toNat

/-- The bytes of the reply that are missing. -/
def missing : FreeRTOS.Label (Loc mss) → ℕ
  | .code (.receiving v) => (v.lTransmitted - v.xReceivedBytes).toNat
  | _ => 0

/-- There is an exchange for each `send`, with the request it was given. -/
theorem length_exchanges (tr : Trace Api) : (exchanges tr).length = (sends tr).length := by
  rw [← List.length_map Prod.fst, map_fst_exchanges, List.length_map]

theorem request_eq_some {tr : Trace Api} {req : Request} :
    ((exchanges tr)[i]?).map Prod.fst = some req ↔
      (sends tr)[i]? = some (req.data, req.lTransmitted) := by
  rw [← List.getElem?_map, map_fst_exchanges, List.getElem?_map, Option.map_eq_some_iff]
  constructor
  · rintro ⟨s, hs, rfl⟩
    exact hs
  · exact fun hs => ⟨_, hs, rfl⟩

/-- A request for which some bytes are accepted takes the client to the reply loop. -/
theorem drawing_awaitsReply {v : Vars mss} {tr evs : Trace Api} {l : FreeRTOS.Label (Loc mss)}
    {req : Request} (hstep : (body x (.drawing v)).Issues evs l)
    (hreq : (sends (tr ++ evs))[i]? = some (req.data, req.lTransmitted))
    (hnew : (sends tr).length ≤ i) (hpos : 0 < req.lTransmitted) :
    AwaitsReply i req l (tr ++ evs) := by
  have hlt := (List.getElem?_eq_some_iff.mp hreq).1
  have hat := hreq
  rw [sends_append, List.getElem?_append_right hnew] at hat
  rw [sends_append, List.length_append] at hlt
  obtain ⟨r, rest, rfl, ⟨-, rfl, rfl⟩ | ⟨n, hn, hsize, hsend⟩⟩ := drawing_step hstep
  · simp [sendOf] at hat
  obtain ⟨a, tx, last, -, rfl, ⟨hneg, hfinish⟩ | ⟨-, rfl, rfl⟩⟩ := sendRequest_step hn hsize hsend
  · -- an error of `send` is not a number of bytes
    obtain ⟨hnone, -⟩ := finish_sends hfinish
    have hevs : sends (⟨.xApplicationGetRandomNumber, r⟩ :: (sendEvents v n a ++ last)) =
        [(request v.ulTxCount n, a.result)] := by
      rw [sends_cons, sends_append, hnone]
      rfl
    rw [hevs, List.getElem?_singleton, Option.ite_none_right_eq_some] at hat
    have hresult := (Prod.mk.inj (Option.some.inj hat.2)).2
    omega
  · refine ⟨⟨_, rfl⟩, ?_, request_eq_some.mpr hreq, hpos⟩
    rw [length_exchanges, sends_append, List.length_append]
    exact (Nat.le_antisymm (Nat.succ_le_of_lt hlt) (Nat.add_le_add_right hnew 1)).symm

/-- Every exchange for which some bytes were accepted gets to the reply loop. -/
theorem exists_awaitsReply {k : ℕ} {req : Request} (hpos : 0 < req.lTransmitted)
    (hreq : ((exchanges ((prvEchoClientTask x cTx cRx).head env k).2)[i]?).map Prod.fst =
      some req) : ∃ n ≤ k, AwaitsReply i req ((prvEchoClientTask x cTx cRx).head env n).1
        ((prvEchoClientTask x cTx cRx).head env n).2 := by
  rw [request_eq_some] at hreq
  induction k with
  | zero => simp at hreq
  | succ k ih =>
    obtain ⟨evs, htr, hstep⟩ := Task.head_step (T := prvEchoClientTask x cTx cRx) env k
    rw [htr] at hreq
    rcases Nat.lt_or_ge i (sends ((prvEchoClientTask x cTx cRx).head env k).2).length with
      hold | hnew
    · rw [sends_append, List.getElem?_append_left hold] at hreq
      obtain ⟨n, hn, hawaits⟩ := ih hreq
      exact ⟨n, by omega, hawaits⟩
    refine ⟨k + 1, le_rfl, ?_⟩
    rw [htr]
    by_cases hl : ∃ v, ((prvEchoClientTask x cTx cRx).head env k).1 = .code (.drawing v)
    · obtain ⟨v, hv⟩ := hl
      rw [hv] at hstep
      exact drawing_awaitsReply (x := x) hstep hreq hnew hpos
    · have hnone := (body_sendsNothing (fun v hv => hl ⟨v, hv⟩) hstep).1
      rw [sends_append, hnone, List.append_nil, List.getElem?_eq_none hnew] at hreq
      simp at hreq

/-- Behind the loop of a faithful exchange the comparison is reached. -/
theorem replied_complete {v : Vars mss} {req : Request} {evs evs' tr : Trace Api}
    {l : FreeRTOS.Label (Loc mss)} (hw : Waiting v req evs)
    (hcount : v.xReceivedBytes = (receivedBytes evs).length) (hserved : Served req evs)
    (hi : (exchanges tr)[i]? = some (req, evs)) (hpos : 0 < req.lTransmitted)
    (hover : v.lTransmitted ≤ v.xReceivedBytes) (hstep : (replied v).Issues evs' l) :
    Complete i req l (tr ++ evs') := by
  have hsent := hw.lTransmitted
  have hreply := hserved.complete (by omega)
  have hcmp : compare v = 0 := by
    rw [hw.compare_eq, hreply]
    exact check_take hw.accepted_le
  have hlen : v.xReceivedBytes = req.lTransmitted := by
    have hle := hw.accepted_le
    rw [hcount, hreply, List.length_take]
    omega
  rcases replied_step hstep with ⟨-, -, rfl, rfl⟩ | ⟨-, hne, -⟩ | ⟨hnone, -⟩
  · rw [List.append_nil]
    exact ⟨v, evs, rfl, hi, hcmp, hlen, hreply⟩
  · exact absurd hcmp hne
  · omega

/-- **The reply loop ends with the whole reply.** What is missing gets less with every
`recv`, as some of it is outstanding. -/
theorem receiving_completes (h : FaithfulPeer x cTx cRx env i) (req : Request) (m : ℕ) :
    (prvEchoClientTask x cTx cRx).LeadsTo env
      (fun l tr => AwaitsReply i req l tr ∧ missing l = m) (Complete i req) := by
  refine Task.LeadsTo.of_variant (T := prvEchoClientTask x cTx cRx)
    (J := fun l tr => ExchangeInv l tr ∧ (prvEchoClientTask x cTx cRx).Moment env tr)
    (P := fun m l tr => AwaitsReply i req l tr ∧ missing l = m)
    (fun k => ⟨exchange_inv x cTx cRx env k, Task.moment_head env k⟩) ?_ m
  rintro m l tr evs' l' ⟨hinv, hmoment⟩ ⟨-, hmoment'⟩ - hstep ⟨⟨⟨v, rfl⟩, hlen, hreq, hpos⟩, rfl⟩
  obtain ⟨req', evs, hbusy, hw, hcount, -⟩ := hinv
  have hsent := hw.lTransmitted
  have hlast := (hbusy.last hlen [] (by simp)).2
  simp only [List.append_nil] at hlast
  obtain rfl : req' = req := by
    rw [exchanges, hlast] at hreq
    exact Option.some.inj hreq
  rcases receiving_step (x := x) hstep with ⟨hover, hreplied⟩ | ⟨hmore, a, rest, rfl, hcases⟩
  · have hserved := h tr hmoment req' evs hlast
    exact .inl (replied_complete hw hcount hserved hlast hpos hover hreplied)
  · right
    obtain ⟨hlen', hlast'⟩ := hbusy.last hlen [⟨.recv v.xSocket v.xReceivedBytes.toNat
      (v.lStringLength - v.xReceivedBytes).toNat, a⟩] (by simp [boundary])
    have hserved := h _ (hmoment'.mono ⟨rest, by simp⟩) req' _ hlast'
    have hdata := hserved.recv_ne_nil hw.accepted_le (by omega)
    have hresult : 0 < a.result := not_le.mp (mt RecvAnswer.data_eq_nil_iff.mpr hdata)
    rcases hcases with ⟨hneg, -⟩ | ⟨hzero, -⟩ | ⟨-, rfl, rfl⟩
    · omega
    · omega
    · refine ⟨_, ?_, ⟨⟨_, rfl⟩, hlen', ?_, hpos⟩, rfl⟩
      · simp only [missing, stored]
        omega
      · rw [exchanges, hlast']
        rfl

end Loop

/-! ## The counters of an iteration -/

/-- A counter of instance `x` that holds `c`, behind these calls. -/
def counterAfter (counter : Counter) (x : ℕ) (c : UInt32) (evs : Trace Api) : UInt32 :=
  evs.foldl (fun c e => if e.call = .increment counter x then c + 1 else c) c

/-- No socket is created, and neither a cycle nor a failure is counted. -/
def Quiet (e : Event Api) : Prop :=
  newSocket e = none ∧ ∀ counter x, counter ≠ .ulConnections → e.call ≠ .increment counter x

/-- The counters of cycles and failures are as they were. -/
def Unchanged (evs : Trace Api) : Prop :=
  ∀ counter x c, counter ≠ .ulConnections → counterAfter counter x c evs = c

/-- One cycle of instance `x` is counted, and no failure. -/
def OneCycle (x : ℕ) (evs : Trace Api) : Prop :=
  ∀ c, counterAfter .ulTxRxCycles x c evs = c + 1 ∧ counterAfter .ulTxRxFailures x c evs = c

section Counters
variable {x : ℕ} {evs evs' : Trace Api}

@[simp] theorem counterAfter_append (counter : Counter) (c : UInt32) :
    counterAfter counter x c (evs ++ evs') =
      counterAfter counter x (counterAfter counter x c evs) evs' := List.foldl_append

theorem unchanged_of_quiet (h : ∀ e ∈ evs, Quiet e) : Unchanged evs := by
  intro counter x c hcounter
  induction evs with
  | nil => rfl
  | cons e evs ih =>
    obtain ⟨he, hevs⟩ := List.forall_mem_cons.mp h
    rw [counterAfter, List.foldl_cons, if_neg (he.2 counter x hcounter)]
    exact ih hevs

theorem Unchanged.append (h : Unchanged evs) (h' : Unchanged evs') : Unchanged (evs ++ evs') := by
  intro counter x c hcounter
  rw [counterAfter_append, h counter x c hcounter, h' counter x c hcounter]

theorem OneCycle.append (h : OneCycle x evs) (h' : Unchanged evs') : OneCycle x (evs ++ evs') := by
  intro c
  rw [counterAfter_append, counterAfter_append, (h c).1, (h c).2]
  exact ⟨h' _ x _ (by decide), h' _ x _ (by decide)⟩

theorem Unchanged.oneCycle (h : Unchanged evs) (h' : ∀ e ∈ evs', Quiet e) :
    OneCycle x (evs ++ ⟨increment .ulTxRxCycles x, ()⟩ :: evs') := by
  rw [List.append_cons]
  refine OneCycle.append (fun c => ?_) (unchanged_of_quiet h')
  rw [counterAfter_append, counterAfter_append, h _ x c (by decide), h _ x c (by decide)]
  simp [counterAfter]

end Counters

section Iterations
variable {mss : Mss} {v : Vars mss} {evs : Trace Api} {l l' : FreeRTOS.Label (Loc mss)} {x : ℕ}

/-- The iteration is past its exchange. -/
def PastExchange : FreeRTOS.Label (Loc mss) → Prop
  | .code (.connecting _) | .code (.draining _) => True
  | _ => False

theorem finish_quiet (h : (finish v).Issues evs l) : (∀ e ∈ evs, Quiet e) ∧ PastExchange l := by
  obtain ⟨r, t, rfl, rfl⟩ := finish_step h
  exact ⟨by simp [Quiet, newSocket], trivial⟩

theorem replied_quiet (h : (replied v).Issues evs l) : ∀ e ∈ evs, Quiet e := by
  rcases replied_step h with ⟨-, -, rfl, -⟩ | ⟨-, -, rfl, -⟩ | ⟨-, h⟩
  · simp
  · simp [Quiet, newSocket]
  · exact (finish_quiet h).1

theorem drawing_quiet (h : (body x (.drawing v)).Issues evs l) : ∀ e ∈ evs, Quiet e := by
  obtain ⟨r, rest, rfl, ⟨-, rfl, rfl⟩ | ⟨n, hn, hsize, hsend⟩⟩ := drawing_step h
  · simp [Quiet, newSocket]
  obtain ⟨a, tx, rest, -, rfl, ⟨-, hfinish⟩ | ⟨-, rfl, -⟩⟩ := sendRequest_step hn hsize hsend
  · have hquiet := (finish_quiet hfinish).1
    simpa [Quiet, sendEvents, newSocket] using hquiet
  · simp [Quiet, sendEvents, newSocket]

theorem receiving_quiet (h : (body x (.receiving v)).Issues evs l) : ∀ e ∈ evs, Quiet e := by
  refine receiving_rule (P := fun evs _ => ∀ e ∈ evs, Quiet e) replied_quiet replied_quiet
    (by simp) (fun hrest => ?_) h
  simpa [Quiet, newSocket] using hrest

/-- What the code between two loop heads can do to the iterations and to the counters of
cycles and failures: it opens an iteration, it counts a cycle and is past the exchange, or
neither. -/
theorem body_quiet {cTx cRx : Buffer mss.echoBufferSizes} {tr : Trace Api}
    (hinv : ExchangeInv l tr) (h : ((prvEchoClientTask x cTx cRx).body l).Issues evs l') :
    (∃ v s rest, l = .code (.connecting v) ∧ evs = ⟨socket, s⟩ :: rest ∧ ∀ e ∈ rest, Quiet e) ∨
    (∃ v rest, l = .code (.compared v) ∧ evs = ⟨increment .ulTxRxCycles x, ()⟩ :: rest ∧
      (∀ e ∈ rest, Quiet e) ∧ PastExchange l') ∨
    (∀ e ∈ evs, Quiet e) ∧ (PastExchange l → PastExchange l') ∧
      ∀ v, l ≠ .code (.compared v) := by
  cases l with
  | vAssertCalled looping l =>
    right; right
    rcases vAssertCalled_step h with ⟨-, rfl, rfl⟩ | ⟨-, rfl, rfl⟩ <;>
      exact ⟨by simp [Quiet, newSocket], False.elim, by simp⟩
  | code l =>
    cases l with
    | connecting v =>
      left
      rcases connecting_step (x := x) h with ⟨s, rfl, rfl⟩ | ⟨rfl, rfl⟩
      · exact ⟨v, s, [], rfl, rfl, by simp⟩
      · exact ⟨v, .invalid, _, rfl, rfl, by simp [Quiet, newSocket]⟩
    | created v =>
      right; right
      rcases created_step (x := x) h with ⟨o, rfl, rfl⟩ | ⟨o, ret, r, -, rfl, rfl⟩
      · refine ⟨?_, False.elim, by simp⟩
        simp [Quiet, attempt, newSocket]
        exact fun _ => mt Eq.symm
      · exact ⟨by simp [Quiet, attempt, newSocket], False.elim, by simp⟩
    | drawing v => exact .inr (.inr ⟨drawing_quiet (x := x) h, False.elim, by simp⟩)
    | receiving v => exact .inr (.inr ⟨receiving_quiet (x := x) h, False.elim, by simp⟩)
    | compared v =>
      right; left
      obtain ⟨req, evs', -, hw, -, hcheck⟩ := hinv
      rcases compared_step (x := x) h with ⟨-, rest, rfl, hnext⟩ | ⟨hne, -⟩
      · rw [nextRequest, if_neg (by simp [hw.lLoopCount, lMaxLoopCount])] at hnext
        exact ⟨v, rest, rfl, rfl, finish_quiet hnext⟩
      · exact absurd (hw.compare_eq.trans hcheck) hne
    | draining v =>
      right; right
      obtain ⟨a, b, ⟨t, -, rfl, rfl⟩ | ⟨ticks, r, hticks, rfl, rfl⟩⟩ := draining_step (x := x) h
      · exact ⟨by simp [Quiet, newSocket], fun _ => trivial, by simp⟩
      · refine ⟨?_, fun _ => trivial, by simp⟩
        rcases hticks with ⟨-, rfl⟩ | ⟨t, -, rfl⟩ <;> simp [Quiet, newSocket]

/-- Until it is past its exchange, an iteration has counted nothing. -/
def Fresh (l : FreeRTOS.Label (Loc mss)) (tr : Trace Api) : Prop :=
  PastExchange l ∨ ∃ ss s seg, iterations tr = ss ++ [(s, seg)] ∧ Unchanged seg

/-- The `j`-th iteration has counted one cycle, and is past its exchange. -/
def Counting (x j : ℕ) (l : FreeRTOS.Label (Loc mss)) (tr : Trace Api) : Prop :=
  ∃ s seg, (iterations tr)[j]? = some (s, seg) ∧ OneCycle x seg ∧
    (PastExchange l ∨ j + 1 < (iterations tr).length)

variable {cTx cRx : Buffer mss.echoBufferSizes} {tr : Trace Api}

theorem fresh_step (hinv : ExchangeInv l tr) (hfresh : Fresh l tr)
    (h : ((prvEchoClientTask x cTx cRx).body l).Issues evs l') : Fresh l' (tr ++ evs) := by
  rcases body_quiet hinv h with ⟨v, s, rest, rfl, rfl, hrest⟩ | ⟨v, rest, -, -, -, hpast⟩ |
    ⟨hquiet, hpast, -⟩
  · exact .inr ⟨_, s, rest, segments_append_cons tr rest rfl fun e he => (hrest e he).1,
      unchanged_of_quiet hrest⟩
  · exact .inl hpast
  · rcases hfresh with hl | ⟨ss, s, seg, hseg, hsame⟩
    · exact .inl (hpast hl)
    · exact .inr ⟨ss, s, seg ++ evs, segments_append_of_none evs hseg fun e he => (hquiet e he).1,
        hsame.append (unchanged_of_quiet hquiet)⟩

theorem counting_step {j : ℕ} (hinv : ExchangeInv l tr) (hj : Counting x j l tr)
    (h : ((prvEchoClientTask x cTx cRx).body l).Issues evs l') : Counting x j l' (tr ++ evs) := by
  obtain ⟨s, seg, hseg, hone, hplace⟩ := hj
  have hlt := (List.getElem?_eq_some_iff.mp hseg).1
  rcases body_quiet hinv h with ⟨v, s', rest, rfl, rfl, hrest⟩ | ⟨v, rest, rfl, rfl, hrest, -⟩ |
    ⟨hquiet, hpast, -⟩
  · -- the next iteration
    have hnew : iterations (tr ++ ⟨socket, s'⟩ :: rest) = iterations tr ++ [(s', rest)] :=
      segments_append_cons tr rest rfl fun e he => (hrest e he).1
    refine ⟨s, seg, ?_, hone, .inr ?_⟩
    · rw [hnew, List.getElem?_append_left hlt, hseg]
    · rw [hnew, List.length_append, List.length_singleton]
      omega
  · -- a later iteration counts its cycle
    have hlater : j + 1 < (segments newSocket tr).length := hplace.resolve_left id
    obtain ⟨hlen, hget⟩ := getElem?_segments_append (⟨increment .ulTxRxCycles x, ()⟩ :: rest) hseg
      (List.forall_mem_cons.mpr ⟨rfl, fun e he => (hrest e he).1⟩)
    rw [if_pos hlater] at hget
    exact ⟨s, seg, hget, hone, .inr (by rw [iterations, hlen]; exact hlater)⟩
  · obtain ⟨hlen, hget⟩ := getElem?_segments_append evs hseg fun e he => (hquiet e he).1
    have hplace' : PastExchange l' ∨ j + 1 < (iterations (tr ++ evs)).length := by
      rw [iterations, hlen]
      exact hplace.imp_left hpast
    split at hget
    · exact ⟨s, seg, hget, hone, hplace'⟩
    · exact ⟨s, _, hget, hone.append (unchanged_of_quiet hquiet), hplace'⟩

theorem fresh_inv (x : ℕ) (cTx cRx : Buffer mss.echoBufferSizes) (env : Environment Api) (k : ℕ) :
    Fresh ((prvEchoClientTask x cTx cRx).head env k).1
      ((prvEchoClientTask x cTx cRx).head env k).2 :=
  (Task.head_induction (prvEchoClientTask x cTx cRx) (fun l tr => ExchangeInv l tr ∧ Fresh l tr)
    ⟨idle_nil, .inl trivial⟩ (fun l tr evs l' h hstep =>
      ⟨exchangeInv_step x cTx cRx l tr evs l' h.1 hstep, fresh_step h.1 h.2 hstep⟩) env k).2

/-- What the iteration that gets its whole reply counts, then and ever after. -/
theorem counts_cycle {env : Environment Api} {n : ℕ}
    (hn : ((prvEchoClientTask x cTx cRx).head env n).1 = .code (.compared v)) : ∃ j,
      (iterations ((prvEchoClientTask x cTx cRx).head env n).2).length = j + 1 ∧
      ∀ m > n, ∃ s seg, (iterations ((prvEchoClientTask x cTx cRx).head env m).2)[j]? =
        some (s, seg) ∧ OneCycle x seg := by
  have hinv := exchange_inv x cTx cRx env
  obtain ⟨ss, s, seg, hseg, hsame⟩ := (fresh_inv x cTx cRx env n).resolve_left
    (by rw [hn]; exact id)
  refine ⟨ss.length, by rw [hseg]; simp, fun m hm => ?_⟩
  suffices hcounting : Counting x ss.length ((prvEchoClientTask x cTx cRx).head env m).1
      ((prvEchoClientTask x cTx cRx).head env m).2 by
    obtain ⟨s, seg, hget, hone, -⟩ := hcounting
    exact ⟨s, seg, hget, hone⟩
  induction m, hm using Nat.le_induction with
  | base =>
    obtain ⟨evs, htr, hstep⟩ := Task.head_step (T := prvEchoClientTask x cTx cRx) env n
    have hn' := hinv n
    rw [hn] at hstep hn'
    rcases body_quiet hn' hstep with ⟨v', s', rest, hv, -⟩ | ⟨v', rest, -, rfl, hrest, hpast⟩ |
      ⟨-, -, hne⟩
    · simp at hv
    · rw [htr]
      refine ⟨s, _, ?_, hsame.oneCycle hrest, .inl hpast⟩
      rw [iterations, segments_append_of_none (⟨increment .ulTxRxCycles x, ()⟩ :: rest) hseg
        (List.forall_mem_cons.mpr ⟨rfl, fun e he => (hrest e he).1⟩)]
      exact List.getElem?_concat_length
    · exact absurd rfl (hne v)
  | succ m _ ih =>
    obtain ⟨evs, htr, hstep⟩ := Task.head_step (T := prvEchoClientTask x cTx cRx) env m
    rw [htr]
    exact counting_step (hinv m) ih hstep

end Iterations

/-- **A faithful echo is counted.** If some bytes of the `i`-th request of a run were accepted
for transmission and the peer is faithful, the reply loop ends with just these bytes
received, the assertion on the comparison holds, and the iteration counts one cycle and no
failure. -/
theorem faithful_echo_counted {mss : Mss} {x : ℕ} {cTx cRx : Buffer mss.echoBufferSizes}
    {env : Environment Api} {k i : ℕ} {req : Request} {evs : Trace Api}
    (hi : (exchanges ((prvEchoClientTask x cTx cRx).head env k).2)[i]? = some (req, evs))
    (hpos : 0 < req.lTransmitted) (hpeer : FaithfulPeer x cTx cRx env i) :
    ∃ n j, Complete i req ((prvEchoClientTask x cTx cRx).head env n).1
        ((prvEchoClientTask x cTx cRx).head env n).2 ∧
      (iterations ((prvEchoClientTask x cTx cRx).head env n).2).length = j + 1 ∧
      ∀ m > n, ∃ s seg, (iterations ((prvEchoClientTask x cTx cRx).head env m).2)[j]? =
        some (s, seg) ∧ OneCycle x seg := by
  obtain ⟨k', -, hawaits⟩ := exists_awaitsReply hpos (congrArg (Option.map Prod.fst) hi)
  obtain ⟨n, -, hcomplete⟩ := receiving_completes hpeer req _ k' ⟨hawaits, rfl⟩
  obtain ⟨v, evs', hn, -⟩ := id hcomplete
  obtain ⟨j, hj, hcounts⟩ := counts_cycle hn
  exact ⟨n, j, hcomplete, hj, hcounts⟩

/-- The server takes the first request, of 60 bytes, and the echo comes in two pieces. -/
def inPieces : Environment Api
  | _, .xApplicationGetRandomNumber => 60
  | i, c => scripted (fun i => if i = 13 then (request 0 60).take 20 else
      if i = 14 then (request 0 60).drop 20 else []) (fun _ => 60) i c

/-- The echo in two pieces is counted. -/
theorem faithful_echo_counted_pieces : ∃ req n j,
    Complete 0 req ((prvEchoClientTask 0 (.replicate defaultMss.echoBufferSizes 0)
      (.replicate defaultMss.echoBufferSizes 0)).head inPieces n).1
      ((prvEchoClientTask 0 (.replicate defaultMss.echoBufferSizes 0)
        (.replicate defaultMss.echoBufferSizes 0)).head inPieces n).2 ∧
    (iterations ((prvEchoClientTask 0 (.replicate defaultMss.echoBufferSizes 0)
      (.replicate defaultMss.echoBufferSizes 0)).head inPieces n).2).length = j + 1 ∧
    ∀ m > n, ∃ s seg, (iterations ((prvEchoClientTask 0 (.replicate defaultMss.echoBufferSizes 0)
      (.replicate defaultMss.echoBufferSizes 0)).head inPieces m).2)[j]? = some (s, seg) ∧
      OneCycle 0 seg := by
  -- at the seventh loop head the exchange is over, and the drain has begun
  obtain ⟨⟨b, seg⟩, hlast, hb⟩ := Option.map_eq_some_iff.mp
    (show (segments boundary ((prvEchoClientTask 0 (.replicate defaultMss.echoBufferSizes 0)
      (.replicate defaultMss.echoBufferSizes 0)).head inPieces 7).2).getLast?.map
        (fun y => y.1.isSome) = some false by decide +kernel)
  obtain rfl : b = none := Option.not_isSome_iff_eq_none.mp (by simp [hb])
  obtain ⟨ss, hss⟩ := List.getLast?_eq_some_iff.mp hlast
  have hidle : Idle (fun _ _ => True) boundary ((prvEchoClientTask 0
      (.replicate defaultMss.echoBufferSizes 0)
      (.replicate defaultMss.echoBufferSizes 0)).head inPieces 7).2 :=
    ⟨.inr ⟨ss, seg, hss⟩, fun _ _ _ => trivial⟩
  obtain ⟨⟨req, evs⟩, hx, hsummary⟩ := List.map_eq_singleton_iff.mp
    (show (exchanges ((prvEchoClientTask 0 (.replicate defaultMss.echoBufferSizes 0)
      (.replicate defaultMss.echoBufferSizes 0)).head inPieces 7).2).map (fun y => (y.1.data,
        y.1.lTransmitted, receivedBytes y.2, y.2.any failedRecv, y.2.any emptyRecv)) =
      [(request 0 60, 60, request 0 60, false, false)] by decide +kernel)
  simp only [Prod.mk.injEq] at hsummary
  obtain ⟨hdata, hsent, hreply, hfailed, hempty⟩ := hsummary
  have hi : (exchanges ((prvEchoClientTask 0 (.replicate defaultMss.echoBufferSizes 0)
      (.replicate defaultMss.echoBufferSizes 0)).head inPieces 7).2)[0]? = some (req, evs) := by
    rw [hx]
    rfl
  have hlen := length_request 0 (le_refl 60)
  have hserved : Served req evs := by
    refine served_pieces (by rw [hreply, hlen]; decide) ?_ hfailed hempty
    rw [hreply, hdata, hsent]
    exact (List.take_of_length_le hlen.le).symm
  have hpeer := faithfulPeer_of_idle hidle hi hserved
  exact ⟨req, faithful_echo_counted hi (by rw [hsent]; decide) hpeer⟩

end TcpDemo.EchoClient
