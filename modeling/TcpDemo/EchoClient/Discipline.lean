import TcpDemo.EchoClient.Progress
import TcpDemo.EchoClient.Stale

/-!
# The buffers of one exchange

Four lengths meet in an exchange: the `lStringLength` bytes of the request, the
`lTransmitted` of them that were accepted, the `xReceivedBytes` of the reply, and the size
of the two buffers. The reply loop is bounded by the second and asks for what the first
leaves, so what it receives may be longer than what was accepted, but never longer than the
request (`exchange_discipline`).
-/

namespace TcpDemo.EchoClient
open Interaction CBytes FreeRTOS FreeRTOS.Call

/-- The offset and the size a `recv` was called with. -/
def recvOf : Event Api → List (ℕ × ℕ)
  | ⟨.recv _ offset size, _⟩ => [(offset, size)]
  | _ => []

def recvs (tr : Trace Api) : List (ℕ × ℕ) := tr.flatMap recvOf

@[simp] theorem recvs_nil : recvs [] = [] := rfl
@[simp] theorem recvs_append (tr tr' : Trace Api) : recvs (tr ++ tr') = recvs tr ++ recvs tr' :=
  List.flatMap_append
@[simp] theorem recvs_cons (e : Event Api) (tr : Trace Api) :
    recvs (e :: tr) = recvOf e ++ recvs tr := rfl

section Discipline
variable {mss : Mss}

/-- The variables at a loop head, that of the assertion hook included. -/
def vars : FreeRTOS.Label (Loc mss) → Vars mss
  | .code l | .vAssertCalled _ l => l.vars

/-- The `recv` calls stay inside a receive buffer of `size` bytes, and none is for nothing. -/
def InBounds (size : ℕ) (calls : List (ℕ × ℕ)) : Prop :=
  ∀ c ∈ calls, 1 ≤ c.2 ∧ c.1 + c.2 ≤ size

/-- The `j`-th loop head of the task after the loop head `s` and the calls before it. -/
def headAfter (x : ℕ) (cTx cRx : Buffer mss.echoBufferSizes) (env : Environment Api)
    (s : FreeRTOS.Label (Loc mss) × Trace Api) (j : ℕ) : FreeRTOS.Label (Loc mss) × Trace Api :=
  (prvEchoClientTask x cTx cRx).resume env s j

/-- The reply loop that is entered at the loop head `s`, after the calls so far, is over
after `k` passes, which issue `evs`. -/
structure ReplyLoop (x : ℕ) (cTx cRx : Buffer mss.echoBufferSizes) (env : Environment Api)
    (s : FreeRTOS.Label (Loc mss) × Trace Api) (k : ℕ) (evs : Trace Api) : Prop where
  receiving : ∀ j < k, AtReceiving (headAfter x cTx cRx env s j).1 (headAfter x cTx cRx env s j).2
  ended : ¬ AtReceiving (headAfter x cTx cRx env s k).1 (headAfter x cTx cRx env s k).2
  issued : (headAfter x cTx cRx env s k).2 = s.2 ++ evs
  ranges : InBounds mss.echoBufferSizes (recvs evs)
  received_nonneg : ∀ j < k, 0 ≤ (vars (headAfter x cTx cRx env s j).1).xReceivedBytes
  received_le : ∀ j ≤ k, (vars (headAfter x cTx cRx env s j).1).xReceivedBytes ≤
    (vars (headAfter x cTx cRx env s j).1).lStringLength
  calls : (recvs evs).length ≤ ((vars s.1).lTransmitted - (vars s.1).xReceivedBytes).toNat

variable {v : Vars mss} {evs : Trace Api} {l : FreeRTOS.Label (Loc mss)} {n : ℕ} {r : ℤ}

/-- What holds at each head of the reply loop for a request of `n` bytes of which `r` were
accepted. -/
structure ReplyInv (n : ℕ) (r : ℤ) (v : Vars mss) : Prop where
  lStringLength : v.lStringLength = n
  lTransmitted : v.lTransmitted = r
  nonneg : 0 ≤ v.xReceivedBytes
  le : v.xReceivedBytes ≤ n

/-- Behind the reply loop nothing is received, and the variables stay. -/
theorem replied_keeps (h : (replied v).Issues evs l) : recvs evs = [] ∧ ¬ AtReceiving l evs ∧
    (vars l).xReceivedBytes = v.xReceivedBytes ∧ (vars l).lStringLength = v.lStringLength := by
  rcases replied_step h with ⟨-, -, rfl, rfl⟩ | ⟨-, -, rfl, rfl⟩ | ⟨-, h⟩
  · exact ⟨rfl, by simp [AtReceiving], rfl, rfl⟩
  · exact ⟨rfl, by simp [AtReceiving], rfl, rfl⟩
  · obtain ⟨a, t, rfl, rfl⟩ := finish_step h
    exact ⟨rfl, by simp [AtReceiving], rfl, rfl⟩

/-- One pass of the reply loop makes at most one call, inside the buffer. It goes round
again with more of the reply, or the loop is over. -/
theorem receiving_bounds {x : ℕ} (hr : r ≤ n) (hsize : n ≤ mss.echoBufferSizes)
    (hinv : ReplyInv n r v) (h : (body x (.receiving v)).Issues evs l) :
    InBounds mss.echoBufferSizes (recvs evs) ∧
    ((∃ v', l = .code (.receiving v') ∧ ReplyInv n r v' ∧ v.xReceivedBytes < v'.xReceivedBytes ∧
        v.xReceivedBytes < r ∧ (recvs evs).length = 1) ∨
      (¬ AtReceiving l evs ∧ (vars l).xReceivedBytes ≤ (vars l).lStringLength ∧
        (recvs evs).length ≤ (r - v.xReceivedBytes).toNat)) := by
  obtain ⟨hlen, htrans, hnonneg, hle⟩ := hinv
  rcases receiving_step h with ⟨-, hreplied⟩ | ⟨hlt, a, rest, rfl, hcases⟩
  · obtain ⟨hnone, hover, hbytes, hstring⟩ := replied_keeps hreplied
    rw [hnone]
    exact ⟨by simp [InBounds], .inr ⟨hover, by omega, Nat.zero_le _⟩⟩
  rw [htrans] at hlt
  have hfits := a.fits
  have hstored := a.stored
  have hrange : 1 ≤ (v.lStringLength - v.xReceivedBytes).toNat ∧
      v.xReceivedBytes.toNat + (v.lStringLength - v.xReceivedBytes).toNat ≤
        mss.echoBufferSizes := by omega
  -- an error leaves a negative count behind, and a time-out the count so far
  have hcases' : (∃ y ≤ (n : ℤ), (replied (stored v a.data y)).Issues rest l) ∨
      0 < a.result ∧ rest = [] ∧
        l = .code (.receiving (stored v a.data (v.xReceivedBytes + a.result))) := by
    rcases hcases with ⟨hneg, hreplied⟩ | ⟨-, hreplied⟩ | hmore
    · exact .inl ⟨_, by omega, hreplied⟩
    · exact .inl ⟨_, hle, hreplied⟩
    · exact .inr hmore
  rcases hcases' with ⟨y, hy, hreplied⟩ | ⟨hpos, rfl, rfl⟩
  · obtain ⟨hnone, hover, hbytes, hstring⟩ := replied_keeps hreplied
    simp only [stored] at hbytes hstring
    refine ⟨?_, .inr ⟨hover, by omega, ?_⟩⟩
    · simpa [InBounds, hnone, recvOf] using hrange
    · simp [hnone, recvOf]
      omega
  · refine ⟨by simpa [InBounds, recvOf] using hrange, .inl ⟨_, rfl, ?_, ?_, hlt, rfl⟩⟩
    · exact ⟨hlen, htrans, by simp only [stored]; omega, by simp only [stored]; omega⟩
    · simp only [stored]
      omega

variable {x : ℕ} {cTx cRx : Buffer mss.echoBufferSizes} {env : Environment Api} {tr : Trace Api}

/-- One pass in front of a reply loop. -/
theorem ReplyLoop.cons {k : ℕ} {evs' : Trace Api} {v' : Vars mss}
    (h : ReplyLoop x cTx cRx env (.code (.receiving v'), tr ++ evs) k evs')
    (hpass : (body x (.receiving v)).exec env tr = (.code (.receiving v'), tr ++ evs))
    (hinv : ReplyInv n r v) (hinv' : ReplyInv n r v')
    (hmore : v.xReceivedBytes < v'.xReceivedBytes) (hlt : v.xReceivedBytes < r)
    (hranges : InBounds mss.echoBufferSizes (recvs evs)) (hone : (recvs evs).length = 1) :
    ReplyLoop x cTx cRx env (.code (.receiving v), tr) (k + 1) (evs ++ evs') := by
  have hresume : ∀ j, headAfter x cTx cRx env (.code (.receiving v), tr) (j + 1) =
      headAfter x cTx cRx env (.code (.receiving v'), tr ++ evs) j := by
    intro j
    rw [← hpass]
    rfl
  constructor
  · rintro (_ | j) hj
    · exact ⟨v, rfl⟩
    · rw [hresume]
      exact h.receiving j (by omega)
  · rw [hresume]
    exact h.ended
  · rw [hresume, h.issued, List.append_assoc]
  · rw [recvs_append]
    exact List.forall_mem_append.mpr ⟨hranges, h.ranges⟩
  · rintro (_ | j) hj
    · exact hinv.nonneg
    · rw [hresume]
      exact h.received_nonneg j (by omega)
  · rintro (_ | j) hj
    · exact hinv.le.trans_eq hinv.lStringLength.symm
    · rw [hresume]
      exact h.received_le j (by omega)
  · have hcalls := h.calls
    have htrans := hinv.lTransmitted
    have htrans' := hinv'.lTransmitted
    simp only [vars, Loc.vars, recvs_append, List.length_append, hone] at hcalls ⊢
    omega

/-- The pass that ends the reply loop. -/
theorem ReplyLoop.last (hpass : (body x (.receiving v)).exec env tr = (l, tr ++ evs))
    (hinv : ReplyInv n r v) (hover : ¬ AtReceiving l evs)
    (hle : (vars l).xReceivedBytes ≤ (vars l).lStringLength)
    (hranges : InBounds mss.echoBufferSizes (recvs evs))
    (hcalls : (recvs evs).length ≤ (r - v.xReceivedBytes).toNat) :
    ReplyLoop x cTx cRx env (.code (.receiving v), tr) 1 evs := by
  have hone : headAfter x cTx cRx env (.code (.receiving v), tr) 1 = (l, tr ++ evs) := hpass
  constructor
  · rintro j hj
    obtain rfl := Nat.lt_one_iff.mp hj
    exact ⟨v, rfl⟩
  · rw [hone]
    exact hover
  · rw [hone]
  · exact hranges
  · rintro j hj
    obtain rfl := Nat.lt_one_iff.mp hj
    exact hinv.nonneg
  · rintro (_ | _ | j) hj
    · exact hinv.le.trans_eq hinv.lStringLength.symm
    · rw [hone]
      exact hle
    · omega
  · simpa only [vars, Loc.vars, hinv.lTransmitted] using hcalls

/-- **The reply loop ends**, and stays inside the receive buffer until then. -/
theorem reply_loop (x : ℕ) (cTx cRx : Buffer mss.echoBufferSizes) (env : Environment Api)
    (tr : Trace Api) (hr : r ≤ n) (hsize : n ≤ mss.echoBufferSizes) (hinv : ReplyInv n r v) :
    ∃ k evs, ReplyLoop x cTx cRx env (.code (.receiving v), tr) k evs := by
  -- the variant: how much of what was accepted has not come back
  obtain ⟨m, hm⟩ : ∃ m, m = (r - v.xReceivedBytes).toNat := ⟨_, rfl⟩
  induction m using Nat.strong_induction_on generalizing v tr with
  | _ m ih =>
    obtain ⟨evs, htr, hstep⟩ := (body x (.receiving v)).exec_issues env tr
    obtain ⟨hranges, ⟨v', hl, hinv', hmore, hlt, hone⟩ | ⟨hover, hle, hcalls⟩⟩ :=
      receiving_bounds hr hsize hinv hstep
    · obtain ⟨k, evs', hloop⟩ := ih _ (by omega) (tr ++ evs) hinv' rfl
      exact ⟨k + 1, _, hloop.cons (Prod.ext hl htr) hinv hinv' hmore hlt hranges hone⟩
    · exact ⟨1, evs, .last (Prod.ext rfl htr) hinv hover hle hranges hcalls⟩

/-! ## One exchange -/

/-- What is asked of the exchange that the client begins with the variables `v`, after the
calls `tr`, by a request of `n` bytes. The loop head behind it is `s`. -/
structure Discipline (x : ℕ) (cTx cRx : Buffer mss.echoBufferSizes) (env : Environment Api)
    (v : Vars mss) (n : ℕ) (s : FreeRTOS.Label (Loc mss) × Trace Api) (tr : Trace Api) : Prop where
  /-- The header and its NUL lie inside the request. -/
  header_lt : (sprintfStored (header v.ulTxCount)).length < n
  /-- What is offered is `n` bytes that `sprintf` and the fill loop have just stored. -/
  offered : ∃ evs, s.2 = tr ++ evs ∧
    sends evs = [(sprintfStored (header v.ulTxCount) ++
      (fill n (byte '0')).drop (sprintfStored (header v.ulTxCount)).length,
      (vars s.1).lTransmitted)]
  length_offered : (request v.ulTxCount n).length = n
  lStringLength : (vars s.1).lStringLength = n
  /-- A request that is refused is not waited for, -/
  refused : (vars s.1).lTransmitted < 0 → ¬ AtReceiving s.1 s.2
  /-- and for one that is not, the reply loop stays inside its buffer and ends. -/
  reply : 0 ≤ (vars s.1).lTransmitted → AtReceiving s.1 s.2 ∧ ∃ k evs,
    ReplyLoop x cTx cRx env s k evs ∧ (recvs evs).length ≤ (vars s.1).lTransmitted

theorem length_stored_header_lt (k : UInt32) {n : ℕ} (hn : 60 ≤ n) :
    (sprintfStored (header k)).length < n := by
  have := length_header_le k
  rw [sprintfStored, List.length_append, List.length_singleton]
  omega

/-- The reply loop for a request of which `r` bytes were accepted. -/
theorem reply_of_accepted (x : ℕ) (cTx cRx : Buffer mss.echoBufferSizes) (env : Environment Api)
    (tr : Trace Api) (tx : Buffer mss.echoBufferSizes) (hpos : 0 ≤ r) (hr : r ≤ n)
    (hsize : n ≤ mss.echoBufferSizes) : ∃ k evs,
      ReplyLoop x cTx cRx env (.code (.receiving (awaiting (offered v n tx r))), tr) k evs ∧
      (recvs evs).length ≤ r := by
  have hinv : ReplyInv n r (awaiting (offered v n tx r)) :=
    ⟨rfl, rfl, le_rfl, Nat.cast_nonneg n⟩
  obtain ⟨k, evs, hloop⟩ := reply_loop x cTx cRx env tr hr hsize hinv
  refine ⟨k, evs, hloop, ?_⟩
  have hcalls := hloop.calls
  simp only [vars, Loc.vars, awaiting, offered] at hcalls
  omega

/-- **The buffer discipline of an exchange**, for every length that can be drawn, every
number of the request, every result of `send` and every sequence of results of `recv`. -/
theorem exchange_discipline (x : ℕ) (cTx cRx : Buffer mss.echoBufferSizes) (env : Environment Api)
    (v : Vars mss) (tr : Trace Api) {n : ℕ} (hn : 60 ≤ n) (hsize : n + 21 ≤ mss.echoBufferSizes) :
    Discipline x cTx cRx env v n ((sendRequest v n).exec env tr) tr := by
  obtain ⟨evs, htr, hstep⟩ := (sendRequest v n).exec_issues env tr
  obtain ⟨a, tx, rest, -, rfl, hcases⟩ := sendRequest_step hn (by omega) hstep
  have hlen := length_request v.ulTxCount hn
  have hfits : a.result ≤ n := by
    have := a.fits
    omega
  generalize (sendRequest v n).exec env tr = s at htr hcases
  obtain ⟨l, tr'⟩ := s
  simp only at htr hcases
  subst htr
  have hbehind : sends rest = [] ∧ (vars l).lTransmitted = a.result ∧
      (vars l).lStringLength = n := by
    rcases hcases with ⟨-, hfinish⟩ | ⟨-, rfl, rfl⟩
    · obtain ⟨b, t, rfl, rfl⟩ := finish_step hfinish
      exact ⟨rfl, rfl, rfl⟩
    · exact ⟨rfl, rfl, rfl⟩
  obtain ⟨hsends, htrans, hstring⟩ := hbehind
  refine ⟨length_stored_header_lt v.ulTxCount hn, ⟨_, rfl, ?_⟩, hlen, hstring, ?_, ?_⟩
  · rw [sends_append, hsends, htrans]
    rfl
  · rw [htrans]
    intro hneg
    rcases hcases with ⟨-, hfinish⟩ | ⟨hpos, -, -⟩
    · obtain ⟨b, t, -, rfl⟩ := finish_step hfinish
      simp [AtReceiving]
    · exact absurd hneg (not_lt.mpr hpos)
  · rw [htrans]
    intro hpos
    rcases hcases with ⟨hneg, -⟩ | ⟨-, rfl, rfl⟩
    · exact absurd hneg (not_lt.mpr hpos)
    exact ⟨⟨_, rfl⟩, reply_of_accepted x cTx cRx env _ tx hpos hfits (by omega)⟩

/-- The variables before the request with the largest number. -/
def lastNumber : Vars defaultMss :=
  ⟨.handle 0, 0, 0xffffffff, 0, 0, 0, .replicate _ 0, .replicate _ 0, 0⟩

/-- Of that request ten bytes are accepted, and every `recv` gets one byte. -/
def byteByByte : Environment Api := scripted (fun _ => [0]) fun _ => 10

/-- The loop head behind the request, and the calls until then. -/
def lastRequest : FreeRTOS.Label (Loc defaultMss) × Trace Api :=
  (sendRequest lastNumber 60).exec byteByByte []

/-- The request is the longest header, its NUL and what the fill loop left behind them. The
reply loop asks ten times, for one byte less each time, and then it is over. -/
theorem exchange_discipline_last :
    Discipline 0 (.replicate _ 0) (.replicate _ 0) byteByByte lastNumber 60 lastRequest [] ∧
    (vars lastRequest.1).lTransmitted = 10 ∧
    sends lastRequest.2 = [(ascii "TxRx message number 4294967295" ++
      0 :: ascii "OPQRSTUVWXYZ[\\]^_`abcdefghijk", 10)] ∧
    recvs (headAfter 0 (.replicate _ 0) (.replicate _ 0) byteByByte lastRequest 11).2 =
      (List.range 10).map fun i => (i, 60 - i) :=
  ⟨exchange_discipline 0 (.replicate _ 0) (.replicate _ 0) byteByByte lastNumber []
      (show 60 ≤ 60 from le_rfl) (by decide),
    by decide +kernel, by decide +kernel, by decide +kernel⟩

/-- The exchanges of a run are those of the theorem: the length that is drawn is in its
range, and from there on the run goes as described. -/
theorem head_exchange {k : ℕ} (hhead : (prvEchoClientTask x cTx cRx).head env k =
      (.code (.drawing v), tr)) {d : UInt32}
    (hdraw : env tr.length xApplicationGetRandomNumber = d)
    (hn : 60 ≤ d.toNat % (mss.echoBufferSizes - 20)) :
    d.toNat % (mss.echoBufferSizes - 20) + 21 ≤ mss.echoBufferSizes ∧
    ∀ j, (prvEchoClientTask x cTx cRx).head env (k + 1 + j) = headAfter x cTx cRx env
      ((sendRequest v (d.toNat % (mss.echoBufferSizes - 20) : ℕ)).exec env
        (tr ++ [⟨xApplicationGetRandomNumber, d⟩])) j := by
  have hlarge : 81 ≤ mss.echoBufferSizes := by simpa [Mss.echoBufferSizes] using mss.large
  have hlt := Nat.mod_lt d.toNat (show 0 < mss.echoBufferSizes - 20 by omega)
  refine ⟨by omega, fun j => ?_⟩
  have hpass : (body x (.drawing v)).exec env tr =
      (sendRequest v (d.toNat % (mss.echoBufferSizes - 20) : ℕ)).exec env
        (tr ++ [⟨xApplicationGetRandomNumber, d⟩]) := by
    simp only [body, FreeRTOS.xApplicationGetRandomNumber, Program.call_bind, Program.ret_bind,
      Program.exec_call, lCharactersToAdd_eq, lMinimumLength]
    rw [hdraw, if_neg (by omega)]
  rw [Task.head_add, Task.head_succ, hhead, headAfter, ← hpass]
  rfl

end Discipline

end TcpDemo.EchoClient
