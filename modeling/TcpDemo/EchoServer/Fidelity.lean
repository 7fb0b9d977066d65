import TcpDemo.EchoServer.Session

/-!
# What the echo server sends back

The server hands each chunk to `send` and looks at nothing that `send` returns, so
whether a client gets its bytes back depends on the outcomes of `send` alone.
`echo_faithful_iff` says for which outcomes a session is an echo whatever bytes the
client sends: every chunk is accepted in full until a `send` fails, and nothing is
accepted after that.
-/

namespace TcpDemo.EchoServer
open Interaction Traces CBytes FreeRTOS FreeRTOS.Call

/-! ## A faithful session -/

/-- The values returned by `send`. -/
def sendResults (evs : Trace Api) : List ℤ :=
  evs.filterMap fun
    | ⟨.send _ _, r⟩ => some r.result
    | _ => none

/-- No `send` has returned a negative value. -/
def Usable (evs : Trace Api) : Prop := ∀ r ∈ sendResults evs, 0 ≤ r

/-- A call of `recv`. -/
def isRecv : Event Api → Bool
  | ⟨.recv _ _ _, _⟩ => true
  | _ => false

/-- The calls of a session up to a loop head are those of an echo server: at every
moment the accepted bytes are a prefix of the received ones, and whenever the server
goes back to `recv` on a usable connection they are all of them. -/
structure Faithful (evs : Trace Api) : Prop where
  accepted_isPrefix : ∀ evs', evs' <+: evs → acceptedBytes evs' <+: receivedBytes evs'
  caught_up : ∀ evs' e, evs' ++ [e] <+: evs → isRecv e → Usable evs' →
    acceptedBytes evs' = receivedBytes evs'
  at_head : Usable evs → acceptedBytes evs = receivedBytes evs

/-- The lengths of the chunks received. -/
def chunkLengths (evs : Trace Api) : List ℕ :=
  evs.filterMap fun
    | ⟨.recv _ _ _, a⟩ => if 0 < a.result then some a.data.length else none
    | _ => none

/-- What became of each chunk: its length, and what `send` returned for it. -/
def outcomes (evs : Trace Api) : List (ℕ × ℤ) := (chunkLengths evs).zip (sendResults evs)

/-- The length of a chunk and a value `send` may return for it. -/
structure Outcome where
  received : ℕ
  sent : ℤ
  pos : 0 < received
  fits : received ≤ rxBufferSize - 1
  le : sent ≤ received

def Outcome.toPair (o : Outcome) : ℕ × ℤ := (o.received, o.sent)

/-- Every chunk is accepted in full up to the first failing `send`, and no `send` after
that accepts anything. -/
def Echoed : List (ℕ × ℤ) → Prop
  | [] => True
  | (n, r) :: os => if r < 0 then ∀ o ∈ os, o.2 ≤ 0 else r = n ∧ Echoed os

instance decidableEchoed : DecidablePred Echoed
  | [] => inferInstanceAs (Decidable True)
  | (n, r) :: os =>
    have := decidableEchoed os
    inferInstanceAs (Decidable (if r < 0 then ∀ o ∈ os, o.2 ≤ 0 else r = n ∧ Echoed os))

/-! ## Sessions as lists of exchanges -/

/-- The bytes received in these exchanges, and those accepted. -/
def receivedIn (xs : List Exchange) : List UInt8 := xs.flatMap fun x => x.recv.data
def acceptedIn (xs : List Exchange) : List UInt8 := xs.flatMap fun x => x.send.accepted
def Exchange.outcome (x : Exchange) : ℕ × ℤ := (x.recv.data.length, x.send.result)

theorem receivedBytes_ongoing (s : Socket) (o : ℤ) (xs : List Exchange) :
    receivedBytes (ongoing s o xs) = receivedIn xs := by
  simp [receivedBytes, ongoing, opening, Exchange.events, List.flatMap_assoc, received, receivedIn]

theorem acceptedBytes_ongoing (s : Socket) (o : ℤ) (xs : List Exchange) :
    acceptedBytes (ongoing s o xs) = acceptedIn xs := by
  simp [acceptedBytes, ongoing, opening, Exchange.events, List.flatMap_assoc, accepted, acceptedIn]

theorem sendResults_ongoing (s : Socket) (o : ℤ) (xs : List Exchange) :
    sendResults (ongoing s o xs) = xs.map fun x => x.send.result := by
  simp [sendResults, ongoing, opening, Exchange.events, List.filterMap_flatMap, List.map_eq_flatMap]

theorem chunkLengths_ongoing (s : Socket) (o : ℤ) (xs : List Exchange) :
    chunkLengths (ongoing s o xs) = xs.map fun x => x.recv.data.length := by
  simp [chunkLengths, ongoing, opening, Exchange.events, List.filterMap_flatMap,
    List.map_eq_flatMap, Exchange.positive]

theorem outcomes_ongoing (s : Socket) (o : ℤ) (xs : List Exchange) :
    outcomes (ongoing s o xs) = xs.map Exchange.outcome := by
  rw [outcomes, chunkLengths_ongoing, sendResults_ongoing, List.zip_map']
  rfl

theorem outcomes_ended (s : Socket) (o : ℤ) (xs : List Exchange)
    {a : RecvAnswer (rxBufferSize - 1)} (ha : a.result ≤ 0) :
    outcomes (ongoing s o xs ++ closing s a) = xs.map Exchange.outcome := by
  rw [← outcomes_ongoing s o xs]
  simp [outcomes, chunkLengths, sendResults, closing, ha]

/-! ## Enough for fidelity -/

/-- What `Faithful` asks of each call against the calls before it. -/
def KeepsUp (pre : Trace Api) (e : Event Api) : Prop :=
  acceptedBytes (pre ++ [e]) <+: receivedBytes (pre ++ [e]) ∧
    (isRecv e → Usable pre → acceptedBytes pre = receivedBytes pre)

theorem faithful_of_stepwise {evs : Trace Api} (h : Stepwise KeepsUp evs)
    (hhead : Usable evs → acceptedBytes evs = receivedBytes evs) : Faithful evs where
  accepted_isPrefix evs' hpre := by
    rcases List.eq_nil_or_concat evs' with rfl | ⟨pre, e, rfl⟩
    · exact List.prefix_rfl
    · rw [List.concat_eq_append] at hpre ⊢
      exact (h.of_snoc_isPrefix hpre).1
  caught_up evs' e hpre := (h.of_snoc_isPrefix hpre).2
  at_head := hhead

/-- The state of an echo before the exchanges `xs`: everything was echoed so far and
`xs` goes on like that, or a `send` has failed and `xs` gets nothing accepted. -/
def OnTrack (pre : Trace Api) (xs : List Exchange) : Prop :=
  (acceptedBytes pre = receivedBytes pre ∧ Usable pre ∧ Echoed (xs.map Exchange.outcome)) ∨
    (acceptedBytes pre <+: receivedBytes pre ∧ ¬ Usable pre ∧ ∀ x ∈ xs, x.send.result ≤ 0)

theorem OnTrack.accepted_isPrefix {pre : Trace Api} {xs : List Exchange} (h : OnTrack pre xs) :
    acceptedBytes pre <+: receivedBytes pre := by
  rcases h with ⟨h, -⟩ | ⟨h, -⟩
  · exact h ▸ List.prefix_rfl
  · exact h

theorem OnTrack.caught_up {pre : Trace Api} {xs : List Exchange} (h : OnTrack pre xs)
    (husable : Usable pre) : acceptedBytes pre = receivedBytes pre := by
  rcases h with ⟨h, -⟩ | ⟨-, h, -⟩
  · exact h
  · exact absurd husable h

theorem usable_append (evs evs' : Trace Api) : Usable (evs ++ evs') ↔ Usable evs ∧ Usable evs' := by
  simp only [Usable, sendResults, List.filterMap_append, List.mem_append]
  exact ⟨fun h => ⟨fun r hr => h r (.inl hr), fun r hr => h r (.inr hr)⟩,
    fun h r hr => hr.elim (h.1 r) (h.2 r)⟩

theorem usable_events (s : Socket) (x : Exchange) : Usable (x.events s) ↔ 0 ≤ x.send.result := by
  simp [Usable, sendResults, Exchange.events]

/-- One exchange keeps up, and leaves the echo on track for the next. -/
theorem onTrack_step {pre : Trace Api} {x : Exchange} {xs : List Exchange} (s : Socket)
    (h : OnTrack pre (x :: xs)) :
    StepwiseFrom KeepsUp pre (x.events s) ∧ OnTrack (pre ++ x.events s) xs := by
  have hacc : acceptedBytes (x.events s) = x.send.accepted := by
    simp [Exchange.events, accepted]
  have hrec : receivedBytes (x.events s) = x.recv.data := by
    simp [Exchange.events, received]
  have htake : x.send.accepted <+: x.recv.data := List.take_prefix _ _
  have hnone : x.send.result ≤ 0 → x.send.accepted = [] := by
    intro hle
    simp [SendAnswer.accepted, Int.toNat_of_nonpos hle]
  have hgrow : acceptedBytes (pre ++ x.events s) <+: receivedBytes (pre ++ x.events s) := by
    rw [acceptedBytes_append, receivedBytes_append, hacc, hrec]
    rcases h with ⟨heq, -⟩ | ⟨hpre, -, hle⟩
    · rw [heq]
      exact (List.prefix_append_right_inj _).mpr htake
    · rw [hnone (hle x (by simp)), List.append_nil]
      exact hpre.trans (List.prefix_append _ _)
  refine ⟨?_, ?_⟩
  · have hpre := h.accepted_isPrefix.trans (List.prefix_append _ x.recv.data)
    refine ⟨⟨?_, fun _ => h.caught_up⟩, ⟨?_, by simp [isRecv]⟩, ⟨?_, by simp [isRecv]⟩, trivial⟩
    · simpa [accepted, received] using hpre
    · simpa [accepted, received] using hpre
    · simpa [Exchange.events] using hgrow
  · rcases h with ⟨heq, husable, hos⟩ | ⟨-, hfail, hle⟩
    · simp only [List.map_cons, Exchange.outcome, Echoed] at hos
      by_cases hneg : x.send.result < 0
      · rw [if_pos hneg] at hos
        refine .inr ⟨hgrow, ?_, fun y hy => hos _ (List.mem_map_of_mem hy)⟩
        rw [usable_append, usable_events]
        omega
      · rw [if_neg hneg] at hos
        refine .inl ⟨?_, (usable_append _ _).mpr ⟨husable, (usable_events s x).mpr (by omega)⟩,
          hos.2⟩
        have hall : x.send.accepted = x.recv.data := by
          simp [SendAnswer.accepted, hos.1]
        rw [acceptedBytes_append, receivedBytes_append, hacc, hrec, heq, hall]
    · refine .inr ⟨hgrow, ?_, fun y hy => hle y (by simp [hy])⟩
      rw [usable_append]
      exact fun h => hfail h.1

/-- A run of exchanges keeps up. -/
theorem onTrack_run {pre : Trace Api} {xs : List Exchange} (s : Socket) (h : OnTrack pre xs) :
    StepwiseFrom KeepsUp pre (xs.flatMap (Exchange.events s)) ∧
      OnTrack (pre ++ xs.flatMap (Exchange.events s)) [] := by
  induction xs generalizing pre with
  | nil => simpa using h
  | cons x xs ih =>
    obtain ⟨hx, hnext⟩ := onTrack_step s h
    obtain ⟨hxs, hend⟩ := ih hnext
    rw [List.flatMap_cons, stepwiseFrom_append, ← List.append_assoc]
    exact ⟨⟨hx, hxs⟩, hend⟩

theorem onTrack_opening {xs : List Exchange} (s : Socket) (o : ℤ)
    (h : Echoed (xs.map Exchange.outcome)) :
    Stepwise KeepsUp (opening s o) ∧ OnTrack (opening s o) xs := by
  constructor
  · simp [Stepwise, opening, KeepsUp, accepted, received, isRecv]
  · exact .inl ⟨rfl, by simp [Usable, sendResults, opening], h⟩

/-- **Sessions whose outcomes echo are faithful.** -/
theorem SessionForm.faithful {s : Socket} {evs : Trace Api} (h : SessionForm s evs)
    (hos : Echoed (outcomes evs)) : Faithful evs := by
  cases h with
  | ongoing o xs =>
    rw [outcomes_ongoing] at hos
    obtain ⟨hopen, htrack⟩ := onTrack_opening s o hos
    obtain ⟨hxs, hend⟩ := onTrack_run s htrack
    exact faithful_of_stepwise ((stepwise_append _ _).mpr ⟨hopen, hxs⟩) hend.caught_up
  | ended o xs a ha =>
    have hdata := RecvAnswer.data_eq_nil_iff.mpr ha
    rw [outcomes_ended s o xs ha] at hos
    obtain ⟨hopen, htrack⟩ := onTrack_opening s o hos
    obtain ⟨hxs, hend⟩ := onTrack_run s htrack
    have hall : Stepwise KeepsUp (EchoServer.ongoing s o xs) :=
      (stepwise_append _ _).mpr ⟨hopen, hxs⟩
    have hpre := hend.accepted_isPrefix
    refine faithful_of_stepwise ((stepwise_append _ _).mpr ⟨hall, ?_⟩) ?_
    · refine ⟨⟨?_, fun _ => hend.caught_up⟩, ⟨?_, by simp [isRecv]⟩, trivial⟩
      · simpa [EchoServer.ongoing, accepted, received, hdata] using hpre
      · simpa [EchoServer.ongoing, accepted, received, hdata] using hpre
    · intro husable
      have heq := hend.caught_up ((usable_append _ _).mp husable).1
      simpa [EchoServer.ongoing, closing, accepted, received, hdata] using heq

/-! ## Needed for fidelity -/

/-- The exchange with this outcome in which the client sends ones, or zeros where the
`send` fails: bytes accepted after a failure then differ from the ones left out. -/
def Outcome.exchange (o : Outcome) : Exchange where
  recv := ⟨o.received, List.replicate o.received (if o.sent < 0 then 0 else 1), by simp,
    by simpa using o.fits⟩
  send := ⟨o.sent, by simpa using o.le⟩
  positive := Int.natCast_pos.mpr o.pos

theorem ongoing_append (s : Socket) (o : ℤ) (xs ys : List Exchange) :
    ongoing s o (xs ++ ys) = ongoing s o xs ++ ys.flatMap (Exchange.events s) := by
  simp [ongoing]

/-- What a faithful session says about its first exchanges. -/
theorem Faithful.at_exchange {s : Socket} {o : ℤ} {xs ys : List Exchange}
    (h : Faithful (ongoing s o (xs ++ ys))) :
    acceptedIn xs <+: receivedIn xs ∧
      ((∀ x ∈ xs, 0 ≤ x.send.result) → acceptedIn xs = receivedIn xs) := by
  have hpre : ongoing s o xs <+: ongoing s o (xs ++ ys) :=
    ongoing_append s o xs ys ▸ List.prefix_append _ _
  have hacc := h.accepted_isPrefix _ hpre
  rw [acceptedBytes_ongoing, receivedBytes_ongoing] at hacc
  refine ⟨hacc, fun hpos => ?_⟩
  have husable : Usable (ongoing s o xs) := by
    simpa [Usable, sendResults_ongoing] using hpos
  rw [← acceptedBytes_ongoing s o, ← receivedBytes_ongoing s o]
  cases ys with
  | nil => exact (by simpa using h : Faithful (ongoing s o xs)).at_head husable
  | cons y ys =>
    refine h.caught_up _ ⟨.recv s 0 (rxBufferSize - 1), y.recv⟩ ?_ rfl husable
    rw [ongoing_append, List.flatMap_cons, Exchange.events]
    exact (List.prefix_append_right_inj _).mpr (by simp)

theorem receivedIn_append (xs ys : List Exchange) :
    receivedIn (xs ++ ys) = receivedIn xs ++ receivedIn ys := List.flatMap_append
theorem acceptedIn_append (xs ys : List Exchange) :
    acceptedIn (xs ++ ys) = acceptedIn xs ++ acceptedIn ys := List.flatMap_append

/-- Exchanges in which `send` accepts nothing. -/
theorem acceptedIn_eq_nil {xs : List Exchange} (h : ∀ x ∈ xs, x.send.result ≤ 0) :
    acceptedIn xs = [] := by
  rw [acceptedIn, List.flatMap_eq_nil_iff]
  intro x hx
  simp [SendAnswer.accepted, Int.toNat_of_nonpos (h x hx)]

/-- Nothing can be accepted after a failed `send` without a gap in the echo: the first
byte accepted would be a one, where the stream goes on with a zero. -/
theorem nothing_after_failure {s : Socket} {o : ℤ} {xs : List Exchange} {q : Outcome}
    {os : List Outcome} (hfull : acceptedIn xs = receivedIn xs) (hneg : q.sent < 0)
    (h : Faithful (ongoing s o (xs ++ (q :: os).map Outcome.exchange))) :
    ∀ p ∈ os, p.sent ≤ 0 := by
  by_contra hcon
  push Not at hcon
  obtain ⟨p, hp, hpos⟩ := hcon
  have hsome : (os.find? fun p => 0 < p.sent).isSome :=
    List.find?_isSome.mpr ⟨p, hp, by simpa using hpos⟩
  obtain ⟨p, hfind⟩ := Option.isSome_iff_exists.mp hsome
  obtain ⟨hpos, as, bs, rfl, has⟩ := List.find?_eq_some_iff_append.mp hfind
  simp only [decide_eq_true_eq] at hpos
  have hnone : acceptedIn ((q :: as).map Outcome.exchange) = [] := by
    refine acceptedIn_eq_nil fun x hx => ?_
    obtain ⟨a, ha, rfl⟩ := List.mem_map.mp hx
    rcases List.mem_cons.mp ha with rfl | ha
    · exact hneg.le
    · have hle : a.sent ≤ 0 := by simpa using has a ha
      exact hle
  have hsplit : xs ++ (q :: (as ++ p :: bs)).map Outcome.exchange =
      (xs ++ (q :: as).map Outcome.exchange ++ [p.exchange]) ++ bs.map Outcome.exchange := by simp
  rw [hsplit] at h
  have hpre := h.at_exchange.1
  have hone : acceptedIn [p.exchange] = List.replicate (min p.sent.toNat p.received) 1 := by
    simp [acceptedIn, SendAnswer.accepted, Outcome.exchange, not_lt.mpr hpos.le]
  have hzero : receivedIn [q.exchange] = List.replicate q.received 0 := by
    simp [receivedIn, Outcome.exchange, hneg]
  have hcons : receivedIn ((q :: as).map Outcome.exchange) =
      receivedIn [q.exchange] ++ receivedIn (as.map Outcome.exchange) :=
    receivedIn_append [q.exchange] _
  rw [acceptedIn_append, acceptedIn_append, receivedIn_append, receivedIn_append, hnone, hfull,
    List.append_nil, List.append_assoc, List.prefix_append_right_inj, hone, hcons, hzero] at hpre
  obtain ⟨n, hn⟩ : ∃ n, min p.sent.toNat p.received = n + 1 :=
    Nat.exists_eq_succ_of_ne_zero (by have := p.pos; omega)
  obtain ⟨m, hm⟩ := Nat.exists_eq_succ_of_ne_zero q.pos.ne'
  rw [hn, hm] at hpre
  simp [List.replicate_succ] at hpre

/-- **The outcomes of a faithful session echo**, when the bytes are chosen to show it. -/
theorem echoed_of_faithful {s : Socket} {o : ℤ} (os : List Outcome) (xs : List Exchange)
    (hxs : ∀ x ∈ xs, x.send.result = x.recv.data.length)
    (h : Faithful (ongoing s o (xs ++ os.map Outcome.exchange))) :
    Echoed (os.map Outcome.toPair) := by
  induction os generalizing xs with
  | nil => trivial
  | cons q os ih =>
    have hpos : ∀ x ∈ xs, 0 ≤ x.send.result := fun x hx => by rw [hxs x hx]; omega
    have hfull := h.at_exchange.2 hpos
    simp only [List.map_cons, Outcome.toPair, Echoed]
    by_cases hneg : q.sent < 0
    · rw [if_pos hneg]
      intro r hmem
      obtain ⟨p, hp, rfl⟩ := List.mem_map.mp hmem
      exact nothing_after_failure hfull hneg h p hp
    · rw [if_neg hneg]
      have hnext : xs ++ (q :: os).map Outcome.exchange =
        (xs ++ [q.exchange]) ++ os.map Outcome.exchange := by simp
      rw [hnext] at h
      have heq := h.at_exchange.2 fun x hx => by
        rcases List.mem_append.mp hx with hx | hx
        · exact hpos x hx
        · rw [List.mem_singleton.mp hx]; exact not_lt.mp hneg
      rw [acceptedIn_append, receivedIn_append, hfull, List.append_cancel_left_eq] at heq
      have hlen := congrArg List.length heq
      simp only [acceptedIn, receivedIn, SendAnswer.accepted, Outcome.exchange, List.flatMap_cons,
        List.flatMap_nil, List.append_nil, List.length_take, List.length_replicate] at hlen
      have hle := q.le
      have hsent : q.sent = q.received := by omega
      refine ⟨hsent, ih (xs ++ [q.exchange]) ?_ h⟩
      intro x hx
      rcases List.mem_append.mp hx with hx | hx
      · exact hxs x hx
      · rw [List.mem_singleton.mp hx]
        simpa [Outcome.exchange] using hsent

/-! ## Every list of exchanges is a session of some run -/

/-- The server can go through any exchanges with its first client. -/
theorem path_session (rx : Buffer rxBufferSize) (xs : List Exchange) :
    ∃ v tr, (prvEchoServerTask rx).Path (prvEchoServerTask rx).start tr (.code (.session v)) ∧
      v.xClientSocket = .handle 1 ∧
      segments boundary tr = [(some (.handle 1), ongoing (.handle 1) 0 xs)] := by
  induction xs using List.reverseRecOn with
  | nil =>
    have hpath := (((Task.Path.refl (prvEchoServerTask rx).start).step (start_ok _)).step
      (created_ok _)).step (accepting_ok _)
    exact ⟨_, _, hpath, rfl, rfl⟩
  | append_singleton xs x ih =>
    obtain ⟨v, tr, hpath, hv, hseg⟩ := ih
    obtain ⟨b, hx⟩ := session_exchange v x
    refine ⟨_, _, hpath.step hx, hv, ?_⟩
    rw [hv]
    have hlast := segments_append_of_none (x.events (.handle 1))
      (show _ = [] ++ _ from hseg)
      (by simp [Exchange.events, boundary])
    simpa [ongoing] using hlast

/-! ## The echo -/

/-- The outcome of an exchange that took place. -/
def Exchange.toOutcome (x : Exchange) : Outcome where
  received := x.recv.data.length
  sent := x.send.result
  pos := by rw [x.recv.stored]; have := x.positive; omega
  fits := x.recv.fits
  le := x.send.fits

/-- The outcomes of a session are outcomes of chunks that fit the buffer. -/
theorem SessionForm.exists_outcomes {s : Socket} {evs : Trace Api} (h : SessionForm s evs) :
    ∃ os : List Outcome, outcomes evs = os.map Outcome.toPair := by
  have hxs : ∀ xs : List Exchange,
      xs.map Exchange.outcome = (xs.map Exchange.toOutcome).map Outcome.toPair := by
    intro xs
    rw [List.map_map]
    rfl
  cases h with
  | ongoing o xs => exact ⟨_, (outcomes_ongoing s o xs).trans (hxs xs)⟩
  | ended o xs a ha => exact ⟨_, (outcomes_ended s o xs ha).trans (hxs xs)⟩

/-- The outcomes that make every session faithful, whatever bytes the client sends. -/
theorem forall_faithful_iff (os : List Outcome) :
    (∀ rx env m s evs, (s, evs) ∈ sessions ((prvEchoServerTask rx).head env m).2 →
      outcomes evs = os.map Outcome.toPair → Faithful evs) ↔ Echoed (os.map Outcome.toPair) := by
  constructor
  · intro h
    obtain ⟨v, tr, hpath, -, hseg⟩ := path_session (.replicate _ 0) (os.map Outcome.exchange)
    obtain ⟨env, m, hm⟩ := Task.exists_head_of_path hpath
    have hmem : (Socket.handle 1, ongoing (.handle 1) 0 (os.map Outcome.exchange)) ∈
        sessions ((prvEchoServerTask (.replicate _ 0)).head env m).2 := by
      rw [hm]
      exact mem_intervals.mpr (by simp [hseg])
    have hos : outcomes (ongoing (.handle 1) 0 (os.map Outcome.exchange)) =
        os.map Outcome.toPair := by
      simp [outcomes_ongoing, Exchange.outcome, Outcome.exchange, Outcome.toPair]
    exact echoed_of_faithful os [] (by simp) (h _ env m _ _ hmem hos)
  · intro h rx env m s evs hmem hos
    exact (session_form hmem).faithful (hos ▸ h)

/-- **When the server echoes.** Take any session of any run. All sessions cut and
answered like it are faithful, whatever bytes the client sends, if and only if every
chunk was accepted in full up to the first failing `send` and nothing after that. -/
theorem echo_faithful_iff {rx : Buffer rxBufferSize} {env : Environment Api} {m : ℕ} {s : Socket}
    {evs : Trace Api} (h : (s, evs) ∈ sessions ((prvEchoServerTask rx).head env m).2) :
    (∀ rx' env' m' s' evs', (s', evs') ∈ sessions ((prvEchoServerTask rx').head env' m').2 →
      outcomes evs' = outcomes evs → Faithful evs') ↔ Echoed (outcomes evs) := by
  obtain ⟨os, hos⟩ := (session_form h).exists_outcomes
  rw [hos]
  exact forall_faithful_iff os

/-- The run in which the first client sends `ab` and then `c`, and each `send` returns
`r` or all it was given. -/
def sendingAbc (r : ℤ) : Trace Api :=
  ((prvEchoServerTask (.replicate _ 0)).head (scripted
    (fun i => if i = 8 then ascii "ab" else if i = 11 then ascii "c" else []) fun _ => r) 5).2

/-- The client gets `abc` back where each `send` accepts all it is given. -/
theorem echo_faithful_abc : Faithful (sessionAt (sendingAbc 200) 0) := by
  obtain ⟨s, hmem⟩ := exists_mem_sessions (show 0 < (sessions (sendingAbc 200)).length by
    decide +kernel)
  exact (echo_faithful_iff hmem).mpr (by decide +kernel) _ _ _ _ _ hmem rfl

/-- The client gets `ac` back where each `send` accepts one byte: `b` is dropped. -/
theorem echo_drops_b :
    ¬ ∀ rx env m s evs, (s, evs) ∈ sessions ((prvEchoServerTask rx).head env m).2 →
      Faithful evs := by
  intro h
  obtain ⟨s, hmem⟩ := exists_mem_sessions (show 0 < (sessions (sendingAbc 1)).length by
    decide +kernel)
  have hfaithful := h _ _ _ _ _ hmem
  have hprefix := hfaithful.accepted_isPrefix _ List.prefix_rfl
  have haccepted : acceptedBytes (sessionAt (sendingAbc 1) 0) = ascii "ac" := by decide +kernel
  have hreceived : receivedBytes (sessionAt (sendingAbc 1) 0) = ascii "abc" := by decide +kernel
  rw [haccepted, hreceived] at hprefix
  exact absurd hprefix (by decide +kernel)

end TcpDemo.EchoServer
