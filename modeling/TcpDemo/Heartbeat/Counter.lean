import TcpDemo.Heartbeat.Task
import TcpDemo.Lib.Wrap

/-!
# The numbers of the heartbeats

`counter_inv` is the loop invariant of the heartbeat task: the `i`-th `send` of a run,
counted over all connections, carries the number `i` modulo `2 ^ 32`, whatever became of
the earlier ones. So a heartbeat whose `send` fails leaves a gap behind it, and
`heartbeat_numbers_iff` says when the accepted ones are numbered without a gap.
-/

namespace TcpDemo.Heartbeat
open Interaction Traces CBytes FreeRTOS FreeRTOS.Call

/-! ## The loop invariant -/

/-- The messages carry the numbers from `k` on. -/
def Numbered : UInt32 → List (List UInt8 × ℤ) → Prop
  | _, [] => True
  | k, s :: ss => s.1 = heartbeat k ∧ Numbered (k + 1) ss

theorem numbered_append {k : UInt32} {ss ss' : List (List UInt8 × ℤ)} :
    Numbered k (ss ++ ss') ↔ Numbered k ss ∧ Numbered (k + .ofNat ss.length) ss' := by
  induction ss generalizing k with
  | nil => simp [Numbered]
  | cons s ss ih =>
    have hk : k + 1 + .ofNat ss.length = k + .ofNat (ss.length + 1) := by
      rw [Wrap.ofNat_succ, UInt32.add_assoc, UInt32.add_comm 1]
    simp only [List.cons_append, Numbered, ih, hk, List.length_cons, and_assoc]

/-- `ulCounter` at a loop head. -/
def Loc.ulCounter : Loc → UInt32
  | .connecting v => v.ulCounter
  | .beating v => v.ulCounter

/-- The counter holds the number of sends, and these carry the numbers from zero on. -/
structure CounterInv (l : Loc) (tr : Trace Api) : Prop where
  counter : l.ulCounter = .ofNat (sends tr).length
  numbered : Numbered 0 (sends tr)

/-- A stretch that sends nothing and leaves the counter alone. -/
theorem CounterInv.idle {l l' : Loc} {tr evs : Trace Api} (h : CounterInv l tr)
    (hsends : sends evs = []) (hl : l'.ulCounter = l.ulCounter) : CounterInv l' (tr ++ evs) where
  counter := by rw [hl, h.counter, sends_append, hsends, List.append_nil]
  numbered := by rw [sends_append, hsends, List.append_nil]; exact h.numbered

/-- A stretch that sends the next heartbeat. -/
theorem CounterInv.beat {l l' : Loc} {tr evs : Trace Api} {r : ℤ} (h : CounterInv l tr)
    (hsends : sends evs = [(heartbeat l.ulCounter, r)]) (hl : l'.ulCounter = l.ulCounter + 1) :
    CounterInv l' (tr ++ evs) where
  counter := by
    rw [hl, h.counter, sends_append, hsends, List.length_append, List.length_singleton,
      Wrap.ofNat_succ]
  numbered := by
    rw [sends_append, hsends, numbered_append]
    exact ⟨h.numbered, by rw [h.counter, UInt32.zero_add], trivial⟩

theorem counterInv_step (l : Loc) (tr evs : Trace Api) (l' : Loc) (h : CounterInv l tr)
    (hstep : (body l).Issues evs l') : CounterInv l' (tr ++ evs) := by
  cases l with
  | connecting v =>
    rcases connecting_step hstep with
      ⟨rfl, rfl⟩ | ⟨s, o, r, -, ⟨-, rfl, c, rfl⟩ | ⟨-, rfl, rfl⟩⟩
    · exact h.idle rfl rfl
    · exact h.idle rfl rfl
    · exact h.idle rfl rfl
  | beating v =>
    obtain ⟨r, b, ⟨-, rfl, c, rfl⟩ | ⟨-, rfl, rfl⟩⟩ := beating_step hstep
    · exact h.beat rfl rfl
    · exact h.beat rfl rfl

theorem counter_inv (b : Buffer txBufferSize) (env : Environment Api) (k : ℕ) :
    CounterInv ((prvTCPHeartbeatTask b).head env k).1 ((prvTCPHeartbeatTask b).head env k).2 :=
  Task.head_induction (prvTCPHeartbeatTask b) CounterInv ⟨rfl, trivial⟩ counterInv_step env k

/-- **The sends of a run are numbered from zero on**, at every moment of it. -/
theorem numbered_sends {b : Buffer txBufferSize} {env : Environment Api} {tr : Trace Api}
    (h : (prvTCPHeartbeatTask b).Moment env tr) : Numbered 0 (sends tr) := by
  obtain ⟨k, evs, htr⟩ := h
  have hinv := (counter_inv b env k).numbered
  rw [← htr, sends_append, numbered_append] at hinv
  exact hinv.1

/-! ## The accepted heartbeats -/

/-- The `send` accepted the whole message. -/
def Whole (s : List UInt8 × ℤ) : Bool := s.2 = s.1.length

/-- The messages accepted, and the number of sends that did not accept theirs. -/
def acceptedMessages (tr : Trace Api) : List (List UInt8) := ((sends tr).filter Whole).map Prod.fst
def failedSends (tr : Trace Api) : ℕ := (sends tr).countP fun s => ¬ Whole s

/-- The accepted heartbeats carry the numbers `0, 1, 2, ...`. -/
def NoGap (tr : Trace Api) : Prop :=
  acceptedMessages tr =
    (List.range (acceptedMessages tr).length).map fun i => heartbeat (.ofNat i)

/-- If this call accepts a heartbeat, the failed sends before it make up whole turns of
the counter. -/
def FailuresCancel (pre : Trace Api) (e : Event Api) : Prop :=
  ∀ s ∈ sendOf e, Whole s → 2 ^ 32 ∣ failedSends pre

instance (pre : Trace Api) : DecidablePred (FailuresCancel pre) := fun e =>
  inferInstanceAs (Decidable (∀ s ∈ sendOf e, Whole s → 2 ^ 32 ∣ failedSends pre))

theorem length_acceptedMessages_add_failedSends (tr : Trace Api) :
    (acceptedMessages tr).length + failedSends tr = (sends tr).length := by
  simp only [acceptedMessages, failedSends, List.length_map, ← List.countP_eq_length_filter]
  rw [List.length_eq_countP_add_countP Whole]

theorem acceptedMessages_append (tr tr' : Trace Api) :
    acceptedMessages (tr ++ tr') = acceptedMessages tr ++ acceptedMessages tr' := by
  simp [acceptedMessages]

/-- One more accepted message continues the numbering if and only if it carries the
number of messages accepted before it. -/
theorem noGap_accepted {tr : Trace Api} {e : Event Api} {m : List UInt8}
    (he : acceptedMessages [e] = [m]) :
    NoGap (tr ++ [e]) ↔ NoGap tr ∧ m = heartbeat (.ofNat (acceptedMessages tr).length) := by
  simp only [NoGap, acceptedMessages_append, he, List.length_append, List.length_singleton,
    List.range_succ, List.map_append, List.map_singleton]
  constructor
  · intro h
    exact (List.append_inj' h rfl).imp_right List.singleton_inj.mp
  · rintro ⟨h, hm⟩
    rw [← h, hm]

/-- One call keeps the accepted heartbeats without a gap if and only if the failed sends
before it cancel. -/
theorem noGap_snoc {tr : Trace Api} {e : Event Api} (h : Numbered 0 (sends (tr ++ [e]))) :
    NoGap (tr ++ [e]) ↔ NoGap tr ∧ FailuresCancel tr e := by
  have hother : acceptedMessages [e] = [] → (NoGap (tr ++ [e]) ↔ NoGap tr) := by
    intro he
    rw [NoGap, NoGap, acceptedMessages_append, he, List.append_nil]
  obtain ⟨c, r⟩ := e
  cases c
  case send s data =>
    rw [sends_append, numbered_append] at h
    have hdata : data = heartbeat (.ofNat (sends tr).length) := by
      simpa [sendOf, Numbered] using h.2
    by_cases hr : r.result = data.length
    · have he : acceptedMessages [⟨.send s data, r⟩] = [data] := by
        simp [acceptedMessages, sendOf, Whole, hr]
      have hnumber : data = heartbeat (.ofNat (acceptedMessages tr).length) ↔
          2 ^ 32 ∣ failedSends tr := by
        rw [hdata, heartbeat_injective.eq_iff, ← length_acceptedMessages_add_failedSends]
        exact Wrap.ofNat_add_eq_iff
      rw [noGap_accepted he, hnumber]
      simp [FailuresCancel, sendOf, Whole, hr]
    · have he : acceptedMessages [⟨.send s data, r⟩] = [] := by
        simp [acceptedMessages, sendOf, Whole, hr]
      rw [hother he]
      simp [FailuresCancel, sendOf, Whole, hr]
  all_goals
    rw [hother rfl]
    simp [FailuresCancel, sendOf]

/-- **When no number is lost.** At every moment of a run, over all its connections, the
heartbeats accepted so far carry the numbers `0, 1, 2, ...` if and only if before each
of them the number of failed sends was a multiple of `2 ^ 32`. -/
theorem heartbeat_numbers_iff {b : Buffer txBufferSize} {env : Environment Api} {tr : Trace Api}
    (h : (prvTCPHeartbeatTask b).Moment env tr) : NoGap tr ↔ Stepwise FailuresCancel tr := by
  induction tr using List.reverseRecOn with
  | nil => exact ⟨fun _ => stepwise_nil, fun _ => rfl⟩
  | append_singleton tr e ih =>
    rw [noGap_snoc (numbered_sends h), ih (h.mono (List.prefix_append _ _)), stepwise_append]
    simp

/-- Two heartbeats are accepted one after the other. -/
theorem heartbeat_numbers_two :
    NoGap ((prvTCPHeartbeatTask (.replicate _ 0)).head (scripted (fun _ => []) fun _ => 64) 3).2 :=
  (heartbeat_numbers_iff (Task.moment_head _ 3)).mpr (by decide +kernel)

/-- Every `send` accepts the whole message or fails. -/
def WholeOrFailed (env : Environment Api) : Prop :=
  ∀ i s data, (env i (.send s data)).result = data.length ∨ (env i (.send s data)).result < 0

/-- The run in which the first `send` fails, and every later one accepts its message. -/
def firstSendFails : Environment Api
  | i, .send _ data => if i = 5 then ⟨-1, by omega⟩ else ⟨data.length, le_rfl⟩
  | i, c => scripted (fun _ => []) (fun _ => 0) i c

/-- After a failed `send` the server gets `HEARTBEAT 1` first. -/
theorem heartbeat_zero_lost : ¬ ∀ b env, WholeOrFailed env →
    ∀ tr, (prvTCPHeartbeatTask b).Moment env tr → NoGap tr := by
  intro h
  have hwhole : WholeOrFailed firstSendFails := by
    intro i s data
    simp only [firstSendFails]
    split
    · exact .inr neg_one_lt_zero
    · exact .inl rfl
  have hgap := h (.replicate _ 0) firstSendFails hwhole _ (Task.moment_head _ 4)
  rw [NoGap] at hgap
  exact absurd hgap (by decide +kernel)

end TcpDemo.Heartbeat
