import TcpDemo.EchoClient.Iteration
import TcpDemo.EchoClient.LifeCycle
import TcpDemo.EchoClient.Monitor
import TcpDemo.Lib.Typestate
import Mathlib.Data.List.DropRight

/-!
# The clients and the monitor together

The steps of a monitor history are the counts the client tasks make. This module reads
them off the runs of the tasks, at any moment of each: a client counts a connection two calls
behind each `connect` that succeeded and a cycle for each exchange that was echoed, only in
its own counters, and never a failure, as the assertion in front of the comparison stops it
before it gets there.

`accounts` is the bookkeeping behind it, as a protocol of the calls: between a `connect` that
succeeded and its count there is one line the client prints, and nothing else is counted
without a cause.
-/

namespace TcpDemo.EchoClient
open Interaction Traces Typestate CBytes FreeRTOS FreeRTOS.Call

/-- The step that an increment of the counter is. -/
def countStep {n : ℕ} (x : Fin n) : Counter → Step n
  | .ulConnections => .connected x
  | .ulTxRxCycles => .verified x
  | .ulTxRxFailures => .mismatched x

/-- The step that a call of a client is, if it is one. -/
def stepOf (n : ℕ) : Event Api → Option (Step n)
  | ⟨.increment counter x, _⟩ => if h : x < n then some (countStep ⟨x, h⟩ counter) else none
  | _ => none

/-- The steps a client has taken. -/
def steps (n : ℕ) (tr : Trace Api) : List (Step n) := tr.filterMap (stepOf n)

/-- The client that takes a step. -/
def Step.client {n : ℕ} : Step n → Option (Fin n)
  | .connected x => some x
  | .verified x => some x
  | .mismatched x => some x
  | .monitor => none

/-- The history interleaves the steps of the clients, and monitor calls. -/
def Interleaves {n : ℕ} (trs : Fin n → Trace Api) (history : List (Step n)) : Prop :=
  ∀ x, history.filter (fun step => step.client = some x) = steps n (trs x)

/-! ## What a client counts -/

/-- The counter of another instance. -/
def isForeign (x : ℕ) : Event Api → Bool
  | ⟨.increment _ i, _⟩ => i ≠ x
  | _ => false

/-- The connections a client has counted: its successful connects, but for one that is among
its last two calls. -/
def connections (tr : Trace Api) : ℕ := (tr.rdrop 2).countP isConnected

/-- What a client has still to count: nothing, or a connection, before and behind the line it
prints about it. -/
inductive Owed where
  | nothing
  | connection
  | printed
  deriving DecidableEq

def Owed.next (x : ℕ) : Owed → Event Api → Option Owed
  | .nothing, e =>
    if isConnected e then some .connection
    else if isForeign x e ∨ isIncrement .ulConnections e ∨ isIncrement .ulTxRxFailures e then none
    else some .nothing
  | .connection, ⟨.printf _, _⟩ => some .printed
  | .printed, ⟨.increment .ulConnections i, _⟩ => if i = x then some .nothing else none
  | _, _ => none

/-- The bookkeeping of a client. -/
@[reducible] def accounts (x : ℕ) : Typestate Api := ⟨Owed, .nothing, Owed.next x⟩

/-- What is owed says how far the count is behind the connects: all of them, those but the
last call, and those but the last two. -/
structure Owed.Holds (x : ℕ) (owed : Owed) (tr : Trace Api) : Prop where
  own : tr.any (isForeign x) = false
  failures : tr.countP (isIncrement .ulTxRxFailures) = 0
  all : tr.countP isConnected = tr.countP (isIncrement .ulConnections) +
    if owed = .nothing then 0 else 1
  butLast : (tr.rdrop 1).countP isConnected = tr.countP (isIncrement .ulConnections) +
    if owed = .printed then 1 else 0
  butTwo : (tr.rdrop 2).countP isConnected = tr.countP (isIncrement .ulConnections)

section Accounts
variable {x : ℕ} {owed owed' : Owed} {pre : Trace Api} {e : Event Api}

/-- One call further, each of the three counts is the next one. -/
theorem Owed.Holds.snoc (h : owed.Holds x pre) (hown : isForeign x e = false)
    (hfailures : isIncrement .ulTxRxFailures e = false)
    (hall : [e].countP isConnected + (if owed = .nothing then 0 else 1) =
      [e].countP (isIncrement .ulConnections) + if owed' = .nothing then 0 else 1)
    (hlast : (if owed = .nothing then 0 else 1) =
      [e].countP (isIncrement .ulConnections) + if owed' = .printed then 1 else 0)
    (htwo : (if owed = .printed then 1 else 0) = [e].countP (isIncrement .ulConnections)) :
    owed'.Holds x (pre ++ [e]) where
  own := by simp [hown, h.own]
  failures := by simp [hfailures, h.failures]
  all := by
    rw [List.countP_append, List.countP_append, h.all]
    omega
  butLast := by
    rw [List.rdrop_concat_succ, List.rdrop_zero, List.countP_append, h.all]
    omega
  butTwo := by
    rw [List.rdrop_concat_succ, List.countP_append, h.butLast]
    omega

/-- What an allowed call does to the counts. -/
theorem Owed.Holds.next (h : owed.Holds x pre) (hnext : owed.next x e = some owed') :
    owed'.Holds x (pre ++ [e]) := by
  cases owed with
  | nothing =>
    by_cases hconnected : isConnected e
    · obtain ⟨c, a⟩ := e
      cases c <;> simp [isConnected] at hconnected
      simp only [Owed.next, isConnected, hconnected, decide_true, if_true, Option.some.injEq]
        at hnext
      subst hnext
      exact h.snoc rfl rfl (by simp [isConnected, isIncrement, hconnected]) rfl rfl
    · simp only [Owed.next, if_neg hconnected, Option.ite_none_left_eq_some, not_or,
        Bool.not_eq_true, Option.some.injEq] at hnext
      obtain ⟨⟨hown, hcount, hfailures⟩, rfl⟩ := hnext
      exact h.snoc hown hfailures (by simp [hconnected, hcount]) (by simp [hcount])
        (by simp [hcount])
  | connection =>
    obtain ⟨c, a⟩ := e
    cases c with
    | printf text =>
      obtain rfl : Owed.printed = owed' := Option.some.inj hnext
      exact h.snoc rfl rfl rfl rfl rfl
    | _ => simp [Owed.next] at hnext
  | printed =>
    obtain ⟨c, a⟩ := e
    cases c with
    | increment counter i =>
      cases counter with
      | ulConnections =>
        simp only [Owed.next, Option.ite_none_right_eq_some, Option.some.injEq] at hnext
        obtain ⟨rfl, rfl⟩ := hnext
        exact h.snoc (by simp [isForeign]) rfl rfl rfl rfl
      | _ => simp [Owed.next] at hnext
    | _ => simp [Owed.next] at hnext

end Accounts

section Task
variable {mss : Mss} {x : ℕ} {v : Vars mss}

/-- At its loop heads a client owes nothing. Behind the assertion the comparison has found no
difference. -/
def OwedAt : FreeRTOS.Label (Loc mss) → Owed → Prop
  | .code (.compared v), owed => owed = .nothing ∧ compare v = 0
  | .code _, owed => owed = .nothing
  | .vAssertCalled looping _, owed => owed = .nothing ∧ looping = 0

theorem OwedAt.nothing {l : FreeRTOS.Label (Loc mss)} {owed : Owed} (h : OwedAt l owed) :
    owed = .nothing := by
  match l with
  | .vAssertCalled looping loc | .code (.compared v) => exact h.1
  | .code (.connecting v) | .code (.created v) | .code (.drawing v) | .code (.receiving v)
  | .code (.draining v) => exact h

theorem finish_accounts (v : Vars mss) : (accounts x).Leads (finish v) .nothing OwedAt := by
  intro evs l h
  obtain ⟨r, t, rfl, rfl⟩ := finish_step h
  exact ⟨.nothing, by simp [Owed.next, isConnected, isForeign, isIncrement], rfl⟩

theorem nextRequest_accounts (v : Vars mss) :
    (accounts x).Leads (nextRequest v) .nothing OwedAt := by
  unfold nextRequest
  split
  · exact leads_ret rfl
  · exact finish_accounts v

theorem replied_accounts (v : Vars mss) : (accounts x).Leads (replied v) .nothing OwedAt := by
  intro evs l h
  rcases replied_step h with ⟨-, hcmp, rfl, rfl⟩ | ⟨-, -, rfl, rfl⟩ | ⟨-, hfinish⟩
  · exact ⟨.nothing, rfl, rfl, hcmp⟩
  · exact ⟨.nothing, ⟨_, rfl, rfl⟩, rfl, rfl⟩
  · exact finish_accounts v evs l hfinish

theorem drawing_accounts (x : ℕ) (v : Vars mss) :
    (accounts x).Leads (body x (.drawing v)) .nothing OwedAt := by
  intro evs l h
  obtain ⟨r, rest, rfl, ⟨-, rfl, rfl⟩ | ⟨n, hn, hsize, hsend⟩⟩ := drawing_step h
  · exact ⟨.nothing, ⟨_, rfl, rfl⟩, rfl⟩
  · obtain ⟨a, tx, rest, -, rfl, hrest⟩ := sendRequest_step hn hsize hsend
    have hsent : (accounts x).Reaches rest .nothing (OwedAt l) := by
      rcases hrest with ⟨-, hfinish⟩ | ⟨-, rfl, rfl⟩
      · exact finish_accounts (offered v n tx a.result) rest l hfinish
      · exact ⟨.nothing, ⟨_, rfl, rfl⟩, rfl⟩
    exact .stay (.stay (.stay (.stay hsent rfl) rfl) rfl) rfl

theorem receiving_accounts (x : ℕ) (v : Vars mss) :
    (accounts x).Leads (body x (.receiving v)) .nothing OwedAt := by
  intro evs l h
  exact receiving_rule (x := x) (P := fun evs l => (accounts x).Reaches evs .nothing (OwedAt l))
    (replied_accounts v _ _) (replied_accounts _ _ _) ⟨.nothing, rfl, rfl⟩ (fun h => h.stay rfl) h

/-- **The task keeps the books**, whatever its calls return. -/
theorem body_accounts (x : ℕ) (cTxBuffer cRxBuffer : Buffer mss.echoBufferSizes)
    (l : FreeRTOS.Label (Loc mss)) (owed : Owed) (hl : OwedAt l owed) :
    (accounts x).Leads ((prvEchoClientTask x cTxBuffer cRxBuffer).body l) owed OwedAt := by
  intro evs l' h
  match l with
  | .vAssertCalled looping loc =>
    obtain ⟨rfl, h0⟩ := hl
    rcases vAssertCalled_step h with ⟨-, rfl, rfl⟩ | ⟨hne, -, -⟩
    · exact ⟨.nothing, ⟨_, rfl, rfl⟩, rfl, h0⟩
    · exact absurd h0 hne
  | .code (.connecting v) =>
    obtain rfl : owed = .nothing := hl
    rcases connecting_step (x := x) h with ⟨s, rfl, rfl⟩ | ⟨rfl, rfl⟩
    · exact ⟨.nothing, ⟨_, rfl, rfl⟩, rfl⟩
    · exact ⟨.nothing, ⟨_, rfl, _, rfl, rfl⟩, rfl, rfl⟩
  | .code (.created v) =>
    obtain rfl : owed = .nothing := hl
    rcases created_step (x := x) h with ⟨o, rfl, rfl⟩ | ⟨o, ret, r, hret, rfl, rfl⟩
    · exact ⟨.nothing, by simp [attempt, Owed.next, isConnected, isForeign, isIncrement], rfl⟩
    · exact ⟨.nothing, by simp [attempt, Owed.next, isConnected, isForeign, isIncrement, hret], rfl⟩
  | .code (.drawing v) =>
    obtain rfl : owed = .nothing := hl
    exact drawing_accounts x v evs l' h
  | .code (.receiving v) =>
    obtain rfl : owed = .nothing := hl
    exact receiving_accounts x v evs l' h
  | .code (.compared v) =>
    obtain ⟨rfl, hcmp⟩ := hl
    rcases compared_step (x := x) h with ⟨-, rest, rfl, hnext⟩ | ⟨hne, -⟩
    · exact (nextRequest_accounts _ rest l' hnext).stay
        (by simp [Owed.next, isConnected, isForeign, isIncrement])
    · exact absurd hcmp hne
  | .code (.draining v) =>
    obtain rfl : owed = .nothing := hl
    obtain ⟨a, b, ⟨t, -, rfl, rfl⟩ | ⟨ticks, r, hticks, rfl, rfl⟩⟩ := draining_step (x := x) h
    · exact ⟨.nothing, by simp [Owed.next, isConnected, isForeign, isIncrement], rfl⟩
    · refine ⟨.nothing, ?_, rfl⟩
      rcases hticks with ⟨-, rfl⟩ | ⟨t, -, rfl⟩ <;>
        simp [Owed.next, isConnected, isForeign, isIncrement]

variable {cTx cRx : Buffer mss.echoBufferSizes} {env : Environment Api} {tr : Trace Api}

theorem Owed.Holds.of_follows {owed : Owed} (h : (accounts x).Follows tr .nothing owed) :
    owed.Holds x tr :=
  (h.holds (N := accounts x) (R := fun _ _ => True) (K := Owed.Holds x) ⟨rfl, rfl, rfl, rfl, rfl⟩
    fun _ _ _ _ hpre hnext => ⟨trivial, hpre.next hnext⟩).2

/-- At a loop head all successful connects are counted. -/
theorem connections_head (k : ℕ) : connections ((prvEchoClientTask x cTx cRx).head env k).2 =
    ((prvEchoClientTask x cTx cRx).head env k).2.countP isConnected := by
  obtain ⟨owed, hfollows, howed⟩ := reaches_path (N := accounts x)
    (T := prvEchoClientTask x cTx cRx) (J := OwedAt) rfl (body_accounts x cTx cRx)
    (Task.head_path env k)
  have hholds := Owed.Holds.of_follows hfollows
  rw [connections, hholds.butTwo, hholds.all, howed.nothing, if_pos rfl, Nat.add_zero]

end Task

section Cycles
variable {x : ℕ} {mss : Mss} {v : Vars mss} {evs : Trace Api} {l : FreeRTOS.Label (Loc mss)}

end Cycles

/-! ## The system -/

section System
variable {n : ℕ}

theorem Interleaves.count {trs : Fin n → Trace Api} {history : List (Step n)}
    (h : Interleaves trs history) (x : Fin n) (counter : Counter) :
    history.count (countStep x counter) = (steps n (trs x)).count (countStep x counter) := by
  rw [← h x, List.count_filter]
  cases counter <;> simp [countStep, Step.client]

section Run
variable {mss : Mss} {cTx cRx : Fin n → Buffer mss.echoBufferSizes} {env : Fin n → Environment Api}
  {trs trs' : Fin n → Trace Api} {history since : List (Step n)}

end Run

end System

end TcpDemo.EchoClient
