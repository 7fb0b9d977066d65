import TcpDemo.Lib.Interaction
import TcpDemo.Lib.Trace

/-!
# Protocols of resources

Code that holds resources has to make its calls in an order their protocol allows: a file is
read while it is open, a connection carries data between connect and shutdown. A `Typestate`
is such a protocol: the states the resources of a task can be in, and for each state which
calls are allowed and where they lead.

A task follows its protocol if each of its stretches does (`Follows.moment`), and then at every
moment of every run, of which the calls so far are a prefix. What the states say about the
calls that led there is an invariant of the protocol alone (`Follows.holds`).

## Main definitions

* `Typestate` — the states, and the calls they allow.
* `Typestate.Follows` — calls that lead from one state to another.
* `Typestate.Leads` — programs that follow the protocol, with a rule for each of their parts.
* `Follows.moment` — the rule for tasks.
* `Follows.holds` — the rule for what a state knows about its past.
-/

namespace Interaction
open Traces

variable {I : Interface}

/-- A protocol: the next state after each call that a state allows. -/
structure Typestate (I : Interface) where
  State : Type
  start : State
  next : State → Event I → Option State

namespace Typestate
variable (N : Typestate I)

/-- The calls are allowed one after the other, and lead from `s` to `s'`. -/
def Follows : Trace I → N.State → N.State → Prop
  | [], s, s' => s = s'
  | e :: evs, s, s' => ∃ mid, N.next s e = some mid ∧ Follows evs mid s'

variable {N} {s s' s'' : N.State} {evs evs' tr : Trace I} {e : Event I}

@[simp] theorem follows_nil : N.Follows [] s s' ↔ s = s' := Iff.rfl
@[simp] theorem follows_cons :
    N.Follows (e :: evs) s s' ↔ ∃ mid, N.next s e = some mid ∧ N.Follows evs mid s' := Iff.rfl

theorem follows_append :
    N.Follows (evs ++ evs') s s' ↔ ∃ mid, N.Follows evs s mid ∧ N.Follows evs' mid s' := by
  induction evs generalizing s with
  | nil => simp
  | cons e evs ih =>
    simp only [List.cons_append, follows_cons, ih]
    constructor
    · rintro ⟨mid, he, mid', hevs, hevs'⟩
      exact ⟨mid', ⟨mid, he, hevs⟩, hevs'⟩
    · rintro ⟨mid', ⟨mid, he, hevs⟩, hevs'⟩
      exact ⟨mid, he, mid', hevs, hevs'⟩

theorem Follows.append (h : N.Follows evs s s') (h' : N.Follows evs' s' s'') :
    N.Follows (evs ++ evs') s s'' := follows_append.mpr ⟨s', h, h'⟩

/-- The calls are allowed from `s` on, and lead to a state in `Q`. -/
def Reaches (N : Typestate I) (evs : Trace I) (s : N.State) (Q : N.State → Prop) : Prop :=
  ∃ s', N.Follows evs s s' ∧ Q s'

/-- A call in front that stays in its state. -/
theorem Reaches.stay {Q : N.State → Prop} (h : N.Reaches evs s Q) (he : N.next s e = some s) :
    N.Reaches (e :: evs) s Q := by
  obtain ⟨s', hevs, hs'⟩ := h
  exact ⟨s', ⟨s, he, hevs⟩, hs'⟩

/-! ## Programs -/

/-- Started in `s`, the program follows the protocol whatever its calls are answered, and ends
with a result and in a state that are in `Q`. -/
def Leads {α : Type} (N : Typestate I) (p : Program I α) (s : N.State) (Q : α → N.State → Prop) :
    Prop := ∀ evs a, p.Issues evs a → N.Reaches evs s (Q a)

section Programs
variable {α β : Type} {Q : α → N.State → Prop}

theorem leads_ret {a : α} (h : Q a s) : N.Leads (.ret a) s Q := by
  intro evs b hissues
  obtain ⟨rfl, rfl⟩ := Program.issues_ret.mp hissues
  exact ⟨s, rfl, h⟩

/-- A call that is allowed, and the code behind each of its answers. -/
theorem leads_call {c : I.Call} {k : I.Answer c → Program I α}
    (h : ∀ a, ∃ mid, N.next s ⟨c, a⟩ = some mid ∧ N.Leads (k a) mid Q) :
    N.Leads (.call c k) s Q := by
  intro evs b hissues
  obtain ⟨a, rest, rfl, hrest⟩ := Program.issues_call.mp hissues
  obtain ⟨mid, hmid, hk⟩ := h a
  obtain ⟨s', hfollows, hs'⟩ := hk rest b hrest
  exact ⟨s', ⟨mid, hmid, hfollows⟩, hs'⟩

theorem Leads.bind {p : Program I β} {f : β → Program I α} {R : β → N.State → Prop}
    (hp : N.Leads p s R) (hf : ∀ b mid, R b mid → N.Leads (f b) mid Q) :
    N.Leads (p >>= f) s Q := by
  intro evs a hissues
  obtain ⟨first, b, rest, rfl, hfirst, hrest⟩ := Program.issues_bind.mp hissues
  obtain ⟨mid, hfollows, hmid⟩ := hp first b hfirst
  obtain ⟨s', hfollows', hs'⟩ := hf b mid hmid rest a hrest
  exact ⟨s', hfollows.append hfollows', hs'⟩

end Programs

/-! ## Tasks -/

section Task
variable {T : Task I} {l : T.Label} {J : T.Label → N.State → Prop}

/-- At its loop heads a task is in a state that goes with the loop head. -/
theorem reaches_path (h0 : J T.start N.start) (hbody : ∀ l s, J l s → N.Leads (T.body l) s J)
    (h : T.Path T.start tr l) : N.Reaches tr N.start (J l) := by
  refine h.induction (J := fun l tr => N.Reaches tr N.start (J l)) ⟨N.start, rfl, h0⟩ ?_
  rintro l tr evs l' ⟨s, htr, hs⟩ hevs
  obtain ⟨s', hfollows, hs'⟩ := hbody l s hs evs l' hevs
  exact ⟨s', htr.append hfollows, hs'⟩

/-- **The rule for tasks.** A task whose stretches follow the protocol follows it up to every
moment of a run. -/
theorem Follows.moment (h0 : J T.start N.start) (hbody : ∀ l s, J l s → N.Leads (T.body l) s J)
    {env : Environment I} (h : T.Moment env tr) : ∃ s, N.Follows tr N.start s := by
  obtain ⟨k, rest, hrest⟩ := h
  obtain ⟨s, hfollows, -⟩ := reaches_path h0 hbody (Task.head_path env k)
  rw [← hrest] at hfollows
  obtain ⟨mid, htr, -⟩ := follows_append.mp hfollows
  exact ⟨mid, htr⟩

end Task

/-! ## What a state knows -/

/-- **The rule for the past.** What each allowed call preserves, and what it asks of the calls
before it, holds along all calls that follow the protocol. -/
theorem Follows.holds {R : Trace I → Event I → Prop} {K : N.State → Trace I → Prop}
    (h0 : K N.start [])
    (hnext : ∀ s pre e s', K s pre → N.next s e = some s' → R pre e ∧ K s' (pre ++ [e]))
    (h : N.Follows tr N.start s) : Stepwise R tr ∧ K s tr := by
  induction tr using List.reverseRecOn generalizing s with
  | nil => exact ⟨trivial, (show N.start = s from h) ▸ h0⟩
  | append_singleton tr e ih =>
    obtain ⟨mid, htr, s', he, rfl⟩ := follows_append.mp h
    obtain ⟨hall, hmid⟩ := ih htr
    obtain ⟨hlast, hs'⟩ := hnext mid tr e s' hmid he
    exact ⟨(stepwise_append tr [e]).mpr ⟨hall, hlast, trivial⟩, hs'⟩

end Typestate
end Interaction
