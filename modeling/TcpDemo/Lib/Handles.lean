import TcpDemo.Lib.Network
import TcpDemo.Lib.Typestate

/-!
# Handles

A task is given handles, makes calls on them, and gives them back. `Handles` says for the calls
of an interface how each of them changes the handles that are held, and on which of these it
may be made. The protocol behind it has the handles held as its states.

## Main definitions

* `Handles.held` — the handles held after a trace.
* `Handles.InOrder` — each call was allowed by the handles held in front of it.
* `Handles.leads_allowed`, `Handles.leads_same` — the rules for programs.
* `Handles.inOrder_moment`, `Handles.inOrder_at`, `Handles.held_path` — the rules for tasks.
-/

namespace Interaction
open Traces Typestate

variable {I : Interface} {R : Type}

/-- How the calls of an interface change the handles that are held, and which of them are
allowed with these handles. -/
structure Handles (I : Interface) (R : Type) where
  change : List R → Event I → List R
  Allowed : List R → I.Call → Prop

namespace Handles
variable (H : Handles I R)

/-- The handles held after these calls. -/
def held (tr : Trace I) : List R := tr.foldl H.change []

/-- Each call is allowed by the handles held in front of it. -/
def InOrder (tr : Trace I) : Prop :=
  ∀ pre e, pre ++ [e] <+: tr → H.Allowed (H.held pre) e.call

open Classical in
/-- The protocol. -/
@[reducible] noncomputable def protocol : Typestate I where
  State := List R
  start := []
  next hs e := if H.Allowed hs e.call then some (H.change hs e) else none

/-- Started with the handles `hs`, the program makes allowed calls only, and ends with a result
and with handles that are in `Q`. -/
@[reducible] def Leads {α : Type} (p : Program I α) (hs : List R) (Q : α → List R → Prop) : Prop :=
  H.protocol.Leads p hs Q

/-- The calls are allowed one after the other, and lead from `hs` to `hs'`. -/
@[reducible] def Follows (evs : Trace I) (hs hs' : List R) : Prop := H.protocol.Follows evs hs hs'

variable {H} {hs : List R} {tr evs : Trace I} {e : Event I}

@[simp] theorem held_nil : H.held [] = [] := rfl

theorem held_snoc (tr : Trace I) (e : Event I) :
    H.held (tr ++ [e]) = H.change (H.held tr) e := by
  simp [held]

/-! ## Programs -/

section Programs
variable {α : Type} {c : I.Call} {k : I.Answer c → Program I α} {Q : α → List R → Prop}

theorem leads_allowed (hc : H.Allowed hs c)
    (hk : ∀ a, H.Leads (k a) (H.change hs ⟨c, a⟩) Q) :
    H.Leads (.call c k) hs Q :=
  leads_call fun a => ⟨H.change hs ⟨c, a⟩, if_pos hc, hk a⟩

/-- A call that is given no handle and gives none back. -/
theorem leads_same (hc : H.Allowed hs c) (hsame : ∀ a, H.change hs ⟨c, a⟩ = hs)
    (hk : ∀ a, H.Leads (k a) hs Q) : H.Leads (.call c k) hs Q :=
  leads_allowed hc fun a => (hsame a).symm ▸ hk a

theorem follows_cons_allowed {hs' : List R} (he : H.Allowed hs e.call)
    (hevs : H.Follows evs (H.change hs e) hs') : H.Follows (e :: evs) hs hs' :=
  ⟨H.change hs e, if_pos he, hevs⟩

theorem reaches_same {Q : List R → Prop} (h : H.protocol.Reaches evs hs Q)
    (he : H.Allowed hs e.call) (hsame : H.change hs e = hs) :
    H.protocol.Reaches (e :: evs) hs Q :=
  h.stay ((if_pos he).trans (congrArg some hsame))

theorem follows_same (h : ∀ e ∈ evs, H.Allowed hs e.call ∧ H.change hs e = hs) :
    H.Follows evs hs hs := by
  induction evs with
  | nil => rfl
  | cons e evs ih =>
    obtain ⟨hallowed, hsame⟩ := h e List.mem_cons_self
    exact follows_cons_allowed hallowed
      (hsame.symm ▸ ih fun e' he' => h e' (List.mem_cons_of_mem _ he'))

end Programs

/-! ## Tasks -/

/-- The states of the protocol are the handles held. -/
theorem follows_held (h : H.Follows tr [] hs) : H.InOrder tr ∧ hs = H.held tr := by
  obtain ⟨hall, hheld⟩ := Follows.holds (N := H.protocol)
    (R := fun pre e => H.Allowed (H.held pre) e.call)
    (K := fun hs tr => hs = H.held tr) rfl (fun hs pre e hs' hpre hnext => by
      obtain ⟨hallowed, hchange⟩ := Option.ite_none_right_eq_some.mp hnext
      rw [← hpre, held_snoc, ← hpre]
      exact ⟨hallowed, (Option.some.inj hchange).symm⟩) h
  exact ⟨fun pre e hpre => hall.of_snoc_isPrefix hpre, hheld⟩

section Task
variable {T : Task I} {J : T.Label → List R → Prop} {l : T.Label}

/-- What is held at a loop head. -/
theorem held_path (h0 : J T.start []) (hbody : ∀ l hs, J l hs → H.Leads (T.body l) hs J)
    (h : T.Path T.start tr l) : H.InOrder tr ∧ J l (H.held tr) := by
  obtain ⟨hs, hfollows, hl⟩ := reaches_path (N := H.protocol) h0 hbody h
  obtain ⟨horder, rfl⟩ := follows_held hfollows
  exact ⟨horder, hl⟩

theorem InOrder.of_isPrefix (h : H.InOrder (tr ++ evs)) : H.InOrder tr := fun pre e hpre =>
  h pre e (hpre.trans (List.prefix_append _ _))

/-- **The rule for every moment** of a run, -/
theorem inOrder_moment (h0 : J T.start [])
    (hbody : ∀ l hs, J l hs → H.Leads (T.body l) hs J) {env : Environment I}
    (h : T.Moment env tr) : H.InOrder tr := by
  obtain ⟨k, rest, hrest⟩ := h
  have hpath := Task.head_path (T := T) env k
  rw [← hrest] at hpath
  exact (held_path h0 hbody hpath).1.of_isPrefix

/-- and of a task in the middle of its code. -/
theorem inOrder_at [∀ c, Nonempty (I.Answer c)] (h0 : J T.start [])
    (hbody : ∀ l hs, J l hs → H.Leads (T.body l) hs J) {p : Program I T.Label}
    (h : T.At tr p) : H.InOrder tr := by
  obtain ⟨env, hmoment⟩ := h.moment
  exact inOrder_moment h0 hbody hmoment

end Task

end Handles
end Interaction
