import Mathlib.Data.List.Infix

/-!
# Programs that talk to an environment

A `Program` is a terminating stretch of code that issues calls and continues with
their answers. A `Task` strings such stretches together: its labels are the loop
heads of the code, and `body` runs from one loop head to the next, so a task may
loop for ever although each of its stretches is finite.

Two readings of a task are given and connected. `Program.Issues` and `Task.Path`
say which calls and answers are possible, which is what invariants are proved
from. `Program.exec` and `Task.head` run the task against an `Environment` that
answers the `i`-th call of the run, which is what progress is stated about.

## Main definitions

* `Program.Issues` — the calls a program may issue, and where it ends.
* `Program.All` — what holds of every call a program may issue.
* `Program.Keeps` — what holds of the calls of every stretch, and so of every run
  (`Task.keeps_head`).
* `Task.head` — the `k`-th loop head a run visits, with the calls so far.
* `Task.resume` — the run from one of its loop heads on (`Task.head_add`).
* `Task.Moment` — the calls issued up to some moment of a run.
* `Task.head_induction` — the loop invariant rule.
* `Task.LeadsTo` — progress along a run, with the variant rule `LeadsTo.of_variant`.
* `Task.exists_head_of_path` — every path is the run of some environment.
-/

namespace Interaction

/-- The calls a program can issue, and the type of the answer to each. -/
structure Interface where
  Call : Type
  Answer : Call → Type

/-- A call that has returned, with its answer. -/
structure Event (I : Interface) where
  call : I.Call
  answer : I.Answer call

/-- The calls issued so far, oldest first. -/
abbrev Trace (I : Interface) := List (Event I)

/-- A stretch of code: it returns, or it issues a call and goes on with the answer. -/
inductive Program (I : Interface) (α : Type) where
  | ret (a : α)
  | call (c : I.Call) (k : I.Answer c → Program I α)

namespace Program
variable {I : Interface} {α β : Type}

/-- Run `p`, then the continuation on its result. -/
def bind : Program I α → (α → Program I β) → Program I β
  | .ret a, f => f a
  | .call c k, f => .call c fun a => (k a).bind f

instance : Monad (Program I) where
  pure := .ret
  bind := bind

/-- Issue one call and return its answer. -/
def perform (c : I.Call) : Program I (I.Answer c) := .call c .ret

@[simp] theorem pure_eq_ret (a : α) : (pure a : Program I α) = .ret a := rfl
@[simp] theorem ret_bind (a : α) (f : α → Program I β) : (.ret a >>= f) = f a := rfl
@[simp] theorem call_bind (c : I.Call) (k : I.Answer c → Program I α) (f : α → Program I β) :
    (.call c k >>= f) = .call c fun a => k a >>= f := rfl
@[simp] theorem perform_bind (c : I.Call) (f : I.Answer c → Program I β) :
    (perform c >>= f) = .call c f := rfl

@[simp] theorem bind_ret (p : Program I α) : (p >>= .ret) = p := by
  induction p with
  | ret a => rfl
  | call c k ih => simp only [call_bind, ih]

theorem bind_assoc {γ : Type} (p : Program I α) (f : α → Program I β) (g : β → Program I γ) :
    ((p >>= f) >>= g) = (p >>= fun a => f a >>= g) := by
  induction p with
  | ret a => rfl
  | call c k ih => simp only [call_bind, ih]

instance : LawfulMonad (Program I) :=
  LawfulMonad.mk' (Program I) bind_ret (fun _ _ => rfl) bind_assoc

/-! ## What a program may issue -/

/-- `p.Issues evs a`: answered suitably, `p` issues exactly `evs` and returns `a`. -/
inductive Issues : Program I α → Trace I → α → Prop where
  | ret (a : α) : Issues (.ret a) [] a
  | call {c : I.Call} {k : I.Answer c → Program I α} (a : I.Answer c) {evs : Trace I} {b : α}
      (h : Issues (k a) evs b) : Issues (.call c k) (⟨c, a⟩ :: evs) b

@[simp] theorem issues_ret {a b : α} {evs : Trace I} :
    (ret a : Program I α).Issues evs b ↔ evs = [] ∧ b = a := by
  constructor
  · intro h; cases h; exact ⟨rfl, rfl⟩
  · rintro ⟨rfl, rfl⟩; exact .ret _

@[simp] theorem issues_call {c : I.Call} {k : I.Answer c → Program I α} {evs : Trace I} {b : α} :
    (call c k).Issues evs b ↔ ∃ a rest, evs = ⟨c, a⟩ :: rest ∧ (k a).Issues rest b := by
  constructor
  · intro h; cases h with
    | call a h => exact ⟨a, _, rfl, h⟩
  · rintro ⟨a, rest, rfl, h⟩; exact .call a h

/-- Sequencing concatenates what the two parts issue. -/
theorem issues_bind {p : Program I α} {f : α → Program I β} {evs : Trace I} {b : β} :
    (p >>= f).Issues evs b ↔
      ∃ first a rest, evs = first ++ rest ∧ p.Issues first a ∧ (f a).Issues rest b := by
  induction p generalizing evs with
  | ret a => simp
  | call c k ih =>
    simp only [call_bind, issues_call, ih]
    constructor
    · rintro ⟨a, _, rfl, first, x, rest, rfl, hk, hf⟩
      exact ⟨⟨c, a⟩ :: first, x, rest, rfl, ⟨a, first, rfl, hk⟩, hf⟩
    · rintro ⟨_, x, rest, rfl, ⟨a, first, rfl, hk⟩, hf⟩
      exact ⟨a, first ++ rest, rfl, first, x, rest, rfl, hk, hf⟩

/-- Every call the program issues satisfies `P`, whatever the calls are answered. -/
def All (P : Event I → Prop) : Program I α → Prop
  | .ret _ => True
  | .call c k => ∀ a, P ⟨c, a⟩ ∧ (k a).All P

@[simp] theorem all_ret {P : Event I → Prop} {a : α} : (ret a : Program I α).All P := trivial
@[simp] theorem all_call {P : Event I → Prop} {c : I.Call} {k : I.Answer c → Program I α} :
    (call c k).All P ↔ ∀ a, P ⟨c, a⟩ ∧ (k a).All P := Iff.rfl
@[simp] theorem all_ite {P : Event I → Prop} {b : Prop} [Decidable b] {p q : Program I α} :
    (if b then p else q).All P ↔ (b → p.All P) ∧ (¬ b → q.All P) := by
  split <;> simp_all

/-- A program whose two parts issue only such calls. -/
theorem All.bind {P : Event I → Prop} {p : Program I α} {f : α → Program I β} (hp : p.All P)
    (hf : ∀ a, (f a).All P) : (p >>= f).All P := by
  induction p with
  | ret a => exact hf a
  | call c k ih => exact fun a => ⟨(hp a).1, ih a (hp a).2⟩

/-- What holds of all calls a program may issue holds of those it has issued. -/
theorem All.of_issues {P : Event I → Prop} {p : Program I α} (hp : p.All P) {evs : Trace I} {a : α}
    (h : p.Issues evs a) : ∀ e ∈ evs, P e := by
  induction h with
  | ret a => simp
  | call a _ ih => exact List.forall_mem_cons.mpr ⟨(hp a).1, ih (hp a).2⟩

/-! ## What the calls of a program make up -/

/-- `P` holds of no calls, and of two stretches in a row if it holds of each. -/
structure AppendClosed (P : Trace I → Prop) : Prop where
  nil : P []
  append : ∀ {tr tr'}, P tr → P tr' → P (tr ++ tr')

/-- `P` holds of whatever the program issues. -/
def Keeps (P : Trace I → Prop) (p : Program I α) : Prop := ∀ evs a, p.Issues evs a → P evs

section Keeps
variable {P : Trace I → Prop}

theorem keeps_ret (hP : AppendClosed P) (a : α) : (ret a : Program I α).Keeps P := by
  intro evs b h
  obtain ⟨rfl, -⟩ := issues_ret.mp h
  exact hP.nil

theorem Keeps.call (hP : AppendClosed P) {c : I.Call} {k : I.Answer c → Program I α}
    (hc : ∀ a, P [⟨c, a⟩]) (hk : ∀ a, (k a).Keeps P) : (Program.call c k).Keeps P := by
  intro evs b h
  obtain ⟨a, rest, rfl, hrest⟩ := issues_call.mp h
  exact hP.append (hc a) (hk a rest b hrest)

theorem Keeps.bind (hP : AppendClosed P) {p : Program I α} {f : α → Program I β}
    (hp : p.Keeps P) (hf : ∀ a, (f a).Keeps P) : (p >>= f).Keeps P := by
  intro evs b h
  obtain ⟨first, a, rest, rfl, hfirst, hrest⟩ := issues_bind.mp h
  exact hP.append (hp first a hfirst) (hf a rest b hrest)

/-- Calls of which each satisfies `Q` make up a `P`. -/
theorem All.keeps {Q : Event I → Prop} (hQ : ∀ {tr : Trace I}, (∀ e ∈ tr, Q e) → P tr)
    {p : Program I α} (hp : p.All Q) : p.Keeps P :=
  fun _ _ h => hQ (hp.of_issues h)

end Keeps

end Program

/-- An environment answers the `i`-th call of a run. -/
def Environment (I : Interface) := ℕ → (c : I.Call) → I.Answer c

/-- The environment gives the answers recorded in a trace. -/
def Environment.Agrees {I : Interface} (env : Environment I) (tr : Trace I) : Prop :=
  ∀ pre e, pre ++ [e] <+: tr → env pre.length e.call = e.answer

theorem Environment.Agrees.mono {I : Interface} {env : Environment I} {tr tr' : Trace I}
    (h : env.Agrees tr') (hpre : tr <+: tr') : env.Agrees tr :=
  fun pre e he => h pre e (he.trans hpre)

/-- The answer to a call of the trace. -/
theorem Environment.Agrees.answer {I : Interface} {env : Environment I} {tr rest : Trace I}
    {e : Event I} (h : env.Agrees (tr ++ e :: rest)) : env tr.length e.call = e.answer :=
  h tr e ⟨rest, by simp⟩

namespace Program
variable {I : Interface} {α β : Type}

/-- Run a program after the calls `tr`, taking the answers from the environment. -/
def exec (env : Environment I) : Program I α → Trace I → α × Trace I
  | .ret a, tr => (a, tr)
  | .call c k, tr => exec env (k (env tr.length c)) (tr ++ [⟨c, env tr.length c⟩])

@[simp] theorem exec_ret (env : Environment I) (a : α) (tr : Trace I) :
    (ret a).exec env tr = (a, tr) := rfl
@[simp] theorem exec_call (env : Environment I) (c : I.Call) (k : I.Answer c → Program I α)
    (tr : Trace I) : (call c k).exec env tr =
      (k (env tr.length c)).exec env (tr ++ [⟨c, env tr.length c⟩]) := rfl

/-- A run issues one of the possible traces of the program. -/
theorem exec_issues (env : Environment I) (p : Program I α) (tr : Trace I) :
    ∃ evs, (p.exec env tr).2 = tr ++ evs ∧ p.Issues evs (p.exec env tr).1 := by
  induction p generalizing tr with
  | ret a => exact ⟨[], by simp, .ret a⟩
  | call c k ih =>
    obtain ⟨evs, htr, hevs⟩ := ih (env tr.length c) (tr ++ [⟨c, env tr.length c⟩])
    exact ⟨⟨c, env tr.length c⟩ :: evs, by simp [htr], .call _ hevs⟩

/-- A run records the answers of the environment. -/
theorem exec_agrees {env : Environment I} (p : Program I α) {tr : Trace I} (h : env.Agrees tr) :
    env.Agrees (p.exec env tr).2 := by
  induction p generalizing tr with
  | ret a => exact h
  | call c k ih =>
    refine ih _ fun pre e hpre => ?_
    rcases List.prefix_concat_iff.mp hpre with heq | hpre
    · obtain ⟨rfl, he⟩ := List.append_inj' heq rfl
      obtain rfl := List.singleton_inj.mp he
      rfl
    · exact h pre e hpre

/-- An environment that agrees with a possible trace makes the program issue it. -/
theorem Issues.exec_eq {env : Environment I} {p : Program I α} {evs : Trace I} {a : α}
    (h : p.Issues evs a) {tr : Trace I} (henv : env.Agrees (tr ++ evs)) :
    p.exec env tr = (a, tr ++ evs) := by
  induction h generalizing tr with
  | ret a => simp
  | @call c k x evs b _ ih =>
    have hx : env tr.length c = x := henv tr ⟨c, x⟩ (by simp)
    have hrest := @ih (tr ++ [⟨c, x⟩]) (by simpa using henv)
    rw [exec_call, hx, hrest]
    simp

end Program

/-- Code with loops: labels are its loop heads, `body` runs to the next one. -/
structure Task (I : Interface) where
  Label : Type
  start : Label
  body : Label → Program I Label

namespace Task
variable {I : Interface} (T : Task I)

/-- One pass of the loop, after the calls recorded so far. -/
def pass (env : Environment I) : T.Label × Trace I → T.Label × Trace I
  | (l, tr) => (T.body l).exec env tr

/-- The `k`-th loop head of the run against `env`, with the calls issued before it. -/
def head (env : Environment I) : ℕ → T.Label × Trace I
  | 0 => (T.start, [])
  | k + 1 => T.pass env (head env k)

/-- `tr` is what the run against `env` has issued at some moment. -/
def Moment (env : Environment I) (tr : Trace I) : Prop := ∃ k, tr <+: (T.head env k).2

/-- Loop heads that can follow each other, with the calls issued on the way. -/
inductive Path : T.Label → Trace I → T.Label → Prop where
  | refl (l : T.Label) : Path l [] l
  | step {l l' l'' : T.Label} {tr evs : Trace I} (h : Path l tr l')
      (hb : (T.body l').Issues evs l'') : Path l (tr ++ evs) l''

variable {T}

@[simp] theorem head_zero (env : Environment I) : T.head env 0 = (T.start, []) := rfl
theorem head_succ (env : Environment I) (k : ℕ) :
    T.head env (k + 1) = (T.body (T.head env k).1).exec env (T.head env k).2 := rfl

theorem Path.single {l l' : T.Label} {evs : Trace I} (hb : (T.body l).Issues evs l') :
    T.Path l evs l' := by
  simpa using (Path.refl l).step hb

theorem Path.trans {l l' l'' : T.Label} {tr tr' : Trace I} (h : T.Path l tr l')
    (h' : T.Path l' tr' l'') : T.Path l (tr ++ tr') l'' := by
  induction h' with
  | refl => simpa using h
  | step _ hb ih => simpa only [List.append_assoc] using ih.step hb

/-- The run against `env` from a loop head and the calls before it on: the `k`-th loop head
after it. -/
def resume (T : Task I) (env : Environment I) (s : T.Label × Trace I) (k : ℕ) :
    T.Label × Trace I := (T.pass env)^[k] s

theorem resume_succ (env : Environment I) (s : T.Label × Trace I) (k : ℕ) :
    T.resume env s (k + 1) = T.pass env (T.resume env s k) :=
  Function.iterate_succ_apply' _ _ _

/-- A run goes on from each of its loop heads as it would be resumed there. -/
theorem head_add (env : Environment I) (m k : ℕ) :
    T.head env (m + k) = T.resume env (T.head env m) k := by
  induction k with
  | zero => rfl
  | succ k ih => rw [← Nat.add_assoc, resume_succ, ← ih]; rfl

/-- One pass of the loop goes from a loop head to the next. -/
theorem head_step (env : Environment I) (k : ℕ) :
    ∃ evs, (T.head env (k + 1)).2 = (T.head env k).2 ++ evs ∧
      (T.body (T.head env k).1).Issues evs (T.head env (k + 1)).1 :=
  Program.exec_issues env _ _

theorem head_isPrefix (env : Environment I) {j k : ℕ} (h : j ≤ k) :
    (T.head env j).2 <+: (T.head env k).2 := by
  induction h with
  | refl => exact List.prefix_rfl
  | step _ ih =>
    obtain ⟨evs, htr, -⟩ := head_step (T := T) env _
    exact ih.trans ⟨evs, htr.symm⟩

/-- The calls of a run have the answers of the environment. -/
theorem head_agrees (env : Environment I) (k : ℕ) : env.Agrees (T.head env k).2 := by
  induction k with
  | zero => exact fun pre e hpre => by simp at hpre
  | succ k ih => exact Program.exec_agrees _ ih

theorem moment_head (env : Environment I) (k : ℕ) : T.Moment env (T.head env k).2 :=
  ⟨k, List.prefix_rfl⟩

theorem Moment.mono {env : Environment I} {tr tr' : Trace I} (h : T.Moment env tr')
    (hpre : tr <+: tr') : T.Moment env tr := by
  obtain ⟨k, hk⟩ := h
  exact ⟨k, hpre.trans hk⟩

/-- A run is a path from the start of the task. -/
theorem head_path (env : Environment I) (k : ℕ) :
    T.Path T.start (T.head env k).2 (T.head env k).1 := by
  induction k with
  | zero => exact .refl _
  | succ k ih =>
    obtain ⟨evs, htr, hevs⟩ := head_step (T := T) env k
    rw [htr]
    exact ih.step hevs

/-- **The loop invariant rule.** What holds at the start and is preserved from each
loop head to the next holds along every path. -/
theorem Path.induction {J : T.Label → Trace I → Prop} (h0 : J T.start [])
    (hstep : ∀ l tr evs l', J l tr → (T.body l).Issues evs l' → J l' (tr ++ evs))
    {tr : Trace I} {l : T.Label} (h : T.Path T.start tr l) : J l tr := by
  have key : ∀ {l0 tr l}, T.Path l0 tr l → J l0 [] → J l tr := by
    intro l0 tr l h hJ
    induction h with
    | refl => exact hJ
    | step _ hb ih => exact hstep _ _ _ _ ih hb
  exact key h h0

/-- The loop invariant rule at the loop heads of a run. -/
theorem head_induction (T : Task I) (J : T.Label → Trace I → Prop) (h0 : J T.start [])
    (hstep : ∀ l tr evs l', J l tr → (T.body l).Issues evs l' → J l' (tr ++ evs))
    (env : Environment I) (k : ℕ) : J (T.head env k).1 (T.head env k).2 :=
  (head_path env k).induction h0 hstep

/-- What each stretch of the task keeps holds of the calls of a run. -/
theorem keeps_head {P : Trace I → Prop} (hP : Program.AppendClosed P)
    (h : ∀ l, (T.body l).Keeps P) (env : Environment I) (k : ℕ) : P (T.head env k).2 :=
  head_induction T (fun _ tr => P tr) hP.nil
    (fun l _ evs l' htr hstep => hP.append htr (h l evs l' hstep)) env k

/-! ## Progress -/

/-- In the run against `env`, a loop head where `P` holds is followed, now or later, by
one where `Q` holds. -/
def LeadsTo (T : Task I) (env : Environment I) (P Q : T.Label → Trace I → Prop) : Prop :=
  ∀ k, P (T.head env k).1 (T.head env k).2 →
    ∃ n, k ≤ n ∧ Q (T.head env n).1 (T.head env n).2

section LeadsTo
variable {env : Environment I} {P Q R : T.Label → Trace I → Prop}

theorem LeadsTo.trans (h : T.LeadsTo env P Q) (h' : T.LeadsTo env Q R) : T.LeadsTo env P R := by
  intro k hk
  obtain ⟨m, hm, hQ⟩ := h k hk
  obtain ⟨n, hn, hR⟩ := h' m hQ
  exact ⟨n, hm.trans hn, hR⟩

theorem LeadsTo.or {P' : T.Label → Trace I → Prop} (h : T.LeadsTo env P R)
    (h' : T.LeadsTo env P' R) : T.LeadsTo env (fun l tr => P l tr ∨ P' l tr) R :=
  fun k hk => hk.elim (h k) (h' k)

/-- **The variant rule**, where `J` holds at every loop head of the run. If every pass
from `P m` ends in `Q`, or in `P` at a smaller number, then `P` leads to `Q`. -/
theorem LeadsTo.of_variant {J : T.Label → Trace I → Prop} {P : ℕ → T.Label → Trace I → Prop}
    (hJ : ∀ k, J (T.head env k).1 (T.head env k).2)
    (h : ∀ m l tr evs l', J l tr → J l' (tr ++ evs) → env.Agrees (tr ++ evs) →
      (T.body l).Issues evs l' → P m l tr → Q l' (tr ++ evs) ∨ ∃ j < m, P j l' (tr ++ evs))
    (m : ℕ) : T.LeadsTo env (P m) Q := by
  induction m using Nat.strong_induction_on with
  | _ m ih =>
    intro k hk
    obtain ⟨evs, htr, hevs⟩ := head_step (T := T) env k
    have hJ' := hJ (k + 1)
    have henv := head_agrees (T := T) env (k + 1)
    rw [htr] at hJ' henv
    rcases h m _ _ evs _ (hJ k) hJ' henv hevs hk with hQ | ⟨j, hj, hP⟩
    · exact ⟨k + 1, Nat.le_succ k, htr ▸ hQ⟩
    · obtain ⟨n, hn, hQ⟩ := ih j hj (k + 1) (htr ▸ hP)
      exact ⟨n, by omega, hQ⟩

/-- A pass that ends in `Q` whatever it is answered, where `J` holds at every loop head. -/
theorem LeadsTo.of_step {J : T.Label → Trace I → Prop}
    (hJ : ∀ k, J (T.head env k).1 (T.head env k).2)
    (h : ∀ l tr evs l', J l tr → (T.body l).Issues evs l' → P l tr → Q l' (tr ++ evs)) :
    T.LeadsTo env P Q := by
  intro k hk
  obtain ⟨evs, htr, hevs⟩ := head_step (T := T) env k
  exact ⟨k + 1, Nat.le_succ k, htr ▸ h _ _ evs _ (hJ k) hevs hk⟩

end LeadsTo

/-! ## Every path is a run -/

section Replay
variable [∀ c, Nonempty (I.Answer c)]

open Classical in
/-- The environment that replays a trace; what it answers afterwards is arbitrary. -/
noncomputable def replay : Trace I → Environment I
  | [], _, _ => Classical.arbitrary _
  | e :: _, 0, c => if h : e.call = c then h ▸ e.answer else Classical.arbitrary _
  | _ :: tr, i + 1, c => replay tr i c

theorem replay_agrees (tr : Trace I) : (replay tr).Agrees tr := by
  intro pre e hpre
  induction tr generalizing pre with
  | nil => simp at hpre
  | cons e' tr ih =>
    cases pre with
    | nil =>
      obtain ⟨rfl, -⟩ := List.cons_prefix_cons.mp hpre
      simp [replay]
    | cons e'' pre => exact ih pre (List.cons_prefix_cons.mp hpre).2

/-- **Every path from the start is the run of some environment.** -/
theorem exists_head_of_path {tr : Trace I} {l : T.Label} (h : T.Path T.start tr l) :
    ∃ env k, T.head env k = (l, tr) := by
  have key : ∀ {l0 tr l}, T.Path l0 tr l → l0 = T.start → ∀ env : Environment I,
      env.Agrees tr → ∃ k, T.head env k = (l, tr) := by
    intro l0 tr l h hl0 env
    induction h with
    | refl => intro _; exact ⟨0, by rw [hl0]; rfl⟩
    | step _ hb ih =>
      intro henv
      obtain ⟨k, hk⟩ := ih (henv.mono (List.prefix_append _ _))
      refine ⟨k + 1, ?_⟩
      rw [head_succ, hk]
      exact hb.exec_eq henv
  obtain ⟨k, hk⟩ := key h rfl (replay tr) (replay_agrees tr)
  exact ⟨replay tr, k, hk⟩

end Replay

end Task
end Interaction
