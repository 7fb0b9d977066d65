import TcpDemo.Lib.Interaction
import Mathlib.Data.List.Forall2

/-!
# Two runs side by side

Two programs are twins if they issue related calls and go on as twins whenever the answers
are related, up to related results. Tasks whose stretches are twins then stay in lockstep
against related environments: at every loop head the labels are related, and so are the
traces, entry by entry (`Task.twin_head`).

The relation between two events is a parameter `R`, that between two calls a parameter
`C`; what an environment may answer differently is what `R` allows.
-/

namespace Interaction

variable {I : Interface} {α β γ δ : Type} {C : I.Call → I.Call → Prop}
  {R : Event I → Event I → Prop}

/-- The environments answer related calls, issued at the same time, as `R` allows. -/
def Environment.Related (C : I.Call → I.Call → Prop) (R : Event I → Event I → Prop)
    (env env' : Environment I) : Prop :=
  ∀ i c c', C c c' → R ⟨c, env i c⟩ ⟨c', env' i c'⟩

/-- The programs issue related calls, and end in related results. -/
inductive Program.Twin (C : I.Call → I.Call → Prop) (R : Event I → Event I → Prop)
    (Q : α → β → Prop) : Program I α → Program I β → Prop where
  | ret {a : α} {b : β} (h : Q a b) : Twin C R Q (.ret a) (.ret b)
  | call {c c' : I.Call} {k : I.Answer c → Program I α} {k' : I.Answer c' → Program I β}
      (hc : C c c') (h : ∀ a a', R ⟨c, a⟩ ⟨c', a'⟩ → Twin C R Q (k a) (k' a')) :
      Twin C R Q (.call c k) (.call c' k')

namespace Program

/-- Twins are composed in sequence. -/
theorem Twin.bind {Q : α → β → Prop} {Q' : γ → δ → Prop} {p : Program I α} {p' : Program I β}
    {f : α → Program I γ} {f' : β → Program I δ} (h : Twin C R Q p p')
    (hf : ∀ a b, Q a b → Twin C R Q' (f a) (f' b)) : Twin C R Q' (p >>= f) (p' >>= f') := by
  induction h with
  | ret hab => exact hf _ _ hab
  | call hc _ ih => exact .call hc ih

/-- Twins stay in lockstep against related environments. -/
theorem Twin.exec {Q : α → β → Prop} {p : Program I α} {p' : Program I β} (h : Twin C R Q p p')
    {env env' : Environment I} (henv : Environment.Related C R env env') {tr tr' : Trace I}
    (htr : List.Forall₂ R tr tr') : Q (p.exec env tr).1 (p'.exec env' tr').1 ∧
      List.Forall₂ R (p.exec env tr).2 (p'.exec env' tr').2 := by
  induction h generalizing tr tr' with
  | ret hab => exact ⟨hab, htr⟩
  | @call c c' k k' hc _ ih =>
    have hevent := henv tr.length c c' hc
    rw [exec_call, exec_call, ← htr.length_eq]
    exact ih _ _ hevent (List.rel_append htr (.cons hevent .nil))

end Program

/-- **The two-run rule.** Tasks whose stretches are twins stay in lockstep. -/
theorem Task.twin_head (T T' : Task I) {L : T.Label → T'.Label → Prop} (hstart : L T.start T'.start)
    (hbody : ∀ l l', L l l' → Program.Twin C R L (T.body l) (T'.body l'))
    {env env' : Environment I} (henv : Environment.Related C R env env') (k : ℕ) :
    L (T.head env k).1 (T'.head env' k).1 ∧ List.Forall₂ R (T.head env k).2 (T'.head env' k).2 := by
  induction k with
  | zero => exact ⟨hstart, .nil⟩
  | succ k ih => exact (hbody _ _ ih.1).exec henv ih.2

/-- What is read off related events alike is read off related traces alike. -/
theorem flatMap_eq_of_forall₂ {f : Event I → List α} (h : ∀ e e', R e e' → f e = f e')
    {tr tr' : Trace I} (htr : List.Forall₂ R tr tr') : tr.flatMap f = tr'.flatMap f := by
  induction htr with
  | nil => rfl
  | cons he _ ih => rw [List.flatMap_cons, List.flatMap_cons, h _ _ he, ih]

end Interaction
