import Mathlib.Logic.Relation
import TcpDemo.Lib.Interaction

/-!
# Tasks that share a network

A `Star` is a hub and any number of spokes: tasks that run on their own and exchange data
with the hub, each over a connection that carries one stream in either direction. A step
of the star is one call of one of them. What a call takes from a stream is what was put
into it first, so the network neither loses, invents nor reorders data, but it may hold
data back for as long as it likes. Nothing else is asked of the answers: a connection may
fail at any moment.

Each party issues what it could issue alone (`Task.At`), so whatever holds of every run of
a task holds of it in the network (`Task.At.keeps`, `Task.At.moment`).

## Main definitions

* `Task.At` — where a task can be, in the middle of its code.
* `Star.Step` — one call, or one loop head passed, of the hub or of a spoke.
* `Star.Reachable` — the states of all interleavings.
* `Star.run` — the run in which the parties take turns as listed.
* `Star.conserves` — what was put into a stream was taken from it or is in flight.
* `Star.hub_issues`, `Star.spoke_issues` — what a party can do if its data is there.
-/

namespace Interaction

variable {I J : Interface}

/-! ## Tasks in the middle of their code -/

namespace Task
variable {T : Task I}

/-- After the calls `tr` the task has the program `p` left up to its next loop head. -/
inductive At (T : Task I) : Trace I → Program I T.Label → Prop where
  | start : At T [] (T.body T.start)
  | call {tr : Trace I} {c : I.Call} {k : I.Answer c → Program I T.Label}
      (h : At T tr (.call c k)) (a : I.Answer c) : At T (tr ++ [⟨c, a⟩]) (k a)
  | next {tr : Trace I} {l : T.Label} (h : At T tr (.ret l)) : At T tr (T.body l)

variable {tr : Trace I} {p : Program I T.Label}

/-- A task in the middle of its code has come to a loop head, and has issued a part of what
the stretch behind it may issue. -/
theorem At.exists_path (h : T.At tr p) : ∃ l pre evs, T.Path T.start pre l ∧ tr = pre ++ evs ∧
    ∀ rest l', p.Issues rest l' → (T.body l).Issues (evs ++ rest) l' := by
  induction h with
  | start => exact ⟨T.start, [], [], .refl _, rfl, fun _ _ h => h⟩
  | @call tr c k _ a ih =>
    obtain ⟨l, pre, evs, hpath, rfl, hrest⟩ := ih
    refine ⟨l, pre, evs ++ [⟨c, a⟩], hpath, by simp, fun rest l' h => ?_⟩
    simpa using hrest (⟨c, a⟩ :: rest) l' (.call a h)
  | @next tr l' _ ih =>
    obtain ⟨l, pre, evs, hpath, rfl, hrest⟩ := ih
    have hbody := hrest [] l' (.ret l')
    rw [List.append_nil] at hbody
    exact ⟨l', pre ++ evs, [], hpath.step hbody, by simp, fun _ _ h => h⟩

/-- A program that is answered in one way up to its end. -/
theorem exists_issues {α : Type} (quiet : (c : I.Call) → I.Answer c) (q : Program I α) :
    ∃ rest a, q.Issues rest a ∧ ∀ e ∈ rest, e.answer = quiet e.call := by
  induction q with
  | ret a => exact ⟨[], a, .ret a, by simp⟩
  | call c k ih =>
    obtain ⟨rest, b, h, hrest⟩ := ih (quiet c)
    exact ⟨⟨c, quiet c⟩ :: rest, b, .call _ h, by simpa using hrest⟩

/-- **The rule for every moment.** A task gets to its next loop head if it is answered in
some quiet way until then, so what its stretches keep holds of its calls so far with some
quiet ones behind them. -/
theorem At.keeps {P : Trace I → Prop} (hP : Program.AppendClosed P)
    (hbody : ∀ l, (T.body l).Keeps P) (quiet : (c : I.Call) → I.Answer c) (h : T.At tr p) :
    ∃ rest, P (tr ++ rest) ∧ ∀ e ∈ rest, e.answer = quiet e.call := by
  obtain ⟨l, pre, evs, hpath, rfl, hpart⟩ := h.exists_path
  obtain ⟨rest, l', hissues, hquiet⟩ := exists_issues quiet p
  have hpre : P pre := hpath.induction (J := fun _ tr => P tr) hP.nil
    fun l tr evs l' htr hstep => hP.append htr (hbody l evs l' hstep)
  refine ⟨rest, ?_, hquiet⟩
  rw [List.append_assoc]
  exact hP.append hpre (hbody l _ l' (hpart rest l' hissues))

/-- A task can get to its next loop head from everywhere. -/
theorem At.exists_head (quiet : (c : I.Call) → I.Answer c) (h : T.At tr p) :
    ∃ rest l, T.Path T.start (tr ++ rest) l ∧ ∀ e ∈ rest, e.answer = quiet e.call := by
  obtain ⟨l, pre, evs, hpath, rfl, hpart⟩ := h.exists_path
  obtain ⟨rest, l', hissues, hquiet⟩ := exists_issues quiet p
  refine ⟨rest, l', ?_, hquiet⟩
  rw [List.append_assoc]
  exact hpath.step (hpart rest l' hissues)

/-- In front of a call that comes first in its stretch, the task is at a loop head. -/
theorem At.exists_head_of_first (quiet : (c : I.Call) → I.Answer c) {c : I.Call}
    {k : I.Answer c → Program I T.Label}
    (hfirst : ∀ l evs l', (T.body l).Issues evs l' → ∀ e ∈ evs.tail, e.call ≠ c)
    (h : T.At tr (.call c k)) : ∃ l, T.Path T.start tr l ∧
      ∃ a rest l', (T.body l).Issues (⟨c, a⟩ :: rest) l' := by
  obtain ⟨l, pre, evs, hpath, rfl, hpart⟩ := h.exists_path
  obtain ⟨rest, l', hissues, -⟩ := exists_issues quiet (k (quiet c))
  have hbody := hpart _ l' (.call _ hissues)
  have htail := hfirst l _ l' hbody
  cases evs with
  | nil => exact ⟨l, by simpa using hpath, quiet c, rest, l', hbody⟩
  | cons e evs => exact absurd rfl (htail ⟨c, quiet c⟩ (by simp))

/-- What the stretches keep holds in front of such a call. -/
theorem At.keeps_first {P : Trace I → Prop} (hP : Program.AppendClosed P)
    (hbody : ∀ l, (T.body l).Keeps P) (quiet : (c : I.Call) → I.Answer c) {c : I.Call}
    {k : I.Answer c → Program I T.Label}
    (hfirst : ∀ l evs l', (T.body l).Issues evs l' → ∀ e ∈ evs.tail, e.call ≠ c)
    (h : T.At tr (.call c k)) : P tr := by
  obtain ⟨l, hpath, -⟩ := h.exists_head_of_first quiet hfirst
  exact hpath.induction (J := fun _ tr => P tr) hP.nil
    fun l tr evs l' htr hstep => hP.append htr (hbody l evs l' hstep)

/-- What a task has issued at any moment it issues in some run of its own. -/
theorem At.moment [∀ c, Nonempty (I.Answer c)] (h : T.At tr p) : ∃ env, T.Moment env tr := by
  obtain ⟨rest, l, hpath, -⟩ := h.exists_head fun c => Classical.arbitrary (I.Answer c)
  obtain ⟨env, k, hk⟩ := exists_head_of_path hpath
  refine ⟨env, k, ?_⟩
  rw [hk]
  exact List.prefix_append _ _

end Task

/-- A task at work: what it has issued, and the code it is about to execute. -/
structure Process (T : Task I) where
  done : Trace I
  next : Program I T.Label
  reached : T.At done next

namespace Process
variable {T : Task I}

/-- The task before its first call. -/
def start (T : Task I) : Process T := ⟨[], T.body T.start, .start⟩

@[simp] theorem done_start : (start T).done = [] := rfl

/-- One call returns, or one loop head is passed. -/
inductive Step : Process T → Trace I → Process T → Prop where
  | call {tr : Trace I} {c : I.Call} {k : I.Answer c → Program I T.Label}
      (h : T.At tr (.call c k)) (a : I.Answer c) :
      Step ⟨tr, .call c k, h⟩ [⟨c, a⟩] ⟨tr ++ [⟨c, a⟩], k a, .call h a⟩
  | next {tr : Trace I} {l : T.Label} (h : T.At tr (.ret l)) :
      Step ⟨tr, .ret l, h⟩ [] ⟨tr, T.body l, .next h⟩

theorem Step.done_eq {x y : Process T} {evs : Trace I} (h : x.Step evs y) :
    y.done = x.done ++ evs := by
  cases h with
  | call h a => rfl
  | next h => exact (List.append_nil _).symm

section Turn
variable (env : Environment I)

/-- What a process issues in its next step, with the answers of an environment. -/
def issued (x : Process T) : Trace I :=
  match x.next with
  | .ret _ => []
  | .call c _ => [⟨c, env x.done.length c⟩]

/-- The process after that step. -/
def turn : Process T → Process T
  | ⟨tr, .ret l, h⟩ => ⟨tr, T.body l, .next h⟩
  | ⟨tr, .call c k, h⟩ => ⟨tr ++ [⟨c, env tr.length c⟩], k (env tr.length c), .call h _⟩

theorem turn_step (x : Process T) : x.Step (x.issued env) (x.turn env) := by
  obtain ⟨tr, p, h⟩ := x
  cases p with
  | ret l => exact .next h
  | call c k => exact .call h _

end Turn

theorem body_of_next {x : Process T} {l : T.Label} (hx : x.next = .ret l) :
    ∃ y, x.Step [] y ∧ y.next = T.body l := by
  obtain ⟨tr, p, h⟩ := x
  obtain rfl : p = .ret l := hx
  exact ⟨_, .next h, rfl⟩

theorem call_of_next {x : Process T} {c : I.Call} {k : I.Answer c → Program I T.Label}
    (hx : x.next = .call c k) (a : I.Answer c) : ∃ y, x.Step [⟨c, a⟩] y ∧ y.next = k a := by
  obtain ⟨tr, p, h⟩ := x
  obtain rfl : p = .call c k := hx
  exact ⟨_, .call h a, rfl⟩

/-- Any number of steps, and what is issued in them. -/
inductive Runs : Process T → Trace I → Process T → Prop where
  | refl (x : Process T) : Runs x [] x
  | step {x y z : Process T} {evs evs' : Trace I} (h : x.Step evs y) (h' : Runs y evs' z) :
      Runs x (evs ++ evs') z

/-- A process can issue what its code may issue. -/
theorem runs_of_issues {p : Program I T.Label} {evs : Trace I} {l : T.Label} (hp : p.Issues evs l)
    {x : Process T} (hx : x.next = p) : ∃ y, x.Runs evs y ∧ y.next = T.body l := by
  induction hp generalizing x with
  | ret l =>
    obtain ⟨y, hstep, hy⟩ := body_of_next hx
    exact ⟨y, .step hstep (.refl y), hy⟩
  | call a _ ih =>
    obtain ⟨y, hstep, hy⟩ := call_of_next hx a
    obtain ⟨z, hruns, hz⟩ := ih hy
    exact ⟨z, .step hstep hruns, hz⟩

end Process

/-! ## Streams -/

/-- What a call puts into the stream it writes, and takes from the one it reads. -/
structure Ends (I : Interface) (β : Type) where
  put : Event I → List β
  taken : Event I → List β

namespace Ends
variable {β : Type} (E : Ends I β) (tr tr' : Trace I)

def puts : List β := tr.flatMap E.put
def takes : List β := tr.flatMap E.taken

@[simp] theorem puts_nil : E.puts [] = [] := rfl
@[simp] theorem takes_nil : E.takes [] = [] := rfl
@[simp] theorem puts_append : E.puts (tr ++ tr') = E.puts tr ++ E.puts tr' := List.flatMap_append
@[simp] theorem takes_append : E.takes (tr ++ tr') = E.takes tr ++ E.takes tr' :=
  List.flatMap_append

end Ends

/-- The ends of several connections: which of them a call is about, if any. -/
structure Ports (I : Interface) (ι β : Type) extends Ends I β where
  peer : Event I → Option ι

namespace Ports
variable {ι β : Type} [DecidableEq ι] (P : Ports I ι β)

/-- The calls about one connection. -/
def on (i : ι) (tr : Trace I) : Trace I := tr.filter fun e => P.peer e = some i

@[simp] theorem on_nil (i : ι) : P.on i [] = [] := rfl
@[simp] theorem on_append (i : ι) (tr tr' : Trace I) :
    P.on i (tr ++ tr') = P.on i tr ++ P.on i tr' := List.filter_append _ _

end Ports

/-! ## The star -/

/-- A hub, its spokes, and the data in flight: `up` to the hub, and `down` from it. -/
structure Star {ι : Type} (T : Task I) (U : ι → Task J) (β : Type) where
  hub : Process T
  spoke : (i : ι) → Process (U i)
  up : ι → List β
  down : ι → List β

namespace Star
variable {ι β : Type} {T : Task I} {U : ι → Task J}

/-- Nothing has been issued, and nothing is in flight. -/
def start (T : Task I) (U : ι → Task J) (β : Type) : Star T U β :=
  ⟨.start T, fun i => .start (U i), fun _ => [], fun _ => []⟩

variable [DecidableEq ι] (P : Ports I ι β) (Q : Ends J β)

/-- One step of one party. -/
inductive Step : Star T U β → Star T U β → Prop where
  | hub {s : Star T U β} {evs : Trace I} {hub : Process T} {up : ι → List β}
      (h : s.hub.Step evs hub) (htaken : ∀ i, s.up i = P.takes (P.on i evs) ++ up i) :
      Step s ⟨hub, s.spoke, up, fun i => s.down i ++ P.puts (P.on i evs)⟩
  | spoke {s : Star T U β} (i : ι) {evs : Trace J} {spoke : Process (U i)} {down : List β}
      (h : (s.spoke i).Step evs spoke) (htaken : s.down i = Q.takes evs ++ down) :
      Step s ⟨s.hub, Function.update s.spoke i spoke,
        Function.update s.up i (s.up i ++ Q.puts evs), Function.update s.down i down⟩

/-- The states the star can get into, in whatever order the parties move. -/
def Reachable (s : Star T U β) : Prop := Relation.ReflTransGen (Step P Q) (start T U β) s

/-! ### Conservation -/

/-- What was put into a stream was taken from it, or is in flight. -/
structure Conserved (s : Star T U β) (i : ι) : Prop where
  up : Q.puts (s.spoke i).done = P.takes (P.on i s.hub.done) ++ s.up i
  down : P.puts (P.on i s.hub.done) = Q.takes (s.spoke i).done ++ s.down i

variable {P Q}

theorem Step.of_hub {s s' : Star T U β} {evs : Trace I} (h : s.hub.Step evs s'.hub)
    (hspoke : s'.spoke = s.spoke) (hup : ∀ i, s.up i = P.takes (P.on i evs) ++ s'.up i)
    (hdown : ∀ i, s'.down i = s.down i ++ P.puts (P.on i evs)) : Step P Q s s' := by
  obtain ⟨hub, spoke, up, down⟩ := s'
  obtain rfl : spoke = s.spoke := hspoke
  obtain rfl : down = _ := funext hdown
  exact .hub h hup

theorem Conserved.step {s s' : Star T U β} {i : ι} (h : Conserved P Q s i) (hs : Step P Q s s') :
    Conserved P Q s' i := by
  cases hs with
  | @hub evs hub up hmove htaken =>
    have hdone := hmove.done_eq
    constructor
    · simp [h.up, hdone, htaken i]
    · simp [h.down, hdone]
  | @spoke j evs spoke down hmove htaken =>
    have hdone := hmove.done_eq
    by_cases hij : i = j
    · subst hij
      constructor
      · simp [h.up, hdone]
      · simp [h.down, hdone, htaken]
    · constructor
      · simpa [hij] using h.up
      · simpa [hij] using h.down

/-- **Nothing is lost, invented or reordered on the way**, in either direction, in any
interleaving. -/
theorem conserves {s : Star T U β} (h : Reachable P Q s) (i : ι) : Conserved P Q s i := by
  induction h with
  | refl => exact ⟨rfl, rfl⟩
  | tail _ hs ih => exact ih.step hs

/-- What was taken from a stream is the beginning of what was put into it. -/
theorem takes_isPrefix {s : Star T U β} (h : Reachable P Q s) (i : ι) :
    P.takes (P.on i s.hub.done) <+: Q.puts (s.spoke i).done ∧
      Q.takes (s.spoke i).done <+: P.puts (P.on i s.hub.done) := by
  have hc := conserves h i
  exact ⟨⟨_, hc.up.symm⟩, ⟨_, hc.down.symm⟩⟩

/-! ### Progress -/

/-- The hub can issue what its code may issue, if the data it takes is there: it goes on to its
next loop head, and nobody else moves. -/
theorem hub_issues {p : Program I T.Label} {evs : Trace I} {l : T.Label} (hp : p.Issues evs l)
    {s : Star T U β} (hnext : s.hub.next = p) {up : ι → List β}
    (hup : ∀ i, s.up i = P.takes (P.on i evs) ++ up i) :
    ∃ s', Relation.ReflTransGen (Step P Q) s s' ∧ s'.hub.next = T.body l ∧
      s'.hub.done = s.hub.done ++ evs ∧ s'.spoke = s.spoke ∧ s'.up = up := by
  induction hp generalizing s with
  | ret l =>
    obtain ⟨⟨tr, p, h⟩, spoke, up', down⟩ := s
    obtain rfl : p = .ret l := hnext
    obtain rfl : up' = up := funext hup
    exact ⟨⟨⟨tr, T.body l, .next h⟩, spoke, up', down⟩,
      .single (.of_hub (.next h) rfl (fun i => rfl) fun i => (List.append_nil _).symm), rfl,
      (List.append_nil _).symm, rfl, rfl⟩
  | @call c k a evs l _ ih =>
    obtain ⟨hub, hmove, hk⟩ := Process.call_of_next hnext a
    let s₁ : Star T U β := ⟨hub, s.spoke, fun i => P.takes (P.on i evs) ++ up i,
      fun i => s.down i ++ P.puts (P.on i [⟨c, a⟩])⟩
    have hsplit : ∀ i, P.on i (⟨c, a⟩ :: evs) = P.on i [⟨c, a⟩] ++ P.on i evs :=
      fun i => P.on_append i [⟨c, a⟩] evs
    have hstep : Step P Q s s₁ := .of_hub hmove rfl
      (fun i => by rw [hup i, hsplit, Ends.takes_append, List.append_assoc]) fun i => rfl
    obtain ⟨s', hs', hbody, hdone, hspoke, hup'⟩ := ih (s := s₁) hk fun i => rfl
    refine ⟨s', .head hstep hs', hbody, ?_, hspoke, hup'⟩
    rw [hdone, show s₁.hub.done = _ from hmove.done_eq, List.append_assoc]
    rfl

/-- A spoke can issue what its code may issue, if the data it takes is there. -/
theorem spoke_issues {i : ι} {p : Program J (U i).Label} {evs : Trace J} {l : (U i).Label}
    (hp : p.Issues evs l) {s : Star T U β} (hnext : (s.spoke i).next = p) {down : List β}
    (hdown : s.down i = Q.takes evs ++ down) :
    ∃ s', Relation.ReflTransGen (Step P Q) s s' ∧ (s'.spoke i).next = (U i).body l ∧
      (s'.spoke i).done = (s.spoke i).done ++ evs ∧ s'.hub = s.hub ∧
      s'.up i = s.up i ++ Q.puts evs ∧ s'.down i = down := by
  induction hp generalizing s with
  | ret l =>
    obtain ⟨spoke, hmove, hbody⟩ := Process.body_of_next hnext
    exact ⟨_, .single (.spoke i hmove hdown), by simpa using hbody, by simpa using hmove.done_eq,
      rfl, by simp, by simp⟩
  | @call c k a evs l _ ih =>
    obtain ⟨spoke, hmove, hk⟩ := Process.call_of_next hnext a
    have htaken : s.down i = Q.takes [⟨c, a⟩] ++ (Q.takes evs ++ down) := by
      rw [hdown, ← List.append_assoc, ← Ends.takes_append, List.singleton_append]
    obtain ⟨s', hs', hbody, hdone, hhub, hup, hdown'⟩ := ih (s := ⟨s.hub,
      Function.update s.spoke i spoke, Function.update s.up i (s.up i ++ Q.puts [⟨c, a⟩]),
      Function.update s.down i (Q.takes evs ++ down)⟩) (by simpa using hk) (by simp)
    refine ⟨s', .head (.spoke i hmove htaken) hs', hbody, ?_, hhub, ?_, hdown'⟩
    · simpa [hmove.done_eq] using hdone
    · have hputs : Q.puts (⟨c, a⟩ :: evs) = Q.puts [⟨c, a⟩] ++ Q.puts evs :=
        Q.puts_append [⟨c, a⟩] evs
      rw [hup, hputs, ← List.append_assoc]
      exact congrArg (· ++ Q.puts evs) (Function.update_self i _ s.up)

/-- **The variant rule.** Where a measure can be made smaller as long as it is not zero, it can
be brought to zero. -/
theorem exists_of_variant {α : Type} {R : α → α → Prop} {P : α → Prop} (m : α → ℕ)
    (h : ∀ s, P s → m s ≠ 0 → ∃ s', Relation.ReflTransGen R s s' ∧ P s' ∧ m s' < m s) {s : α}
    (hs : P s) : ∃ s', Relation.ReflTransGen R s s' ∧ P s' ∧ m s' = 0 := by
  induction hn : m s using Nat.strong_induction_on generalizing s with
  | _ n ih =>
    by_cases h0 : m s = 0
    · exact ⟨s, .refl, hs, h0⟩
    · obtain ⟨s', hmove, hs', hlt⟩ := h s hs h0
      obtain ⟨s'', hmove', hs'', hzero⟩ := ih (m s') (hn ▸ hlt) hs' rfl
      exact ⟨s'', hmove.trans hmove', hs'', hzero⟩

/-! ### Runs -/

section Run
variable [DecidableEq β] (P Q) (env : Environment I) (envs : ι → Environment J)

/-- The hub moves, unless its call waits for data. -/
def turnHub (s : Star T U β) : Star T U β :=
  match s with
  | ⟨⟨tr, .ret l, h⟩, spoke, up, down⟩ => ⟨⟨tr, T.body l, .next h⟩, spoke, up, down⟩
  | ⟨⟨tr, .call c k, h⟩, spoke, up, down⟩ =>
    let e : Event I := ⟨c, env tr.length c⟩
    let hub : Process T := ⟨tr ++ [e], k e.answer, .call h _⟩
    match P.peer e with
    | none => ⟨hub, spoke, up, down⟩
    | some i =>
      if P.taken e <+: up i then
        ⟨hub, spoke, Function.update up i ((up i).drop (P.taken e).length),
          Function.update down i (down i ++ P.put e)⟩
      else s

/-- A spoke moves, unless its call waits for data. -/
def turnSpoke (i : ι) (s : Star T U β) : Star T U β :=
  match s.spoke i with
  | ⟨tr, .ret l, h⟩ => { s with spoke := Function.update s.spoke i ⟨tr, (U i).body l, .next h⟩ }
  | ⟨tr, .call c k, h⟩ =>
    let e : Event J := ⟨c, envs i tr.length c⟩
    if Q.taken e <+: s.down i then
      ⟨s.hub, Function.update s.spoke i ⟨tr ++ [e], k e.answer, .call h _⟩,
        Function.update s.up i (s.up i ++ Q.put e),
        Function.update s.down i ((s.down i).drop (Q.taken e).length)⟩
    else s

/-- One turn: of the hub, or of a spoke. -/
def turn (s : Star T U β) : Option ι → Star T U β
  | none => turnHub P env s
  | some i => turnSpoke Q envs i s

/-- The run in which the parties take these turns. -/
def run (turns : List (Option ι)) : Star T U β :=
  turns.foldl (turn P Q env envs) (start T U β)

variable {P Q env envs}

theorem turnHub_step (s : Star T U β) : turnHub P env s = s ∨ Step P Q s (turnHub P env s) := by
  obtain ⟨⟨tr, p, h⟩, spoke, up, down⟩ := s
  cases p with
  | ret l => exact .inr (.of_hub (.next h) rfl (fun i => rfl) fun i => (List.append_nil _).symm)
  | call c k =>
    simp only [turnHub]
    split
    case h_1 hpeer =>
      refine .inr (.of_hub (.call h _) rfl (fun i => ?_) fun i => ?_)
      · simp [Ports.on, hpeer]
      · simp [Ports.on, hpeer]
    case h_2 j hpeer =>
      split
      case isFalse => exact .inl rfl
      case isTrue htaken =>
        refine .inr (.of_hub (.call h _) rfl (fun i => ?_) fun i => ?_)
        · by_cases hij : i = j
          · subst hij
            simpa [Ports.on, hpeer, Ends.takes] using (List.prefix_iff_eq_append.mp htaken).symm
          · simp [Ports.on, hpeer, hij, Ne.symm hij]
        · by_cases hij : i = j
          · subst hij
            simp [Ports.on, hpeer, Ends.puts]
          · simp [Ports.on, hpeer, hij, Ne.symm hij]

theorem turnSpoke_step (i : ι) (s : Star T U β) :
    turnSpoke Q envs i s = s ∨ Step P Q s (turnSpoke Q envs i s) := by
  have hmove : ∀ evs p, (s.spoke i).Step evs p → ∀ down, s.down i = Q.takes evs ++ down →
      Step P Q s ⟨s.hub, Function.update s.spoke i p,
        Function.update s.up i (s.up i ++ Q.puts evs), Function.update s.down i down⟩ :=
    fun evs p h down htaken => .spoke i h htaken
  simp only [turnSpoke]
  split
  case h_1 tr l h hs =>
    have hstep := hmove [] ⟨tr, (U i).body l, .next h⟩ (hs ▸ .next h) (s.down i) rfl
    simp only [Ends.puts_nil, List.append_nil, Function.update_eq_self] at hstep
    exact .inr hstep
  case h_2 tr c k h hs =>
    split
    case isFalse => exact .inl rfl
    case isTrue htaken =>
      have hstep := hmove [⟨c, envs i tr.length c⟩]
        ⟨tr ++ [⟨c, envs i tr.length c⟩], k _, .call h _⟩ (hs ▸ .call h _) _
        (by simpa [Ends.takes] using (List.prefix_iff_eq_append.mp htaken).symm)
      simp only [Ends.puts, List.flatMap_cons, List.flatMap_nil, List.append_nil] at hstep
      exact .inr hstep

/-- **A run in turns is one of the interleavings.** -/
theorem reachable_run (turns : List (Option ι)) :
    Reachable P Q (run P Q env envs (T := T) (U := U) turns) := by
  induction turns using List.reverseRecOn with
  | nil => exact .refl
  | append_singleton turns o ih =>
    have hturn : run P Q env envs (T := T) (U := U) (turns ++ [o]) =
        turn P Q env envs (run P Q env envs turns) o := by simp [run]
    have hstep : ∀ s : Star T U β,
        turn P Q env envs s o = s ∨ Step P Q s (turn P Q env envs s o) := fun s => by
      cases o with
      | none => exact turnHub_step s
      | some i => exact turnSpoke_step i s
    rw [hturn]
    rcases hstep (run P Q env envs turns) with heq | hstep
    · rw [heq]
      exact ih
    · exact ih.tail hstep

end Run
end Star
end Interaction
