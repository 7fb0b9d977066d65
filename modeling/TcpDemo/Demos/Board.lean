import TcpDemo.App.Node
import TcpDemo.Demos.Echo
import TcpDemo.Linux.Descriptors

/-!
# The board on the network

In a demo one task talks to programs on Linux. On the board this task comes into being when
the network is up, and shares the board with `main` and the IP task. A `Board` puts the whole
node on the network, so that a task of it makes its calls on the connections.

What can be seen of it on the network and on Linux is what can be seen of the demo, neither
more nor less (`Board.refines_iff`): so what holds of every run of a demo holds of the board,
from its reset on.
-/

namespace TcpDemo.Demos
open Interaction App

/-- The node, the programs on Linux, and the data in flight between them. -/
structure Board (config : AppConfig) (m : Contents) (U : ℕ → Task Posix.Api) where
  node : Node config m
  spoke : (i : ℕ) → Process (U i)
  up : ℕ → List UInt8
  down : ℕ → List UInt8

namespace Board
variable {config : AppConfig} {m : Contents} {U : ℕ → Task Posix.Api} {b : Board config m U}

/-- After reset. -/
def start (config : AppConfig) (m : Contents) (U : ℕ → Task Posix.Api) : Board config m U :=
  ⟨.start config m, fun i => .start (U i), fun _ => [], fun _ => []⟩

/-- One step of a thread of the node, or of a program on Linux. -/
inductive Step : Board config m U → Board config m U → Prop where
  | system {b : Board config m U} {node : Node config m} (h : Node.SystemStep b.node node) :
      Step b ⟨node, b.spoke, b.up, b.down⟩
  | task {b : Board config m U} {before after : List (DemoTask m)} {x : DemoTask m}
      {evs : Trace FreeRTOS.Api} {process : Process (code m x.entry)} {up : ℕ → List UInt8}
      (hrun : b.node.Running) (hx : b.node.tasks = before ++ x :: after)
      (h : x.process.Step evs process)
      (htaken : ∀ i, b.up i = sockets.takes (sockets.on i evs) ++ up i) :
      Step b ⟨⟨b.node.main, b.node.ip, before ++ ⟨x.entry, process⟩ :: after⟩, b.spoke, up,
        fun i => b.down i ++ sockets.puts (sockets.on i evs)⟩
  | spoke {b : Board config m U} (i : ℕ) {evs : Trace Posix.Api} {spoke : Process (U i)}
      {down : List UInt8} (h : (b.spoke i).Step evs spoke)
      (htaken : b.down i = descriptor.takes evs ++ down) :
      Step b ⟨b.node, Function.update b.spoke i spoke,
        Function.update b.up i (b.up i ++ descriptor.puts evs), Function.update b.down i down⟩

/-- The states the board and the network can get into. -/
def Reachable (b : Board config m U) : Prop := Relation.ReflTransGen Step (start config m U) b

/-- The node does what it could do on its own. -/
theorem Reachable.node (h : b.Reachable) : b.node.Reachable := by
  induction h with
  | refl => exact .refl
  | tail _ hstep ih =>
    cases hstep with
    | system h => exact ih.tail (.system h)
    | task hrun hx h _ => exact ih.tail (.task hrun hx h)
    | spoke i h _ => exact ih

/-! ## One task -/

section OneTask
variable {entry : TaskFunction × ℕ} {s : Star (code m entry) U UInt8}

/-- The board as the demo has it: the hub is its task, which does not move before it is
created. -/
structure Refines (b : Board config m U) (s : Star (code m entry) U UInt8) : Prop where
  hub : b.node.tasks = [] ∧ s.hub = .start _ ∨ b.node.tasks = [⟨entry, s.hub⟩]
  spoke : b.spoke = s.spoke
  up : b.up = s.up
  down : b.down = s.down

/-- A list of tasks that are some of a single one. -/
theorem tasks_of_sublist {tasks : List (DemoTask m)}
    (h : (tasks.map DemoTask.entry).Sublist [entry]) :
    tasks = [] ∨ ∃ process, tasks = [⟨entry, process⟩] := by
  rcases List.sublist_singleton.mp h with hnone | hone
  · exact .inl (List.map_eq_nil_iff.mp hnone)
  · obtain ⟨⟨entry', process⟩, rfl, rfl⟩ := List.map_eq_singleton_iff.mp hone
    exact .inr ⟨process, rfl⟩

/-- The system creates the task, or leaves it alone. -/
theorem Refines.system (h : b.Refines s) {node : Node config m}
    (hstep : Node.SystemStep b.node node) (hone : node.entries.Sublist [entry]) :
    (⟨node, b.spoke, b.up, b.down⟩ : Board config m U).Refines s := by
  obtain ⟨new, hnew⟩ := hstep.tasks_eq
  refine ⟨?_, h.spoke, h.up, h.down⟩
  rcases h.hub with ⟨hnone, hstart⟩ | hsome
  · rw [hnone, List.nil_append] at hnew
    rcases tasks_of_sublist hone with hnil | ⟨process, hprocess⟩
    · exact .inl ⟨hnil, hstart⟩
    · rw [hprocess] at hnew
      obtain ⟨entry', rfl, hentry⟩ := List.map_eq_singleton_iff.mp hnew.symm
      obtain rfl : entry' = entry := congrArg DemoTask.entry hentry
      exact .inr (by rw [hprocess, ← hentry, hstart]; rfl)
  · rw [hsome] at hnew
    rcases tasks_of_sublist hone with hnil | ⟨process, hprocess⟩
    · exact absurd (hnil.symm.trans hnew) (by simp)
    · have hlength := congrArg List.length (hprocess.symm.trans hnew)
      have hnil : new = [] := List.eq_nil_of_length_eq_zero (by simpa using hlength)
      exact .inr (by rw [hnew, hnil]; rfl)

/-- **Each step of the board is one of the demo**, or does not show in it. -/
theorem Refines.step (h : b.Refines s) {b' : Board config m U} (hstep : Step b b')
    (hone : b'.node.entries.Sublist [entry]) :
    ∃ s', b'.Refines s' ∧ (s' = s ∨ Star.Step sockets descriptor s s') := by
  obtain ⟨hub, spoke, up, down⟩ := s
  obtain ⟨hhub, rfl, rfl, rfl⟩ := h
  cases hstep with
  | system hstep => exact ⟨_, Refines.system ⟨hhub, rfl, rfl, rfl⟩ hstep hone, .inl rfl⟩
  | @task before after x evs process up hrun hx hmove htaken =>
    rcases hhub with ⟨hnone, -⟩ | hsome
    · exact absurd (hnone.symm.trans hx) (by simp)
    · obtain ⟨rfl, rfl, rfl⟩ : before = [] ∧ after = [] ∧ x = ⟨entry, hub⟩ := by
        rw [hsome] at hx
        rcases List.append_eq_cons_iff.mp hx.symm with ⟨rfl, hcons⟩ | ⟨rest, rfl, hrest⟩
        · obtain ⟨rfl, rfl⟩ := List.cons.inj hcons
          exact ⟨rfl, rfl, rfl⟩
        · exact absurd hrest (by simp)
      exact ⟨⟨process, b.spoke, up, _⟩, ⟨.inr rfl, rfl, rfl, rfl⟩, .inr (.hub hmove htaken)⟩
  | @spoke i evs spoke down hmove htaken =>
    refine ⟨⟨hub, Function.update b.spoke i spoke, Function.update b.up i _,
      Function.update b.down i down⟩, ⟨hhub, rfl, rfl, rfl⟩, .inr ?_⟩
    exact .spoke (s := ⟨hub, b.spoke, b.up, b.down⟩) i hmove htaken

/-- Where one task is selected, each run of the board is one of the demo. -/
theorem exists_star (hone : selected config = [entry]) (h : b.Reachable) :
    ∃ s : Star (code m entry) U UInt8, s.Reachable sockets descriptor ∧ b.Refines s := by
  induction h with
  | refl => exact ⟨.start _ _ _, .refl, .inl ⟨rfl, rfl⟩, rfl, rfl, rfl⟩
  | tail hreach hstep ih =>
    obtain ⟨s, hs, hrefines⟩ := ih
    have hentries := Node.entries_sublist (Reachable.node (hreach.tail hstep))
    rw [hone] at hentries
    obtain ⟨s', hrefines', rfl | hstep'⟩ := hrefines.step hstep hentries
    · exact ⟨s', hs, hrefines'⟩
    · exact ⟨s', hs.tail hstep', hrefines'⟩

/-- What the board shows of the demo. -/
theorem Refines.unique {s' : Star (code m entry) U UInt8} (h : b.Refines s) (h' : b.Refines s') :
    s = s' := by
  obtain ⟨hub, spoke, up, down⟩ := s
  obtain ⟨hub', spoke', up', down'⟩ := s'
  obtain ⟨hhub, rfl, rfl, rfl⟩ := h
  obtain ⟨hhub', rfl, rfl, rfl⟩ := h'
  obtain rfl : hub = hub' := by
    rcases hhub with ⟨hnone, rfl⟩ | hsome <;> rcases hhub' with ⟨hnone', rfl⟩ | hsome'
    · rfl
    · exact absurd (hnone.symm.trans hsome') (by simp)
    · exact absurd (hnone'.symm.trans hsome) (by simp)
    · simpa using hsome.symm.trans hsome'
  rfl

/-- The node with its task in the state of the hub. -/
def ofStar (n : Node config m) (s : Star (code m entry) U UInt8) : Board config m U :=
  ⟨⟨n.main, n.ip, [⟨entry, s.hub⟩]⟩, s.spoke, s.up, s.down⟩

/-- Once the node has come up with its task, the board can do all that the demo can. -/
theorem reachable_ofStar {n : Node config m}
    (hup : Relation.ReflTransGen Node.SystemStep (.start config m) n) (hrun : n.Running)
    (htasks : n.tasks = [.start m entry]) (hs : s.Reachable sockets descriptor) :
    (ofStar n s).Reachable := by
  induction hs with
  | refl =>
    have hlift : ∀ n : Node config m, Relation.ReflTransGen Node.SystemStep (.start config m) n →
        Reachable (⟨n, fun i => .start (U i), fun _ => [], fun _ => []⟩ : Board config m U) := by
      intro n hn
      induction hn with
      | refl => exact .refl
      | tail _ hstep ih => exact ih.tail (.system hstep)
    have hboard := hlift n hup
    obtain ⟨main, ip, tasks⟩ := n
    obtain rfl : tasks = [.start m entry] := htasks
    exact hboard
  | @tail s s' _ hstep ih =>
    refine ih.tail ?_
    cases hstep with
    | hub hmove htaken =>
      have htask : (ofStar n s).node.tasks = [] ++ ⟨entry, s.hub⟩ :: [] := rfl
      exact .task (b := ofStar n s) hrun htask hmove htaken
    | spoke i hmove htaken => exact .spoke (b := ofStar n s) i hmove htaken

/-- **The board refines the demo**, and does all of it: where one task is selected, what can
be seen of the board on the network and on Linux is what the star of that task can do. -/
theorem refines_iff (hone : selected config = [entry]) :
    s.Reachable sockets descriptor ↔ ∃ b : Board config m U, b.Reachable ∧ b.Refines s := by
  constructor
  · intro hs
    obtain ⟨n, hup, hrun, htasks⟩ := Node.comes_up config m
    rw [hone] at htasks
    exact ⟨ofStar n s, reachable_ofStar hup hrun htasks hs, .inr rfl, rfl, rfl, rfl⟩
  · rintro ⟨b, hb, hrefines⟩
    obtain ⟨s', hs', hrefines'⟩ := exists_star hone hb
    rwa [hrefines.unique hrefines']

end OneTask

/-- The clients on Linux, each with a buffer of zeros. -/
abbrev clients : ℕ → Task Posix.Api := fun _ => (Linux.Main.tcpClient (.replicate _ 0)).task

/-- The run of the echo demo in which client 5 types `hi`. -/
def typedHi : Star (code Node.zeroed (.prvEchoServerTask, 0)) clients UInt8 := Echo.hiEchoed

theorem reachable_typedHi : typedHi.Reachable sockets descriptor := Star.reachable_run _

theorem refines_typedHi :
    ∃ b : Board appConfig Node.zeroed clients, b.Reachable ∧ b.Refines typedHi :=
  (refines_iff rfl).mp reachable_typedHi

/-! ## Before the network is up -/

section Linux
variable {programs : ℕ → Linux.Main} {entry : TaskFunction × ℕ}

theorem prints (p : Linux.Main) (l : p.task.Label) :
    (p.task.body l).Keeps Receivers.linux.Prints := by
  cases p with
  | tcpServer buffer => exact Receivers.tcpServer_prints l
  | tcpClient buffer => exact Receivers.tcpClient_prints l
  | linuxTcpServer buffer => exact Receivers.linuxTcpServer_prints l

/-- **Nothing is shown before the network is up.** If any program on Linux has shown a byte
as received, then `main` has initialised the stack, the network was reported up, and the task
was created. -/
theorem shown_after_boot {b : Board config m fun i => (programs i).task}
    (hone : selected config = [entry]) (h : b.Reachable) {i : ℕ}
    (hshown : Receivers.linux.shown (b.spoke i).done ≠ []) :
    (∃ t, bootEvents t <+: b.node.main.done) ∧ .eNetworkUp ∈ reports b.node.ip.done ∧
      b.node.entries = [entry] := by
  obtain ⟨s, hs, hrefines⟩ := exists_star hone h
  have hcreated : b.node.tasks = [⟨entry, s.hub⟩] := by
    refine hrefines.hub.resolve_left fun hidle => hshown ?_
    have htaken := (Star.takes_isPrefix hs i).2
    rw [hidle.2, ← hrefines.spoke] at htaken
    have hpart := (shown_sublist (prints (programs i)) (b.spoke i).reached).1
    rw [List.prefix_nil.mp htaken] at hpart
    exact List.sublist_nil.mp hpart
  have hentries : b.node.entries = [entry] := by rw [Node.entries, hcreated]; rfl
  refine ⟨?_, ?_, hentries⟩
  · refine (Node.booted_or_idle h.node).resolve_left fun hidle => ?_
    exact absurd (hcreated.symm.trans hidle.2) (by simp)
  · refine (attempts_isPrefix b.node.ip.reached).2 fun hnone => ?_
    have hpart := creations_sublist b.node.ip.done
    rw [← Node.entries_eq h.node, hentries, hnone] at hpart
    exact absurd (List.sublist_nil.mp hpart) (by simp)

theorem shown_after_boot_hi : ∃ b : Board appConfig Node.zeroed clients,
    Receivers.linux.shown (b.spoke 5).done = CBytes.ascii "hi" ∧
      (∃ t, bootEvents t <+: b.node.main.done) ∧ .eNetworkUp ∈ reports b.node.ip.done ∧
      b.node.entries = [(.prvEchoServerTask, 0)] := by
  obtain ⟨n, hup, hrun, htasks⟩ := Node.comes_up appConfig Node.zeroed
  have hshown : Receivers.linux.shown (typedHi.spoke 5).done = CBytes.ascii "hi" := by
    decide +kernel
  have hsome : Receivers.linux.shown ((ofStar n typedHi).spoke 5).done ≠ [] :=
    ne_of_eq_of_ne hshown (by decide)
  have hreach := reachable_ofStar hup hrun htasks reachable_typedHi
  exact ⟨ofStar n typedHi, hshown, shown_after_boot rfl hreach hsome⟩

end Linux

end Board
end TcpDemo.Demos
