import TcpDemo.Platform.Startup

/-!
# The heap in memory

`_sbrk` keeps the break in the variable `heap_end`, a word of `.data` whose load image is
`&_heap_bottom`. So the heap of `Platform.Sbrk` needs the start-up code to have copied that
word, and needs the program to leave it alone, which it does while it keeps to the memory it
was granted.

An `Executable` is what the linker makes of the two: the sections, the heap behind them, and
the variable. Its memory is followed from the first word that `Reset_Handler` stores through any
sequence of calls of `_sbrk` and of stores of the program (`heap_undisturbed`).
-/

namespace TcpDemo.Platform
open Traces Memory

/-- A linked executable: `.data` and `.bss`, the heap behind them, and the address of
`heap_end`. -/
structure Executable where
  layout : Layout
  heap : Heap
  heapEndAt : UInt32
  heapEnd_aligned : heapEndAt % 4 = 0
  heapEnd_inData : layout.InData heapEndAt
  ebss_le : layout.ebss ≤ heap.heapBottom

/-- The load image of the variable is its initial value. -/
def Executable.Loaded (p : Executable) (m : Mem) : Prop :=
  load m (p.layout.sidata + (p.heapEndAt - p.layout.sdata)) = p.heap.heapBottom

/-- `_sbrk`, with `heap_end` in memory. -/
def Executable.sbrk (p : Executable) (mem : Mem) (incr : Int32) : UInt32 × Mem :=
  let prevHeapEnd := load mem p.heapEndAt
  if load mem p.heapEndAt + incr.toUInt32 > p.heap.heapTop then (refusal, mem)
  else (prevHeapEnd, store mem p.heapEndAt (load mem p.heapEndAt + incr.toUInt32))

/-- What the program does with the heap: it calls `_sbrk`, or stores a byte. -/
inductive Action where
  | sbrk (incr : Int32)
  | write (a : UInt32) (b : UInt8)

/-- The memory, and what the calls of `_sbrk` have returned. -/
structure Run where
  mem : Mem
  returned : List UInt32

namespace Executable
variable (p : Executable)

def step (r : Run) : Action → Run
  | .sbrk incr => ⟨(p.sbrk r.mem incr).2, r.returned ++ [(p.sbrk r.mem incr).1]⟩
  | .write a b => ⟨Function.update r.mem a b, r.returned⟩

/-- The program runs in the memory that the start-up code has left. -/
def run (mem : Mem) (actions : List Action) : Run := actions.foldl p.step ⟨mem, []⟩

/-! ## What is said about a run -/

/-- The increments of the calls. -/
def increment : Action → Option Int32
  | .sbrk incr => some incr
  | .write _ _ => none

def increments (actions : List Action) : List Int32 := actions.filterMap increment

/-- The byte an address was given last. -/
def written (actions : List Action) (a : UInt32) : Option UInt8 :=
  actions.foldl (fun last act => match act with
    | .write a' b => if a' = a then some b else last
    | .sbrk _ => last) none

/-- The program keeps to the heap: it gives back no more than it was granted, and stores below
the break only. -/
def Keeps (p : Executable) (pre : List Action) : Action → Prop
  | .sbrk incr => StaysAbove p.heap (increments pre) incr
  | .write a _ => p.heap.heapBottom ≤ a ∧ a < heapEnd p.heap (increments pre)

/-- The address is part of the variable. -/
def InHeapEnd (p : Executable) (a : UInt32) : Prop := (a - p.heapEndAt).toNat < 4

/-- A run on memory `m` has gone as the heap without memory does, and has changed nothing but
the variable and what the program itself has stored. -/
structure Undisturbed (p : Executable) (m : Mem) (actions : List Action) : Prop where
  returned : (p.run m actions).returned =
    (calls p.heap p.heap.heapBottom (increments actions)).map Prod.snd
  heapEnd : load (p.run m actions).mem p.heapEndAt = heapEnd p.heap (increments actions)
  bytes : ∀ a, ¬ p.InHeapEnd a → (p.run m actions).mem a = (written actions a).getD (m a)
  outside : ∀ a, ¬ p.InHeapEnd a → ¬ (p.heap.heapBottom ≤ a ∧ a < p.heap.heapTop) →
    (p.run m actions).mem a = m a

section Snoc
variable {p} (m : Mem) (actions : List Action)

theorem run_snoc (act : Action) : p.run m (actions ++ [act]) = p.step (p.run m actions) act := by
  simp [run]

theorem increments_sbrk (incr : Int32) :
    increments (actions ++ [.sbrk incr]) = increments actions ++ [incr] := by
  simp [increments, increment]

theorem increments_write (a : UInt32) (b : UInt8) :
    increments (actions ++ [.write a b]) = increments actions := by
  simp [increments, increment]

theorem written_sbrk (incr : Int32) : written (actions ++ [.sbrk incr]) = written actions := by
  funext a
  simp [written]

theorem written_write (a a' : UInt32) (b : UInt8) : written (actions ++ [.write a b]) a' =
    if a = a' then some b else written actions a' := by
  simp [written]

end Snoc

/-- The variable is below the heap. -/
theorem InHeapEnd.lt_bottom {p : Executable} {a : UInt32} (h : p.InHeapEnd a) :
    a < p.heap.heapBottom := by
  have hin : p.layout.InData (p.heapEndAt + (a - p.heapEndAt)) :=
    (p.layout.inData_add_iff p.heapEnd_aligned h).mpr p.heapEnd_inData
  have haddr : p.heapEndAt + (a - p.heapEndAt) = a := by
    rw [UInt32.add_comm, UInt32.sub_add_cancel]
  rw [haddr] at hin
  have hend := UInt32.lt_iff_toNat_lt.mp hin.2
  have hbounds := p.layout.bounds
  have hheap := UInt32.le_iff_toNat_le.mp p.ebss_le
  rw [UInt32.lt_iff_toNat_lt]
  omega

/-- A call with the break in memory does what the call without memory does. -/
theorem sbrk_eq {p : Executable} {m : Mem} {e : UInt32} (h : load m p.heapEndAt = e)
    (incr : Int32) :
    (p.sbrk m incr).1 = (Platform.sbrk p.heap e incr).1 ∧
    load (p.sbrk m incr).2 p.heapEndAt = (Platform.sbrk p.heap e incr).2 ∧
    ∀ a, ¬ p.InHeapEnd a → (p.sbrk m incr).2 a = m a := by
  rw [Executable.sbrk, Platform.sbrk, h]
  split
  · exact ⟨rfl, h, fun _ _ => rfl⟩
  · exact ⟨rfl, load_store m p.heapEndAt _, fun a ha => store_of_not_lt ha⟩

section Runs
variable {p} {m : Mem} {actions : List Action}

/-- A run that has called nothing has changed nothing. -/
theorem undisturbed_nil (hinit : load m p.heapEndAt = p.heap.heapBottom) : p.Undisturbed m [] :=
  ⟨rfl, hinit, fun _ _ => rfl, fun _ _ _ => rfl⟩

/-- A call of `_sbrk` goes as it does without memory. -/
theorem Undisturbed.sbrk (h : p.Undisturbed m actions) (incr : Int32) :
    p.Undisturbed m (actions ++ [.sbrk incr]) := by
  obtain ⟨hreturns, hmoves, hframe⟩ := sbrk_eq h.heapEnd incr
  refine ⟨?_, ?_, ?_, ?_⟩
  · rw [run_snoc, increments_sbrk, calls_snoc, List.map_append, ← h.returned]
    exact congrArg (fun r => (p.run m actions).returned ++ [r]) hreturns
  · rw [run_snoc, increments_sbrk, heapEnd_snoc]
    exact hmoves
  · intro a ha
    rw [run_snoc, written_sbrk, ← h.bytes a ha]
    exact hframe a ha
  · intro a ha hout
    rw [run_snoc, ← h.outside a ha hout]
    exact hframe a ha

/-- A store below the break leaves the variable alone. -/
theorem Undisturbed.write (h : p.Undisturbed m actions) {a : UInt32} (b : UInt8)
    (hlo : p.heap.heapBottom ≤ a) (hhi : a < p.heap.heapTop) :
    p.Undisturbed m (actions ++ [.write a b]) := by
  have hframe : ¬ p.InHeapEnd a := fun hin =>
    absurd hin.lt_bottom (UInt32.not_lt.mpr hlo)
  refine ⟨?_, ?_, ?_, ?_⟩
  · rw [run_snoc, increments_write, ← h.returned]
    rfl
  · rw [run_snoc, increments_write, ← h.heapEnd]
    exact load_update hframe
  · intro a' ha'
    rw [run_snoc, written_write]
    by_cases heq : a = a'
    · subst heq
      rw [if_pos rfl]
      exact Function.update_self a _ _
    · rw [if_neg heq, ← h.bytes a' ha']
      exact Function.update_of_ne (Ne.symm heq) _ _
  · intro a' ha' hout
    rw [run_snoc, ← h.outside a' ha' hout]
    refine Function.update_of_ne ?_ _ _
    rintro rfl
    exact hout ⟨hlo, hhi⟩

/-- Actions that keep to the heap go undisturbed, with the break inside the heap. -/
theorem undisturbed_of_keeps (hinit : load m p.heapEndAt = p.heap.heapBottom)
    (hkeeps : Stepwise p.Keeps actions) : p.Undisturbed m actions ∧
      p.heap.heapBottom ≤ heapEnd p.heap (increments actions) ∧
      heapEnd p.heap (increments actions) ≤ p.heap.heapTop := by
  induction actions using List.reverseRecOn with
  | nil => exact ⟨undisturbed_nil hinit, UInt32.le_refl _, p.heap.bottom_le_top⟩
  | append_singleton actions act ih =>
    obtain ⟨hactions, hlast⟩ := (stepwise_append actions [act]).mp hkeeps
    obtain ⟨hrun, hlo, hhi⟩ := ih hactions
    cases act with
    | sbrk incr =>
      have hsafe := (safeCall_iff incr hlo hhi).mpr hlast.1
      rw [increments_sbrk, heapEnd_snoc]
      exact ⟨hrun.sbrk incr, hsafe.bottom_le, hsafe.le_top⟩
    | write a b =>
      obtain ⟨hbottom, hbreak⟩ := hlast.1
      rw [increments_write]
      exact ⟨hrun.write b hbottom (UInt32.lt_of_lt_of_le hbreak hhi), hlo, hhi⟩

/-- **The heap is not disturbed.** The start-up code ends, whatever the memory held besides the
load image, and in the memory it leaves any calls of `_sbrk`, and any stores to what they have
granted, go as on a heap without memory. -/
theorem heap_undisturbed (hloaded : p.Loaded m) : ∃ m',
    (∃ n, ∀ passes ≥ n, resetHandler p.layout passes m = some m') ∧
    ∀ actions, Stepwise p.Keeps actions → p.Undisturbed m' actions := by
  refine ⟨p.layout.image m, ⟨p.layout.dataLength + p.layout.bssLength + 1, fun passes h =>
    resetHandler_eq (by omega) (by omega)⟩, fun actions hkeeps => ?_⟩
  have hinit : load (p.layout.image m) p.heapEndAt = p.heap.heapBottom :=
    ((image_started p.layout m).data _ p.heapEnd_aligned p.heapEnd_inData).trans hloaded
  exact (undisturbed_of_keeps hinit hkeeps).1

/-- The variable is the second word of `.data`, and the heap starts behind `.bss`. -/
def smallExecutable : Executable where
  layout := default
  heap := ⟨0x20000128, 0x20040128, by decide, by decide, by decide⟩
  heapEndAt := 0x20000104
  heapEnd_aligned := by decide
  heapEnd_inData := ⟨by decide, by decide⟩
  ebss_le := by decide

/-- A block is granted and stored to, and then one behind it. -/
theorem heap_undisturbed_two : ∃ m', smallExecutable.Undisturbed m'
    [.sbrk 16, .write 0x20000137 7, .sbrk 8, .write 0x20000138 9] := by
  have hloaded : smallExecutable.Loaded (store (fun _ => 0xff) 0x1004 0x20000128) := by
    unfold Loaded
    decide +kernel
  obtain ⟨m', -, hrun⟩ := heap_undisturbed hloaded
  exact ⟨m', hrun _ ⟨.inl (by decide +kernel), ⟨by decide +kernel, by decide +kernel⟩,
    .inl (by decide +kernel), ⟨by decide +kernel, by decide +kernel⟩, trivial⟩⟩

end Runs

end Executable
end TcpDemo.Platform
