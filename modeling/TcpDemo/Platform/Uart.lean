import TcpDemo.Lib.Interaction
import Mathlib.Data.List.Chain
import Mathlib.Data.List.Range

/-!
# Console output

`_write` of `syscalls.c` and the transmit side of the UART it writes to. The UART has a
transmit buffer of one byte, which the hardware empties to the line at moments of its own,
and a write to `DATA` while the buffer is full is an overrun. `_write` does not look at
`STATE`, so what gets to the line depends on the hardware: `write_delivers_iff`.
-/

namespace TcpDemo.Uart
open Interaction

/-- The one thing `_write` does to the outside: it writes to `DATA`. -/
inductive Call where
  | data (c : UInt8)

/-- The interface between `_write` and the UART. -/
@[reducible] def Api : Interface where
  Call := Call
  Answer _ := Unit

/-- `UART_DR( UART0_ADDR ) = c` -/
@[simp] def writeData (c : UInt8) : Program Api Unit := .call (.data c) .ret

/-- The loop of `_write` from `todo` on, with the bytes of memory from `buf` on. -/
def writeLoop (buf : ℕ → UInt8) : ℕ → ℕ → Program Api Unit
  | 0, _ => pure ()
  | n + 1, todo => do
      writeData (buf todo)
      writeLoop buf n (todo + 1)

/-- `_write`. A negative `len` makes no pass of the loop. -/
def write (buf : ℕ → UInt8) (len : ℤ) : Program Api ℤ := do
  writeLoop buf len.toNat 0
  pure len

/-! ## The device -/

/-- The transmit side of the UART: the buffer, the overrun bit of `STATE`, and what was put
on the line. -/
structure Transmitter where
  buffer : Option UInt8
  txor : Bool
  line : List UInt8

/-- An empty buffer. -/
def Transmitter.reset : Transmitter := ⟨none, false, []⟩

/-- The buffer-full bit of `STATE`. -/
def Transmitter.txbf (u : Transmitter) : Bool := u.buffer.isSome

/-- The bytes on the line, with the one that still waits in the buffer. -/
def Transmitter.delivered (u : Transmitter) : List UInt8 := u.line ++ u.buffer.toList

/-- What happens to the UART: `DATA` is written, or the hardware empties the buffer. -/
inductive Step where
  | data (c : UInt8)
  | empty

/-- One step of the UART. After an overrun the buffer holds one byte, `keep old new`. -/
def Transmitter.step (keep : UInt8 → UInt8 → UInt8) (u : Transmitter) : Step → Transmitter
  | .data c =>
    match u.buffer with
    | none => { u with buffer := some c }
    | some b => { u with buffer := some (keep b c), txor := true }
  | .empty => { u with buffer := none, line := u.line ++ u.buffer.toList }

/-- The UART after these steps, from an empty buffer on. -/
def run (keep : UInt8 → UInt8 → UInt8) (steps : List Step) : Transmitter :=
  steps.foldl (Transmitter.step keep) .reset

/-- The byte a step writes to `DATA`. -/
def Step.written : Step → Option UInt8
  | .data c => some c
  | .empty => none

/-- The steps interleave what `_write` issues with steps of the hardware. -/
def Interleaves (evs : Trace Api) (steps : List Step) : Prop :=
  steps.filterMap Step.written = evs.map fun e => match e.call with | .data c => c

/-- The second of two steps does not find the buffer full with the byte of the first. -/
def Apart (s t : Step) : Prop := ¬ (s.written.isSome ∧ t.written.isSome)

/-! ## What `_write` issues -/

theorem writeLoop_issues {buf : ℕ → UInt8} {n todo : ℕ} {evs : Trace Api} {u : Unit}
    (h : (writeLoop buf n todo).Issues evs u) :
    evs = (List.range' todo n).map fun i => ⟨.data (buf i), ()⟩ := by
  induction n generalizing todo evs with
  | zero => exact (Program.issues_ret.mp h).1
  | succ n ih =>
    simp only [writeLoop, writeData, Program.call_bind, Program.ret_bind,
      Program.issues_call] at h
    obtain ⟨_, rest, rfl, h⟩ := h
    rw [ih h, List.range'_succ, List.map_cons]

/-- `_write` writes the first bytes of the buffer to `DATA`, in order, and returns their
number. -/
theorem write_issues {buf : ℕ → UInt8} {len r : ℤ} {evs : Trace Api}
    (h : (write buf len).Issues evs r) :
    r = len ∧ evs = (List.range len.toNat).map fun i => ⟨.data (buf i), ()⟩ := by
  rw [write, Program.issues_bind] at h
  obtain ⟨first, _, rest, rfl, hloop, hret⟩ := h
  obtain ⟨rfl, rfl⟩ := Program.issues_ret.mp hret
  rw [List.append_nil, List.range_eq_range']
  exact ⟨rfl, writeLoop_issues hloop⟩

/-! ## What the device delivers -/

section Device
variable (keep : UInt8 → UInt8 → UInt8)

theorem run_snoc (steps : List Step) (s : Step) :
    run keep (steps ++ [s]) = (run keep steps).step keep s := by
  simp [run]

/-- The buffer is full just after a write to `DATA`, until the hardware empties it. -/
theorem txbf_run (steps : List Step) :
    (run keep steps).txbf ↔ ∃ c, steps.getLast? = some (.data c) := by
  rcases List.eq_nil_or_concat steps with rfl | ⟨pre, s, rfl⟩
  · simp [run, Transmitter.reset, Transmitter.txbf]
  · rw [List.concat_eq_append, run_snoc, List.getLast?_concat]
    cases s with
    | data c => cases h : (run keep pre).buffer <;> simp [Transmitter.step, Transmitter.txbf, h]
    | empty => simp [Transmitter.step, Transmitter.txbf]

/-- One more step keeps the writes apart unless it writes to a full buffer. -/
theorem isChain_snoc (steps : List Step) (s : Step) : (steps ++ [s]).IsChain Apart ↔
    steps.IsChain Apart ∧ ¬ ((run keep steps).txbf ∧ s.written.isSome) := by
  rw [List.isChain_append, txbf_run]
  simp only [List.isChain_singleton, true_and, List.head?_cons, Option.mem_def, Option.some.injEq,
    forall_eq']
  refine and_congr_right fun _ => ?_
  constructor
  · rintro h ⟨⟨c, hlast⟩, hs⟩
    exact h _ hlast ⟨rfl, hs⟩
  · rintro h t ht ⟨hwritten, hs⟩
    cases t with
    | data c => exact h ⟨⟨c, ht⟩, hs⟩
    | empty => exact absurd hwritten Bool.false_ne_true

/-- `TXOR` tells whether two writes came without an emptying step between them. -/
theorem txor_run (steps : List Step) : (run keep steps).txor = false ↔ steps.IsChain Apart := by
  induction steps using List.reverseRecOn with
  | nil => simp [run, Transmitter.reset]
  | append_singleton steps s ih =>
    rw [isChain_snoc keep, ← ih, run_snoc]
    cases s with
    | data c =>
      cases h : (run keep steps).buffer <;>
        simp [Transmitter.step, Transmitter.txbf, Step.written, h]
    | empty => simp [Transmitter.step, Step.written]

/-- Without an overrun every byte is delivered, and each overrun costs a byte. -/
theorem delivered_run (steps : List Step) :
    ((run keep steps).txor = false →
      (run keep steps).delivered = steps.filterMap Step.written) ∧
    (run keep steps).delivered.length + ((run keep steps).txor).toNat ≤
      (steps.filterMap Step.written).length := by
  induction steps using List.reverseRecOn with
  | nil => exact ⟨fun _ => rfl, Nat.le_refl _⟩
  | append_singleton steps s ih =>
    obtain ⟨hall, hlen⟩ := ih
    rw [run_snoc, List.filterMap_append]
    simp only [Transmitter.delivered, List.length_append] at hall hlen ⊢
    cases s with
    | data c =>
      cases h : (run keep steps).buffer with
      | none =>
        rw [h, Option.toList_none, List.append_nil] at hall
        rw [h, Option.toList_none, List.length_nil] at hlen
        refine ⟨fun hno => ?_, ?_⟩
        · have hline := hall (by simpa [Transmitter.step, h] using hno)
          simp [Transmitter.step, h, hline, Step.written]
        · simp [Transmitter.step, h, Step.written]
          omega
      | some b =>
        rw [h, Option.toList_some, List.length_singleton] at hlen
        simp [Transmitter.step, h, Step.written]
        omega
    | empty =>
      have hnone : [Step.empty].filterMap Step.written = [] := rfl
      rw [hnone, List.append_nil]
      simpa [Transmitter.step] using ⟨hall, hlen⟩

end Device

/-- **When `_write` tells the truth.** In every interleaving with the hardware, the bytes
delivered are those `_write` returns the number of, if and only if the hardware empties
the buffer between any two writes to `DATA`. -/
theorem write_delivers_iff (keep : UInt8 → UInt8 → UInt8) {buf : ℕ → UInt8} {len r : ℤ}
    {evs : Trace Api} {steps : List Step} (h : (write buf len).Issues evs r)
    (hsteps : Interleaves evs steps) :
    (run keep steps).delivered = (List.range r.toNat).map buf ↔ steps.IsChain Apart := by
  obtain ⟨rfl, rfl⟩ := write_issues h
  have hwritten : steps.filterMap Step.written = (List.range r.toNat).map buf := by
    rw [hsteps, List.map_map]
    rfl
  obtain ⟨hall, hlen⟩ := delivered_run keep steps
  rw [← hwritten, ← txor_run keep]
  refine ⟨fun heq => ?_, hall⟩
  rw [heq] at hlen
  cases htxor : (run keep steps).txor with
  | false => rfl
  | true => rw [htxor, Bool.toNat_true] at hlen; omega

/-- Two bytes with an emptying step between them. -/
theorem write_delivers_apart :
    (run (fun old _ => old) [.data 1, .empty, .data 2]).delivered = [1, 2] := by
  have h : (write (fun i => UInt8.ofNat (i + 1)) 2).Issues [⟨.data 1, ()⟩, ⟨.data 2, ()⟩] 2 := by
    simp [write, writeLoop]
  have hsteps : Interleaves [⟨.data 1, ()⟩, ⟨.data 2, ()⟩] [.data 1, .empty, .data 2] := rfl
  exact (write_delivers_iff (fun old _ => old) h hsteps).mpr (by simp [Apart, Step.written])

/-- Two bytes in a row: the second finds the buffer full, and one of the two is lost. -/
theorem write_overruns : ¬ ∀ (keep : UInt8 → UInt8 → UInt8) buf len evs r steps, 0 ≤ len →
    (write buf len).Issues evs r → Interleaves evs steps →
    (run keep steps).delivered = (List.range r.toNat).map buf := by
  intro hall
  have h : (write (fun _ => 0) 2).Issues [⟨.data 0, ()⟩, ⟨.data 0, ()⟩] 2 := by
    simp [write, writeLoop]
  have hlen := congrArg List.length
    (hall (fun old _ => old) _ _ _ _ [.data 0, .data 0] (by decide) h rfl)
  exact absurd hlen (by decide)

end TcpDemo.Uart
