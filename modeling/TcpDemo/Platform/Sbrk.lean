import TcpDemo.Lib.Tiling
import TcpDemo.Lib.Trace
import Mathlib.Algebra.Order.Ring.Nat

/-!
# The heap break

`_sbrk` of `syscalls.c` on 32-bit addresses, between the two ends of the heap that the
linker script `mps2_m3.ld` lays out in RAM. A request is compared with the upper end only,
so the break is safe from requests that grow the heap, and from those that shrink it as
long as they do not give back more than was granted (`sbrk_safe_iff`). What requests that
only grow the heap are granted tiles it from the bottom (`sbrk_tiles`).
-/

namespace TcpDemo.Platform
open Traces Tiling

/-- The memory region `RAM`: its `ORIGIN` and its `LENGTH` of 4M. -/
def ramOrigin : UInt32 := 0x20000000
def ramLength : UInt32 := 4 * 1024 * 1024

/-- `_Min_Heap_Size` and `_Min_Stack_Size` -/
def minHeapSize : UInt32 := 0x40000
def minStackSize : UInt32 := 0x4000

/-- `__StackLimit` -/
def stackLimit : UInt32 := ramOrigin + ramLength - minStackSize

/-- A heap inside RAM: `&_heap_bottom` and `&_heap_top`. -/
structure Heap where
  heapBottom : UInt32
  heapTop : UInt32
  origin_le : ramOrigin ≤ heapBottom
  bottom_le_top : heapBottom ≤ heapTop
  top_le : heapTop ≤ ramOrigin + ramLength

/-- The heap is one that the `.heap` section of the linker script can lay out. -/
structure Heap.Linked (h : Heap) : Prop where
  aligned : h.heapBottom % 8 = 0
  size : h.heapTop = h.heapBottom + minHeapSize
  stack : h.heapTop ≤ stackLimit

/-- `(void *) -1` -/
def refusal : UInt32 := 0xffffffff

/-- `_sbrk`: what it returns, and the new `heap_end`. -/
def sbrk (h : Heap) (heapEnd : UInt32) (incr : Int32) : UInt32 × UInt32 :=
  let prevHeapEnd := heapEnd
  if heapEnd + incr.toUInt32 > h.heapTop then (refusal, heapEnd)
  else (prevHeapEnd, heapEnd + incr.toUInt32)

/-- `heap_end` after calls with these increments. -/
def heapEnd (h : Heap) (incrs : List Int32) : UInt32 :=
  incrs.foldl (fun heapEnd incr => (sbrk h heapEnd incr).2) h.heapBottom

theorem heapEnd_snoc (h : Heap) (incrs : List Int32) (incr : Int32) :
    heapEnd h (incrs ++ [incr]) = (sbrk h (heapEnd h incrs) incr).2 := by
  simp [heapEnd]

/-! ## One call -/

/-- Adding an increment to an address wraps around at both ends. -/
theorem toNat_add_toUInt32 (a : UInt32) (incr : Int32) :
    ((a + incr.toUInt32).toNat : ℤ) = (a.toNat + incr.toInt) % 2 ^ 32 := by
  have hincr : incr.toInt = if 2 * incr.toUInt32.toNat < 2 ^ 32 then (incr.toUInt32.toNat : ℤ)
      else incr.toUInt32.toNat - (2 ^ 32 : ℕ) := BitVec.toInt_eq_toNat_cond incr.toBitVec
  rw [UInt32.toNat_add, hincr]
  split <;> omega

section Call
variable (h : Heap) {e : UInt32} (incr : Int32)

theorem Heap.bounds : 0x20000000 ≤ h.heapBottom.toNat ∧ h.heapBottom.toNat ≤ h.heapTop.toNat ∧
    h.heapTop.toNat ≤ 0x20400000 :=
  ⟨h.origin_le, h.bottom_le_top, h.top_le⟩

/-- What a call does with a break inside the heap: it is refused if the new break would be
behind the upper end, or before the first address, and moves the break otherwise. -/
theorem sbrk_cases (hlo : h.heapBottom ≤ e) (hhi : e ≤ h.heapTop) :
    ((h.heapTop.toNat < e.toNat + incr.toInt ∨ e.toNat + incr.toInt < 0) ∧
      sbrk h e incr = (refusal, e)) ∨
    (0 ≤ e.toNat + incr.toInt ∧ e.toNat + incr.toInt ≤ h.heapTop.toNat ∧
      ∃ e', sbrk h e incr = (e, e') ∧ (e'.toNat : ℤ) = e.toNat + incr.toInt) := by
  obtain ⟨horigin, -, htop⟩ := h.bounds
  have hmoved := toNat_add_toUInt32 e incr
  have hmin := incr.le_toInt
  have hmax := incr.toInt_lt
  rw [UInt32.le_iff_toNat_le] at hlo hhi
  by_cases hgt : e + incr.toUInt32 > h.heapTop
  · refine .inl ⟨?_, if_pos hgt⟩
    rw [gt_iff_lt, UInt32.lt_iff_toNat_lt] at hgt
    omega
  · refine .inr ?_
    have hle := UInt32.le_iff_toNat_le.mp (UInt32.not_lt.mp hgt)
    exact ⟨by omega, by omega, _, if_neg hgt, by omega⟩

/-- A break inside the heap is no address of a refusal. -/
theorem ne_refusal (hhi : e ≤ h.heapTop) : e ≠ refusal := by
  rintro rfl
  have htop := h.bounds.2.2
  have hle := UInt32.le_iff_toNat_le.mp hhi
  have hrefusal : refusal.toNat = 0xffffffff := rfl
  omega

end Call

/-! ## The break stays inside -/

/-- What is asked of a call after calls with the increments `incrs`. -/
structure SafeCall (h : Heap) (incrs : List Int32) (incr : Int32) : Prop where
  bottom_le : h.heapBottom ≤ (sbrk h (heapEnd h incrs) incr).2
  le_top : (sbrk h (heapEnd h incrs) incr).2 ≤ h.heapTop
  refused : (sbrk h (heapEnd h incrs) incr).1 = refusal →
    (sbrk h (heapEnd h incrs) incr).2 = heapEnd h incrs
  granted : (sbrk h (heapEnd h incrs) incr).1 ≠ refusal →
    (sbrk h (heapEnd h incrs) incr).1 = heapEnd h incrs ∧
      ((sbrk h (heapEnd h incrs) incr).2.toNat : ℤ) = (heapEnd h incrs).toNat + incr.toInt

/-- The request does not go below the bottom of the heap, or so far that it is before the
first address, where the sum wraps around to the upper end. -/
def StaysAbove (h : Heap) (incrs : List Int32) (incr : Int32) : Prop :=
  h.heapBottom.toNat ≤ (heapEnd h incrs).toNat + incr.toInt ∨
    (heapEnd h incrs).toNat + incr.toInt < 0

/-- After safe calls the break is inside the heap. -/
theorem heapEnd_inside {h : Heap} {incrs : List Int32} (hsafe : Stepwise (SafeCall h) incrs) :
    h.heapBottom ≤ heapEnd h incrs ∧ heapEnd h incrs ≤ h.heapTop := by
  rcases List.eq_nil_or_concat incrs with rfl | ⟨pre, incr, rfl⟩
  · exact ⟨UInt32.le_refl _, h.bottom_le_top⟩
  · rw [List.concat_eq_append] at hsafe ⊢
    have hlast := hsafe.of_snoc_isPrefix List.prefix_rfl
    rw [heapEnd_snoc]
    exact ⟨hlast.bottom_le, hlast.le_top⟩

/-- With the break inside the heap, a call is safe if and only if it does not go below the
bottom. -/
theorem safeCall_iff {h : Heap} {incrs : List Int32} (incr : Int32)
    (hlo : h.heapBottom ≤ heapEnd h incrs) (hhi : heapEnd h incrs ≤ h.heapTop) :
    SafeCall h incrs incr ↔ StaysAbove h incrs incr := by
  rcases sbrk_cases h incr hlo hhi with ⟨hout, heq⟩ | ⟨hnonneg, htop, e', heq, hmoved⟩
  · have habove : StaysAbove h incrs incr := by
      have hbounds := h.bounds
      rw [StaysAbove]
      omega
    refine iff_of_true ⟨?_, ?_, ?_, ?_⟩ habove <;> rw [heq]
    · exact hlo
    · exact hhi
    · exact fun _ => rfl
    · exact fun hne => absurd rfl hne
  · constructor
    · intro hsafe
      have hbottom := hsafe.bottom_le
      rw [heq, UInt32.le_iff_toNat_le] at hbottom
      exact .inl (hmoved ▸ Int.ofNat_le.mpr hbottom)
    · intro habove
      rw [StaysAbove] at habove
      have hlo' : h.heapBottom.toNat ≤ e'.toNat := by omega
      have hhi' : e'.toNat ≤ h.heapTop.toNat := by omega
      refine ⟨?_, ?_, ?_, ?_⟩ <;> rw [heq]
      · exact UInt32.le_iff_toNat_le.mpr hlo'
      · exact UInt32.le_iff_toNat_le.mpr hhi'
      · exact fun hrefused => absurd hrefused (ne_refusal h hhi)
      · exact fun _ => ⟨rfl, hmoved⟩

/-- **When the break stays inside the heap.** In a run all calls keep the break inside, and
answer as they should, if and only if no call takes it below the bottom. -/
theorem sbrk_safe_iff (h : Heap) (incrs : List Int32) :
    Stepwise (SafeCall h) incrs ↔ Stepwise (StaysAbove h) incrs := by
  refine stepwise_congr (fun pre incr hsafe _ => ?_) incrs
  obtain ⟨hlo, hhi⟩ := heapEnd_inside hsafe
  exact safeCall_iff incr hlo hhi

/-- A heap that the linker script lays out. -/
def linkedHeap : Heap := ⟨0x20001000, 0x20041000, by decide, by decide, by decide⟩

/-- The first call gives eight bytes back, and the break is below the heap. -/
theorem sbrk_below_bottom : ¬ ∀ h : Heap, h.Linked → ∀ incrs, Stepwise (SafeCall h) incrs := by
  intro hall
  have hrun := hall linkedHeap ⟨by decide, by decide, by decide⟩ [-8]
  have hlast : [] ++ [(-8 : Int32)] <+: [-8] := List.prefix_rfl
  have hsafe := hrun.of_snoc_isPrefix hlast
  exact absurd hsafe.bottom_le (by decide)

/-! ## What is granted -/

/-- The calls with these increments: the increment of each, and what it returned. -/
def calls (h : Heap) : UInt32 → List Int32 → List (Int32 × UInt32)
  | _, [] => []
  | e, incr :: incrs => (incr, (sbrk h e incr).1) :: calls h (sbrk h e incr).2 incrs

theorem calls_snoc (h : Heap) (e : UInt32) (incrs : List Int32) (incr : Int32) :
    calls h e (incrs ++ [incr]) = calls h e incrs ++
      [(incr, (sbrk h (incrs.foldl (fun e incr => (sbrk h e incr).2) e) incr).1)] := by
  induction incrs generalizing e with
  | nil => rfl
  | cons i incrs ih => simp [calls, ih]

/-- The region a call was granted. -/
def region (c : Int32 × UInt32) : Option (ℕ × ℕ) :=
  if c.2 = refusal then none else some (c.2.toNat, c.1.toInt.toNat)

/-- The regions granted to calls with these increments. -/
def granted (h : Heap) (incrs : List Int32) : List (ℕ × ℕ) :=
  (calls h h.heapBottom incrs).filterMap region

theorem granted_snoc (h : Heap) (incrs : List Int32) (incr : Int32) :
    granted h (incrs ++ [incr]) =
      granted h incrs ++ (region (incr, (sbrk h (heapEnd h incrs) incr).1)).toList := by
  rw [granted, calls_snoc, List.filterMap_append]
  rfl

/-- The bytes that remain: the heap without the regions granted. -/
def remaining (h : Heap) (incrs : List Int32) : ℤ :=
  h.heapTop.toNat - (h.heapBottom.toNat + ((granted h incrs).map Prod.snd).sum)

/-- Calls that only grow the heap leave the break where the regions granted end. -/
theorem granted_tiles (h : Heap) {incrs : List Int32} (hgrow : ∀ incr ∈ incrs, 0 ≤ incr) :
    Tiles h.heapBottom.toNat (granted h incrs) (heapEnd h incrs).toNat ∧
      heapEnd h incrs ≤ h.heapTop := by
  induction incrs using List.reverseRecOn with
  | nil => exact ⟨rfl, h.bottom_le_top⟩
  | append_singleton incrs incr ih =>
    obtain ⟨htiles, hhi⟩ := ih fun i hi => hgrow i (by simp [hi])
    have hlo : h.heapBottom ≤ heapEnd h incrs := UInt32.le_iff_toNat_le.mpr (by
      rw [htiles.eq_add_sum]
      exact Nat.le_add_right _ _)
    have hpos : 0 ≤ incr.toInt := Int32.le_iff_toInt_le.mp (hgrow incr (by simp))
    rw [granted_snoc, heapEnd_snoc]
    rcases sbrk_cases h incr hlo hhi with ⟨-, heq⟩ | ⟨-, htop, e', heq, hmoved⟩ <;> rw [heq]
    · exact ⟨by simpa [region] using htiles, hhi⟩
    · have hend : e'.toNat = (heapEnd h incrs).toNat + incr.toInt.toNat := by omega
      have hregion : region (incr, heapEnd h incrs) =
          some ((heapEnd h incrs).toNat, incr.toInt.toNat) := if_neg (ne_refusal h hhi)
      refine ⟨?_, UInt32.le_iff_toNat_le.mpr (by dsimp only; omega)⟩
      rw [hregion, Option.toList_some, hend]
      exact htiles.snoc _

/-- **Granted regions never overlap.** In a run of calls that only grow the heap, the regions
granted tile it from the bottom; a call is refused if and only if fewer bytes remain than
it asks for, and then changes nothing. -/
theorem sbrk_tiles (h : Heap) {incrs : List Int32} (hgrow : ∀ incr ∈ incrs, 0 ≤ incr) :
    Tiles h.heapBottom.toNat (granted h incrs) (heapEnd h incrs).toNat ∧
    ((granted h incrs).Pairwise fun r s => Disjoint (addresses r) (addresses s)) ∧
    (∀ r ∈ granted h incrs, h.heapBottom.toNat ≤ r.1 ∧ r.1 + r.2 ≤ h.heapTop.toNat) ∧
    ∀ pre incr, pre ++ [incr] <+: incrs →
      ((sbrk h (heapEnd h pre) incr).1 = refusal ↔ remaining h pre < incr.toInt) ∧
      ((sbrk h (heapEnd h pre) incr).1 = refusal →
        (sbrk h (heapEnd h pre) incr).2 = heapEnd h pre) := by
  obtain ⟨htiles, hhi⟩ := granted_tiles h hgrow
  refine ⟨htiles, htiles.pairwise_disjoint, fun r hr => ?_, fun pre incr hpre => ?_⟩
  · obtain ⟨hlo, hend⟩ := htiles.within hr
    exact ⟨hlo, hend.trans (UInt32.le_iff_toNat_le.mp hhi)⟩
  · have hmem : ∀ i ∈ pre ++ [incr], 0 ≤ i := fun i hi => hgrow i (hpre.subset hi)
    have hpos : 0 ≤ incr.toInt := Int32.le_iff_toInt_le.mp (hmem incr (by simp))
    have hprior : ∀ i ∈ pre, 0 ≤ i := fun i hi => hmem i (List.mem_append_left _ hi)
    obtain ⟨htiles, hhi⟩ := granted_tiles h hprior
    have hsum := htiles.eq_add_sum
    have hlo : h.heapBottom ≤ heapEnd h pre := UInt32.le_iff_toNat_le.mpr (by omega)
    rw [remaining]
    rcases sbrk_cases h incr hlo hhi with ⟨hout, heq⟩ | ⟨-, htop, e', heq, -⟩ <;> rw [heq]
    · exact ⟨iff_of_true rfl (by omega), fun _ => rfl⟩
    · exact ⟨iff_of_false (ne_refusal h hhi) (by omega), fun hr => absurd hr (ne_refusal h hhi)⟩

/-- A request that is too large is refused between two that are granted. -/
theorem sbrk_tiles_refused : granted linkedHeap [16, 0x7fffffff, 8] =
    [(0x20001000, 16), (0x20001010, 8)] ∧
    (granted linkedHeap [16, 0x7fffffff, 8]).Pairwise fun r s =>
      Disjoint (addresses r) (addresses s) :=
  ⟨by decide +kernel, (sbrk_tiles linkedHeap (by simp)).2.1⟩

end TcpDemo.Platform
