import TcpDemo.Platform.Sbrk
import TcpDemo.Lib.While
import TcpDemo.Lib.Memory

/-!
# Memory at start-up

`Reset_Handler` of `startup.c` up to the call of `_start`: it copies `.data` from its load
image in flash to RAM, and clears `.bss`, in both cases a word at a time and up to the end
that the linker script `mps2_m3.ld` has given the section. The pointers of its loops are
automatic variables and no part of the memory.

The memory that `_start` finds is the abstract `Layout.image`, for every layout and
whatever the memory held before (`resetHandler_eq`); what that means for the words of the
sections, and for all others, is `reset_handler_image`.
-/

namespace TcpDemo.Platform
open Memory

/-- The memory region `FLASH`: its `ORIGIN` and its `LENGTH` of 4M. -/
def flashOrigin : UInt32 := 0x00000000
def flashLength : UInt32 := 4 * 1024 * 1024

/-- Sections `.data` and `.bss` in RAM, and the load image of `.data` in flash, by the
symbols of the linker script: `_sidata`, `_sdata`, `_edata`, `_sbss` and `_ebss`. -/
structure Layout where
  sidata : UInt32
  sdata : UInt32
  edata : UInt32
  sbss : UInt32
  ebss : UInt32
  origin_le_sdata : ramOrigin ≤ sdata
  sdata_le_edata : sdata ≤ edata
  edata_le_sbss : edata ≤ sbss
  sbss_le_ebss : sbss ≤ ebss
  ebss_le : ebss ≤ ramOrigin + ramLength
  sdata_aligned : sdata % 4 = 0
  edata_aligned : edata % 4 = 0
  sbss_aligned : sbss % 4 = 0
  ebss_aligned : ebss % 4 = 0
  origin_le_sidata : flashOrigin ≤ sidata
  image_le : sidata.toNat + (edata - sdata).toNat ≤ (flashOrigin + flashLength).toNat

/-- Two words of `.data`, a gap for `.uninitialized`, and a word of `.bss`. -/
instance : Inhabited Layout where
  default := ⟨0x1000, 0x20000100, 0x20000108, 0x20000120, 0x20000124, by decide, by decide,
    by decide, by decide, by decide, by decide, by decide, by decide, by decide, by decide,
    by decide⟩

/-! ## The code -/

/-- The variables of the loop that copies, with the memory. -/
structure Copying where
  src : UInt32
  dest : UInt32
  mem : Mem

/-- The variable of the loop that clears, with the memory. -/
structure Clearing where
  dest : UInt32
  mem : Mem

/-- `*dest++ = *src++` -/
def Copying.pass (s : Copying) : Copying :=
  ⟨s.src + 4, s.dest + 4, store s.mem s.dest (load s.mem s.src)⟩

/-- `*dest++ = 0` -/
def Clearing.pass (s : Clearing) : Clearing := ⟨s.dest + 4, store s.mem s.dest 0⟩

/-- Copy `.data` section from flash to RAM. -/
def copyData (layout : Layout) (passes : ℕ) (mem : Mem) : Option Mem :=
  (While.run (fun s => decide (s.dest < layout.edata)) Copying.pass passes
    ⟨layout.sidata, layout.sdata, mem⟩).map Copying.mem

/-- Zero out `.bss` section. -/
def clearBss (layout : Layout) (passes : ℕ) (mem : Mem) : Option Mem :=
  (While.run (fun s => decide (s.dest < layout.ebss)) Clearing.pass passes
    ⟨layout.sbss, mem⟩).map Clearing.mem

/-- `Reset_Handler` up to the call of `_start`: the memory it leaves, if none of its loops
makes more passes than given. -/
def resetHandler (layout : Layout) (passes : ℕ) (mem : Mem) : Option Mem := do
  let mem ← copyData layout passes mem
  clearBss layout passes mem

/-! ## The image -/

section Image
variable (L : Layout) (m : Mem)

/-- The lengths of the sections, in bytes. -/
def Layout.dataLength : ℕ := (L.edata - L.sdata).toNat
def Layout.bssLength : ℕ := (L.ebss - L.sbss).toNat

/-- Memory as `_start` is to find it: `.data` is the load image, `.bss` is zero. -/
def Layout.image : Mem :=
  filled (moved m L.sdata L.sidata L.dataLength) L.sbss 0 L.bssLength

/-- The layout in numbers. -/
theorem Layout.bounds : 0x20000000 ≤ L.sdata.toNat ∧ L.sdata.toNat + L.dataLength = L.edata.toNat ∧
    L.edata.toNat ≤ L.sbss.toNat ∧ L.sbss.toNat + L.bssLength = L.ebss.toNat ∧
    L.ebss.toNat ≤ 0x20400000 ∧ L.sidata.toNat + L.dataLength ≤ 0x400000 := by
  have horigin : 0x20000000 ≤ L.sdata.toNat := L.origin_le_sdata
  have hdata := UInt32.le_iff_toNat_le.mp L.sdata_le_edata
  have hgap := UInt32.le_iff_toNat_le.mp L.edata_le_sbss
  have hbss := UInt32.le_iff_toNat_le.mp L.sbss_le_ebss
  have htop : L.ebss.toNat ≤ 0x20400000 := L.ebss_le
  have himage : L.sidata.toNat + L.dataLength ≤ 0x400000 := L.image_le
  have hdataLength : L.dataLength = L.edata.toNat - L.sdata.toNat :=
    UInt32.toNat_sub_of_le _ _ L.sdata_le_edata
  have hbssLength : L.bssLength = L.ebss.toNat - L.sbss.toNat :=
    UInt32.toNat_sub_of_le _ _ L.sbss_le_ebss
  omega

theorem Layout.aligned : L.sdata.toNat % 4 = 0 ∧ L.dataLength % 4 = 0 ∧ L.sbss.toNat % 4 = 0 ∧
    L.bssLength % 4 = 0 := by
  have hsdata := congrArg UInt32.toNat L.sdata_aligned
  have hedata := congrArg UInt32.toNat L.edata_aligned
  have hsbss := congrArg UInt32.toNat L.sbss_aligned
  have hebss := congrArg UInt32.toNat L.ebss_aligned
  simp only [UInt32.toNat_mod, UInt32.reduceToNat] at hsdata hedata hsbss hebss
  have := L.bounds
  omega

/-- The load image and `.data` have no byte in common. -/
theorem Layout.not_lt_of_lt {a : UInt32} (h : (a - L.sidata).toNat < L.dataLength) :
    ¬ (a - L.sdata).toNat < L.dataLength := by
  have hbounds := L.bounds
  have ha := a.toNat_lt
  rw [UInt32.toNat_sub] at h ⊢
  omega

/-- An address inside a section, or at its end. -/
theorem toNat_add_ofNat {start stop : UInt32} {len length : ℕ}
    (hstop : start.toNat + length = stop.toNat) (hlen : len ≤ length) :
    (start + .ofNat len).toNat = start.toNat + len := by
  have hword := stop.toNat_lt
  rw [UInt32.toNat_add, UInt32.toNat_ofNat']
  omega

theorem add_ofNat_add_four (start : UInt32) (len : ℕ) :
    start + .ofNat len + 4 = start + .ofNat (len + 4) := by
  rw [UInt32.add_assoc, UInt32.ofNat_add]
  rfl

variable {L m}

/-- The loop invariant of the copy: the `len` bytes up to `dest` are copied. -/
structure CopyInv (L : Layout) (m : Mem) (len : ℕ) (s : Copying) : Prop where
  words : len % 4 = 0
  le : len ≤ L.dataLength
  src : s.src = L.sidata + .ofNat len
  dest : s.dest = L.sdata + .ofNat len
  mem : s.mem = moved m L.sdata L.sidata len

/-- The loop invariant of the clear: the `len` bytes up to `dest` are zero. -/
structure ClearInv (L : Layout) (m : Mem) (len : ℕ) (s : Clearing) : Prop where
  words : len % 4 = 0
  le : len ≤ L.bssLength
  dest : s.dest = L.sbss + .ofNat len
  mem : s.mem = filled m L.sbss 0 len

section Loops
variable {len : ℕ}

theorem CopyInv.toNat_dest {s : Copying} (h : CopyInv L m len s) :
    s.dest.toNat = L.sdata.toNat + len := by
  rw [h.dest, toNat_add_ofNat L.bounds.2.1 h.le]

theorem ClearInv.toNat_dest {s : Clearing} (h : ClearInv L m len s) :
    s.dest.toNat = L.sbss.toNat + len := by
  rw [h.dest, toNat_add_ofNat L.bounds.2.2.2.1 h.le]

/-- One pass copies one word, and that word is inside the section. -/
theorem CopyInv.step {s : Copying} (h : CopyInv L m len s) (hlt : s.dest < L.edata) :
    CopyInv L m (len + 4) s.pass := by
  have hdest := h.toNat_dest
  rw [UInt32.lt_iff_toNat_lt] at hlt
  obtain ⟨hwords, hle, hsrc, hdest', hmem⟩ := h
  have haligned := L.aligned
  have hbounds := L.bounds
  have hnext : len + 4 ≤ L.dataLength := by omega
  refine ⟨by omega, hnext, ?_, ?_, ?_⟩
  · rw [Copying.pass, hsrc, add_ofNat_add_four]
  · rw [Copying.pass, hdest', add_ofNat_add_four]
  · rw [Copying.pass, hsrc, hdest', hmem]
    refine moved_word (by omega) fun a ha => ?_
    have := L.not_lt_of_lt (ha.trans_le hnext)
    omega

/-- One pass clears one word, and that word is inside the section. -/
theorem ClearInv.step {s : Clearing} (h : ClearInv L m len s) (hlt : s.dest < L.ebss) :
    ClearInv L m (len + 4) s.pass := by
  have hdest := h.toNat_dest
  rw [UInt32.lt_iff_toNat_lt] at hlt
  obtain ⟨hwords, hle, hdest', hmem⟩ := h
  have haligned := L.aligned
  have hbounds := L.bounds
  refine ⟨by omega, by omega, ?_, ?_⟩
  · rw [Clearing.pass, hdest', add_ofNat_add_four]
  · rw [Clearing.pass, hdest', hmem]
    exact filled_word (by omega)

/-- A loop that walks through a section a word at a time, with an invariant that says how far
it is, ends when it has walked the whole section. -/
theorem run_section {σ : Type} (dest : σ → UInt32) {pass : σ → σ} {start stop : UInt32}
    {length : ℕ} (hstop : start.toNat + length = stop.toNat) {P : ℕ → σ → Prop}
    (hdest : ∀ len s, P len s → (dest s).toNat = start.toNat + len ∧ len ≤ length)
    (hstep : ∀ len s, P len s → dest s < stop → P (len + 4) (pass s)) {s : σ} (hs : P 0 s)
    {passes : ℕ} (hpasses : length < passes) :
    ∃ s', While.run (fun s => decide (dest s < stop)) pass passes s = some s' ∧ P length s' := by
  have hpass : ∀ s, (∃ len, P len s) → decide (dest s < stop) = true →
      (∃ len, P len (pass s)) ∧
        stop.toNat - (dest (pass s)).toNat < stop.toNat - (dest s).toNat := by
    rintro s ⟨len, hP⟩ htest
    have hlt := UInt32.lt_iff_toNat_lt.mp (of_decide_eq_true htest)
    have hnext := hstep len s hP (of_decide_eq_true htest)
    obtain ⟨hat, -⟩ := hdest len s hP
    obtain ⟨hat', -⟩ := hdest (len + 4) (pass s) hnext
    exact ⟨⟨_, hnext⟩, by omega⟩
  obtain ⟨s', hrun, ⟨len, hP⟩, hend⟩ := While.run_of_variant
    (fun s => stop.toNat - (dest s).toNat) hpass ⟨0, hs⟩
  have hge := UInt32.le_iff_toNat_le.mp (UInt32.not_lt.mp (of_decide_eq_false hend))
  obtain ⟨hat, hle⟩ := hdest len s' hP
  obtain rfl : len = length := by omega
  obtain ⟨hbegin, -⟩ := hdest 0 s hs
  exact ⟨s', hrun passes (by omega), hP⟩

/-- The first loop ends, and has copied the whole of `.data`. -/
theorem copyData_eq {passes : ℕ} (h : L.dataLength < passes) :
    copyData L passes m = some (moved m L.sdata L.sidata L.dataLength) := by
  have hstart : CopyInv L m 0 ⟨L.sidata, L.sdata, m⟩ :=
    ⟨rfl, Nat.zero_le _, (UInt32.add_zero _).symm, (UInt32.add_zero _).symm,
      (moved_zero m _ _).symm⟩
  obtain ⟨s, hrun, hinv⟩ := run_section Copying.dest L.bounds.2.1
    (fun _ _ hinv => ⟨hinv.toNat_dest, hinv.le⟩) (fun _ _ hinv => hinv.step) hstart h
  rw [copyData, hrun, Option.map_some, hinv.mem]

/-- The second loop ends, and has cleared the whole of `.bss`. -/
theorem clearBss_eq {passes : ℕ} (h : L.bssLength < passes) :
    clearBss L passes m = some (filled m L.sbss 0 L.bssLength) := by
  have hstart : ClearInv L m 0 ⟨L.sbss, m⟩ :=
    ⟨rfl, Nat.zero_le _, (UInt32.add_zero _).symm, (filled_zero m _ _).symm⟩
  obtain ⟨s, hrun, hinv⟩ := run_section Clearing.dest L.bounds.2.2.2.1
    (fun _ _ hinv => ⟨hinv.toNat_dest, hinv.le⟩) (fun _ _ hinv => hinv.step) hstart h
  rw [clearBss, hrun, Option.map_some, hinv.mem]

end Loops

/-- **Refinement.** The start-up code leaves the image, however many passes more than it
needs its loops are given. -/
theorem resetHandler_eq {passes : ℕ} (hdata : L.dataLength < passes) (hbss : L.bssLength < passes) :
    resetHandler L passes m = some (L.image m) := by
  rw [resetHandler, copyData_eq hdata]
  exact clearBss_eq hbss

/-! ## What is where -/

/-- The addresses of the sections. -/
def Layout.InData (L : Layout) (a : UInt32) : Prop := L.sdata ≤ a ∧ a < L.edata
def Layout.InBss (L : Layout) (a : UInt32) : Prop := L.sbss ≤ a ∧ a < L.ebss

theorem Layout.inData_iff {a : UInt32} : L.InData a ↔ (a - L.sdata).toNat < L.dataLength :=
  (sub_lt_iff L.bounds.2.1 a).symm

theorem Layout.inBss_iff {a : UInt32} : L.InBss a ↔ (a - L.sbss).toNat < L.bssLength :=
  (sub_lt_iff L.bounds.2.2.2.1 a).symm

theorem Layout.InData.not_inBss {a : UInt32} (h : L.InData a) : ¬ L.InBss a := by
  rintro ⟨hge, -⟩
  have hlt := UInt32.lt_iff_toNat_lt.mp h.2
  have hgap := L.edata_le_sbss
  rw [UInt32.le_iff_toNat_le] at hge hgap
  omega

theorem Layout.image_of_inData {a : UInt32} (h : L.InData a) :
    L.image m a = m (L.sidata + (a - L.sdata)) := by
  rw [Layout.image, filled_of_not_lt (fun h' => h.not_inBss (Layout.inBss_iff.mpr h')),
    moved_of_lt (Layout.inData_iff.mp h)]

theorem Layout.image_of_inBss {a : UInt32} (h : L.InBss a) : L.image m a = 0 :=
  filled_of_lt (Layout.inBss_iff.mp h)

theorem Layout.image_of_not {a : UInt32} (hdata : ¬ L.InData a) (hbss : ¬ L.InBss a) :
    L.image m a = m a := by
  rw [Layout.image, filled_of_not_lt (fun h => hbss (Layout.inBss_iff.mpr h)),
    moved_of_not_lt (fun h => hdata (Layout.inData_iff.mpr h))]

/-- A word belongs to a section with all its bytes, or with none. -/
theorem Layout.inData_add_iff {a i : UInt32} (ha : a % 4 = 0) (hi : i.toNat < 4) :
    L.InData (a + i) ↔ L.InData a := word_in_iff L.sdata_aligned L.edata_aligned ha hi

theorem Layout.inBss_add_iff {a i : UInt32} (ha : a % 4 = 0) (hi : i.toNat < 4) :
    L.InBss (a + i) ↔ L.InBss a := word_in_iff L.sbss_aligned L.ebss_aligned ha hi

/-- The load image is in neither section. -/
theorem Layout.InData.source {a i : UInt32} (h : L.InData a) (ha : a % 4 = 0) (hi : i.toNat < 4) :
    ¬ L.InData (L.sidata + (a - L.sdata) + i) ∧ ¬ L.InBss (L.sidata + (a - L.sdata) + i) := by
  have hlt := Layout.inData_iff.mp ((L.inData_add_iff ha hi).mpr h)
  have hlt' := Layout.inData_iff.mp h
  have hbounds := L.bounds
  have hle := a.toNat_lt
  simp only [Layout.InData, Layout.InBss, UInt32.le_iff_toNat_le, UInt32.lt_iff_toNat_lt,
    UInt32.toNat_add, UInt32.toNat_sub] at hlt hlt' ⊢
  omega

/-- Memory `m'` is memory `m` after the start-up code. -/
structure Started (L : Layout) (m m' : Mem) : Prop where
  /-- A word of `.data` is the word of the load image. -/
  data : ∀ a, a % 4 = 0 → L.InData a → load m' a = load m (L.sidata + (a - L.sdata))
  /-- A word of `.bss` is zero. -/
  bss : ∀ a, a % 4 = 0 → L.InBss a → load m' a = 0
  /-- Any other word is unchanged, as is any other byte, -/
  other : ∀ a, a % 4 = 0 → ¬ L.InData a → ¬ L.InBss a → load m' a = load m a
  bytes : ∀ a, ¬ L.InData a → ¬ L.InBss a → m' a = m a
  /-- and the load image, wherever it is in flash. -/
  source : ∀ a, a % 4 = 0 → L.InData a →
    load m' (L.sidata + (a - L.sdata)) = load m (L.sidata + (a - L.sdata))

theorem image_started (L : Layout) (m : Mem) : Started L m (L.image m) where
  data a ha h := load_congr fun i hi => by
    rw [Layout.image_of_inData ((L.inData_add_iff ha hi).mpr h)]
    rw [add_sub_add]
  bss a ha h := by
    have hzero : load (L.image m) a = load (fun _ => 0) a := load_congr fun i hi =>
      Layout.image_of_inBss ((L.inBss_add_iff ha hi).mpr h)
    exact hzero.trans word_zero
  other a ha hdata hbss := load_congr fun i hi => Layout.image_of_not
    (fun h => hdata ((L.inData_add_iff ha hi).mp h)) (fun h => hbss ((L.inBss_add_iff ha hi).mp h))
  bytes _ hdata hbss := Layout.image_of_not hdata hbss
  source a ha h := load_congr fun i hi => Layout.image_of_not (h.source ha hi).1 (h.source ha hi).2

/-- **Memory at start-up.** Whatever the layout and the memory before, both loops end, and
they have initialised `.data` and `.bss` and nothing else. -/
theorem reset_handler_image (L : Layout) (m : Mem) : ∃ m',
    (∃ n, ∀ passes ≥ n, resetHandler L passes m = some m') ∧ Started L m m' := by
  refine ⟨L.image m, ⟨L.dataLength + L.bssLength + 1, fun passes h => ?_⟩, image_started L m⟩
  exact resetHandler_eq (by omega) (by omega)

-- the second word of `.data`, the word of `.bss`, and one between the sections
example : (resetHandler default 4 fun a => a.toUInt8).map (fun m =>
    (load m 0x20000104, load m 0x20000120, load m 0x20000108)) =
    some (0x07060504, 0, 0x0b0a0908) := by decide

end Image

end TcpDemo.Platform
