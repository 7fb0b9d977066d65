import TcpDemo.Lib.Lcg

/-!
# Random numbers

`uxRand` from `platform/main_networking.c`, the generator behind
`xApplicationGetRandomNumber` and the sequence numbers of TCP, with the static
`ulNextRand` passed in and out. `uxRand_equidistributed` is about its quality: from every
seed and every moment on, each output comes equally often, and the state has full period.
-/

namespace TcpDemo.Platform

/-- `uxRand`: the number returned, and the new `ulNextRand`. -/
def uxRand (ulNextRand : UInt32) : UInt32 × UInt32 :=
  let ulNextRand := 0x015a4e35 * ulNextRand + 1
  ((ulNextRand >>> 16) &&& 0x7fff, ulNextRand)

/-- `prvSRand`: the new `ulNextRand`. -/
def prvSRand (ulSeed : UInt32) : UInt32 := ulSeed

/-- `xApplicationGetRandomNumber`: the number stored, and the new `ulNextRand`. It always
returns `pdTRUE`. -/
def xApplicationGetRandomNumber (ulNextRand : UInt32) : UInt32 × UInt32 := uxRand ulNextRand

/-- `ulNextRand` after `n` calls of `uxRand`. -/
def advance : ℕ → UInt32 → UInt32
  | 0, s => s
  | n + 1, s => advance n (uxRand s).2

/-- What the `n`-th call of `uxRand` from now on returns, counting from zero. -/
def draw (ulNextRand : UInt32) (n : ℕ) : UInt32 := (uxRand (advance n ulNextRand)).1

theorem advance_add (m n : ℕ) (s : UInt32) : advance (m + n) s = advance n (advance m s) := by
  induction m generalizing s with
  | zero => rw [Nat.zero_add]; rfl
  | succ m ih => rw [Nat.succ_add]; exact ih (uxRand s).2

theorem advance_succ (n : ℕ) (s : UInt32) : advance (n + 1) s = (uxRand (advance n s)).2 :=
  advance_add n 1 s

/-- The state follows the generator modulo `2 ^ 32`. -/
theorem toNat_advance (n : ℕ) (s : UInt32) :
    (advance n s).toNat ≡ (Lcg.affine 0x015a4e35 1)^[n] s.toNat [MOD 2 ^ 32] := by
  induction n with
  | zero => rfl
  | succ n ih =>
    rw [advance_succ, Function.iterate_succ_apply']
    have hstep : (uxRand (advance n s)).2.toNat ≡
        Lcg.affine 0x015a4e35 1 (advance n s).toNat [MOD 2 ^ 32] := by
      simp [uxRand, Lcg.affine, Nat.ModEq]
    exact hstep.trans ((ih.mul_left _).add_right _)

/-- **Every state is reached** from every state. -/
theorem exists_advance_eq (s t : UInt32) : ∃ n, advance n s = t := by
  obtain ⟨n, hn⟩ := Lcg.exists_iterate_modEq (show 0x015a4e35 % 4 = 1 from rfl)
    (show 1 % 2 = 1 from rfl) 32 s.toNat t.toNat
  refine ⟨n, UInt32.toNat_inj.mp ?_⟩
  exact Nat.ModEq.eq_of_lt_of_lt ((toNat_advance n s).trans hn) (UInt32.toNat_lt _)
    (UInt32.toNat_lt _)

/-- What is drawn are the bits of the next state from the sixteenth to the thirtieth. -/
theorem toNat_draw (s : UInt32) (n : ℕ) :
    (draw s n).toNat = (advance (n + 1) s).toNat % 2 ^ 31 / 2 ^ 16 := by
  have hout : draw s n = ((uxRand (advance n s)).2 >>> 16) &&& 0x7fff := rfl
  have hmask : ∀ y, y &&& 0x7fff = y % 2 ^ 15 := fun y => Nat.and_two_pow_sub_one_eq_mod y 15
  rw [hout, ← advance_succ]
  simp only [UInt32.toNat_and, UInt32.toNat_shiftRight, UInt32.reduceToNat, hmask,
    Nat.shiftRight_eq_div_pow, Nat.reduceMod, Nat.reducePow]
  omega

theorem toNat_draw_lt (s : UInt32) (n : ℕ) : (draw s n).toNat < 2 ^ 15 := by
  rw [toNat_draw]
  omega

/-- Every 15-bit number is drawn sooner or later. -/
theorem exists_draw_eq (s : UInt32) {x : UInt32} (hx : x.toNat < 2 ^ 15) :
    ∃ n, draw s n = x := by
  obtain ⟨n, hn⟩ := exists_advance_eq (uxRand s).2 (x <<< 16)
  refine ⟨n, UInt32.toNat_inj.mp ?_⟩
  have hnext : advance (n + 1) s = x <<< 16 := hn
  rw [toNat_draw, hnext, UInt32.toNat_shiftLeft]
  simp only [UInt32.reduceToNat, Nat.shiftLeft_eq, Nat.reduceMod, Nat.reducePow]
  omega

/-! ## Quality -/

/-- The state returns after `n` calls if and only if `2 ^ 32` divides `n`. -/
theorem advance_eq_self_iff (n : ℕ) (s : UInt32) : advance n s = s ↔ 2 ^ 32 ∣ n := by
  have hperiod := Lcg.iterate_modEq_self_iff (show 0x015a4e35 % 4 = 1 from rfl)
    (show 1 % 2 = 1 from rfl) 32 n s.toNat
  rw [← hperiod]
  constructor
  · intro h
    have hstate := toNat_advance n s
    rw [h] at hstate
    exact hstate.symm
  · intro h
    exact UInt32.toNat_inj.mp (((toNat_advance n s).trans h).eq_of_lt_of_lt (UInt32.toNat_lt _)
      (UInt32.toNat_lt _))

/-- In `2 ^ 31` successive calls each 15-bit number is drawn equally often. -/
theorem count_draw_eq (s : UInt32) {v : UInt32} (hv : v ≤ 0x7fff) :
    Nat.count (fun i => draw s i = v) (2 ^ 31) = 65536 := by
  have hlow (i : ℕ) : (advance i (advance 1 s)).toNat % 2 ^ 31 =
      (Lcg.affine 0x015a4e35 1)^[i] (advance 1 s).toNat % 2 ^ 31 :=
    (toNat_advance i (advance 1 s)).of_dvd (pow_dvd_pow 2 (by decide))
  have hdraw (i : ℕ) : draw s i = v ↔
      (Lcg.affine 0x015a4e35 1)^[i] (advance 1 s).toNat % 2 ^ 31 / 2 ^ 16 = v.toNat := by
    rw [← UInt32.toNat_inj, toNat_draw, Nat.add_comm i 1, advance_add, hlow]
  have hlt : v.toNat < 2 ^ 15 := Nat.lt_succ_of_le (UInt32.le_iff_toNat_le.mp hv)
  simp only [hdraw]
  rw [Lcg.count_iterate_mod (show 0x015a4e35 % 4 = 1 from rfl) (show 1 % 2 = 1 from rfl) 31 _
    fun y => y / 2 ^ 16 = v.toNat, show 2 ^ 31 = 2 ^ 16 * 2 ^ 15 by rw [← Nat.pow_add]]
  exact Lcg.count_div_eq hlt

/-- **The generator is as good as its length allows.** From every seed and every moment
on, `2 ^ 31` calls return each 15-bit number `65536` times, and the state is the same
again after `2 ^ 32` calls and not before. -/
theorem uxRand_equidistributed (ulSeed : UInt32) (n : ℕ) :
    (∀ v : UInt32, v ≤ 0x7fff →
      Nat.count (fun i => draw (prvSRand ulSeed) (n + i) = v) (2 ^ 31) = 65536) ∧
    advance (n + 2 ^ 32) (prvSRand ulSeed) = advance n (prvSRand ulSeed) ∧
    ∀ m, 0 < m → m < 2 ^ 32 →
      advance (n + m) (prvSRand ulSeed) ≠ advance n (prvSRand ulSeed) := by
  refine ⟨fun v hv => ?_, ?_, fun m hpos hlt => ?_⟩
  · simp only [draw, advance_add]
    exact count_draw_eq _ hv
  · rw [advance_add, advance_eq_self_iff]
  · rw [advance_add, Ne, advance_eq_self_iff]
    exact Nat.not_dvd_of_pos_of_lt hpos hlt

end TcpDemo.Platform
