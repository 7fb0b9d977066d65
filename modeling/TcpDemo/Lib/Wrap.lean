import Mathlib.Data.Nat.ModEq

/-!
# Counters that wrap

A 32-bit counter that was advanced `n` times holds `UInt32.ofNat n`. These lemmas say
what a comparison of two such counters tells about the numbers of advances.
-/

namespace Wrap

/-- A counter that is advanced `n` more times shows no change only after whole turns. -/
theorem ofNat_add_eq_iff {m n : ℕ} : UInt32.ofNat (m + n) = UInt32.ofNat m ↔ 2 ^ 32 ∣ n := by
  rw [← UInt32.toNat_inj, UInt32.toNat_ofNat', UInt32.toNat_ofNat']
  omega

/-- A counter that is advanced `n` more times shows no change only after whole turns. -/
theorem add_ofNat_eq_iff {x : UInt32} {n : ℕ} : x + .ofNat n = x ↔ 2 ^ 32 ∣ n := by
  have h := ofNat_add_eq_iff (m := x.toNat) (n := n)
  rwa [UInt32.ofNat_add, UInt32.ofNat_toNat] at h

/-- A counter is zero after whole turns. -/
theorem ofNat_eq_zero_iff {n : ℕ} : UInt32.ofNat n = 0 ↔ 2 ^ 32 ∣ n := by
  simpa using ofNat_add_eq_iff (m := 0) (n := n)

theorem ofNat_succ (n : ℕ) : UInt32.ofNat (n + 1) = .ofNat n + 1 := UInt32.ofNat_add n 1

/-- The difference of two readings of a wrapping clock is the time between them, if that is
less than a whole turn. -/
theorem toNat_ofNat_sub {m n : ℕ} (hle : m ≤ n) (hlt : n < m + 2 ^ 32) :
    (UInt32.ofNat n - UInt32.ofNat m).toNat = n - m := by
  simp only [UInt32.toNat_sub, UInt32.toNat_ofNat']
  omega

end Wrap
