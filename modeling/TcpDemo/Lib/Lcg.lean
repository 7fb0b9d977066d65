import Mathlib.Data.Fintype.EquivFin
import Mathlib.Data.Nat.Count
import Mathlib.Data.Nat.ModEq
import Mathlib.Data.Nat.Prime.Basic
import Mathlib.Order.Interval.Finset.Nat
import Mathlib.Tactic.Common
import Mathlib.Tactic.Ring

/-!
# Linear congruential generators modulo a power of two

The generator `x ↦ a * x + c` modulo `2 ^ k`, for a multiplier that is `1` modulo `4`
and an odd increment. Its iterates are kept as natural numbers and compared modulo
`2 ^ k`, so that one theorem speaks about all `k` at once: the low `k` bits of the state
return after `n` steps if and only if `2 ^ k` divides `n`.

## Main definitions

* `affine a c` — one step, without reduction.
* `geom a n` — the sum of the first `n` powers of `a`.
* `iterate_modEq_self_iff` — when a state returns modulo `2 ^ k`.
* `exists_iterate_modEq` — every residue is reached from every state.
* `count_iterate_mod` — in one period every residue is met once.
-/

namespace Lcg

/-- One step of the generator, without reduction. -/
def affine (a c x : ℕ) : ℕ := a * x + c

/-- The sum of the first `n` powers of `a`. -/
def geom (a : ℕ) : ℕ → ℕ
  | 0 => 0
  | n + 1 => 1 + a * geom a n

variable {a c : ℕ}

theorem geom_add (m n : ℕ) : geom a (m + n) = geom a m + a ^ m * geom a n := by
  induction m with
  | zero => simp [geom]
  | succ m ih =>
    rw [Nat.add_right_comm, geom, geom, ih]
    ring

/-- The iterates, relative to the state they start from. -/
theorem iterate_affine_eq (ha : 1 ≤ a) (n x : ℕ) :
    (affine a c)^[n] x = x + ((a - 1) * x + c) * geom a n := by
  obtain ⟨b, rfl⟩ := Nat.exists_eq_add_of_le ha
  induction n with
  | zero => simp [geom]
  | succ n ih =>
    rw [Function.iterate_succ_apply', ih, affine, geom, Nat.add_sub_cancel_left]
    ring

/-! ## Powers of two in the sum -/

theorem pow_mod_four (ha : a % 4 = 1) (m : ℕ) : a ^ m % 4 = 1 := by
  rw [Nat.pow_mod, ha]
  simp

theorem geom_mod_two (ha : a % 4 = 1) (n : ℕ) : geom a n % 2 = n % 2 := by
  have hodd : a % 2 = 1 := by omega
  induction n with
  | zero => rfl
  | succ n ih =>
    rw [geom, Nat.add_mod, Nat.mul_mod, hodd, ih]
    omega

/-- A power of two divides the sum of the first `n` powers of `a` if and only if it
divides `n`. -/
theorem two_pow_dvd_geom_iff (ha : a % 4 = 1) (k n : ℕ) : 2 ^ k ∣ geom a n ↔ 2 ^ k ∣ n := by
  induction k generalizing n with
  | zero => simp
  | succ k ih =>
    have htwo : 2 ∣ 2 ^ (k + 1) := dvd_pow_self 2 (Nat.succ_ne_zero k)
    have hmod := geom_mod_two ha n
    rcases Nat.even_or_odd' n with ⟨m, rfl | rfl⟩
    · -- an even number of terms: the two halves differ by an odd multiple of two
      have hpow := pow_mod_four ha m
      obtain ⟨t, ht⟩ : ∃ t, a ^ m + 1 = 2 * (2 * t + 1) := ⟨a ^ m / 4, by omega⟩
      have hgeom : geom a (2 * m) = 2 * (geom a m * (2 * t + 1)) := by
        rw [Nat.two_mul m, geom_add]
        calc geom a m + a ^ m * geom a m = geom a m * (a ^ m + 1) := by ring
          _ = 2 * (geom a m * (2 * t + 1)) := by rw [ht]; ring
      have hcop : Nat.Coprime (2 ^ k) (2 * t + 1) :=
        Nat.Coprime.pow_left k (by simp)
      rw [hgeom, Nat.pow_succ', Nat.mul_dvd_mul_iff_left (by decide),
        Nat.mul_dvd_mul_iff_left (by decide), hcop.dvd_mul_right]
      exact ih m
    · constructor
      · intro h
        have := htwo.trans h
        omega
      · intro h
        have := htwo.trans h
        omega

/-! ## The period -/

/-- **The low bits return** after `n` steps if and only if `2 ^ k` divides `n`. -/
theorem iterate_modEq_self_iff (ha : a % 4 = 1) (hc : c % 2 = 1) (k n x : ℕ) :
    (affine a c)^[n] x ≡ x [MOD 2 ^ k] ↔ 2 ^ k ∣ n := by
  have hodd : ((a - 1) * x + c) % 2 = 1 := by
    obtain ⟨b, hb⟩ : ∃ b, a - 1 = 2 * b := ⟨(a - 1) / 2, by omega⟩
    rw [hb, Nat.mul_assoc]
    omega
  have hcop : Nat.Coprime (2 ^ k) ((a - 1) * x + c) :=
    Nat.Coprime.pow_left k (Nat.coprime_two_left.mpr (Nat.odd_iff.mpr hodd))
  rw [iterate_affine_eq (by omega), ← two_pow_dvd_geom_iff ha, ← hcop.dvd_mul_left,
    Nat.ModEq.comm, Nat.modEq_iff_dvd' (Nat.le_add_right _ _), Nat.add_sub_cancel_left]

/-- Two moments of one orbit agree modulo `2 ^ k` if and only if their times do. -/
theorem iterate_modEq_iterate_iff (ha : a % 4 = 1) (hc : c % 2 = 1) (k m n x : ℕ) :
    (affine a c)^[m] x ≡ (affine a c)^[n] x [MOD 2 ^ k] ↔ m ≡ n [MOD 2 ^ k] := by
  wlog h : m ≤ n generalizing m n
  · rw [Nat.ModEq.comm, this n m (by omega), Nat.ModEq.comm]
  obtain ⟨d, rfl⟩ := Nat.exists_eq_add_of_le h
  rw [Nat.add_comm m d, Function.iterate_add_apply, Nat.ModEq.comm,
    iterate_modEq_self_iff ha hc, Nat.modEq_iff_dvd' (Nat.le_add_left _ _), Nat.add_sub_cancel]

/-- **Every residue is reached** from every state. -/
theorem exists_iterate_modEq (ha : a % 4 = 1) (hc : c % 2 = 1) (k x y : ℕ) :
    ∃ n, (affine a c)^[n] x ≡ y [MOD 2 ^ k] := by
  have hpos : 0 < 2 ^ k := Nat.two_pow_pos k
  let orbit : Fin (2 ^ k) → Fin (2 ^ k) := fun n =>
    ⟨(affine a c)^[n] x % 2 ^ k, Nat.mod_lt _ hpos⟩
  have hinj : Function.Injective orbit := by
    intro m n h
    have hmod : (m : ℕ) ≡ n [MOD 2 ^ k] :=
      (iterate_modEq_iterate_iff ha hc k m n x).mp (Fin.val_eq_of_eq h)
    exact Fin.ext (Nat.ModEq.eq_of_lt_of_lt hmod m.isLt n.isLt)
  obtain ⟨n, hn⟩ := Finite.surjective_of_injective hinj ⟨y % 2 ^ k, Nat.mod_lt _ hpos⟩
  exact ⟨n, Fin.val_eq_of_eq hn⟩

/-! ## Counting over one period -/

/-- **Every residue is met once** in a period: as many of `2 ^ k` successive states have
low bits with the property `p` as there are residues with it. -/
theorem count_iterate_mod (ha : a % 4 = 1) (hc : c % 2 = 1) (k x : ℕ) (p : ℕ → Prop)
    [DecidablePred p] :
    Nat.count (fun n => p ((affine a c)^[n] x % 2 ^ k)) (2 ^ k) = Nat.count p (2 ^ k) := by
  obtain ⟨orbit, horbit⟩ : ∃ orbit : ℕ → ℕ, ∀ n, orbit n = (affine a c)^[n] x % 2 ^ k :=
    ⟨_, fun _ => rfl⟩
  have hinj : Set.InjOn orbit (Finset.range (2 ^ k)) := by
    intro m hm n hn h
    rw [horbit, horbit] at h
    have hmod := (iterate_modEq_iterate_iff ha hc k m n x).mp h
    exact hmod.eq_of_lt_of_lt (Finset.mem_range.mp hm) (Finset.mem_range.mp hn)
  have himage : (Finset.range (2 ^ k)).image orbit = Finset.range (2 ^ k) := by
    refine Finset.eq_of_subset_of_card_le ?_ (Finset.card_image_of_injOn hinj).ge
    intro y hy
    obtain ⟨n, -, rfl⟩ := Finset.mem_image.mp hy
    rw [horbit]
    exact Finset.mem_range.mpr (Nat.mod_lt _ (Nat.two_pow_pos k))
  have hsub : {n ∈ Finset.range (2 ^ k) | p (orbit n)} ⊆ Finset.range (2 ^ k) :=
    Finset.filter_subset _ _
  simp only [← horbit, Nat.count_eq_card_filter_range]
  calc {n ∈ Finset.range (2 ^ k) | p (orbit n)}.card
      = ({n ∈ Finset.range (2 ^ k) | p (orbit n)}.image orbit).card :=
        (Finset.card_image_of_injOn (hinj.mono hsub)).symm
    _ = {y ∈ Finset.range (2 ^ k) | p y}.card := by rw [← Finset.filter_image, himage]

/-- Of the numbers below `d * n`, as many as `d` have a given quotient. -/
theorem count_div_eq {d n v : ℕ} (hv : v < n) : Nat.count (fun y => y / d = v) (d * n) = d := by
  rcases Nat.eq_zero_or_pos d with rfl | hd
  · rw [Nat.zero_mul, Nat.count_zero]
  have hfilter : {y ∈ Finset.range (d * n) | y / d = v} = Finset.Ico (d * v) (d * v + d) := by
    have hle : d * (v + 1) ≤ d * n := Nat.mul_le_mul_left d hv
    ext y
    rw [Finset.mem_filter, Finset.mem_range, Finset.mem_Ico, Nat.div_eq_iff hd, Nat.mul_comm v d]
    rw [Nat.mul_succ] at hle
    omega
  rw [Nat.count_eq_card_filter_range, hfilter, Nat.card_Ico, Nat.add_sub_cancel_left]

end Lcg
