import Mathlib.Algebra.BigOperators.Group.List.Basic
import Mathlib.Algebra.Order.Ring.Nat
import Mathlib.Order.CompletePartialOrder
import Mathlib.Order.Interval.Set.Disjoint

/-!
# Regions that tile

A region is a start and a size. Regions tile from one address to another if each starts
where the one before ends; then they are disjoint and lie in between.
-/

namespace Tiling

/-- The addresses of a region. -/
def addresses (r : ℕ × ℕ) : Set ℕ := Set.Ico r.1 (r.1 + r.2)

/-- The regions follow each other without holes from `lo` to `hi`. -/
def Tiles : ℕ → List (ℕ × ℕ) → ℕ → Prop
  | lo, [], hi => lo = hi
  | lo, r :: rs, hi => r.1 = lo ∧ Tiles (lo + r.2) rs hi

variable {lo mid hi : ℕ} {rs : List (ℕ × ℕ)}

@[simp] theorem tiles_nil : Tiles lo [] hi ↔ lo = hi := Iff.rfl
@[simp] theorem tiles_cons {r : ℕ × ℕ} :
    Tiles lo (r :: rs) hi ↔ r.1 = lo ∧ Tiles (lo + r.2) rs hi := Iff.rfl

/-- One more region, where the last one ends. -/
theorem Tiles.snoc (h : Tiles lo rs hi) (size : ℕ) : Tiles lo (rs ++ [(hi, size)]) (hi + size) := by
  induction rs generalizing lo with
  | nil => exact ⟨h.symm, by rw [tiles_nil, show lo = hi from h]⟩
  | cons r rs ih => exact ⟨h.1, ih h.2⟩

/-- Tiles fill just the space between the two ends. -/
theorem Tiles.eq_add_sum (h : Tiles lo rs hi) : hi = lo + (rs.map Prod.snd).sum := by
  induction rs generalizing lo with
  | nil => exact h.symm
  | cons r rs ih =>
    rw [List.map_cons, List.sum_cons, ← Nat.add_assoc]
    exact ih h.2

theorem Tiles.within (h : Tiles lo rs hi) {r : ℕ × ℕ} (hr : r ∈ rs) :
    lo ≤ r.1 ∧ r.1 + r.2 ≤ hi := by
  induction rs generalizing lo with
  | nil => cases hr
  | cons s rs ih =>
    obtain ⟨hstart, h⟩ := h
    rcases List.mem_cons.mp hr with rfl | hr
    · exact ⟨hstart.ge, by rw [hstart]; exact h.eq_add_sum ▸ Nat.le_add_right _ _⟩
    · obtain ⟨hlo, hhi⟩ := ih h hr
      exact ⟨(Nat.le_add_right _ _).trans hlo, hhi⟩

/-- **Tiles are disjoint.** -/
theorem Tiles.pairwise_disjoint (h : Tiles lo rs hi) :
    rs.Pairwise fun r s => Disjoint (addresses r) (addresses s) := by
  induction rs generalizing lo with
  | nil => exact .nil
  | cons r rs ih =>
    obtain ⟨hstart, h⟩ := h
    refine List.pairwise_cons.mpr ⟨fun s hs => ?_, ih h⟩
    refine Set.Ico_disjoint_Ico.mpr ?_
    rw [hstart]
    exact (min_le_left _ _).trans ((h.within hs).1.trans (le_max_right _ _))

end Tiling
