import Mathlib.Algebra.Order.Ring.Nat

/-!
# A byte memory with words

Memory is a byte for every 32-bit address, and a word is four bytes, least significant
first. A range of memory is given by its first address and its length: the address `a` is
in it if `(a - start).toNat` is less than the length, so ranges need not stop at the last
address.

## Main definitions

* `load`, `store` — a word from and to memory.
* `moved`, `filled` — memory after a range was copied, or filled with one byte.
-/

namespace Memory

/-- The contents of a 32-bit address space. -/
abbrev Mem := UInt32 → UInt8

/-! ## Words -/

/-- The word of four bytes, the first of them the least significant. -/
def word (b₀ b₁ b₂ b₃ : UInt8) : UInt32 :=
  .ofNat (b₀.toNat + 2 ^ 8 * b₁.toNat + 2 ^ 16 * b₂.toNat + 2 ^ 24 * b₃.toNat)

/-- Byte `i` of a word. -/
def byte (w : UInt32) (i : ℕ) : UInt8 := .ofNat (w.toNat / 2 ^ (8 * i))

/-- The word at `p`. -/
def load (m : Mem) (p : UInt32) : UInt32 := word (m p) (m (p + 1)) (m (p + 2)) (m (p + 3))

/-- Store the word `w` at `p`. -/
def store (m : Mem) (p w : UInt32) : Mem :=
  fun a => if (a - p).toNat < 4 then byte w (a - p).toNat else m a

theorem toNat_word (b₀ b₁ b₂ b₃ : UInt8) : (word b₀ b₁ b₂ b₃).toNat =
    b₀.toNat + 2 ^ 8 * b₁.toNat + 2 ^ 16 * b₂.toNat + 2 ^ 24 * b₃.toNat := by
  have h₀ := b₀.toNat_lt
  have h₁ := b₁.toNat_lt
  have h₂ := b₂.toNat_lt
  have h₃ := b₃.toNat_lt
  rw [word, UInt32.toNat_ofNat']
  omega

/-- The bytes of a word that was made of bytes. -/
theorem byte_word (b₀ b₁ b₂ b₃ : UInt8) :
    byte (word b₀ b₁ b₂ b₃) 0 = b₀ ∧ byte (word b₀ b₁ b₂ b₃) 1 = b₁ ∧
    byte (word b₀ b₁ b₂ b₃) 2 = b₂ ∧ byte (word b₀ b₁ b₂ b₃) 3 = b₃ := by
  have h₀ := b₀.toNat_lt
  have h₁ := b₁.toNat_lt
  have h₂ := b₂.toNat_lt
  have h₃ := b₃.toNat_lt
  simp only [byte, toNat_word, ← UInt8.toNat_inj, UInt8.toNat_ofNat']
  omega

@[simp] theorem byte_zero (i : ℕ) : byte 0 i = 0 := by
  rw [byte, show (0 : UInt32).toNat = 0 from rfl, Nat.zero_div]
  rfl

@[simp] theorem word_zero : word 0 0 0 0 = 0 := rfl

/-- The bytes of a word in memory. -/
theorem byte_load (m : Mem) (p i : UInt32) (hi : i.toNat < 4) :
    byte (load m p) i.toNat = m (p + i) := by
  obtain ⟨h₀, h₁, h₂, h₃⟩ := byte_word (m p) (m (p + 1)) (m (p + 2)) (m (p + 3))
  have hcases : i = 0 ∨ i = 1 ∨ i = 2 ∨ i = 3 := by
    simp only [← UInt32.toNat_inj, UInt32.reduceToNat]
    omega
  rcases hcases with rfl | rfl | rfl | rfl
  · exact h₀.trans (by rw [UInt32.add_zero])
  · exact h₁
  · exact h₂
  · exact h₃

/-- A word that is copied. -/
theorem store_load (m m' : Mem) (p q : UInt32) :
    store m p (load m' q) = fun a => if (a - p).toNat < 4 then m' (q + (a - p)) else m a := by
  funext a
  rw [store]
  split
  · rename_i h
    exact byte_load m' q (a - p) h
  · rfl

/-- Two memories that agree on four bytes have the same word there. -/
theorem load_congr {m m' : Mem} {p q : UInt32}
    (h : ∀ i : UInt32, i.toNat < 4 → m (p + i) = m' (q + i)) : load m p = load m' q := by
  have h₀ := h 0 (by decide)
  rw [UInt32.add_zero, UInt32.add_zero] at h₀
  rw [load, load, h₀, h 1 (by decide), h 2 (by decide), h 3 (by decide)]

/-- A word is made of its bytes. -/
theorem word_byte (w : UInt32) : word (byte w 0) (byte w 1) (byte w 2) (byte w 3) = w := by
  have hw := w.toNat_lt
  rw [← UInt32.toNat_inj, toNat_word]
  simp only [byte, UInt8.toNat_ofNat']
  omega

theorem store_of_lt {m : Mem} {p w a : UInt32} (h : (a - p).toNat < 4) :
    store m p w a = byte w (a - p).toNat := if_pos h

theorem store_of_not_lt {m : Mem} {p w a : UInt32} (h : ¬ (a - p).toNat < 4) :
    store m p w a = m a := if_neg h

/-- What is loaded is what was stored. -/
theorem load_store (m : Mem) (p w : UInt32) : load (store m p w) p = w := by
  have hbyte : ∀ i : UInt32, i.toNat < 4 → store m p w (p + i) = byte w i.toNat := by
    intro i hi
    have hoffset : p + i - p = i := by rw [UInt32.add_comm, UInt32.add_sub_cancel]
    rw [store_of_lt (by rw [hoffset]; exact hi), hoffset]
  have hfirst := hbyte 0 (by decide)
  rw [UInt32.add_zero] at hfirst
  rw [load, hfirst, hbyte 1 (by decide), hbyte 2 (by decide), hbyte 3 (by decide)]
  exact word_byte w

/-- A byte that is no part of a word does not change it. -/
theorem load_update {m : Mem} {p a : UInt32} {b : UInt8} (h : ¬ (a - p).toNat < 4) :
    load (Function.update m a b) p = load m p := by
  refine load_congr fun i hi => Function.update_of_ne ?_ _ _
  rintro rfl
  rw [UInt32.add_comm, UInt32.add_sub_cancel] at h
  exact h hi

/-! ## Ranges -/

/-- `len` bytes from `src` on are copied to the bytes from `dest` on. -/
def moved (m : Mem) (dest src : UInt32) (len : ℕ) : Mem :=
  fun a => if (a - dest).toNat < len then m (src + (a - dest)) else m a

/-- `len` bytes from `dest` on are set to `b`. -/
def filled (m : Mem) (dest : UInt32) (b : UInt8) (len : ℕ) : Mem :=
  fun a => if (a - dest).toNat < len then b else m a

section Ranges
variable (m : Mem) (dest src : UInt32)

@[simp] theorem moved_zero : moved m dest src 0 = m := rfl
@[simp] theorem filled_zero (b : UInt8) : filled m dest b 0 = m := rfl

variable {m dest src} {a : UInt32} {len : ℕ}

theorem moved_of_lt (h : (a - dest).toNat < len) :
    moved m dest src len a = m (src + (a - dest)) := if_pos h

theorem moved_of_not_lt (h : ¬ (a - dest).toNat < len) : moved m dest src len a = m a := if_neg h

theorem filled_of_lt {b : UInt8} (h : (a - dest).toNat < len) :
    filled m dest b len a = b := if_pos h

theorem filled_of_not_lt {b : UInt8} (h : ¬ (a - dest).toNat < len) :
    filled m dest b len a = m a := if_neg h

/-- The addresses from the first one of a range to the end of it. -/
theorem sub_lt_iff {start stop : UInt32} (h : start.toNat + len = stop.toNat) (a : UInt32) :
    (a - start).toNat < len ↔ start ≤ a ∧ a < stop := by
  have ha := a.toNat_lt
  have hstop := stop.toNat_lt
  rw [UInt32.le_iff_toNat_le, UInt32.lt_iff_toNat_lt, UInt32.toNat_sub]
  omega

/-- A range of whole words holds all the bytes of a word, or none. -/
theorem word_in_iff {start stop a i : UInt32} (hstart : start % 4 = 0) (hstop : stop % 4 = 0)
    (ha : a % 4 = 0) (hi : i.toNat < 4) :
    (start ≤ a + i ∧ a + i < stop) ↔ start ≤ a ∧ a < stop := by
  have hlt := a.toNat_lt
  have hstop' := stop.toNat_lt
  replace hstart := congrArg UInt32.toNat hstart
  replace hstop := congrArg UInt32.toNat hstop
  replace ha := congrArg UInt32.toNat ha
  simp only [UInt32.toNat_mod, UInt32.reduceToNat] at hstart hstop ha
  simp only [UInt32.le_iff_toNat_le, UInt32.lt_iff_toNat_lt, UInt32.toNat_add]
  omega

/-- The address is in the word behind the first `len` bytes of the range. -/
theorem sub_word_lt_iff (dest a : UInt32) {len : ℕ} (hlen : len + 4 ≤ 2 ^ 32) :
    (a - (dest + .ofNat len)).toNat < 4 ↔
      len ≤ (a - dest).toNat ∧ (a - dest).toNat < len + 4 := by
  have ha := a.toNat_lt
  have hdest := dest.toNat_lt
  simp only [UInt32.toNat_sub, UInt32.toNat_add, UInt32.toNat_ofNat']
  omega

theorem add_sub_word : src + .ofNat len + (a - (dest + .ofNat len)) = src + (a - dest) := by
  have hdest := dest.toNat_lt
  rw [← UInt32.toNat_inj]
  simp only [UInt32.toNat_sub, UInt32.toNat_add, UInt32.toNat_ofNat']
  omega

/-- The address in the source that belongs to one in the destination moves on with it. -/
theorem add_sub_add (i : UInt32) : src + (a + i - dest) = src + (a - dest) + i := by
  have hdest := dest.toNat_lt
  rw [← UInt32.toNat_inj]
  simp only [UInt32.toNat_sub, UInt32.toNat_add]
  omega

/-- One more word is copied, from where nothing has been copied to. -/
theorem moved_word (hlen : len + 4 ≤ 2 ^ 32)
    (hfresh : ∀ a, (a - src).toNat < len + 4 → ¬ (a - dest).toNat < len) :
    store (moved m dest src len) (dest + .ofNat len)
      (load (moved m dest src len) (src + .ofNat len)) = moved m dest src (len + 4) := by
  have hread : load (moved m dest src len) (src + .ofNat len) = load m (src + .ofNat len) := by
    refine load_congr fun i hi => moved_of_not_lt (hfresh _ ?_)
    have hsrc := src.toNat_lt
    simp only [UInt32.toNat_sub, UInt32.toNat_add, UInt32.toNat_ofNat']
    omega
  rw [hread, store_load]
  funext a
  have hword := sub_word_lt_iff dest a hlen
  by_cases hin : (a - (dest + .ofNat len)).toNat < 4
  · rw [if_pos hin, moved_of_lt (hword.mp hin).2, add_sub_word]
  · rw [if_neg hin]
    by_cases hlt : (a - dest).toNat < len
    · rw [moved_of_lt hlt, moved_of_lt (by omega)]
    · rw [moved_of_not_lt hlt, moved_of_not_lt (by omega)]

/-- One more word is set to zero. -/
theorem filled_word (hlen : len + 4 ≤ 2 ^ 32) :
    store (filled m dest 0 len) (dest + .ofNat len) 0 = filled m dest 0 (len + 4) := by
  funext a
  have hword := sub_word_lt_iff dest a hlen
  by_cases hin : (a - (dest + .ofNat len)).toNat < 4
  · rw [store, if_pos hin, byte_zero, filled_of_lt (hword.mp hin).2]
  · rw [store, if_neg hin]
    by_cases hlt : (a - dest).toNat < len
    · rw [filled_of_lt hlt, filled_of_lt (by omega)]
    · rw [filled_of_not_lt hlt, filled_of_not_lt (by omega)]

end Ranges

end Memory
