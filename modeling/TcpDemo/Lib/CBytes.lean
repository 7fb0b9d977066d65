import Mathlib.Data.List.TakeWhile
import Mathlib.Data.List.TakeDrop
import Mathlib.Tactic.Common

/-!
# Byte arrays and C strings

A `Buffer n` is a C array of `n` bytes: its length is a field, so no write can change
it, and bytes written past the end are dropped. A C string is read out of an array
as the bytes in front of the first NUL (`cstr`), and `strncmp` compares two of them.

## Main definitions

* `Buffer n`, `Buffer.write` — an array of `n` bytes and a copy into it.
* `cstr`, `strncmp` — the string at the start of an array, and its comparison.
* `snprintfStored` — what a bounded print stores.
-/

namespace CBytes

/-- The bytes of a string constant, without the terminating NUL. -/
def ascii (s : String) : List UInt8 := s.toList.map fun c => c.toNat.toUInt8

/-! ## Strings -/

/-- The C string at the start of an array: the bytes in front of the first NUL. -/
def cstr (a : List UInt8) : List UInt8 := a.takeWhile (· ≠ 0)

/-- Compare at most `n` bytes, up to a NUL. Reads past the end of an array, which a
C program must not make, compare as equal. -/
def strncmp : List UInt8 → List UInt8 → ℕ → ℤ
  | _, _, 0 => 0
  | x :: xs, y :: ys, n + 1 =>
      if x ≠ y then (x.toNat : ℤ) - y.toNat else if x = 0 then 0 else strncmp xs ys n
  | _, _, _ + 1 => 0

@[simp] theorem cstr_nil : cstr [] = [] := rfl

theorem cstr_cons (x : UInt8) (a : List UInt8) :
    cstr (x :: a) = if x = 0 then [] else x :: cstr a := by
  by_cases hx : x = 0 <;> simp [cstr, hx]

theorem cstr_isPrefix (a : List UInt8) : cstr a <+: a := List.takeWhile_prefix _

/-- A NUL ends the string. -/
theorem cstr_append_nul {a : List UInt8} (b : List UInt8) : cstr (a ++ 0 :: b) = cstr a := by
  induction a with
  | nil => simp [cstr_cons]
  | cons x a ih => simp only [List.cons_append, cstr_cons, ih]

theorem cstr_eq_self {a : List UInt8} (h : 0 ∉ a) : cstr a = a := by
  rw [cstr, List.takeWhile_eq_self_iff]
  intro x hx
  simpa using fun h0 : x = 0 => h (h0 ▸ hx)

theorem zero_notMem_cstr (a : List UInt8) : 0 ∉ cstr a := by
  intro h
  simpa using List.mem_takeWhile_imp h

/-- The string at the start of a part of an array. -/
theorem cstr_take (a : List UInt8) (n : ℕ) : cstr (a.take n) = (cstr a).take n := by
  induction a generalizing n with
  | nil => simp
  | cons x a ih =>
    cases n with
    | zero => simp
    | succ n => by_cases hx : x = 0 <;> simp [cstr_cons, hx, ih]

/-- Within the string, a part of the array is a part of the string. -/
theorem take_cstr_of_le {a : List UInt8} {n : ℕ} (h : n ≤ (cstr a).length) :
    (cstr a).take n = a.take n := by
  conv_lhs => rw [List.prefix_iff_eq_take.mp (cstr_isPrefix a)]
  rw [List.take_take, Nat.min_eq_left h]

/-- A string that does not fill its array has a NUL behind it. -/
theorem take_length_cstr {a : List UInt8} (h : (cstr a).length < a.length) :
    a.take ((cstr a).length + 1) = cstr a ++ [0] := by
  induction a with
  | nil => simp at h
  | cons x a ih =>
    by_cases hx : x = 0
    · simp [cstr_cons, hx]
    · simp only [cstr_cons, if_neg hx, List.length_cons, Nat.add_lt_add_iff_right] at h
      simp [cstr_cons, hx, ih h]

/-- `strncmp` looks at the first `n` bytes of each array only. -/
theorem strncmp_take (a b : List UInt8) (n : ℕ) :
    strncmp (a.take n) (b.take n) n = strncmp a b n := by
  induction n generalizing a b with
  | zero => cases a <;> cases b <;> rfl
  | succ n ih => cases a <;> cases b <;> simp [strncmp, ih]

/-- **`strncmp` reports equality** exactly when the strings agree within `n` bytes. -/
theorem strncmp_eq_zero_iff {a b : List UInt8} {n : ℕ} (ha : n ≤ a.length) (hb : n ≤ b.length) :
    strncmp a b n = 0 ↔ cstr (a.take n) = cstr (b.take n) := by
  induction n generalizing a b with
  | zero => simp [strncmp]
  | succ n ih =>
    cases a with
    | nil => simp at ha
    | cons x a =>
      cases b with
      | nil => simp at hb
      | cons y b =>
        have hn : n ≤ a.length ∧ n ≤ b.length := by simpa using And.intro ha hb
        by_cases hxy : x = y
        · subst hxy
          by_cases hx : x = 0 <;> simp [strncmp, cstr_cons, hx, ih hn.1 hn.2]
        · have hne : (x.toNat : ℤ) - y.toNat ≠ 0 := by
            intro h0
            exact hxy (UInt8.toNat_inj.mp (by omega))
          have hstr : cstr (x :: a.take n) ≠ cstr (y :: b.take n) := by
            simp only [cstr_cons]
            split <;> split <;> simp_all
          simp only [strncmp, if_pos hxy, List.take_succ_cons, hne, hstr]

/-- An array starts with a text without NUL if and only if its string does. -/
theorem isPrefix_cstr_iff {s a : List UInt8} (hs : 0 ∉ s) : s <+: cstr a ↔ s <+: a := by
  constructor
  · exact fun h => h.trans (cstr_isPrefix a)
  · rintro ⟨t, rfl⟩
    have hall : ∀ x ∈ s, decide (x ≠ 0) = true := by
      intro x hx
      simpa using fun h0 : x = 0 => hs (h0 ▸ hx)
    rw [cstr, List.takeWhile_append_of_pos hall]
    exact List.prefix_append _ _

/-- `strncmp` with a string constant, over its length, tests for a prefix. -/
theorem strncmp_constant {a s : List UInt8} (hs : 0 ∉ s) (ha : s.length ≤ a.length) :
    strncmp a (s ++ [0]) s.length = 0 ↔ s <+: a := by
  rw [strncmp_eq_zero_iff ha (by simp), List.take_left, cstr_eq_self hs, cstr_take,
    ← isPrefix_cstr_iff hs, List.prefix_iff_eq_take, eq_comm]

/-! ## Arrays -/

/-- A C array of `n` bytes. -/
structure Buffer (n : ℕ) where
  bytes : List UInt8
  length_eq : bytes.length = n
  deriving DecidableEq

namespace Buffer
variable {n : ℕ}

attribute [simp] length_eq

@[ext] theorem ext {a b : Buffer n} (h : a.bytes = b.bytes) : a = b := by
  cases a; cases b; simpa using h

/-- An array filled with one byte. -/
def replicate (n : ℕ) (x : UInt8) : Buffer n := ⟨List.replicate n x, by simp⟩

/-- Copy `data` to the bytes from `off` on. -/
def write (b : Buffer n) (off : ℕ) (data : List UInt8) : Buffer n where
  bytes := (b.bytes.take off ++ data ++ b.bytes.drop (off + data.length)).take n
  length_eq := by
    simp only [List.length_take, List.length_append, List.length_drop, length_eq]
    omega

@[simp] theorem bytes_replicate (x : UInt8) : (replicate n x).bytes = List.replicate n x := rfl

/-- A copy that stays inside the array changes exactly the bytes it covers. -/
theorem bytes_write (b : Buffer n) {off : ℕ} {data : List UInt8} (h : off + data.length ≤ n) :
    (b.write off data).bytes = b.bytes.take off ++ data ++ b.bytes.drop (off + data.length) := by
  have hlen : (b.bytes.take off ++ data ++ b.bytes.drop (off + data.length)).length = n := by
    simp only [List.length_take, List.length_append, List.length_drop, length_eq]
    omega
  simp only [write]
  exact List.take_of_length_le hlen.le

/-- The bytes up to the end of a copy. -/
theorem take_write (b : Buffer n) {off : ℕ} {data : List UInt8} (h : off + data.length ≤ n) :
    (b.write off data).bytes.take (off + data.length) = b.bytes.take off ++ data := by
  have hlen : (b.bytes.take off ++ data).length = off + data.length := by
    simp only [List.length_append, List.length_take, length_eq]
    omega
  rw [b.bytes_write h, ← hlen, List.take_left]

/-- A copy to the start of the array is its first bytes. -/
theorem take_write_zero (b : Buffer n) {data : List UInt8} (h : data.length ≤ n) :
    (b.write 0 data).bytes.take data.length = data := by
  simpa using b.take_write (show 0 + data.length ≤ n by omega)

/-- A copy leaves the bytes in front of it alone. -/
theorem take_write_of_le (b : Buffer n) {off k : ℕ} {data : List UInt8} (hk : k ≤ off)
    (h : off + data.length ≤ n) : (b.write off data).bytes.take k = b.bytes.take k := by
  have hlen : k ≤ (b.bytes.take off).length := by
    simp only [List.length_take, length_eq]
    omega
  rw [b.bytes_write h, List.append_assoc, List.take_append_of_le_length hlen, List.take_take,
    Nat.min_eq_left hk]

/-- Data with a NUL behind it: what was copied, -/
theorem take_write_nul (b : Buffer n) {data : List UInt8} (h : data.length < n) :
    ((b.write 0 data).write data.length [0]).bytes.take data.length = data := by
  rw [take_write_of_le _ le_rfl h, take_write_zero b h.le]

/-- and the string at the start of the array. -/
theorem cstr_write_nul (b : Buffer n) {data : List UInt8} (h : data.length < n) :
    cstr ((b.write 0 data).write data.length [0]).bytes = cstr data := by
  rw [bytes_write _ h, take_write_zero b h.le, List.append_assoc,
    List.singleton_append, cstr_append_nul]

end Buffer

/-! ## Printing -/

/-- What `snprintf` into `size` bytes stores for a formatted text: as much of the text
as fits, and a NUL. -/
def snprintfStored (size : ℕ) (formatted : List UInt8) : List UInt8 :=
  if size = 0 then [] else formatted.take (size - 1) ++ [0]

end CBytes
