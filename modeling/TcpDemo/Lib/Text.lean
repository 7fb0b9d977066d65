import Mathlib.Data.Nat.Digits.Defs
import Mathlib.Data.List.Flatten
import Mathlib.Tactic.Common
import TcpDemo.Lib.CBytes

/-!
# Decimal numbers and delimited records

The `%lu` rendering of a number and what a reader of a byte stream can rely on: the
rendering is injective, of bounded length, and made of digit bytes only. Records that
end in a delimiter they do not contain otherwise can be read back from their
concatenation in one way only.

## Main definitions

* `decimal n`, `decimalInt z` — the `%lu` and `%ld` renderings.
* `flatMap_injective_of_delimited` — concatenated delimited records decode uniquely.
* `exists_part_of_isPrefix_drop` — where a whole record can stand in a stream of parts.
-/

namespace CBytes

/-- The byte of an ASCII character. -/
def byte (c : Char) : UInt8 := c.toNat.toUInt8

/-- The `%lu` rendering of a number. -/
def decimal (n : ℕ) : List UInt8 := (Nat.toDigits 10 n).map byte

/-- The `%ld` and `%d` renderings of a number. -/
def decimalInt (z : ℤ) : List UInt8 :=
  if z < 0 then byte '-' :: decimal z.natAbs else decimal z.natAbs

private theorem toNat_byte {c : Char} (hc : c.isDigit) : (byte c).toNat = c.toNat := by
  have hle : c.toNat ≤ 57 := by
    simp only [Char.isDigit, Bool.and_eq_true, decide_eq_true_eq] at hc
    exact hc.2
  simp only [byte, Nat.toUInt8, UInt8.toNat_ofNat']
  omega

/-- A number is rendered with digits only. -/
theorem mem_decimal {n : ℕ} {x : UInt8} (hx : x ∈ decimal n) : 48 ≤ x.toNat ∧ x.toNat ≤ 57 := by
  obtain ⟨c, hc, rfl⟩ := List.mem_map.mp hx
  have hdigit := Nat.isDigit_of_mem_toDigits (by decide) (by decide) hc
  rw [toNat_byte hdigit]
  simp only [Char.isDigit, Bool.and_eq_true, decide_eq_true_eq] at hdigit
  exact hdigit

theorem zero_notMem_decimal (n : ℕ) : 0 ∉ decimal n := by
  intro h
  have := (mem_decimal h).1
  simp at this

/-- Different numbers have different renderings. -/
theorem decimal_injective : Function.Injective decimal := by
  have hchars : ∀ n, (decimal n).map (fun x => Char.ofNat x.toNat) = Nat.toDigits 10 n := by
    intro n
    rw [decimal, List.map_map]
    conv_rhs => rw [← List.map_id (Nat.toDigits 10 n)]
    refine List.map_congr_left fun c hc => ?_
    have hdigit := Nat.isDigit_of_mem_toDigits (by decide) (by decide) hc
    simp [toNat_byte hdigit, Char.ofNat_toNat]
  intro m n h
  have hdigits : Nat.toDigits 10 m = Nat.toDigits 10 n := by rw [← hchars, h, hchars]
  have hread := congrArg (fun l => Nat.ofDigitChars 10 l 0) hdigits
  simpa using hread

/-- A number below `10 ^ k` has at most `k` digits. -/
theorem decimal_length_le {n k : ℕ} (hk : 0 < k) (hn : n < 10 ^ k) :
    (decimal n).length ≤ k := by
  simpa [decimal] using (Nat.length_toDigits_le_iff (by decide) hk).mpr hn

/-- A 32-bit number has at most ten digits. -/
theorem decimal_length_le_ten (n : UInt32) : (decimal n.toNat).length ≤ 10 :=
  decimal_length_le (by decide) (n.toNat_lt.trans (by decide))

/-- Larger numbers have no fewer digits. -/
theorem decimal_length_mono {m n : ℕ} (h : m ≤ n) : (decimal m).length ≤ (decimal n).length := by
  have hpos : 0 < (decimal n).length := by simp [decimal, Nat.length_toDigits_pos]
  refine decimal_length_le hpos (h.trans_lt ?_)
  simpa [decimal] using (Nat.length_toDigits_le_iff (by decide) hpos).mp
    (show (Nat.toDigits 10 n).length ≤ (decimal n).length by simp [decimal])

/-! ## Delimited records -/

section Delimited
variable {α β : Type*} {record : α → List β} {d : β}

/-- A record: a body without the delimiter, and the delimiter behind it. -/
def Delimited (d : β) (r : List β) : Prop := ∃ body, r = body ++ [d] ∧ d ∉ body

/-- Delimited records in front of two equal streams are equal. -/
theorem Delimited.append_inj {r r' s s' : List β} (hr : Delimited d r) (hr' : Delimited d r')
    (h : r ++ s = r' ++ s') : r = r' ∧ s = s' := by
  obtain ⟨body, rfl, hbody⟩ := hr
  obtain ⟨body', rfl, hbody'⟩ := hr'
  induction body generalizing body' with
  | nil =>
    cases body' with
    | nil => simpa using h
    | cons b body' =>
      simp only [List.nil_append, List.cons_append, List.cons.injEq] at h
      exact absurd (by simp [h.1]) hbody'
  | cons a body ih =>
    cases body' with
    | nil =>
      simp only [List.nil_append, List.cons_append, List.cons.injEq] at h
      exact absurd (by simp [h.1]) hbody
    | cons b body' =>
      simp only [List.cons_append, List.cons.injEq] at h
      obtain ⟨rfl, h⟩ := h
      obtain ⟨hb, hs⟩ := ih (fun hd => hbody (by simp [hd])) body'
        (fun hd => hbody' (by simp [hd])) h
      exact ⟨by simpa using hb, hs⟩

/-- **Concatenated delimited records decode uniquely.** -/
theorem flatMap_injective_of_delimited (hdel : ∀ a, Delimited d (record a))
    (hinj : Function.Injective record) : Function.Injective (List.flatMap record) := by
  intro as
  induction as with
  | nil =>
    intro bs h
    cases bs with
    | nil => rfl
    | cons b bs =>
      obtain ⟨body, hb, -⟩ := hdel b
      simp [hb] at h
  | cons a as ih =>
    intro bs h
    cases bs with
    | nil =>
      obtain ⟨body, ha, -⟩ := hdel a
      simp [ha] at h
    | cons b bs =>
      simp only [List.flatMap_cons] at h
      obtain ⟨hab, hrest⟩ := (hdel a).append_inj (hdel b) h
      rw [hinj hab, ih hrest]

/-- A stream of records that begins another one has its first records. -/
theorem isPrefix_of_flatMap_isPrefix (hdel : ∀ a, Delimited d (record a))
    (hinj : Function.Injective record) {as bs : List α}
    (h : as.flatMap record <+: bs.flatMap record) : as <+: bs := by
  induction as generalizing bs with
  | nil => exact List.nil_prefix
  | cons a as ih =>
    obtain ⟨rest, h⟩ := h
    cases bs with
    | nil =>
      obtain ⟨body, ha, -⟩ := hdel a
      simp [ha] at h
    | cons b bs =>
      simp only [List.flatMap_cons, List.append_assoc] at h
      obtain ⟨hab, hrest⟩ := (hdel a).append_inj (hdel b) h
      rw [hinj hab, List.cons_prefix_cons]
      exact ⟨rfl, ih ⟨rest, hrest⟩⟩

/-- A record that starts with a mark it does not contain otherwise. -/
def Marked (m : β) (r : List β) : Prop := ∃ body, r = m :: body ∧ m ∉ body

/-- A record of which only a part is there is no part of a stream of whole records,
whatever follows it: the next record, or a part of it, would start with the mark. -/
theorem not_torn {m : β} (hmark : ∀ a, Marked m (record a)) (hdel : ∀ a, Delimited d (record a))
    {a : α} {n : ℕ} (h0 : 0 < n) (hn : n < (record a).length) {rest : List β}
    (hrest : rest = [] ∨ rest.head? = some m) (bs : List α) :
    (record a).take n ++ rest ≠ bs.flatMap record := by
  intro h
  obtain ⟨body, ha, hbody⟩ := hdel a
  have hlen : n ≤ body.length := by simp [ha] at hn; omega
  have htake : (record a).take n = body.take n := by
    rw [ha, List.take_append_of_le_length hlen]
  have hd : d ∉ (record a).take n := by
    rw [htake]
    exact fun hmem => hbody (List.mem_of_mem_take hmem)
  have hpos : (record a).take n ≠ [] := by
    rw [ne_eq, List.take_eq_nil_iff]
    rintro (rfl | hnil)
    · exact absurd h0 (lt_irrefl 0)
    · simp [ha] at hnil
  cases bs with
  | nil => simp [hpos] at h
  | cons b bs =>
    rw [List.flatMap_cons] at h
    -- the part lies in front of the delimiter of the first whole record
    obtain ⟨tail, htail⟩ : (record a).take n <+: record b := by
      rcases List.prefix_or_prefix_of_prefix ⟨rest, h⟩ (List.prefix_append (record b) _) with
        hpre | hpre
      · exact hpre
      · obtain ⟨body', hb, -⟩ := hdel b
        exact absurd (hpre.subset (by simp [hb])) hd
    rw [← htail, List.append_assoc, List.append_cancel_left_eq] at h
    have hdtail : d ∈ tail := by
      obtain ⟨body', hb, -⟩ := hdel b
      have hmem : d ∈ (record a).take n ++ tail := by rw [htail, hb]; simp
      exact (List.mem_append.mp hmem).resolve_left hd
    obtain ⟨t, ts, rfl⟩ := List.exists_cons_of_ne_nil (List.ne_nil_of_mem hdtail)
    rcases hrest with rfl | hhead
    · simp at h
    · rw [h, List.cons_append, List.head?_cons, Option.some.injEq] at hhead
      obtain ⟨body', hb, hbody'⟩ := hmark b
      obtain ⟨y, ys, hy⟩ := List.exists_cons_of_ne_nil hpos
      rw [hy, hb, List.cons_append, List.cons.injEq] at htail
      exact hbody' (by rw [← htail.2, hhead]; simp)

/-- A stream of parts of records is empty or starts with the mark. -/
theorem head?_flatMap_take {m : β} (hmark : ∀ a, Marked m (record a)) (xs : List (α × ℕ)) :
    (xs.flatMap fun x => (record x.1).take x.2) = [] ∨
      (xs.flatMap fun x => (record x.1).take x.2).head? = some m := by
  induction xs with
  | nil => exact .inl rfl
  | cons x xs ih =>
    obtain ⟨body, hx, -⟩ := hmark x.1
    cases hn : x.2 with
    | zero => simpa [hn] using ih
    | succ n => exact .inr (by simp [hn, hx])

/-- Parts of records that make up a stream of whole records are whole themselves. -/
theorem whole_of_flatMap_take {m : β} (hmark : ∀ a, Marked m (record a))
    (hdel : ∀ a, Delimited d (record a)) {xs : List (α × ℕ)} {bs : List α}
    (h : xs.flatMap (fun x => (record x.1).take x.2) = bs.flatMap record) :
    ∀ x ∈ xs, x.2 = 0 ∨ (record x.1).length ≤ x.2 := by
  induction xs generalizing bs with
  | nil => simp
  | cons x xs ih =>
    rw [List.flatMap_cons] at h
    rcases Nat.eq_zero_or_pos x.2 with h0 | h0
    · rw [h0, List.take_zero, List.nil_append] at h
      exact List.forall_mem_cons.mpr ⟨.inl h0, ih h⟩
    · rcases Nat.lt_or_ge x.2 (record x.1).length with hlt | hge
      · exact absurd h (not_torn hmark hdel h0 hlt (head?_flatMap_take hmark xs) bs)
      · rw [List.take_of_length_le hge] at h
        cases bs with
        | nil =>
          obtain ⟨body, hx, -⟩ := hmark x.1
          simp [hx] at h
        | cons b bs =>
          rw [List.flatMap_cons] at h
          exact List.forall_mem_cons.mpr ⟨.inr hge, ih ((hdel _).append_inj (hdel _) h).2⟩

/-- A record at the beginning of a stream of parts is the first of them that is not empty. -/
theorem record_eq_of_isPrefix {m : β} (hmark : ∀ a, Marked m (record a))
    (hdel : ∀ a, Delimited d (record a)) {a : α} {x : α × ℕ} {rest : List β}
    (hpos : (record x.1).take x.2 ≠ []) (hrest : rest = [] ∨ rest.head? = some m)
    (h : record a <+: (record x.1).take x.2 ++ rest) : record a = record x.1 := by
  suffices hpre : record a <+: record x.1 by
    obtain ⟨tail, htail⟩ := hpre
    exact ((hdel a).append_inj (hdel x.1) (htail.trans (List.append_nil _).symm)).1
  rcases List.prefix_or_prefix_of_prefix h (List.prefix_append _ rest) with hpre | ⟨tail, htail⟩
  · exact hpre.trans (List.take_prefix _ _)
  -- what the record has beyond the part would start with the mark
  rw [← htail, List.prefix_append_right_inj] at h
  cases tail with
  | nil =>
    rw [List.append_nil] at htail
    exact htail ▸ List.take_prefix _ _
  | cons t tail =>
    obtain ⟨rest, rfl⟩ := h
    obtain rfl : t = m := by simpa using hrest
    obtain ⟨body, ha, hbody⟩ := hmark a
    obtain ⟨y, ys, hy⟩ := List.exists_cons_of_ne_nil hpos
    rw [hy, ha, List.cons_append, List.cons.injEq] at htail
    exact absurd (by simp [← htail.2]) hbody

/-- **A whole record in a stream of parts is one of the parts**, wherever it stands. -/
theorem exists_part_of_isPrefix_drop {m : β} (hmark : ∀ a, Marked m (record a))
    (hdel : ∀ a, Delimited d (record a)) {xs : List (α × ℕ)} {a : α} {i : ℕ}
    (h : record a <+: (xs.flatMap fun x => (record x.1).take x.2).drop i) :
    ∃ n x, xs[n]? = some x ∧ record x.1 = record a ∧
      i = ((xs.take n).flatMap fun x => (record x.1).take x.2).length := by
  obtain ⟨body, ha, -⟩ := hmark a
  induction xs generalizing i with
  | nil => simp [ha] at h
  | cons x xs ih =>
    rw [List.flatMap_cons] at h
    rcases Nat.lt_or_ge i ((record x.1).take x.2).length with hlt | hge
    · -- the part starts with the mark and has no other
      obtain ⟨body', hx, hbody'⟩ := hmark x.1
      have hzero : i = 0 := by
        by_contra hne
        obtain ⟨j, rfl⟩ := Nat.exists_eq_succ_of_ne_zero hne
        rw [List.drop_append_of_le_length hlt.le] at h
        obtain ⟨n, hn⟩ : ∃ n, x.2 = n + 1 := by
          refine Nat.exists_eq_succ_of_ne_zero fun h0 => ?_
          simp [h0] at hlt
        rw [hn, hx, List.take_succ_cons, List.length_cons] at hlt
        rw [hn, hx, List.take_succ_cons, List.drop_succ_cons, ha] at h
        obtain ⟨c, cs, hc⟩ := List.exists_cons_of_ne_nil (l := (body'.take n).drop j) <|
          List.ne_nil_of_length_pos (by rw [List.length_drop]; omega)
        rw [hc, List.cons_append, List.cons_prefix_cons] at h
        have hmem : m ∈ (body'.take n).drop j := by rw [hc, h.1]; exact List.mem_cons_self
        exact hbody' (List.mem_of_mem_take (List.mem_of_mem_drop hmem))
      subst hzero
      refine ⟨0, x, rfl, ?_, rfl⟩
      exact (record_eq_of_isPrefix hmark hdel (List.ne_nil_of_length_pos hlt)
        (head?_flatMap_take hmark xs) h).symm
    · rw [List.drop_append, List.drop_eq_nil_of_le hge, List.nil_append] at h
      obtain ⟨n, y, hy, hrecord, hi⟩ := ih h
      refine ⟨n + 1, y, hy, hrecord, ?_⟩
      rw [List.take_succ_cons, List.flatMap_cons, List.length_append]
      omega

/-- A stream of whole records is empty or ends in the delimiter. -/
theorem getLast?_flatMap_of_delimited (hdel : ∀ a, Delimited d (record a)) (as : List α) :
    as = [] ∨ (as.flatMap record).getLast? = some d := by
  rcases List.eq_nil_or_concat as with rfl | ⟨as, a, rfl⟩
  · exact .inl rfl
  · obtain ⟨body, ha, -⟩ := hdel a
    exact .inr (by simp [List.concat_eq_append, ha, ← List.append_assoc])

end Delimited

end CBytes
