import TcpDemo.EchoClient.Steps
import TcpDemo.Platform.Random

/-!
# The payload of a request

`prvCreateTxData` with the generator behind `xApplicationGetRandomNumber`, while no other
task draws. The loop that draws a length has no variant of its own: it ends because the
generator gets to an accepted number from every state. The fill loop is run on the memory
behind `cBuffer`, and writes the bytes that the task puts into its request.
-/

namespace TcpDemo.EchoClient
open CBytes Platform

/-- The loop that draws the length, given up after so many passes: the length, and the new
`ulNextRand`. -/
def drawLength (ulBufferLength : UInt32) : ℕ → UInt32 → Option (ℤ × UInt32)
  | 0, _ => none
  | passes + 1, ulNextRand =>
    let (ulRandomNumber, ulNextRand) := xApplicationGetRandomNumber ulNextRand
    let lCharactersToAdd := lCharactersToAdd ulRandomNumber ulBufferLength
    if lCharactersToAdd = 0 ∨ lCharactersToAdd < lMinimumLength then
      drawLength ulBufferLength passes ulNextRand
    else some (lCharactersToAdd, ulNextRand)

/-- The fill loop on the memory behind `cBuffer`, with so many characters to go. -/
def fillLoop : ℕ → ℕ → UInt8 → (ℕ → UInt8) → ℕ → UInt8
  | 0, _, _, cBuffer => cBuffer
  | n + 1, lCharacter, cChar, cBuffer =>
    fillLoop n (lCharacter + 1) (if cChar + 1 > byte '~' then byte '0' else cChar + 1)
      (Function.update cBuffer lCharacter cChar)

/-- `prvCreateTxData`: what it returns, the memory behind `cBuffer`, and the new
`ulNextRand`. -/
def prvCreateTxData (passes : ℕ) (cBuffer : ℕ → UInt8) (ulBufferLength ulNextRand : UInt32) :
    Option (ℤ × (ℕ → UInt8) × UInt32) := do
  let (lCharactersToAdd, ulNextRand) ← drawLength ulBufferLength passes ulNextRand
  return (lCharactersToAdd, fillLoop lCharactersToAdd.toNat 0 (byte '0') cBuffer, ulNextRand)

/-! ## The fill loop -/

/-- The character at an index of the payload. -/
def charAt (i : ℕ) : UInt8 := byte '0' + UInt8.ofNat (i % 79)

theorem charAt_succ (i : ℕ) :
    charAt (i + 1) = if charAt i + 1 > byte '~' then byte '0' else charAt i + 1 := by
  have hnext : ∀ k : Fin 79, byte '0' + UInt8.ofNat ((k + 1) % 79) =
      if byte '0' + UInt8.ofNat k + 1 > byte '~' then byte '0'
      else byte '0' + UInt8.ofNat k + 1 := by decide
  have hmod : (i + 1) % 79 = (i % 79 + 1) % 79 := by omega
  rw [charAt, charAt, hmod]
  exact hnext ⟨i % 79, Nat.mod_lt _ (by decide)⟩

/-- The bytes of a payload cycle through the printable characters. -/
theorem getElem?_fill {n i : ℕ} (hi : i < n) (j : ℕ) :
    (fill n (charAt j))[i]? = some (charAt (j + i)) := by
  induction n generalizing i j with
  | zero => omega
  | succ n ih =>
    rw [fill, ← charAt_succ]
    cases i with
    | zero => rfl
    | succ i =>
      rw [List.getElem?_cons_succ, ih (by omega), Nat.add_right_comm]
      rfl

/-- The fill loop writes the payload from `lCharacter` on, and nothing else. -/
theorem fillLoop_apply (n lCharacter : ℕ) (cChar : UInt8) (cBuffer : ℕ → UInt8) (i : ℕ) :
    fillLoop n lCharacter cChar cBuffer i =
      if i < lCharacter then cBuffer i else (fill n cChar)[i - lCharacter]?.getD (cBuffer i) := by
  induction n generalizing lCharacter cChar cBuffer with
  | zero => simp [fillLoop, fill]
  | succ n ih =>
    rw [fillLoop, ih, fill]
    rcases lt_trichotomy i lCharacter with hlt | rfl | hgt
    · rw [if_pos (by omega), if_pos hlt, Function.update_of_ne hlt.ne]
    · rw [if_pos (Nat.lt_succ_self i), if_neg (lt_irrefl i), Nat.sub_self]
      exact Function.update_self _ _ _
    · obtain ⟨d, rfl⟩ := Nat.exists_eq_add_of_lt hgt
      have hbehind : ¬ lCharacter + d + 1 < lCharacter + 1 := by omega
      rw [if_neg hbehind, if_neg (not_lt.mpr hgt.le), Function.update_of_ne hgt.ne',
        show lCharacter + d + 1 - (lCharacter + 1) = d by omega,
        show lCharacter + d + 1 - lCharacter = d + 1 by omega, List.getElem?_cons_succ]

/-! ## The loop that draws the length -/

section Draw
variable {ulBufferLength : UInt32}

/-- The length that is drawn from a 15-bit number, as a natural number. -/
theorem lCharactersToAdd_eq_mod {r : UInt32} (hr : r.toNat < 2 ^ 15) (hL : 81 ≤ ulBufferLength) :
    lCharactersToAdd r ulBufferLength = ((r.toNat % (ulBufferLength.toNat - 20) : ℕ) : ℤ) := by
  have hlarge : 81 ≤ ulBufferLength.toNat := UInt32.le_iff_toNat_le.mp hL
  have hsub : (ulBufferLength - 20).toNat = ulBufferLength.toNat - 20 :=
    UInt32.toNat_sub_of_le _ _ (UInt32.le_iff_toNat_le.mpr (by simpa using by omega))
  have hmod : (r % (ulBufferLength - 20)).toNat = r.toNat % (ulBufferLength.toNat - 20) := by
    rw [UInt32.toNat_mod, hsub]
  have hle := Nat.mod_le r.toNat (ulBufferLength.toNat - 20)
  rw [lCharactersToAdd, toInt_toInt32 (by omega), hmod]

/-- A length the loop does not reject. -/
def Accepted (lCharactersToAdd : ℤ) : Prop :=
  ¬ (lCharactersToAdd = 0 ∨ lCharactersToAdd < lMinimumLength)

/-- A first number that gives an accepted length ends the loop. -/
theorem drawLength_of_first {ulNextRand : UInt32} {passes : ℕ} (hpasses : 0 < passes)
    (h : Accepted (lCharactersToAdd (draw ulNextRand 0) ulBufferLength)) :
    drawLength ulBufferLength passes ulNextRand =
      some (lCharactersToAdd (draw ulNextRand 0) ulBufferLength, advance 1 ulNextRand) := by
  obtain ⟨passes, rfl⟩ := Nat.exists_eq_succ_of_ne_zero hpasses.ne'
  exact if_neg h

/-- Once a number is drawn that gives an accepted length, the loop has ended. -/
theorem drawLength_of_accepted {m : ℕ} {ulNextRand : UInt32}
    (h : Accepted (lCharactersToAdd (draw ulNextRand m) ulBufferLength)) :
    ∃ j, Accepted (lCharactersToAdd (draw ulNextRand j) ulBufferLength) ∧
      ∀ passes > m, drawLength ulBufferLength passes ulNextRand =
        some (lCharactersToAdd (draw ulNextRand j) ulBufferLength, advance (j + 1) ulNextRand) := by
  induction m generalizing ulNextRand with
  | zero => exact ⟨0, h, fun passes hpasses => drawLength_of_first hpasses h⟩
  | succ m ih =>
    by_cases hfirst : Accepted (lCharactersToAdd (draw ulNextRand 0) ulBufferLength)
    · exact ⟨0, hfirst, fun passes hpasses =>
        drawLength_of_first (Nat.zero_lt_of_lt hpasses) hfirst⟩
    · -- rejected: the rest of the loop starts from the next state
      obtain ⟨j, hj, hloop⟩ := @ih (uxRand ulNextRand).2 h
      refine ⟨j + 1, hj, fun passes hpasses => ?_⟩
      obtain ⟨passes, rfl⟩ := Nat.exists_eq_succ_of_ne_zero (Nat.zero_lt_of_lt hpasses).ne'
      exact (if_pos (not_not.mp hfirst)).trans (hloop passes (by omega))

/-- The loop ends: the generator draws 60, if nothing else before. -/
theorem exists_accepted (hL : 81 ≤ ulBufferLength) (ulNextRand : UInt32) :
    ∃ m, Accepted (lCharactersToAdd (draw ulNextRand m) ulBufferLength) := by
  have hlarge : 81 ≤ ulBufferLength.toNat := UInt32.le_iff_toNat_le.mp hL
  obtain ⟨m, hm⟩ := exists_draw_eq ulNextRand (show (60 : UInt32).toNat < 2 ^ 15 by decide)
  refine ⟨m, ?_⟩
  rw [hm, lCharactersToAdd_eq_mod (by decide) hL, show (60 : UInt32).toNat = 60 from rfl,
    Nat.mod_eq_of_lt (by omega)]
  exact show ¬ ((60 : ℤ) = 0 ∨ (60 : ℤ) < 60) by decide

end Draw

/-- **`prvCreateTxData` returns**, from every state of the generator, a length between 60
and 21 less than the size of the buffer. It has written that many characters, which go
through the printable ones from `'0'` on, and nothing behind them. -/
theorem prvCreateTxData_returns (cBuffer : ℕ → UInt8) (ulBufferLength ulNextRand : UInt32)
    (hL : 81 ≤ ulBufferLength) : ∃ (n : ℤ) (cBuffer' : ℕ → UInt8) (ulNextRand' : UInt32),
    (∃ m, ∀ passes > m, prvCreateTxData passes cBuffer ulBufferLength ulNextRand =
      some (n, cBuffer', ulNextRand')) ∧
    60 ≤ n ∧ n ≤ ulBufferLength.toNat - 21 ∧ n ≤ 32767 ∧
    (∀ i : ℕ, i < n → cBuffer' i = byte '0' + UInt8.ofNat (i % 79)) ∧
    ∀ i : ℕ, n ≤ i → cBuffer' i = cBuffer i := by
  have hlarge : 81 ≤ ulBufferLength.toNat := UInt32.le_iff_toNat_le.mp hL
  obtain ⟨m, hm⟩ := exists_accepted hL ulNextRand
  obtain ⟨j, hj, hloop⟩ := drawLength_of_accepted hm
  have hdraw := toNat_draw_lt ulNextRand j
  rw [lCharactersToAdd_eq_mod hdraw hL] at hj hloop
  have hlt := Nat.mod_lt (draw ulNextRand j).toNat (show 0 < ulBufferLength.toNat - 20 by omega)
  have hle := Nat.mod_le (draw ulNextRand j).toNat (ulBufferLength.toNat - 20)
  generalize (draw ulNextRand j).toNat % (ulBufferLength.toNat - 20) = n at hj hloop hlt hle
  simp only [Accepted, lMinimumLength, not_or, not_lt] at hj
  refine ⟨n, fillLoop n 0 (byte '0') cBuffer, advance (j + 1) ulNextRand,
    ⟨m, fun passes hpasses => ?_⟩, hj.2, by omega, by omega, fun i hi => ?_, fun i hi => ?_⟩
  · rw [prvCreateTxData, hloop passes hpasses]
    rfl
  · have hchar := getElem?_fill (show i < n by omega) 0
    rw [Nat.zero_add] at hchar
    rw [fillLoop_apply, if_neg (Nat.not_lt_zero i), Nat.sub_zero,
      show byte '0' = charAt 0 from rfl, hchar]
    rfl
  · rw [fillLoop_apply, if_neg (Nat.not_lt_zero i), Nat.sub_zero,
      List.getElem?_eq_none (by rw [length_fill]; omega), Option.getD_none]

/-- The smallest buffer: the length is 60. -/
theorem prvCreateTxData_returns_81 : ∃ (n : ℤ) (cBuffer' : ℕ → UInt8) (ulNextRand' : UInt32),
    (∃ m, ∀ passes > m, prvCreateTxData passes (fun _ => 0) 81 0 =
      some (n, cBuffer', ulNextRand')) ∧ 60 ≤ n ∧ n ≤ 60 := by
  obtain ⟨n, cBuffer', ulNextRand', hreturns, hmin, hmax, -⟩ :=
    prvCreateTxData_returns (fun _ => 0) 81 0 (by decide)
  exact ⟨n, cBuffer', ulNextRand', hreturns, hmin, hmax⟩

end TcpDemo.EchoClient
