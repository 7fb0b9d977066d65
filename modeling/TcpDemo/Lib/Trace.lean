import Mathlib.Data.List.Chain
import Mathlib.Data.List.Infix
import Mathlib.Data.List.ModifyLast
import Mathlib.Tactic.Common

/-!
# Properties of growing lists

Runs of a program only ever append to the list of calls made so far, so the
properties stated about them have one of two shapes. `Stepwise R` asks every entry
to stand in the relation `R` to the entries before it. `segments open?` cuts the
list at its opening entries, and a property is then asked of each segment.

Both come with the lemmas that follow an append. `Stepwise` is closed under prefixes,
which carries a fact from the loop heads of a run to all its moments.

## Main definitions

* `Stepwise R xs` — every entry of `xs` satisfies `R` against its history.
* `segments open? xs` — the segments of `xs`, each with what its opening entry said.
* `intervals open? xs` — the segments that are intervals of interest, such as sessions.
* `Idle`, `Busy` — whether an interval is under way, with the rules to go from one to
  the other.
-/

namespace Traces

variable {α β : Type}

/-! ## Entries against their history -/

/-- Every entry of the second list satisfies `R` against all entries before it,
those of the first list included. -/
def StepwiseFrom (R : List α → α → Prop) : List α → List α → Prop
  | _, [] => True
  | pre, x :: xs => R pre x ∧ StepwiseFrom R (pre ++ [x]) xs

/-- Every entry satisfies `R` against the entries before it. -/
def Stepwise (R : List α → α → Prop) (xs : List α) : Prop := StepwiseFrom R [] xs

variable {R : List α → α → Prop}

instance decidableStepwiseFrom [∀ pre, DecidablePred (R pre)] :
    ∀ pre xs, Decidable (StepwiseFrom R pre xs)
  | _, [] => inferInstanceAs (Decidable True)
  | pre, x :: xs =>
    have := decidableStepwiseFrom (pre ++ [x]) xs
    inferInstanceAs (Decidable (R pre x ∧ StepwiseFrom R (pre ++ [x]) xs))

instance [∀ pre, DecidablePred (R pre)] : DecidablePred (Stepwise R) :=
  decidableStepwiseFrom []

@[simp] theorem stepwiseFrom_nil (pre : List α) : StepwiseFrom R pre [] := trivial
@[simp] theorem stepwiseFrom_cons (pre : List α) (x : α) (xs : List α) :
    StepwiseFrom R pre (x :: xs) ↔ R pre x ∧ StepwiseFrom R (pre ++ [x]) xs := Iff.rfl
@[simp] theorem stepwise_nil : Stepwise R [] := trivial

theorem stepwiseFrom_append (pre xs ys : List α) :
    StepwiseFrom R pre (xs ++ ys) ↔ StepwiseFrom R pre xs ∧ StepwiseFrom R (pre ++ xs) ys := by
  induction xs generalizing pre with
  | nil => simp
  | cons x xs ih => simp [ih, and_assoc]

theorem stepwise_append (xs ys : List α) :
    Stepwise R (xs ++ ys) ↔ Stepwise R xs ∧ StepwiseFrom R xs ys := by
  simpa [Stepwise] using stepwiseFrom_append (R := R) [] xs ys

theorem Stepwise.of_isPrefix {xs ys : List α} (h : Stepwise R ys) (hpre : xs <+: ys) :
    Stepwise R xs := by
  obtain ⟨zs, rfl⟩ := hpre
  exact ((stepwise_append xs zs).mp h).1

/-- The entry that ends a prefix satisfies `R` against the rest of that prefix. -/
theorem Stepwise.of_snoc_isPrefix {pre xs : List α} {x : α} (h : Stepwise R xs)
    (hpre : pre ++ [x] <+: xs) : R pre x :=
  ((stepwise_append pre [x]).mp (h.of_isPrefix hpre)).2.1

/-- Two properties of the entries hold all along together, if each entry has both or none
once they have held so far. -/
theorem stepwise_congr {S : List α → α → Prop}
    (h : ∀ pre x, Stepwise R pre → Stepwise S pre → (R pre x ↔ S pre x)) (xs : List α) :
    Stepwise R xs ↔ Stepwise S xs := by
  induction xs using List.reverseRecOn with
  | nil => simp
  | append_singleton xs x ih =>
    rw [stepwise_append, stepwise_append, stepwiseFrom_cons, stepwiseFrom_cons, ih]
    refine and_congr_right fun hxs => ?_
    rw [h xs x (ih.mpr hxs) hxs]
    simp

/-! ## Segments -/

/-- An opening entry starts a new segment, any other entry joins the last one. -/
def addEntry (open? : α → Option β) (ss : List (β × List α)) (x : α) : List (β × List α) :=
  match open? x with
  | some b => ss ++ [(b, [])]
  | none => ss.modifyLast fun s => (s.1, s.2 ++ [x])

/-- The segments of a list: what each opening entry said, and the entries that follow
it up to the next one. Entries before the first opening entry belong to none. -/
def segments (open? : α → Option β) (xs : List α) : List (β × List α) :=
  xs.foldl (addEntry open?) []

variable {open? : α → Option β}

private theorem modifyLast_nil (f : α → α) : List.modifyLast f [] = [] := rfl

@[simp] theorem segments_nil : segments open? [] = [] := rfl

theorem segments_snoc (xs : List α) (x : α) :
    segments open? (xs ++ [x]) = addEntry open? (segments open? xs) x := by
  simp [segments]

/-- Entries that open nothing extend the last segment. -/
theorem segments_append_of_none {xs : List α} (ys : List α) {ss : List (β × List α)} {b : β}
    {s : List α} (hxs : segments open? xs = ss ++ [(b, s)]) (hys : ∀ y ∈ ys, open? y = none) :
    segments open? (xs ++ ys) = ss ++ [(b, s ++ ys)] := by
  induction ys using List.reverseRecOn with
  | nil => simpa using hxs
  | append_singleton ys y ih =>
    have hys' : ∀ z ∈ ys, open? z = none := fun z hz => hys z (by simp [hz])
    rw [← List.append_assoc, segments_snoc, ih hys', addEntry, hys y (by simp)]
    simp [List.modifyLast_concat]

/-- Entries that open nothing, before the first segment, belong to none. -/
theorem segments_append_eq_nil {xs : List α} (ys : List α) (hxs : segments open? xs = [])
    (hys : ∀ y ∈ ys, open? y = none) : segments open? (xs ++ ys) = [] := by
  induction ys using List.reverseRecOn with
  | nil => simpa using hxs
  | append_singleton ys y ih =>
    have hys' : ∀ z ∈ ys, open? z = none := fun z hz => hys z (by simp [hz])
    rw [← List.append_assoc, segments_snoc, ih hys', addEntry, hys y (by simp)]
    rfl

/-- An opening entry, and entries that open nothing behind it, make a new segment. -/
theorem segments_append_cons (xs : List α) {x : α} (ys : List α) {b : β} (hx : open? x = some b)
    (hys : ∀ y ∈ ys, open? y = none) :
    segments open? (xs ++ x :: ys) = segments open? xs ++ [(b, ys)] := by
  have hopen : segments open? (xs ++ [x]) = segments open? xs ++ [(b, [])] := by
    rw [segments_snoc, addEntry, hx]
  have h := segments_append_of_none ys hopen hys
  simpa using h

/-- As a list grows, its last segment may grow, and further segments may follow. -/
theorem segments_append {xs : List α} (ys : List α) {ss : List (β × List α)} {b : β} {s : List α}
    (hxs : segments open? xs = ss ++ [(b, s)]) :
    ∃ s' ss', s <+: s' ∧ segments open? (xs ++ ys) = ss ++ (b, s') :: ss' := by
  induction ys using List.reverseRecOn with
  | nil => exact ⟨s, [], List.prefix_rfl, by simpa using hxs⟩
  | append_singleton ys y ih =>
    obtain ⟨s', ss', hs, hseg⟩ := ih
    rw [← List.append_assoc, segments_snoc, hseg]
    unfold addEntry
    cases open? y with
    | some c => exact ⟨s', ss' ++ [(c, [])], hs, by simp⟩
    | none =>
      rcases List.eq_nil_or_concat ss' with rfl | ⟨ss', t, rfl⟩
      · refine ⟨s' ++ [y], [], hs.trans (List.prefix_append _ _), ?_⟩
        dsimp only
        rw [List.modifyLast_concat]
      · refine ⟨s', ss' ++ [(t.1, t.2 ++ [y])], hs, ?_⟩
        dsimp only
        rw [List.concat_eq_append, ← List.cons_append, ← List.append_assoc,
          List.modifyLast_concat, List.append_assoc, List.cons_append]

/-- As a list grows, its segments stay where they are and only grow themselves. -/
theorem segments_isPrefix {xs ys : List α} (h : xs <+: ys) {k : ℕ} {b : β} {s : List α}
    (hk : (segments open? xs)[k]? = some (b, s)) :
    ∃ s', s <+: s' ∧ (segments open? ys)[k]? = some (b, s') := by
  obtain ⟨zs, rfl⟩ := h
  obtain ⟨ss, ⟨c, t⟩, hss⟩ := (List.eq_nil_or_concat (segments open? xs)).resolve_left
    fun hnil => by simp [hnil] at hk
  rw [List.concat_eq_append] at hss
  obtain ⟨t', ss', ht, hseg⟩ := segments_append zs hss
  rw [hss] at hk
  rw [hseg]
  rcases Nat.lt_or_ge k ss.length with hlt | hge
  · rw [List.getElem?_append_left hlt] at hk ⊢
    exact ⟨s, List.prefix_rfl, hk⟩
  · rw [List.getElem?_append_right hge, List.getElem?_singleton,
      Option.ite_none_right_eq_some] at hk
    obtain ⟨hzero, heq⟩ := hk
    obtain ⟨rfl, rfl⟩ := Prod.mk.inj (Option.some.inj heq)
    exact ⟨t', ht, by rw [List.getElem?_append_right hge, hzero, List.getElem?_cons_zero]⟩

/-- Entries that open nothing extend the last segment, and leave the others alone. -/
theorem getElem?_segments_append {xs : List α} (ys : List α) {k : ℕ} {b : β} {s : List α}
    (hk : (segments open? xs)[k]? = some (b, s)) (hys : ∀ y ∈ ys, open? y = none) :
    (segments open? (xs ++ ys)).length = (segments open? xs).length ∧
      (segments open? (xs ++ ys))[k]? =
        some (b, if k + 1 < (segments open? xs).length then s else s ++ ys) := by
  obtain ⟨ss, ⟨c, t⟩, hss⟩ := (List.eq_nil_or_concat (segments open? xs)).resolve_left
    fun hnil => by simp [hnil] at hk
  rw [List.concat_eq_append] at hss
  rw [segments_append_of_none ys hss hys]
  rw [hss] at hk ⊢
  simp only [List.length_append, List.length_singleton, true_and]
  rcases Nat.lt_trichotomy k ss.length with hlt | rfl | hgt
  · rw [List.getElem?_append_left hlt] at hk ⊢
    rw [hk, if_pos (by omega)]
  · rw [List.getElem?_concat_length] at hk ⊢
    obtain ⟨rfl, rfl⟩ := Prod.mk.inj (Option.some.inj hk)
    rw [if_neg (by omega)]
  · rw [List.getElem?_eq_none (by simpa using Nat.succ_le_of_lt hgt)] at hk
    simp at hk

/-- The segments are those of the opening entries, in order. -/
theorem map_fst_segments (xs : List α) : (segments open? xs).map Prod.fst = xs.filterMap open? := by
  induction xs using List.reverseRecOn with
  | nil => rfl
  | append_singleton xs x ih =>
    rw [segments_snoc, List.filterMap_append, ← ih]
    unfold addEntry
    cases hx : open? x with
    | some b => simp [hx]
    | none =>
      rcases List.eq_nil_or_concat (segments open? xs) with hnil | ⟨ss, t, hss⟩
      · simp [hnil, modifyLast_nil, hx]
      · simp [hss, List.concat_eq_append, List.modifyLast_concat, hx]

/-- There are as many segments as opening entries. -/
theorem length_segments (xs : List α) :
    (segments open? xs).length = xs.countP fun x => (open? x).isSome := by
  rw [← List.length_map Prod.fst, map_fst_segments, List.length_filterMap_eq_countP]

/-- A segment is a stretch of the list, and the last one ends it. -/
theorem segments_isInfix (xs : List α) : (∀ seg ∈ segments open? xs, seg.2 <:+: xs) ∧
    ∀ ss seg, segments open? xs = ss ++ [seg] → seg.2 <:+ xs := by
  induction xs using List.reverseRecOn with
  | nil => simp
  | append_singleton xs x ih =>
    obtain ⟨hall, hlast⟩ := ih
    have hgrow : ∀ seg ∈ segments open? xs, seg.2 <:+: xs ++ [x] :=
      fun seg hseg => (hall seg hseg).trans (List.prefix_append _ _).isInfix
    rw [segments_snoc]
    unfold addEntry
    cases open? x with
    | some b =>
      refine ⟨fun seg hseg => ?_, fun ss seg hseg => ?_⟩
      · rcases List.mem_append.mp hseg with hseg | hseg
        · exact hgrow seg hseg
        · rw [List.mem_singleton.mp hseg]
          exact List.nil_infix
      · obtain ⟨-, rfl⟩ := List.append_inj' hseg rfl |>.imp_right List.singleton_inj.mp
        exact List.nil_suffix
    | none =>
      rcases List.eq_nil_or_concat (segments open? xs) with hnil | ⟨ss, t, hss⟩
      · simp [hnil, modifyLast_nil]
      · rw [List.concat_eq_append] at hss
        have hsuffix : t.2 ++ [x] <:+ xs ++ [x] := by
          obtain ⟨pre, hpre⟩ := hlast ss t hss
          exact ⟨pre, by rw [← hpre, List.append_assoc]⟩
        rw [hss, List.modifyLast_concat]
        refine ⟨fun seg hseg => ?_, fun ss' seg hseg => ?_⟩
        · rcases List.mem_append.mp hseg with hseg | hseg
          · exact hgrow seg (by simp [hss, hseg])
          · rw [List.mem_singleton.mp hseg]
            exact hsuffix.isInfix
        · obtain ⟨-, rfl⟩ := List.append_inj' hseg rfl |>.imp_right List.singleton_inj.mp
          exact hsuffix

/-! ## Intervals -/

/-- The segments of interest, where entries of one kind start an interval and entries of
another kind end it. -/
def intervals (open? : α → Option (Option β)) (xs : List α) : List (β × List α) :=
  (segments open? xs).filterMap fun s => s.1.map fun b => (b, s.2)

theorem mem_intervals {open? : α → Option (Option β)} {xs : List α} {b : β} {s : List α} :
    (b, s) ∈ intervals open? xs ↔ (some b, s) ∈ segments open? xs := by
  simp only [intervals, List.mem_filterMap, Option.map_eq_some_iff, Prod.mk.injEq]
  constructor
  · rintro ⟨⟨_, _⟩, hmem, _, rfl, rfl, rfl⟩
    exact hmem
  · intro h
    exact ⟨_, h, b, rfl, rfl, rfl⟩

/-- As a list grows, its intervals stay where they are and only grow themselves. -/
theorem intervals_isPrefix {open? : α → Option (Option β)} {xs ys : List α} (h : xs <+: ys) {k : ℕ}
    {b : β} {s : List α} (hk : (intervals open? xs)[k]? = some (b, s)) :
    ∃ s', s <+: s' ∧ (intervals open? ys)[k]? = some (b, s') := by
  obtain ⟨zs, rfl⟩ := h
  obtain ⟨ss, ⟨c, t⟩, hss⟩ := (List.eq_nil_or_concat (segments open? xs)).resolve_left
    fun hnil => by simp [intervals, hnil] at hk
  rw [List.concat_eq_append] at hss
  obtain ⟨t', ss', ht, hseg⟩ := segments_append zs hss
  rw [intervals, hss, List.filterMap_append] at hk
  rw [intervals, hseg, List.filterMap_append]
  rcases Nat.lt_or_ge k (ss.filterMap fun s => s.1.map fun b => (b, s.2)).length with hlt | hge
  · rw [List.getElem?_append_left hlt] at hk ⊢
    exact ⟨s, List.prefix_rfl, hk⟩
  · rw [List.getElem?_append_right hge] at hk ⊢
    cases c with
    | none => simp at hk
    | some c =>
      simp only [List.filterMap_cons, Option.map_some, List.filterMap_nil,
        List.getElem?_singleton, Option.ite_none_right_eq_some] at hk ⊢
      obtain ⟨hzero, heq⟩ := hk
      obtain ⟨rfl, rfl⟩ := Prod.mk.inj (Option.some.inj heq)
      exact ⟨t', ht, by rw [hzero, List.getElem?_cons_zero]⟩

/-- The intervals are those of the entries that start one, in order. -/
theorem map_fst_intervals {open? : α → Option (Option β)} (xs : List α) :
    (intervals open? xs).map Prod.fst = xs.filterMap fun x => (open? x).join := by
  have hfst : ∀ seg : Option β × List α, (seg.1.map fun b => (b, seg.2)).map Prod.fst = seg.1 := by
    rintro ⟨_ | b, s⟩ <;> rfl
  have hjoin : ∀ x, (open? x).bind id = (open? x).join := fun x => by cases open? x <;> rfl
  have hmap : (segments open? xs).filterMap Prod.fst =
      ((segments open? xs).map Prod.fst).filterMap id := by
    rw [List.filterMap_map]
    rfl
  rw [intervals, List.map_filterMap]
  simp only [hfst]
  rw [hmap, map_fst_segments, List.filterMap_filterMap]
  simp only [hjoin]

section Intervals
variable {P : β → List α → Prop} {open? : α → Option (Option β)} {xs : List α}

/-- No interval is under way, and all of them satisfy `P`. -/
structure Idle (P : β → List α → Prop) (open? : α → Option (Option β)) (xs : List α) : Prop where
  closed : segments open? xs = [] ∨ ∃ ss s, segments open? xs = ss ++ [(none, s)]
  settled : ∀ b s, (b, s) ∈ intervals open? xs → P b s

/-- The interval `b` is under way with the entries `s`, and all earlier ones satisfy `P`. -/
def Busy (P : β → List α → Prop) (open? : α → Option (Option β)) (xs : List α) (b : β)
    (s : List α) : Prop :=
  ∃ ss, segments open? xs = ss ++ [(some b, s)] ∧ ∀ b s, (some b, s) ∈ ss → P b s

theorem idle_nil : Idle P open? [] := ⟨.inl rfl, by simp [intervals]⟩

/-- Entries between two intervals belong to none. -/
theorem Idle.append (h : Idle P open? xs) (ys : List α) (hys : ∀ y ∈ ys, open? y = none) :
    Idle P open? (xs ++ ys) := by
  obtain ⟨hnil | ⟨ss, s, hss⟩, hset⟩ := h
  · have hnil' := segments_append_eq_nil ys hnil hys
    exact ⟨.inl hnil', by simp [intervals, hnil']⟩
  · have hss' := segments_append_of_none ys hss hys
    refine ⟨.inr ⟨ss, _, hss'⟩, fun b t ht => hset b t ?_⟩
    rw [mem_intervals, hss'] at ht
    rw [mem_intervals, hss]
    simpa using ht

/-- Where no interval is under way, those there are stay as they are. -/
theorem Idle.getElem?_append (h : Idle P open? xs) (ys : List α) {i : ℕ} {y : β × List α}
    (hi : (intervals open? xs)[i]? = some y) : (intervals open? (xs ++ ys))[i]? = some y := by
  obtain ⟨hnil | ⟨ss, s, hss⟩, -⟩ := h
  · simp [intervals, hnil] at hi
  obtain ⟨s', ss', -, hseg⟩ := segments_append ys hss
  rw [intervals, hss, List.filterMap_append] at hi
  simp only [List.filterMap_cons, Option.map_none, List.filterMap_nil, List.append_nil] at hi
  rw [intervals, hseg, List.filterMap_append,
    List.getElem?_append_left (List.getElem?_eq_some_iff.mp hi).1, hi]

/-- An entry that ends an interval where none is under way. -/
theorem Idle.stop (h : Idle P open? xs) {x : α} (ys : List α) (hx : open? x = some none)
    (hys : ∀ y ∈ ys, open? y = none) : Idle P open? (xs ++ x :: ys) := by
  have hseg := segments_append_cons xs ys hx hys
  refine ⟨.inr ⟨_, _, hseg⟩, fun b s hs => h.settled b s ?_⟩
  rw [mem_intervals, hseg] at hs
  rw [mem_intervals]
  simpa using hs

/-- An entry starts an interval. -/
theorem Idle.start (h : Idle P open? xs) {x : α} {b : β} (ys : List α)
    (hx : open? x = some (some b)) (hys : ∀ y ∈ ys, open? y = none) :
    Busy P open? (xs ++ x :: ys) b ys :=
  ⟨_, segments_append_cons xs ys hx hys, fun b s hs => h.settled b s (mem_intervals.mpr hs)⟩

/-- Further entries of the interval under way. -/
theorem Busy.append {b : β} {s : List α} (h : Busy P open? xs b s) (ys : List α)
    (hys : ∀ y ∈ ys, open? y = none) : Busy P open? (xs ++ ys) b (s ++ ys) := by
  obtain ⟨ss, hss, hset⟩ := h
  exact ⟨ss, segments_append_of_none ys hss hys, hset⟩

/-- The interval under way is the last one, and further entries belong to it. -/
theorem Busy.last {b : β} {s : List α} (h : Busy P open? xs b s) {i : ℕ}
    (hi : (intervals open? xs).length = i + 1) (ys : List α) (hys : ∀ y ∈ ys, open? y = none) :
    (intervals open? (xs ++ ys)).length = i + 1 ∧
      (intervals open? (xs ++ ys))[i]? = some (b, s ++ ys) := by
  obtain ⟨ss, hss, -⟩ := h
  have hss' := segments_append_of_none ys hss hys
  rw [intervals, hss] at hi
  rw [intervals, hss']
  simp only [List.filterMap_append, List.filterMap_cons, List.filterMap_nil, Option.map_some,
    List.length_append, List.length_singleton, Nat.add_right_cancel_iff] at hi ⊢
  subst hi
  exact ⟨rfl, List.getElem?_concat_length⟩

theorem Busy.settled {b : β} {s : List α} (h : Busy P open? xs b s) (hs : P b s) :
    ∀ c t, (c, t) ∈ intervals open? xs → P c t := by
  intro c t ht
  obtain ⟨ss, hss, hset⟩ := h
  rw [mem_intervals, hss] at ht
  rcases List.mem_append.mp ht with ht | ht
  · exact hset c t ht
  · simp only [List.mem_singleton, Prod.mk.injEq, Option.some.injEq] at ht
    obtain ⟨rfl, rfl⟩ := ht
    exact hs

/-- An interval satisfies `P`, or it is the one under way. -/
theorem Busy.cases {b c : β} {s t : List α} (h : Busy P open? xs b s)
    (ht : (c, t) ∈ intervals open? xs) : P c t ∨ c = b ∧ t = s := by
  obtain ⟨ss, hss, hset⟩ := h
  rw [mem_intervals, hss] at ht
  rcases List.mem_append.mp ht with ht | ht
  · exact .inl (hset c t ht)
  · simp only [List.mem_singleton, Prod.mk.injEq, Option.some.injEq] at ht
    exact .inr ht

theorem Busy.unique {Q : β → List α → Prop} {b c : β} {s t : List α} (h : Busy P open? xs b s)
    (h' : Busy Q open? xs c t) : b = c ∧ s = t := by
  obtain ⟨ss, hss, -⟩ := h
  obtain ⟨ss', hss', -⟩ := h'
  rw [hss, List.append_singleton_inj] at hss'
  simpa using hss'.2

/-- An entry ends the interval under way. -/
theorem Busy.stop {b : β} {s : List α} (h : Busy P open? xs b s) (hs : P b s) {x : α}
    (ys : List α) (hx : open? x = some none) (hys : ∀ y ∈ ys, open? y = none) :
    Idle P open? (xs ++ x :: ys) := by
  have hseg := segments_append_cons xs ys hx hys
  refine ⟨.inr ⟨_, _, hseg⟩, fun c t ht => h.settled hs c t ?_⟩
  rw [mem_intervals, hseg] at ht
  rw [mem_intervals]
  simpa using ht

/-- Entries that satisfy `q` are found in intervals only. -/
def AllInside (q : α → Bool) (open? : α → Option (Option β)) (xs : List α) : Prop :=
  xs.countP q = ((intervals open? xs).flatMap Prod.snd).countP q

/-- Other entries add nothing to what satisfies `q` in the intervals. -/
theorem countP_intervals_snoc {q : α → Bool} {x : α} (hx : q x = false) :
    ((intervals open? (xs ++ [x])).flatMap Prod.snd).countP q =
      ((intervals open? xs).flatMap Prod.snd).countP q := by
  rw [intervals, segments_snoc, addEntry, intervals]
  cases open? x with
  | some b => cases b <;> simp
  | none =>
    rcases List.eq_nil_or_concat (segments open? xs) with hnil | ⟨ss, ⟨b, s⟩, hss⟩
    · rw [hnil]
      rfl
    · rw [hss, List.concat_eq_append, List.modifyLast_concat]
      cases b <;> simp [hx]

/-- An entry adds at most itself. -/
theorem countP_intervals_snoc_le (open? : α → Option (Option β)) (q : α → Bool) (xs : List α)
    (x : α) :
    ((intervals open? (xs ++ [x])).flatMap Prod.snd).countP q ≤
      ((intervals open? xs).flatMap Prod.snd).countP q + [x].countP q := by
  rw [intervals, segments_snoc, addEntry, intervals]
  cases open? x with
  | some b => cases b <;> simp
  | none =>
    rcases List.eq_nil_or_concat (segments open? xs) with hnil | ⟨ss, ⟨b, s⟩, hss⟩
    · rw [hnil]
      exact Nat.zero_le _
    · rw [hss, List.concat_eq_append, List.modifyLast_concat]
      cases b <;> simp [Nat.add_assoc]

theorem countP_intervals_le (open? : α → Option (Option β)) (q : α → Bool) (xs : List α) :
    ((intervals open? xs).flatMap Prod.snd).countP q ≤ xs.countP q := by
  induction xs using List.reverseRecOn with
  | nil => exact Nat.zero_le _
  | append_singleton xs x ih =>
    have hstep := countP_intervals_snoc_le open? q xs x
    rw [List.countP_append]
    omega

/-- What holds of a list held of it all along, since an entry outside stays outside. -/
theorem AllInside.of_isPrefix {q : α → Bool} {ys : List α} (h : AllInside q open? ys)
    (hpre : xs <+: ys) : AllInside q open? xs := by
  obtain ⟨zs, rfl⟩ := hpre
  induction zs using List.reverseRecOn with
  | nil => simpa using h
  | append_singleton zs z ih =>
    rw [← List.append_assoc] at h
    refine ih ?_
    have hle := countP_intervals_le open? q (xs ++ zs)
    have hstep := countP_intervals_snoc_le open? q (xs ++ zs) z
    rw [AllInside, List.countP_append] at h
    rw [AllInside]
    omega

theorem AllInside.append {q : α → Bool} (h : AllInside q open? xs) {ys : List α}
    (hys : ys.countP q = 0) : AllInside q open? (xs ++ ys) := by
  induction ys using List.reverseRecOn with
  | nil => simpa using h
  | append_singleton ys y ih =>
    rw [List.countP_append, Nat.add_eq_zero_iff] at hys
    have hy : q y = false := by simpa using hys.2
    rw [← List.append_assoc, AllInside, countP_intervals_snoc hy, List.countP_append, hys.2]
    exact ih hys.1

/-- While an interval is under way, an entry that satisfies `q` is one of the interval. -/
theorem AllInside.snoc {q : α → Bool} (h : AllInside q open? xs) {b : β} {s : List α}
    (hbusy : Busy P open? xs b s) {x : α} (hx : open? x = none) :
    AllInside q open? (xs ++ [x]) := by
  obtain ⟨ss, hss, -⟩ := hbusy
  have hss' := segments_append_of_none [x] hss (by simpa using hx)
  rw [AllInside, intervals, hss] at h
  rw [AllInside, intervals, hss', List.countP_append, h]
  simp [List.filterMap_append, Nat.add_assoc]

end Intervals

/-! ## Neighbours that remain -/

/-- Neighbours in a filtered list are entries between which nothing is kept. -/
theorem isChain_filter_iff {R : α → α → Prop} {p : α → Bool} {xs : List α} :
    (xs.filter p).IsChain R ↔ ∀ pre x mid y post, xs = pre ++ x :: (mid ++ y :: post) →
      p x → p y → (∀ z ∈ mid, ¬ p z) → R x y := by
  rw [List.isChain_iff_forall_rel_of_append_cons_cons]
  constructor
  · rintro h pre x mid y post rfl hx hy hmid
    have hnone : mid.filter p = [] := List.filter_eq_nil_iff.mpr hmid
    have hfilter : (pre ++ x :: (mid ++ y :: post)).filter p =
        pre.filter p ++ x :: y :: post.filter p := by simp [hx, hy, hnone]
    exact h hfilter
  · intro h x y l l' hxs
    obtain ⟨as, bs, rfl, -, hbs⟩ := List.filter_eq_append_iff.mp hxs
    obtain ⟨pre, rest, rfl, -, hx, hrest⟩ := List.filter_eq_cons_iff.mp hbs
    obtain ⟨mid, post, rfl, hmid, hy, -⟩ := List.filter_eq_cons_iff.mp hrest
    exact h (as ++ pre) x mid y post (by simp) hx hy hmid

end Traces
