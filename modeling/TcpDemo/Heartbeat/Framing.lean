import TcpDemo.Heartbeat.Counter

/-!
# The byte stream of a heartbeat connection

What the server gets on one connection. The task takes every result of `send` that is
not negative for success, so a short `send` leaves a torn line in front of the next
one. `heartbeat_framed_iff` says for which results the stream is made of whole lines
with consecutive numbers.
-/

namespace TcpDemo.Heartbeat
open Interaction Traces CBytes FreeRTOS FreeRTOS.Call

/-- A connection starts when `connect` returns zero and ends with `closesocket`. -/
def boundary : Event Api → Option (Option Socket)
  | ⟨.connect s _, r⟩ => if (r : ℤ) = 0 then some (some s) else none
  | ⟨.closesocket _, _⟩ => some none
  | _ => none

/-- The connections of a trace, each with its socket and what was issued on it. -/
def connections (tr : Trace Api) : List (Socket × Trace Api) := intervals boundary tr

/-- The bytes are whole heartbeats with consecutive numbers. -/
def Framed (bytes : List UInt8) : Prop :=
  ∃ ks : List UInt32, ks.IsChain (fun j k => k = j + 1) ∧ bytes = ks.flatMap heartbeat

/-- Every `send` accepts its whole line or nothing, and the number of sends that accept
nothing between two lines makes up whole turns of the counter. -/
structure WholeLines (ss : List (List UInt8 × ℤ)) : Prop where
  whole_or_nothing : ∀ s ∈ ss, s.2 ≤ 0 ∨ Whole s
  consecutive : ∀ pre x mid y post, ss = pre ++ x :: (mid ++ y :: post) →
    Whole x → Whole y → (∀ z ∈ mid, ¬ Whole z) → 2 ^ 32 ∣ mid.length

/-! ## Reading the stream back -/

/-- A pass of the inner loop sends one heartbeat, whatever becomes of it. -/
theorem sends_beating {v : Vars} {evs : Trace Api} {l : Loc}
    (h : (body (.beating v)).Issues evs l) : ∃ r, sends evs = [(heartbeat v.ulCounter, r)] := by
  obtain ⟨r, b, ⟨-, -, c, rfl⟩ | ⟨-, -, rfl⟩⟩ := beating_step h
  · exact ⟨r.result, rfl⟩
  · exact ⟨r.result, rfl⟩

/-- **A stream of heartbeats can be read back in one way only.** Each message fits the
transmit buffer with its terminator, the bytes passed to `send` are the whole line, and
sequences of numbers with the same stream are the same. -/
theorem heartbeat_decodable :
    (∀ ulCounter, snprintfStored txBufferSize (heartbeat ulCounter) = heartbeat ulCounter ++ [0] ∧
      (heartbeat ulCounter ++ [0]).length ≤ txBufferSize) ∧
    (∀ v evs l, (body (.beating v)).Issues evs l → ∃ r, sends evs = [(heartbeat v.ulCounter, r)]) ∧
    ∀ ks ks' : List UInt32, ks.flatMap heartbeat = ks'.flatMap heartbeat → ks = ks' := by
  refine ⟨fun k => ⟨snprintfStored_heartbeat k, ?_⟩, fun v evs l => sends_beating,
    fun ks ks' h => flatMap_injective_of_delimited delimited_heartbeat heartbeat_injective h⟩
  rw [List.length_append, List.length_singleton]
  exact length_heartbeat_lt k

/-! ## Numbered sends -/

/-- A `send` as the number of its heartbeat and the result. -/
def beat (x : UInt32 × ℤ) : List UInt8 × ℤ := (heartbeat x.1, x.2)

/-- Numbered messages are heartbeats whose numbers follow each other. -/
theorem Numbered.exists_beats {k : UInt32} {ss : List (List UInt8 × ℤ)} (h : Numbered k ss) :
    ∃ bs : List (UInt32 × ℤ), ss = bs.map beat ∧ bs.IsChain (fun x y => y.1 = x.1 + 1) ∧
      ∀ x ∈ bs.head?, x.1 = k := by
  induction ss generalizing k with
  | nil => exact ⟨[], rfl, .nil, by simp⟩
  | cons s ss ih =>
    obtain ⟨bs, rfl, hchain, hhead⟩ := ih h.2
    refine ⟨(k, s.2) :: bs, ?_, List.isChain_cons.mpr ⟨hhead, hchain⟩, by simp⟩
    rw [List.map_cons, beat, ← h.1]

/-- Numbers that follow each other count the steps between them. -/
theorem number_after {x y : UInt32 × ℤ} {mid post : List (UInt32 × ℤ)}
    (h : (x :: (mid ++ y :: post)).IsChain (fun x y => y.1 = x.1 + 1)) :
    y.1 = x.1 + .ofNat mid.length + 1 := by
  induction mid generalizing x with
  | nil => simpa using (List.isChain_cons_cons.mp h).1
  | cons z mid ih =>
    obtain ⟨hz, h⟩ := List.isChain_cons_cons.mp h
    rw [ih h, hz, List.length_cons, Wrap.ofNat_succ, UInt32.add_assoc x.1, UInt32.add_comm 1,
      UInt32.add_assoc x.1]

/-! ## Framing -/

/-- The part of a heartbeat that was accepted. -/
def acceptedPart (x : UInt32 × ℤ) : List UInt8 := (heartbeat x.1).take x.2.toNat

theorem length_heartbeat_pos (k : UInt32) : 0 < (heartbeat k).length := by
  obtain ⟨body, hk, -⟩ := marked_heartbeat k
  simp [hk]

theorem whole_beat {x : UInt32 × ℤ} : Whole (beat x) ↔ x.2 = (heartbeat x.1).length := by
  rw [Whole, decide_eq_true_iff]
  rfl

/-- Where every line is accepted whole or not at all, the stream is made of the accepted
lines. -/
theorem flatMap_acceptedPart {bs : List (UInt32 × ℤ)}
    (h : ∀ x ∈ bs, x.2 ≤ 0 ∨ Whole (beat x)) :
    bs.flatMap acceptedPart =
      ((bs.filter fun x => Whole (beat x)).map Prod.fst).flatMap heartbeat := by
  induction bs with
  | nil => rfl
  | cons x bs ih =>
    obtain ⟨hx, hbs⟩ := List.forall_mem_cons.mp h
    rw [List.flatMap_cons, ih hbs]
    by_cases hw : Whole (beat x)
    · simp [hw, acceptedPart, whole_beat.mp hw]
    · have hle := hx.resolve_right hw
      simp [hw, acceptedPart, Int.toNat_of_nonpos hle]

/-- A stream of whole heartbeats is made of lines that were accepted whole. -/
theorem whole_of_framed {bs : List (UInt32 × ℤ)} {ks : List UInt32}
    (hfit : ∀ x ∈ bs, x.2 ≤ (heartbeat x.1).length)
    (h : bs.flatMap acceptedPart = ks.flatMap heartbeat) :
    ∀ x ∈ bs, x.2 ≤ 0 ∨ Whole (beat x) := by
  intro x hx
  have hparts : (bs.map fun x => (x.1, x.2.toNat)).flatMap
      (fun x => (heartbeat x.1).take x.2) = ks.flatMap heartbeat := by
    rw [List.flatMap_map]
    exact h
  have hwhole := whole_of_flatMap_take marked_heartbeat delimited_heartbeat hparts
    (x.1, x.2.toNat) (List.mem_map_of_mem hx)
  have hle := hfit x hx
  rcases hwhole with h0 | hge
  · exact .inl (Int.toNat_eq_zero.mp h0)
  · have hpos := length_heartbeat_pos x.1
    exact .inr (whole_beat.mpr (by simp only at hge; omega))

/-- The accepted numbers follow each other if and only if the sends skipped between them
make up whole turns of the counter. -/
theorem consecutive_iff {bs : List (UInt32 × ℤ)}
    (hchain : bs.IsChain (fun x y => y.1 = x.1 + 1)) :
    ((bs.filter fun x => Whole (beat x)).map Prod.fst).IsChain (fun j k => k = j + 1) ↔
      ∀ pre x mid y post, bs = pre ++ x :: (mid ++ y :: post) → Whole (beat x) →
        Whole (beat y) → (∀ z ∈ mid, ¬ Whole (beat z)) → 2 ^ 32 ∣ mid.length := by
  rw [List.isChain_map, isChain_filter_iff]
  have hskip : ∀ pre x mid y post, bs = pre ++ x :: (mid ++ y :: post) →
      (y.1 = x.1 + 1 ↔ 2 ^ 32 ∣ mid.length) := by
    intro pre x mid y post hbs
    rw [number_after (List.isChain_append.mp (hbs ▸ hchain)).2.1, UInt32.add_left_inj]
    exact Wrap.add_ofNat_eq_iff
  constructor
  · intro h pre x mid y post hbs hx hy hmid
    exact (hskip pre x mid y post hbs).mp (h pre x mid y post hbs hx hy hmid)
  · intro h pre x mid y post hbs hx hy hmid
    exact (hskip pre x mid y post hbs).mpr (h pre x mid y post hbs hx hy hmid)

/-- The skipped sends, counted among the messages or among their numbers. -/
theorem wholeLines_map_beat {bs : List (UInt32 × ℤ)} : WholeLines (bs.map beat) ↔
    (∀ x ∈ bs, x.2 ≤ 0 ∨ Whole (beat x)) ∧
      ∀ pre x mid y post, bs = pre ++ x :: (mid ++ y :: post) → Whole (beat x) →
        Whole (beat y) → (∀ z ∈ mid, ¬ Whole (beat z)) → 2 ^ 32 ∣ mid.length := by
  constructor
  · rintro ⟨hwhole, hcons⟩
    refine ⟨fun x hx => hwhole _ (List.mem_map_of_mem hx), ?_⟩
    rintro pre x mid y post rfl hx hy hmid
    have h := hcons (pre.map beat) (beat x) (mid.map beat) (beat y) (post.map beat) (by simp)
      hx hy (List.forall_mem_map.mpr hmid)
    simpa using h
  · rintro ⟨hwhole, hcons⟩
    refine ⟨List.forall_mem_map.mpr hwhole, ?_⟩
    intro pre x mid y post hbs hx hy hmid
    obtain ⟨pre, rest, rfl, rfl, hrest⟩ := List.map_eq_append_iff.mp hbs
    obtain ⟨x, rest, rfl, rfl, hmidpost⟩ := List.map_eq_cons_iff.mp hrest
    obtain ⟨mid, rest, rfl, rfl, hpost⟩ := List.map_eq_append_iff.mp hmidpost
    obtain ⟨y, post, rfl, rfl, rfl⟩ := List.map_eq_cons_iff.mp hpost
    rw [List.length_map]
    exact hcons pre x mid y post rfl hx hy fun z hz => hmid _ (List.mem_map_of_mem hz)

/-- **Framing of numbered sends.** -/
theorem framed_iff {k : UInt32} {ss : List (List UInt8 × ℤ)} (h : Numbered k ss)
    (hfit : ∀ s ∈ ss, s.2 ≤ s.1.length) :
    Framed (ss.flatMap fun s => s.1.take s.2.toNat) ↔ WholeLines ss := by
  obtain ⟨bs, rfl, hchain, -⟩ := h.exists_beats
  have hparts : ((bs.map beat).flatMap fun s => s.1.take s.2.toNat) = bs.flatMap acceptedPart := by
    rw [List.flatMap_map]
    rfl
  rw [hparts, wholeLines_map_beat, ← consecutive_iff hchain]
  constructor
  · rintro ⟨ks, hks, heq⟩
    have hwhole := whole_of_framed (fun x hx => hfit _ (List.mem_map_of_mem hx)) heq
    rw [flatMap_acceptedPart hwhole] at heq
    have hnumbers := flatMap_injective_of_delimited delimited_heartbeat heartbeat_injective heq
    exact ⟨hwhole, hnumbers ▸ hks⟩
  · rintro ⟨hwhole, hnumbers⟩
    exact ⟨_, hnumbers, flatMap_acceptedPart hwhole⟩

/-- The sends of a connection are numbered, from some number on. -/
theorem numbered_connection {b : Buffer txBufferSize} {env : Environment Api} {tr : Trace Api}
    (htr : (prvTCPHeartbeatTask b).Moment env tr) {c : Socket × Trace Api}
    (hc : c ∈ connections tr) : ∃ k, Numbered k (sends c.2) := by
  obtain ⟨pre, post, rfl⟩ := (segments_isInfix tr).1 _ (mem_intervals.mp hc)
  have h := numbered_sends htr
  rw [sends_append, sends_append, numbered_append, numbered_append] at h
  exact ⟨_, h.1.2⟩

/-- **When the stream is framed.** At every moment of a run and for each of its
connections, the bytes accepted on the connection are whole heartbeats with consecutive
numbers if and only if every `send` on it accepted its whole line or nothing, and the
number of sends skipped between two lines was always a multiple of `2 ^ 32`. -/
theorem heartbeat_framed_iff {b : Buffer txBufferSize} {env : Environment Api} {tr : Trace Api}
    (htr : (prvTCPHeartbeatTask b).Moment env tr) {c : Socket × Trace Api}
    (hc : c ∈ connections tr) : Framed (acceptedBytes c.2) ↔ WholeLines (sends c.2) := by
  obtain ⟨k, hk⟩ := numbered_connection htr hc
  rw [acceptedBytes_eq]
  exact framed_iff hk fun s => le_length_of_mem_sends

/-- The run in which every call succeeds, and each `send` returns `r` or all it was
given, after two heartbeats. -/
def twoHeartbeats (r : ℤ) : Trace Api :=
  ((prvTCPHeartbeatTask (.replicate _ 0)).head (scripted (fun _ => []) fun _ => r) 3).2

/-- Both heartbeats are accepted whole. -/
theorem heartbeat_framed_two : ∃ c ∈ connections (twoHeartbeats 64), WholeLines (sends c.2) := by
  obtain ⟨c, hc, hbytes⟩ := List.map_eq_singleton_iff.mp
    (show (connections (twoHeartbeats 64)).map (fun c => acceptedBytes c.2) =
      [ascii "HEARTBEAT 0\r\nHEARTBEAT 1\r\n"] by decide +kernel)
  have hmem : c ∈ connections (twoHeartbeats 64) := by simp [hc]
  refine ⟨c, hmem, (heartbeat_framed_iff (Task.moment_head _ 3) hmem).mp ?_⟩
  rw [hbytes]
  exact ⟨[0, 1], by decide, by decide +kernel⟩

/-- Two sends accept three bytes each: the server gets `HEAHEA`. -/
theorem heartbeat_torn : ¬ ∀ b env tr, (prvTCPHeartbeatTask b).Moment env tr →
    ∀ c ∈ connections tr, Framed (acceptedBytes c.2) := by
  intro h
  obtain ⟨c, hc, hbytes⟩ := List.map_eq_singleton_iff.mp
    (show (connections (twoHeartbeats 3)).map (fun c => acceptedBytes c.2) = [ascii "HEAHEA"] by
      decide +kernel)
  have hmem : c ∈ connections (twoHeartbeats 3) := by simp [hc]
  obtain ⟨ks, -, hks⟩ := h _ _ _ (Task.moment_head _ 3) c hmem
  rw [hbytes] at hks
  rcases getLast?_flatMap_of_delimited delimited_heartbeat ks with rfl | hlast
  · exact absurd hks (by decide)
  · rw [← hks] at hlast
    exact absurd hlast (by decide)

end TcpDemo.Heartbeat
