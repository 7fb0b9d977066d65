import Mathlib.Data.List.Basic
import TcpDemo.Lib.CBytes

/-!
# Records of a log

A record is a payload between a fixed text in front and a fixed text behind, and can be
told from its text (`Format.payload_line`). A receiver that prints each chunk as a C
string, in a record of its own, shows a chunk up to its first NUL, so it shows the whole
stream if and only if there is none (`Receiver.shown_eq_stream_iff`).

## Main definitions

* `Format.line`, `Format.payload` — a record, and what is left without its fixed texts.
* `Receiver.shown`, `Receiver.stream` — the payloads a trace has printed, and the bytes it
  has received.
* `Receiver.Prints` — every chunk is printed up to its first NUL.
-/

namespace Records
open CBytes

/-- The fixed texts of a record. -/
structure Format where
  before : List UInt8
  after : List UInt8

/-- The record with this payload. -/
def Format.line (f : Format) (s : List UInt8) : List UInt8 := f.before ++ s ++ f.after

/-- The payload of a text, if it is a record. -/
def Format.payload (f : Format) (text : List UInt8) : Option (List UInt8) :=
  if f.before <+: text ∧ f.after <:+ text.drop f.before.length then
    some ((text.drop f.before.length).take (text.length - f.before.length - f.after.length))
  else none

@[simp] theorem Format.payload_line (f : Format) (s : List UInt8) :
    f.payload (f.line s) = some s := by
  have hdrop : (f.line s).drop f.before.length = s ++ f.after := by
    rw [line, List.append_assoc, List.drop_left]
  have hlen : (f.line s).length - f.before.length - f.after.length = s.length := by
    simp only [line, List.length_append]
    omega
  rw [payload, hdrop, hlen, List.take_left, if_pos]
  exact ⟨⟨s ++ f.after, by simp [line]⟩, List.suffix_append _ _⟩

theorem Format.payload_eq_none {f : Format} {text : List UInt8} (h : ¬ f.before <+: text) :
    f.payload text = none := if_neg fun hboth => h hboth.1

/-- A text that begins with something else is no record. -/
theorem Format.payload_append_eq_none {f : Format} {t : List UInt8} (s : List UInt8)
    (h : ¬ f.before <+: t) (hlen : f.before.length ≤ t.length) : f.payload (t ++ s) = none :=
  payload_eq_none fun hpre => h (List.prefix_of_prefix_length_le hpre (List.prefix_append t s) hlen)

/-- What the entries of a trace have printed and received, and the format of the records
that show it. -/
structure Receiver (α : Type) where
  printed : α → Option (List UInt8)
  received : α → List UInt8
  record : Format

namespace Receiver
variable {α : Type} (r : Receiver α)

/-- The payloads that were printed, one behind the other. -/
def shown (tr : List α) : List UInt8 :=
  tr.flatMap fun e => ((r.printed e).bind r.record.payload).getD []

/-- The bytes that were received. -/
def stream (tr : List α) : List UInt8 := tr.flatMap r.received

/-- An entry that receives nothing and shows nothing. -/
def Silent (e : α) : Prop := (r.printed e).bind r.record.payload = none ∧ r.received e = []

/-- All chunks that were received are printed, each up to its first NUL. -/
def Prints (tr : List α) : Prop := r.shown tr = tr.flatMap fun e => cstr (r.received e)

variable {r} {tr tr' : List α}

theorem Prints.append (h : r.Prints tr) (h' : r.Prints tr') : r.Prints (tr ++ tr') := by
  rw [Prints, shown, List.flatMap_append, List.flatMap_append]
  exact congrArg₂ _ h h'

theorem prints_of_silent (h : ∀ e ∈ tr, r.Silent e) : r.Prints tr := by
  rw [Prints, shown]
  refine List.flatMap_congr fun e he => ?_
  rw [(h e he).1, (h e he).2]
  rfl

/-- The entries of a chunk that is printed. -/
theorem prints_chunk {e e' : α} (hsilent : (r.printed e).bind r.record.payload = none)
    (hprinted : r.printed e' = some (r.record.line (cstr (r.received e))))
    (hnil : r.received e' = []) : r.Prints [e, e'] := by
  simp [Prints, shown, hsilent, hprinted, hnil]

end Receiver

/-- Chunks without what follows their first NUL make up the same stream only if there is
no NUL. -/
theorem flatMap_cstr_eq_iff {α : Type} (f : α → List UInt8) (xs : List α) :
    (xs.flatMap fun x => cstr (f x)) = xs.flatMap f ↔ 0 ∉ xs.flatMap f := by
  have hle : ∀ ys : List α, (ys.flatMap fun x => cstr (f x)).length ≤ (ys.flatMap f).length := by
    intro ys
    induction ys with
    | nil => exact le_rfl
    | cons y ys ih =>
      have hy := (cstr_isPrefix (f y)).length_le
      simp only [List.flatMap_cons, List.length_append]
      omega
  induction xs with
  | nil => simp
  | cons x xs ih =>
    rw [List.flatMap_cons, List.flatMap_cons, List.mem_append, not_or]
    constructor
    · intro h
      have hx := (cstr_isPrefix (f x)).length_le
      have hlen := congrArg List.length h
      have hrest := hle xs
      simp only [List.length_append] at hlen
      obtain ⟨hchunk, htail⟩ := List.append_inj h (by omega)
      exact ⟨hchunk ▸ zero_notMem_cstr (f x), ih.mp htail⟩
    · rintro ⟨hx, htail⟩
      rw [cstr_eq_self hx, ih.mpr htail]

/-- **The whole stream is shown just as long as no NUL was received.** -/
theorem Receiver.shown_eq_stream_iff {α : Type} {r : Receiver α} {tr : List α} (h : r.Prints tr) :
    r.shown tr = r.stream tr ↔ 0 ∉ r.stream tr := by
  rw [h]
  exact flatMap_cstr_eq_iff r.received tr

end Records
