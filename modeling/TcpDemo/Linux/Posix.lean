import TcpDemo.Lib.Interaction
import TcpDemo.Lib.Text

/-!
# The calls of a Linux program

The programs under `linux/` are single-threaded: the relays wait in `select` for the
terminal and for a TCP connection, and the echo server waits in `recv`. `Api` lists the
system and library calls they make, each with the type of what it answers.
-/

namespace TcpDemo.Posix
open Interaction CBytes

/-- What `select` returns, and the descriptors it leaves in the set. -/
structure SelectAnswer where
  result : ℤ
  readfds : List ℤ

/-- What a `recv` or `read` of at most `size` bytes returns, and the bytes it stores. -/
structure ReadAnswer (size : ℕ) where
  result : ℤ
  data : List UInt8
  stored : data.length = result.toNat
  fits : data.length ≤ size

/-- An error or an end of the stream stores nothing. -/
theorem ReadAnswer.data_eq_nil_iff {size : ℕ} {a : ReadAnswer size} :
    a.data = [] ↔ a.result ≤ 0 := by
  rw [← List.length_eq_zero_iff, a.stored, Int.toNat_eq_zero]

/-- The calls of the programs. Descriptors are `int`s, as in the source. -/
inductive Call where
  | signalIgnoreSigpipe
  | socket
  | bind (fd : ℤ) (address : UInt32) (port : UInt16)
  | listen (fd : ℤ) (backlog : ℤ)
  | accept (fd : ℤ)
  | connect (fd : ℤ) (address : UInt32) (port : UInt16)
  | select (nfds : ℤ) (readfds : List ℤ)
  | recv (fd : ℤ) (size : ℕ)
  | read (fd : ℤ) (size : ℕ)
  | send (fd : ℤ) (data : List UInt8)
  | close (fd : ℤ)
  | printf (text : List UInt8)
  | perror (text : List UInt8)

/-- The type of the answer to each call. -/
@[reducible] def Call.Answer : Call → Type
  | .signalIgnoreSigpipe => Unit
  | .socket => ℤ
  | .bind _ _ _ => ℤ
  | .listen _ _ => ℤ
  | .accept _ => ℤ
  | .connect _ _ _ => ℤ
  | .select _ _ => SelectAnswer
  | .recv _ size => ReadAnswer size
  | .read _ size => ReadAnswer size
  | .send _ _ => ℤ
  | .close _ => ℤ
  | .printf _ => Unit
  | .perror _ => Unit

/-- The interface between a program and the operating system. -/
@[reducible] def Api : Interface where
  Call := Call
  Answer := Call.Answer

/-- A `read` returns the number of bytes it stores. -/
theorem length_stored (data : List UInt8) : data.length = (data.length : ℤ).toNat := by simp

/-- The answer of a `read` that stores `data`. -/
def ReadAnswer.store {size : ℕ} (data : List UInt8) (h : data.length ≤ size) : ReadAnswer size :=
  ⟨data.length, data, length_stored data, h⟩

/-- A chunk read into an array with room for one byte more, and a terminator stored behind
it: the bytes of the chunk, and the string the array begins with. -/
theorem buffer_after_read {size : ℕ} (hsize : 0 < size) (b : Buffer size)
    (a : ReadAnswer (size - 1)) :
    ((b.write 0 a.data).write a.result.toNat [0]).bytes.take a.result.toNat = a.data ∧
      cstr ((b.write 0 a.data).write a.result.toNat [0]).bytes = cstr a.data := by
  have hfit : a.data.length < size := Nat.lt_of_le_of_lt a.fits (Nat.sub_one_lt hsize.ne')
  rw [← a.stored]
  exact ⟨b.take_write_nul hfit, b.cstr_write_nul hfit⟩

instance : Inhabited SelectAnswer := ⟨⟨0, []⟩⟩
instance (size : ℕ) : Inhabited (ReadAnswer size) := ⟨.store [] (Nat.zero_le size)⟩

instance (c : Call) : Nonempty (Api.Answer c) := by
  cases c <;> exact ⟨default⟩

/-- `STDIN_FILENO` -/
def stdinFileno : ℤ := 0

/-! ## Issuing the calls -/

@[simp] def signalIgnoreSigpipe : Program Api Unit := .call .signalIgnoreSigpipe .ret
@[simp] def socket : Program Api ℤ := .call .socket .ret
@[simp] def bind (fd : ℤ) (address : UInt32) (port : UInt16) : Program Api ℤ :=
  .call (.bind fd address port) .ret
@[simp] def listen (fd backlog : ℤ) : Program Api ℤ := .call (.listen fd backlog) .ret
@[simp] def accept (fd : ℤ) : Program Api ℤ := .call (.accept fd) .ret
@[simp] def connect (fd : ℤ) (address : UInt32) (port : UInt16) : Program Api ℤ :=
  .call (.connect fd address port) .ret
@[simp] def select (nfds : ℤ) (readfds : List ℤ) : Program Api SelectAnswer :=
  .call (.select nfds readfds) .ret
@[simp] def recv (fd : ℤ) (size : ℕ) : Program Api (ReadAnswer size) := .call (.recv fd size) .ret
@[simp] def read (fd : ℤ) (size : ℕ) : Program Api (ReadAnswer size) := .call (.read fd size) .ret
@[simp] def send (fd : ℤ) (data : List UInt8) : Program Api ℤ := .call (.send fd data) .ret
@[simp] def close (fd : ℤ) : Program Api ℤ := .call (.close fd) .ret
@[simp] def printf (text : List UInt8) : Program Api Unit := .call (.printf text) .ret
@[simp] def perror (text : List UInt8) : Program Api Unit := .call (.perror text) .ret

end TcpDemo.Posix
