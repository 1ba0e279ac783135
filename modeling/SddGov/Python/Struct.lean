import Mathlib.Data.List.Basic
import Mathlib.Data.Nat.Digits.Defs
import SddGov.Python.Text

/-!
# Big-endian words

`struct.pack(">I", n)` and `struct.unpack(">I", b)`, and slices of byte strings.
-/

namespace SddGov.Python

/-- `struct.pack(">I", n)`, of a number below `2 ^ 32`. -/
def packU32 (n : Nat) : Bytes :=
    [byte (n / 0x1000000), byte (n / 0x10000), byte (n / 0x100), byte n]

/-- `struct.unpack(">I", b)[0]`, of four bytes. -/
def unpackU32 (b : Bytes) : Nat := b.foldl (fun n c => n * 0x100 + c.val) 0

/-- `b[start:stop]` -/
def slice (b : Bytes) (start stop : Nat) : Bytes := (b.take stop).drop start

@[simp] theorem length_packU32 (n : Nat) : (packU32 n).length = 4 := rfl

theorem byte_val_mod (n : Nat) : (byte n).val = n % 256 := rfl

theorem unpackU32_packU32 {n : Nat} (h : n < 2 ^ 32) : unpackU32 (packU32 n) = n := by
  simp only [unpackU32, packU32, List.foldl_cons, List.foldl_nil, byte_val_mod]
  omega

/-- Four bytes are the word they are read as. -/
theorem packU32_unpackU32 {b : Bytes} (h : b.length = 4) : packU32 (unpackU32 b) = b := by
  obtain ⟨w, x, y, z, rfl⟩ := List.length_eq_four.mp h
  simp only [unpackU32, packU32, List.foldl_cons, List.foldl_nil, List.cons.injEq, and_true,
    Fin.ext_iff, byte_val_mod]
  omega

/-- The front of what is left. -/
theorem slice_append {left front rest : Bytes} {b : Bytes} (h : b = left ++ front ++ rest) :
    slice b left.length (left.length + front.length) = front := by
  unfold slice
  rw [h, List.take_left' (by rw [List.length_append]), List.drop_left]

/-- What is taken out, with what stays before and behind. -/
theorem append_slice {b : Bytes} {start stop : Nat} (h : start ≤ stop) :
    b = b.take start ++ slice b start stop ++ b.drop stop := by
  unfold slice
  have htake : b.take start = (b.take stop).take start := by
    rw [List.take_take, Nat.min_eq_left h]
  rw [htake, List.take_append_drop, List.take_append_drop]

theorem length_slice {b : Bytes} {start stop : Nat} (h : stop ≤ b.length) :
    (slice b start stop).length = stop - start := by
  unfold slice
  rw [List.length_drop, List.length_take, Nat.min_eq_left h]

end SddGov.Python
