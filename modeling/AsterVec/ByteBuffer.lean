import Mathlib.Algebra.GroupWithZero.Nat
import Mathlib.Data.List.GetD

/-!
Byte buffers and byte files.  A buffer maps offsets to bytes, so a copy into it
and a slice out of it are first-order functions and two regions interact only
through their offsets.
-/

namespace AsterVec.ByteBuffer

/-- The contents of a memory buffer: the byte at every offset. -/
abbrev Buffer := Nat → UInt8

/-- A zero-filled buffer. -/
def zeros : Buffer := fun _ => 0

/-- Copy `bytes` over the region that starts at `offset`. -/
def copyInto (buf : Buffer) (offset : Nat) (bytes : List UInt8) : Buffer :=
  fun i => if offset ≤ i ∧ i < offset + bytes.length
    then bytes.getD (i - offset) 0 else buf i

/-- The `len` bytes that start at `offset`. -/
def slice (buf : Buffer) (offset len : Nat) : List UInt8 :=
  (List.range len).map fun k => buf (offset + k)

@[simp] theorem slice_length (buf : Buffer) (offset len : Nat) :
    (slice buf offset len).length = len := by
  simp [slice]

theorem slice_congr {buf buf' : Buffer} {offset offset' len : Nat}
    (hbytes : ∀ k < len, buf (offset + k) = buf' (offset' + k)) :
    slice buf offset len = slice buf' offset' len := by
  apply List.map_congr_left
  intro k hk
  exact hbytes k (List.mem_range.mp hk)

theorem slice_copyInto_self (buf : Buffer) (offset : Nat)
    (bytes : List UInt8) :
    slice (copyInto buf offset bytes) offset bytes.length = bytes := by
  apply List.ext_getElem
  · simp
  · intro k _ hk
    have hregion : offset ≤ offset + k ∧ offset + k < offset + bytes.length := by
      omega
    simp only [slice, List.getElem_map, List.getElem_range, copyInto]
    rw [if_pos hregion, Nat.add_sub_cancel_left, List.getD_eq_getElem _ _ hk]

theorem slice_copyInto_disjoint (buf : Buffer) {offset start len : Nat}
    {bytes : List UInt8}
    (hdisjoint : start + len ≤ offset ∨ offset + bytes.length ≤ start) :
    slice (copyInto buf offset bytes) start len = slice buf start len := by
  apply slice_congr
  intro k hk
  exact if_neg (by omega)

/-- A regular file: its bytes and its size.  Reading past the end sees zeros,
which is what the readers of this development pad with. -/
structure ByteFile where
  bytes : Buffer
  size : Nat
  zero_beyond : ∀ i, size ≤ i → bytes i = 0

namespace ByteFile

/-- The empty file. -/
def empty : ByteFile := ⟨zeros, 0, fun _ _ => rfl⟩

/-- Positional write of the first `len` bytes of `data` at `offset`. -/
def pwrite (file : ByteFile) (offset len : Nat) (data : Buffer) : ByteFile where
  bytes i := if offset ≤ i ∧ i < offset + len then data (i - offset)
    else file.bytes i
  size := if len = 0 then file.size else max file.size (offset + len)
  zero_beyond := by
    intro i hi
    have hbeyond : ¬(offset ≤ i ∧ i < offset + len) := by
      split at hi <;> omega
    rw [if_neg hbeyond]
    exact file.zero_beyond i (by split at hi <;> omega)

/-- Positional write of a byte string. -/
def pwriteBytes (file : ByteFile) (offset : Nat) (bytes : List UInt8) :
    ByteFile :=
  file.pwrite offset bytes.length fun k => bytes.getD k 0

/-- A file never shrinks under a positional write. -/
theorem size_le_pwrite (file : ByteFile) (offset len : Nat) (data : Buffer) :
    file.size ≤ (file.pwrite offset len data).size := by
  simp only [pwrite]
  split <;> omega

end ByteFile

end AsterVec.ByteBuffer
