import OneBase.Lib.Memory

set_option relaxedAutoImplicit false
set_option autoImplicit false

/-!
# File streams

A binary file and a stream opened on it for reading and writing, with one position and the sticky
state bits of the C++ streams: a read that hits the end of the file sets `eofbit` and `failbit`,
seeking to read clears `eofbit` only, and a stream that has failed ignores every request.

## Main definitions

* `File` — a file; it reads as zeros beyond its end.
* `FileStream` and its operations `seekg`, `seekp`, `read`, `write`.

## Main results

* `File.block_write`, `File.block_write_of_disjoint` — reading back a block of a file.
* `FileStream.read_of_le`, `FileStream.read_of_size_le` — reading within the file and beyond its
  end.
* `FileStream.read_of_fail`, `FileStream.write_of_fail` — a failed stream does nothing.
-/

/-- A file: its size and its bytes, which are zeros beyond the end. -/
structure File where
  size : ℕ := 0
  data : ℕ → UInt8 := fun _ => 0
  data_of_le : ∀ i, size ≤ i → data i = 0 := by intros; rfl

namespace File

open Memory

/-- Write the bytes `l` at `a`. A gap between the old end of the file and `a` is filled with
zeros. -/
def write (f : File) (a : ℕ) (l : List UInt8) : File where
  size := if l = [] then f.size else max f.size (a + l.length)
  data := writeBytes f.data a l
  data_of_le i hi := by
    split_ifs at hi with hl
    · rw [hl, writeBytes_of_outside (by simp only [List.length_nil]; omega)]
      exact f.data_of_le i hi
    · rw [writeBytes_of_outside (.inr (le_trans (le_max_right _ _) hi))]
      exact f.data_of_le i (le_trans (le_max_left _ _) hi)

/-- The `n` bytes from `a` on, zeros beyond the end. -/
def block (f : File) (a n : ℕ) : List UInt8 := readBytes f.data a n

variable {f : File} {a b n : ℕ} {l : List UInt8}

/-- A block has its length. -/
@[simp] lemma length_block : (f.block a n).length = n := length_readBytes _ _ _

/-- Reading back the block that was written. -/
lemma block_write : (f.write a l).block a l.length = l := readBytes_writeBytes f.data a l

/-- Another block is as it was. -/
lemma block_write_of_disjoint (h : b + n ≤ a ∨ a + l.length ≤ b) :
    (f.write a l).block b n = f.block b n :=
  readBytes_writeBytes_of_disjoint h

/-- Beyond the end there are zeros. -/
lemma block_of_size_le (h : f.size ≤ a) : f.block a n = List.replicate n 0 := by
  rw [block, readBytes, List.eq_replicate_iff]
  refine ⟨by simp, fun b hb => ?_⟩
  obtain ⟨i, -, rfl⟩ := List.mem_map.1 hb
  exact f.data_of_le (a + i) (by omega)

end File

/-- A stream on a file, opened for reading and writing. -/
structure FileStream where
  file : File
  /-- The position of the file buffer, which reading and writing share. -/
  pos : ℕ := 0
  eofbit : Bool := false
  failbit : Bool := false
  badbit : Bool := false

namespace FileStream

/-- `good()`. -/
def good (s : FileStream) : Bool := !s.eofbit && !s.failbit && !s.badbit

/-- `fail()`. -/
def fail (s : FileStream) : Bool := s.failbit || s.badbit

/-- `bad()`. -/
def bad (s : FileStream) : Bool := s.badbit

/-- Move the position, unless the stream has failed; there is no negative position. -/
def seek (s : FileStream) (off : ℤ) : FileStream :=
  if s.fail then s
  else if off < 0 then { s with failbit := true }
  else { s with pos := off.toNat }

/-- `seekg(off)`. -/
def seekg (s : FileStream) (off : ℤ) : FileStream := { s with eofbit := false }.seek off

/-- `seekp(off)`. -/
def seekp (s : FileStream) (off : ℤ) : FileStream := s.seek off

/-- `read(data, n)`: the bytes read, `gcount()` many, and the stream. -/
def read (s : FileStream) (n : ℕ) : List UInt8 × FileStream :=
  if s.good then
    let count := min n (s.file.size - s.pos)
    let s' := { s with pos := s.pos + count }
    (s.file.block s.pos count,
      if count < n then { s' with eofbit := true, failbit := true } else s')
  else ([], { s with failbit := true })

/-- `write(data, n)`. -/
def write (s : FileStream) (l : List UInt8) : FileStream :=
  if s.good then { s with file := s.file.write s.pos l, pos := s.pos + l.length } else s

variable {s : FileStream} {off : ℤ} {n : ℕ} {l : List UInt8}

/-- A failed stream stays failed when it seeks. -/
lemma seek_of_fail (h : s.fail = true) : s.seek off = s := by
  simp [seek, h]

/-- A stream that has failed is not good. -/
lemma good_of_fail (h : s.fail = true) : s.good = false := by
  simp only [fail, Bool.or_eq_true] at h
  rcases h with h | h <;> simp [good, h]

/-- Reading from a failed stream returns nothing. -/
lemma read_of_fail (h : s.fail = true) : s.read n = ([], { s with failbit := true }) := by
  simp [read, good_of_fail h]

/-- Writing to a failed stream does nothing. -/
lemma write_of_fail (h : s.fail = true) : s.write l = s := by
  simp [write, good_of_fail h]

/-- Seeking in a stream that has not failed. -/
lemma seek_eq (h : s.fail = false) (hoff : 0 ≤ off) : s.seek off = { s with pos := off.toNat } := by
  simp [seek, h, not_lt.2 hoff]

/-- Reading within the file. -/
lemma read_of_le (hgood : s.good = true) (h : s.pos + n ≤ s.file.size) :
    s.read n = (s.file.block s.pos n, { s with pos := s.pos + n }) := by
  have hcount : min n (s.file.size - s.pos) = n := by omega
  simp [read, hgood, hcount]

/-- Reading beyond the end of the file returns nothing, and the stream fails. -/
lemma read_of_size_le (hgood : s.good = true) (hn : 0 < n) (h : s.file.size ≤ s.pos) :
    s.read n = ([], { s with eofbit := true, failbit := true }) := by
  have hcount : min n (s.file.size - s.pos) = 0 := by omega
  have hblock : s.file.block s.pos 0 = [] := rfl
  simp [read, hgood, hcount, hblock, hn]

end FileStream
