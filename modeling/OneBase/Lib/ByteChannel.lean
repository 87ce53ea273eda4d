import Mathlib.Data.Stream.Defs
import Mathlib.Data.List.Basic
import Mathlib.Order.MinMax
import Mathlib.Algebra.Order.Ring.Nat
import Mathlib.Tactic.Common

set_option relaxedAutoImplicit false
set_option autoImplicit false

/-!
# Byte channels

The two ends of a stream of bytes, as the system calls `read` and `write` use them: every call may
transfer fewer bytes than it was asked for. A schedule chooses how many; all choices are possible.

## Main definitions

* `ByteChannel` — one end of a stream.
* `ByteChannel.write`, `ByteChannel.read` — the system calls.

## Main results

* `ByteChannel.write_spec`, `ByteChannel.read_spec` — a call transfers a nonempty part of what it
  was asked for, as long as there is some.
-/

/-- One end of a stream: the bytes that were written to it, or that can still be read from it, and
how many bytes the next calls are willing to transfer. -/
structure ByteChannel where
  bytes : List UInt8
  schedule : Stream' ℕ

namespace ByteChannel

/-- The number of bytes that a call transfers when there are `n`: at least one, if there is one. -/
def transferred (c : ByteChannel) (n : ℕ) : ℕ := min n (max 1 c.schedule.head)

/-- `::write(fd, buf, len)`: the number of bytes written, and the channel. -/
def write (c : ByteChannel) (buf : List UInt8) : ℕ × ByteChannel :=
  let n := c.transferred buf.length
  (n, ⟨c.bytes ++ buf.take n, c.schedule.tail⟩)

/-- `::read(fd, buf, len)`: the bytes read, and the channel. No bytes are read at the end of the
stream. -/
def read (c : ByteChannel) (len : ℕ) : List UInt8 × ByteChannel :=
  let n := c.transferred (min len c.bytes.length)
  (c.bytes.take n, ⟨c.bytes.drop n, c.schedule.tail⟩)

variable {c : ByteChannel} {buf : List UInt8} {len : ℕ}

/-- No more bytes are transferred than were asked for. -/
lemma transferred_le (n : ℕ) : c.transferred n ≤ n := min_le_left _ _

/-- A call that is asked for bytes transfers some. -/
lemma transferred_pos {n : ℕ} (h : 0 < n) : 0 < c.transferred n :=
  lt_min h (lt_of_lt_of_le Nat.one_pos (le_max_left _ _))

/-- A call that is asked for nothing transfers nothing. -/
@[simp] lemma transferred_zero : c.transferred 0 = 0 := Nat.zero_min _

/-- A call to `write` takes a nonempty part of the buffer. -/
lemma write_spec (c : ByteChannel) (h : buf ≠ []) :
    0 < (c.write buf).1 ∧ (c.write buf).2.bytes ++ buf.drop (c.write buf).1 = c.bytes ++ buf := by
  refine ⟨transferred_pos (List.length_pos_iff.2 h), ?_⟩
  simp [write]

/-- A call to `read` takes a nonempty part of what is there, and not more than it was asked for. -/
lemma read_spec (c : ByteChannel) (len : ℕ) :
    (c.read len).1 ++ (c.read len).2.bytes = c.bytes ∧ (c.read len).1.length ≤ len ∧
      (0 < len → ((c.read len).1 = [] ↔ c.bytes = [])) := by
  refine ⟨List.take_append_drop _ _, ?_, fun hlen => ?_⟩
  · have hle : c.transferred (min len c.bytes.length) ≤ len :=
      (transferred_le _).trans (min_le_left _ _)
    exact (List.length_take_le _ _).trans hle
  · constructor
    · intro hnil
      by_contra hne
      have hpos : 0 < min len c.bytes.length := lt_min hlen (List.length_pos_iff.2 hne)
      rcases List.take_eq_nil_iff.1 hnil with hzero | hzero
      · exact absurd hzero (transferred_pos hpos).ne'
      · exact hne hzero
    · intro hnil
      simp [read, hnil]

end ByteChannel
