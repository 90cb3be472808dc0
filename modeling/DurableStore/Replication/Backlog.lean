/-
  DurableStore.Replication.Backlog
  ────────────────────────────────
  **THE REPLICATION BACKLOG.**

  The last bytes of the replication stream are kept in a ring, so that a
  follower that comes back can go on where it stopped.  Bytes are addressed
  by their OFFSET in the whole stream; the byte at offset `o` stands in the
  ring at `o % capacity` until it is written over.

      offset − capacity ≤ o ≤ offset   — the offsets one can read from

  Reading at the offset itself yields no bytes.
-/
import DurableStore.Bytes.Basic

namespace DurableStore

/-- The end of a stream, in a ring. -/
structure Backlog where
  ring : Array UInt8
  /-- The number of bytes ever written. -/
  offset : Nat
  nonempty : 0 < ring.size

namespace Backlog

/-- A backlog that keeps so many bytes, at least one. -/
def new (capacity : Nat) : Backlog where
  ring := Array.replicate (max capacity 1) 0
  offset := 0
  nonempty := by simp only [Array.size_replicate]; omega

/-- How many bytes are kept. -/
def capacity (b : Backlog) : Nat := b.ring.size

/-- Copies bytes over those of a ring, from a place on. -/
def copyTo (ring : Array UInt8) (start : Nat) : Bytes → Array UInt8
  | [] => ring
  | byte :: bytes => copyTo (ring.setIfInBounds start byte) (start + 1) bytes

/-- Copies bytes over those of a ring, from a place on.  What does not fit
before the end of the ring goes on at its front. -/
def copyAround (ring : Array UInt8) (start : Nat) (bytes : Bytes) : Array UInt8 :=
  let first := min bytes.length (ring.size - start)
  copyTo (copyTo ring start (bytes.take first)) 0 (bytes.drop first)

@[simp] theorem size_copyTo (ring : Array UInt8) (start : Nat) (bytes : Bytes) :
    (copyTo ring start bytes).size = ring.size := by
  induction bytes generalizing ring start with
  | nil => rfl
  | cons byte bytes ih => simpa [copyTo] using ih (ring.setIfInBounds start byte) (start + 1)

@[simp] theorem size_copyAround (ring : Array UInt8) (start : Nat) (bytes : Bytes) :
    (copyAround ring start bytes).size = ring.size := by
  simp [copyAround]

/-- Appends bytes to the stream, in place of the oldest ones kept.  Of more
bytes than are kept only the last ones are copied. -/
def write (b : Backlog) (bytes : Bytes) : Backlog :=
  let skipped := bytes.length - b.capacity
  { ring := copyAround b.ring ((b.offset + skipped) % b.capacity) (bytes.drop skipped)
    offset := b.offset + bytes.length
    nonempty := by simpa using b.nonempty }

@[simp] theorem capacity_write (b : Backlog) (bytes : Bytes) :
    (b.write bytes).capacity = b.capacity := by
  simp [write, capacity]

/-- The oldest offset that can be read from. -/
def oldest (b : Backlog) : Nat := b.offset - b.capacity

/-- Whether one can read from an offset. -/
def isValid (b : Backlog) (offset : Nat) : Bool := b.oldest ≤ offset && offset ≤ b.offset

/-- So many bytes from an offset on, as they stand in the ring: up to its
end, and then from its front. -/
def slice (b : Backlog) (offset length : Nat) : Bytes :=
  let start := offset % b.capacity
  let first := min length (b.capacity - start)
  (b.ring.extract start (start + first)).toList ++ (b.ring.extract 0 (length - first)).toList

/-- At most `limit` bytes from an offset on, if one can read from there. -/
def read? (b : Backlog) (offset limit : Nat) : Option Bytes :=
  if b.isValid offset then some (b.slice offset (min (b.offset - offset) limit)) else none

/-- All bytes from an offset on, if one can read from there. -/
def readAll? (b : Backlog) (offset : Nat) : Option Bytes := b.read? offset (b.offset - offset)

end Backlog

end DurableStore
