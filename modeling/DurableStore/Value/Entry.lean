/-
  DurableStore.Value.Entry
  ────────────────────────────────
  **ENTRIES AND TIME.**

  Times are milliseconds since the epoch in 64 bits.  A deadline computed
  from the present stops at the last representable time instead of passing
  it.  A clock that is driven by hand moves only when told to, and starts
  again from zero past its end.

  An entry is a value with an optional deadline and the time it was last
  read or written.  It is expired once the clock is PAST the deadline: at
  the deadline itself it still lives.
-/
import DurableStore.Value.Basic

namespace DurableStore

/-! ## §1. Time. -/

/-- A point in time or a span, in milliseconds. -/
abbrev Millis := UInt64

namespace Millis

/-- The last representable time. -/
def last : Nat := Bytes.u64Bound - 1

/-- The time of a number of milliseconds, at most the last one. -/
def clamp (n : Nat) : Millis := UInt64.ofNat (min n last)

/-- A number of seconds in milliseconds. -/
def ofSeconds (seconds : Nat) : Millis := clamp (seconds * 1000)

/-- The time that lies a span after another. -/
def after (now span : Millis) : Millis := clamp (now.toNat + span.toNat)

end Millis

/-- A clock that moves only when told to. -/
structure ManualClock where
  now : Millis
  deriving DecidableEq, Repr

namespace ManualClock

/-- The clock put to a reading, earlier or later. -/
def set (_ : ManualClock) (reading : Millis) : ManualClock := ⟨reading⟩

/-- The clock moved on by a span; past the last time it starts from zero. -/
def advance (c : ManualClock) (span : Millis) : ManualClock := ⟨c.now + span⟩

end ManualClock

/-! ## §2. Entries. -/

/-- A value with its deadline and its last access. -/
structure Entry where
  value : Value
  /-- No deadline means that the entry never expires. -/
  expiresAt : Option Millis
  lastAccessed : Millis
  deriving DecidableEq

instance : Inhabited Entry := ⟨⟨default, none, 0⟩⟩

namespace Entry

/-- The fixed cost of an entry. -/
def overhead : Nat := 48

/-- A fresh entry, not accessed yet. -/
def fresh (value : Value) (expiresAt : Option Millis) : Entry := ⟨value, expiresAt, 0⟩

/-- Whether the clock is past the deadline. -/
def isExpired (e : Entry) (now : Millis) : Bool :=
  match e.expiresAt with
  | some at_ => at_ < now
  | none => false

/-- The entry accessed now. -/
def touch (e : Entry) (now : Millis) : Entry := { e with lastAccessed := now }

/-- The size charged for a key that holds the entry. -/
def size (e : Entry) (key : Bytes) : Nat := overhead + key.length + e.value.size

end Entry

end DurableStore
