/-
  DurableStore.Snapshot.Reader
  ────────────────────────────────
  **READING FROM THE FRONT.**

  A reader is what is left of an input together with the position it has
  reached.  Every decoder takes a reader and returns a value with the
  reader behind it; the position serves only to say where an input broke
  off.
-/
import DurableStore.Snapshot.Fault

namespace DurableStore.Snapshot

/-- An input read up to a position. -/
structure Reader where
  position : Nat
  /-- The bytes from the position on. -/
  rest : Bytes
  deriving DecidableEq, Repr

namespace Reader

/-- A reader at the start of an input. -/
def start (input : Bytes) : Reader := ⟨0, input⟩

/-- Moves on without looking; it may move past the end. -/
def skip (r : Reader) (n : Nat) : Reader := ⟨r.position + n, r.rest.drop n⟩

/-- The next `n` bytes. -/
def take (r : Reader) (n : Nat) : Except Fault (Bytes × Reader) :=
  let bytes := r.rest.take n
  if bytes.length < n then .error (.unexpectedEnd r.position (n - bytes.length))
  else .ok (bytes, r.skip n)

/-- The next byte. -/
def byte (r : Reader) : Except Fault (UInt8 × Reader) :=
  match r.rest with
  | b :: rest => .ok (b, ⟨r.position + 1, rest⟩)
  | [] => .error (.unexpectedEnd r.position 1)

/-- The next `w` bytes as a number, least significant first. -/
def natLE (r : Reader) (w : Nat) : Except Fault (Nat × Reader) := do
  let (bytes, r) ← r.take w
  return (Bytes.toNatLE bytes, r)

/-- The next `w` bytes as a number, most significant first. -/
def natBE (r : Reader) (w : Nat) : Except Fault (Nat × Reader) := do
  let (bytes, r) ← r.take w
  return (Bytes.toNatBE bytes, r)

/-- The next `w` bytes as a signed number, least significant first. -/
def intLE (r : Reader) (w : Nat) : Except Fault (Int × Reader) := do
  let (n, r) ← r.natLE w
  return (Bytes.toSigned (8 * w) n, r)

/-- Reads `n` values one after the other. -/
def many {α : Type} (item : Reader → Except Fault (α × Reader)) :
    Nat → Reader → Except Fault (List α × Reader)
  | 0, r => .ok ([], r)
  | n + 1, r => do
    let (value, r) ← item r
    let (values, r) ← many item n r
    return (value :: values, r)

end Reader

end DurableStore.Snapshot
