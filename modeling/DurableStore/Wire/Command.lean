/-
  DurableStore.Wire.Command
  ────────────────────────────────
  **COMMANDS ON THE WIRE.**

  The durable log, the replication stream and every reader of either share
  one format.  A command is an array of byte strings:

      *<count>CRLF  then, for each argument,  $<length>CRLF<bytes>CRLF

  `encode` writes it and `decode` reads one command from the front of a
  byte string that may end anywhere.  So a decoder has three verdicts: a
  command and what follows it, "not all here yet", or a fault.  A header
  whose line does not end within twenty bytes is a fault even though more
  bytes could follow.

      decode (encode c ++ rest) = done c rest
-/
import DurableStore.Bytes.Decimal

namespace DurableStore

/-- A command: its name followed by its arguments. -/
abbrev Command := List Bytes

namespace Wire

/-! ## §1. Writing. -/

/-- The end of a line. -/
def crlf : Bytes := [13, 10]

/-- The marker of an array. -/
def arrayMarker : UInt8 := 42

/-- The marker of a byte string with its length. -/
def bulkMarker : UInt8 := 36

/-- A marker, a number and the end of the line. -/
def header (marker : UInt8) (n : Nat) : Bytes := marker :: (Bytes.ofNat n ++ crlf)

/-- A byte string with its length. -/
def bulk (bytes : Bytes) : Bytes := header bulkMarker bytes.length ++ bytes ++ crlf

/-- The wire form of a command. -/
def encode (command : Command) : Bytes :=
  header arrayMarker command.length ++ command.flatMap bulk

/-! ## §2. Verdicts of a reader. -/

/-- What is wrong with bytes that are no command. -/
inductive FrameError where
  /-- Another byte stands where a marker belongs. -/
  | unexpectedByte (expected : Char) (found : UInt8)
  /-- A line that should hold a length does not, or it does not end. -/
  | invalidLength
  /-- The bytes of an argument are not followed by the end of a line. -/
  | missingTerminator
  deriving DecidableEq, Repr

/-- The wording of a fault. -/
def FrameError.message : FrameError → String
  | .unexpectedByte expected found =>
    s!"expected '{expected}' but found byte 0x{Bytes.hex found}"
  | .invalidLength => "invalid length header"
  | .missingTerminator => "missing CRLF terminator"

/-- What a reader makes of the front of a byte string. -/
inductive Verdict (α : Type) where
  /-- A value, and the bytes after it. -/
  | done (value : α) (rest : Bytes)
  /-- The bytes end before the value does. -/
  | incomplete
  | malformed (error : FrameError)
  deriving DecidableEq, Repr

/-- Reads on after a first value. -/
def Verdict.andThen {α β : Type} (v : Verdict α) (next : α → Bytes → Verdict β) : Verdict β :=
  match v with
  | .done value rest => next value rest
  | .incomplete => .incomplete
  | .malformed error => .malformed error

/-! ## §3. Reading. -/

/-- Where the first end of a line begins, counted from `i`. -/
def lineEndFrom (i : Nat) : Bytes → Option Nat
  | [] => none
  | b :: bs =>
    if b = 13 ∧ bs.head? = some 10 then some i else lineEndFrom (i + 1) bs

/-- How many bytes a header may have before its line must have ended. -/
def maxHeader : Nat := 20

/-- A number on a line of its own. -/
def number (bs : Bytes) : Verdict Int :=
  match lineEndFrom 0 bs with
  | none => if maxHeader < bs.length then .malformed .invalidLength else .incomplete
  | some i =>
    match Bytes.toInt? 64 (bs.take i) with
    | some n => .done n (bs.drop (i + 2))
    | none => .malformed .invalidLength

/-- A marker and a length on a line of its own. -/
def lengthAfter (marker : UInt8) (bs : Bytes) : Verdict Nat :=
  match bs with
  | [] => .incomplete
  | b :: rest =>
    if b = marker then
      (number rest).andThen fun n rest =>
        if n < 0 then .malformed .invalidLength else .done n.toNat rest
    else .malformed (.unexpectedByte (Char.ofNat marker.toNat) b)

/-- A given number of bytes and the end of the line. -/
def payload (length : Nat) (bs : Bytes) : Verdict Bytes :=
  let bytes := bs.take length
  if bytes.length < length then .incomplete
  else
    match bs.drop length with
    | a :: b :: rest =>
      if a = 13 ∧ b = 10 then .done bytes rest else .malformed .missingTerminator
    | _ => .incomplete

/-- One argument. -/
def argument (bs : Bytes) : Verdict Bytes :=
  (lengthAfter bulkMarker bs).andThen payload

/-- A given number of arguments. -/
def arguments : Nat → Bytes → Verdict Command
  | 0, bs => .done [] bs
  | n + 1, bs =>
    (argument bs).andThen fun arg rest =>
      (arguments n rest).andThen fun args rest => .done (arg :: args) rest

/-- The command at the front of a byte string. -/
def decode (bs : Bytes) : Verdict Command :=
  (lengthAfter arrayMarker bs).andThen arguments

/-! ## §4. Reading on to the end. -/

/-- A run of commands, and how it ended. -/
structure Run where
  commands : List Command
  /-- What was not read. -/
  rest : Bytes
  /-- The fault that ended the run; without one the rest is incomplete. -/
  fault : Option FrameError
  deriving DecidableEq, Repr

/-- Reads at most `budget` commands. -/
def decodeUpTo : Nat → Bytes → Run
  | 0, bs => ⟨[], bs, none⟩
  | budget + 1, bs =>
    match decode bs with
    | .done command rest =>
      let run := decodeUpTo budget rest
      { run with commands := command :: run.commands }
    | .incomplete => ⟨[], bs, none⟩
    | .malformed error => ⟨[], bs, some error⟩

/-- Reads commands until the bytes end or a fault stands in the way.  A
command takes at least one byte, so the length bounds their number. -/
def decodeAll (bs : Bytes) : Run := decodeUpTo bs.length bs

end Wire

end DurableStore
