/-
  DurableStore.Snapshot.Lzf
  ────────────────────────────────
  **LZF COMPRESSION.**

  A compressed string is a sequence of chunks.  A chunk is either a run of
  1 to 32 literal bytes or a reference: "copy so many bytes from so far
  back in what has been produced".  The first byte of a chunk tells them
  apart:

      000LLLLL                    — L + 1 literal bytes follow
      LLLooooo oooooooo           — copy L + 2 bytes from o + 1 bytes back
      111ooooo LLLLLLLL oooooooo  — copy L + 9 bytes from o + 1 bytes back

  A reference may overlap its own output; the copied bytes then repeat.

      compress    — bytes to the encoded chunks of a greedy match search
      decompress  — chunks to bytes, every chunk checked before it is used
-/
import DurableStore.Bytes.Basic
import Std.Data.HashMap

namespace DurableStore.Lzf

/-! ## §1. Chunks. -/

/-- One instruction of a compressed string. -/
inductive Chunk where
  | literal (bytes : Bytes)
  | reference (distance length : Nat)
  deriving DecidableEq, Repr

/-- The longest run of literals in one chunk. -/
def maxLiteral : Nat := 32

/-- The farthest that a reference reaches back. -/
def maxDistance : Nat := 8192

/-- The greatest number of bytes that one reference copies. -/
def maxReference : Nat := 264

/-- The bytes of a chunk. -/
def Chunk.encode : Chunk → Bytes
  | .literal bytes => UInt8.ofNat (bytes.length - 1) :: bytes
  | .reference distance length =>
    let offset := distance - 1
    let low := UInt8.ofNat (offset % 256)
    if length < 9 then
      [UInt8.ofNat ((length - 2) * 32 + offset / 256), low]
    else
      [UInt8.ofNat (224 + offset / 256), UInt8.ofNat (length - 9), low]

/-! ## §2. Compression. -/

/-- Where three bytes are remembered: the top 14 of 32 bits of a product. -/
def slot (a b c : UInt8) : Nat :=
  (a.toNat * 65536 + b.toNat * 256 + c.toNat) * 2654435761 % Bytes.u32Bound / 262144

/-- The last place at which each slot was seen: a position, and the input
from there on. -/
abbrev Table := Std.HashMap Nat (Nat × Bytes)

/-- How many bytes two strings have in common at the front, up to a limit. -/
def commonLength : Nat → Bytes → Bytes → Nat
  | limit + 1, x :: xs, y :: ys => if x = y then commonLength limit xs ys + 1 else 0
  | _, _, _ => 0

/-- The reference that the remembered place allows at a position: at least
three bytes must agree. -/
def reference? (seen : Option (Nat × Bytes)) (position : Nat) (input : Bytes) :
    Option (Nat × Nat) :=
  match seen with
  | none => none
  | some (place, earlier) =>
    let distance := position - place
    let length := commonLength maxReference earlier input
    if distance ≤ maxDistance ∧ 3 ≤ length then some (distance, length) else none

/-- Literal chunks for a run of bytes, given in reverse. -/
def literals (run : Bytes) : List Chunk :=
  (Bytes.chunks maxLiteral run.reverse).map Chunk.literal

/-- The chunks from a position on.  `run` holds, in reverse, the literal
bytes not written yet; `skip` counts bytes that a reference already covers
and that are not remembered. -/
def chunksFrom (table : Table) (position : Nat) (run : Bytes) (skip : Nat) :
    Bytes → List Chunk
  | [] => literals run
  | a :: rest =>
    match skip with
    | skip + 1 => chunksFrom table (position + 1) run skip rest
    | 0 =>
      match rest with
      | b :: c :: _ =>
        let s := slot a b c
        let table' := table.insert s (position, a :: rest)
        match reference? table[s]? position (a :: rest) with
        | some (distance, length) =>
          literals run ++ .reference distance length ::
            chunksFrom table' (position + 1) [] (length - 1) rest
        | none => chunksFrom table' (position + 1) (a :: run) 0 rest
      | _ => chunksFrom table (position + 1) (a :: run) 0 rest

/-- The chunks of a byte string. -/
def chunksOf (input : Bytes) : List Chunk := chunksFrom ∅ 0 [] 0 input

/-- The compressed form of a byte string.  It may be longer than the input
when nothing repeats. -/
def compress (input : Bytes) : Bytes := (chunksOf input).flatMap Chunk.encode

/-! ## §3. Decompression. -/

/-- What is wrong with a compressed string. -/
inductive Fault where
  /-- So many bytes cannot come out of so short an input. -/
  | impossibleLength
  | literalPastEnd
  | truncatedReference
  | referenceBeforeStart
  | outputTooLong
  | outputTooShort
  deriving DecidableEq, Repr

/-- The wording of a fault. -/
def Fault.message : Fault → String
  | .impossibleLength => "declared length exceeds what the input can produce"
  | .literalPastEnd => "literal run past end of input"
  | .truncatedReference => "truncated back-reference"
  | .referenceBeforeStart => "back-reference before start of output"
  | .outputTooLong => "output longer than declared"
  | .outputTooShort => "output shorter than declared"

/-- A chunk, given its first byte, and what follows it. -/
def Chunk.read (control : UInt8) (rest : Bytes) : Except Fault (Chunk × Bytes) :=
  let kind := control.toNat / 32
  let high := control.toNat % 32
  if kind = 0 then
    let bytes := rest.take (high + 1)
    if bytes.length < high + 1 then .error .literalPastEnd
    else .ok (.literal bytes, rest.drop (high + 1))
  else if kind = 7 then
    match rest with
    | extra :: low :: rest =>
      .ok (.reference (high * 256 + low.toNat + 1) (extra.toNat + 9), rest)
    | _ => .error .truncatedReference
  else
    match rest with
    | low :: rest => .ok (.reference (high * 256 + low.toNat + 1) (kind + 2), rest)
    | _ => .error .truncatedReference

/-- Appends bytes copied from `distance` back, one at a time. -/
def copyBack (distance : Nat) : Nat → Array UInt8 → Array UInt8
  | 0, out => out
  | n + 1, out => copyBack distance n (out.push (out.getD (out.size - distance) 0))

/-- Carries out a chunk, if the output may grow that far. -/
def Chunk.run (expected : Nat) (out : Array UInt8) : Chunk → Except Fault (Array UInt8)
  | .literal bytes =>
    if expected < out.size + bytes.length then .error .outputTooLong
    else .ok (out ++ bytes)
  | .reference distance length =>
    if out.size < distance then .error .referenceBeforeStart
    else if expected < out.size + length then .error .outputTooLong
    else .ok (copyBack distance length out)

/-- Carries out at most `budget` chunks. -/
def runChunks (expected : Nat) : Nat → Bytes → Array UInt8 → Except Fault (Array UInt8)
  | _, [], out => .ok out
  | 0, _, out => .ok out
  | budget + 1, control :: rest, out => do
    let (chunk, rest) ← Chunk.read control rest
    let out ← chunk.run expected out
    runChunks expected budget rest out

/-- The greatest number of bytes that one byte of input can stand for. -/
def maxExpansion : Nat := maxReference / 3

/-- The bytes that a compressed string stands for, if they are as many as
expected.  A chunk takes at least one byte, so the length of the input
bounds their number. -/
def decompress (input : Bytes) (expected : Nat) : Except Fault Bytes :=
  if input.length * maxExpansion < expected then .error .impossibleLength
  else do
    let out ← runChunks expected input.length input #[]
    if out.size = expected then .ok out.toList else .error .outputTooShort

end DurableStore.Lzf
