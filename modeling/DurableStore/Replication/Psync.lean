/-
  DurableStore.Replication.Psync
  ────────────────────────────────
  **THE SYNCHRONIZATION REQUEST.**

  A follower asks to be synchronized by naming the history that it has
  followed and the offset that it has reached in it; `?` and `-1` stand for
  "none".  The leader either continues the stream from there or starts over
  with a snapshot.
-/
import DurableStore.Bytes.Decimal
import DurableStore.Bytes.Utf8
import DurableStore.Wire.Reply

namespace DurableStore

/-- Why a synchronization request is refused. -/
inductive PsyncError where
  | wrongArity
  | invalidOffset
  deriving DecidableEq, Repr

/-- The wording of an error. -/
def PsyncError.message : PsyncError → String
  | .wrongArity => "wrong number of arguments for 'psync' command"
  | .invalidOffset => "invalid PSYNC offset"

/-! ## §1. Histories. -/

/-- The characters that the name of a history is made of. -/
def historyAlphabet : List Char :=
  "ABCDEFGHIJKLMNOPQRSTUVWXYZabcdefghijklmnopqrstuvwxyz0123456789".toList

/-- How many characters the name of a history has. -/
def historyLength : Nat := 40

/-- The name of a history, made of drawn numbers. -/
def historyName (draws : List Nat) : String :=
  String.ofList ((draws.take historyLength).map fun n =>
    historyAlphabet.getD (n % historyAlphabet.length) 'A')

/-! ## §2. Requests. -/

/-- What a follower asks for. -/
structure PsyncRequest where
  /-- The history that the follower has followed. -/
  history : Option String
  /-- The offset that the follower has reached. -/
  offset : Option Nat
  deriving DecidableEq, Repr

namespace PsyncRequest

/-- The history that an argument names. -/
def parseHistory (arg : Bytes) : Option String :=
  if arg = Bytes.ofString "?" then none else some (Bytes.text arg)

/-- The offset that an argument names: −1 or a number not below zero. -/
def parseOffset (arg : Bytes) : Except PsyncError (Option Nat) :=
  match Bytes.toInt? 64 arg with
  | some (.ofNat n) => .ok (some n)
  | some (.negSucc 0) => .ok none
  | _ => .error .invalidOffset

/-- Reads the arguments of a synchronization request. -/
def parse : List Bytes → Except PsyncError PsyncRequest
  | [history, offset] => do
    let offset ← parseOffset offset
    return ⟨parseHistory history, offset⟩
  | _ => .error .wrongArity

end PsyncRequest

/-! ## §3. Answers. -/

/-- What the leader answers. -/
inductive PsyncOutcome where
  /-- The stream goes on with the bytes that the follower missed. -/
  | resume (history : String) (missed : Bytes)
  /-- The follower starts over with a snapshot of this offset. -/
  | restart (history : String) (offset : Nat) (snapshot : Bytes)
  deriving DecidableEq, Repr

/-- The status line that precedes the answer. -/
def PsyncOutcome.header : PsyncOutcome → Reply
  | .resume history _ => .status (Bytes.ofString "CONTINUE " ++ Bytes.ofString history)
  | .restart history offset _ =>
    .status (Bytes.ofString "FULLRESYNC " ++ Bytes.ofString history ++ 32 :: Bytes.ofNat offset)

end DurableStore
