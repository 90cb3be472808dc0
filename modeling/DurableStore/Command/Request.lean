/-
  DurableStore.Command.Request
  ────────────────────────────────
  **THE VOCABULARY OF COMMANDS.**

  The commands that the durable log and the replication stream are written
  in: the ones that rebuild a dataset and the bookkeeping around them.
  Names are read in any case.  A deadline is given in seconds or in
  milliseconds, from the epoch or from now.

  `SET` takes options after its value: when to write at all, what deadline
  the key gets, or that it keeps the one it has.
-/
import DurableStore.Bytes.Utf8
import DurableStore.Score.Text
import DurableStore.Keyspace.Basic
import DurableStore.Wire.Command

namespace DurableStore

/-! ## §1. Errors. -/

/-- Why a command is refused. -/
inductive CommandError where
  | empty
  | unknown (name : String)
  | wrongArity (name : String)
  | invalidInteger
  | invalidScore
  | malformedOptions
  | keyspace (error : KeyspaceError)
  deriving DecidableEq, Repr

/-- The wording of an error. -/
def CommandError.message : CommandError → String
  | .empty => "empty command"
  | .unknown name => s!"unknown command '{name}'"
  | .wrongArity name => s!"wrong number of arguments for '{name}' command"
  | .invalidInteger => "value is not an integer or out of range"
  | .invalidScore => "value is not a valid float"
  | .malformedOptions => "syntax error"
  | .keyspace error => error.message

namespace Command

/-- An unsigned 64-bit number as an argument. -/
def parseNat (arg : Bytes) : Except CommandError Nat :=
  match Bytes.toNat? Bytes.u64Bound arg with
  | some n => .ok n
  | none => .error .invalidInteger

/-- The text of a command name, in lower case. -/
def nameText (name : Bytes) : String := Bytes.text (Bytes.lower name)

/-! ## §2. Deadlines. -/

/-- How a deadline is given. -/
structure DeadlineForm where
  inSeconds : Bool
  /-- Counted from now, not from the epoch. -/
  fromNow : Bool
  deriving DecidableEq, Repr

/-- The deadline that an amount stands for. -/
def DeadlineForm.resolve (form : DeadlineForm) (now : Millis) (amount : Nat) : Millis :=
  let span := if form.inSeconds then Millis.ofSeconds amount else Millis.clamp amount
  if form.fromNow then Millis.after now span else span

/-! ## §3. Verbs. -/

/-- The commands of the vocabulary. -/
inductive Verb where
  | select
  | set
  | del
  | pushBack
  | pushFront
  | setFields
  | addMembers
  | setScores
  | expire (form : DeadlineForm)
  | persist
  | flushDatabase
  | flushAll
  | swapDatabases
  deriving DecidableEq, Repr

/-- The names of the vocabulary, in lower case. -/
def Verb.names : List (String × Verb) :=
  [("select", .select), ("set", .set), ("del", .del), ("unlink", .del),
    ("rpush", .pushBack), ("lpush", .pushFront), ("hset", .setFields),
    ("hmset", .setFields), ("sadd", .addMembers), ("zadd", .setScores),
    ("expire", .expire ⟨true, true⟩), ("pexpire", .expire ⟨false, true⟩),
    ("expireat", .expire ⟨true, false⟩), ("pexpireat", .expire ⟨false, false⟩),
    ("persist", .persist), ("flushdb", .flushDatabase), ("flushall", .flushAll),
    ("swapdb", .swapDatabases)]

/-- The verb of a name in any case. -/
def Verb.ofName? (name : Bytes) : Option Verb :=
  (Verb.names.find? fun p => Bytes.ofString p.1 = Bytes.lower name).map Prod.snd

/-! ## §4. The options of `SET`. -/

/-- An option of `SET`. -/
inductive SetOption where
  | ifAbsent
  | ifPresent
  /-- Asks for the old value, which changes nothing here. -/
  | answerOld
  | keepDeadline
  | deadline (form : DeadlineForm)
  deriving DecidableEq, Repr

/-- The names of the options, in upper case. -/
def SetOption.names : List (String × SetOption) :=
  [("NX", .ifAbsent), ("XX", .ifPresent), ("GET", .answerOld), ("KEEPTTL", .keepDeadline),
    ("EX", .deadline ⟨true, true⟩), ("PX", .deadline ⟨false, true⟩),
    ("EXAT", .deadline ⟨true, false⟩), ("PXAT", .deadline ⟨false, false⟩)]

/-- The option of a name in any case. -/
def SetOption.ofName? (name : Bytes) : Option SetOption :=
  (SetOption.names.find? fun p => Bytes.ofString p.1 = Bytes.upper name).map Prod.snd

/-- What a `SET` asks for. -/
structure SetRequest where
  key : Bytes
  value : Bytes
  expiresAt : Option Millis
  keepDeadline : Bool
  ifAbsent : Bool
  ifPresent : Bool
  deriving DecidableEq, Repr

/-- Reads the options of a `SET` in order; a later one overrides. -/
def SetRequest.withOptions (now : Millis) : List Bytes → SetRequest →
    Except CommandError SetRequest
  | [], request => .ok request
  | name :: rest, request =>
    match SetOption.ofName? name with
    | none => .error .malformedOptions
    | some .ifAbsent => withOptions now rest { request with ifAbsent := true }
    | some .ifPresent => withOptions now rest { request with ifPresent := true }
    | some .answerOld => withOptions now rest request
    | some .keepDeadline => withOptions now rest { request with keepDeadline := true }
    | some (.deadline form) =>
      match rest with
      | [] => .error .malformedOptions
      | amount :: rest => do
        let amount ← parseNat amount
        withOptions now rest { request with expiresAt := some (form.resolve now amount) }

/-- Reads the arguments of a `SET`. -/
def SetRequest.parse (now : Millis) : List Bytes → Except CommandError SetRequest
  | key :: value :: options =>
    withOptions now options ⟨key, value, none, false, false, false⟩
  | _ => .error (.wrongArity "set")

/-- Whether a `SET` writes, given the entry that is there. -/
def SetRequest.applies (request : SetRequest) (existing : Option Entry) : Bool :=
  !(request.ifAbsent && existing.isSome) && !(request.ifPresent && existing.isNone)

/-- The entry that a `SET` writes, given the entry that is there. -/
def SetRequest.entry (request : SetRequest) (existing : Option Entry) : Entry :=
  let expiresAt :=
    match request.keepDeadline, existing with
    | true, some entry => entry.expiresAt
    | _, _ => request.expiresAt
  Entry.fresh (.string request.value) expiresAt

/-! ## §5. Scores as arguments. -/

/-- Reads scores with their members, score first. -/
def parseScored : List (Bytes × Bytes) → Except CommandError (List (Bytes × Score))
  | [] => .ok []
  | (text, member) :: rest =>
    match Score.parse? text with
    | none => .error .invalidScore
    | some score => do
      let rest ← parseScored rest
      return (member, score) :: rest

/-- Scores with their members; there must be at least one. -/
def scoredArguments (name : String) (args : List Bytes) :
    Except CommandError (List (Bytes × Score)) :=
  match args, Bytes.pairUp args with
  | _ :: _, some pairs => parseScored pairs
  | _, _ => .error (.wrongArity name)

/-- Fields with their values; there must be at least one. -/
def fieldArguments (name : String) (args : List Bytes) :
    Except CommandError (List (Bytes × Bytes)) :=
  match args, Bytes.pairUp args with
  | _ :: _, some pairs => .ok pairs
  | _, _ => .error (.wrongArity name)

end Command

end DurableStore
