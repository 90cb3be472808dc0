/-
  DurableStore.Command.Session
  ────────────────────────────────
  **APPLYING COMMANDS.**

  A session applies a stream of commands straight to a keyspace and keeps
  track of the selected database.  This is how a log is replayed and how a
  follower repeats what its leader did: nothing is logged again.

  A command that is refused changes no live entry and not the selection;
  it may still have removed entries that were already expired, and it has
  been counted.  So a step returns the session in any case, next to the
  verdict.  Commands outside the vocabulary go to the fallback, if one is
  installed.
-/
import DurableStore.Keyspace.Operations
import DurableStore.Command.Request

namespace DurableStore

/-- Handles a command outside the vocabulary in the selected database. -/
abbrev Fallback := Keyspace → Nat → Command → Keyspace × Except CommandError Unit

/-- A keyspace to which a stream of commands is applied. -/
structure Session where
  keyspace : Keyspace
  /-- The database that commands apply to. -/
  selected : Nat
  fallback : Option Fallback
  /-- What the fallback was handed, with the database, oldest first. -/
  deferred : List (Nat × Command)

namespace Session

/-! ## §1. Steps. -/

/-- The session after a command, and whether the command was refused. -/
abbrev Step := Session × Except CommandError Unit

/-- A session in database 0. -/
def start (keyspace : Keyspace) (fallback : Option Fallback) : Session :=
  ⟨keyspace, 0, fallback, []⟩

/-- The command was applied. -/
def done (s : Session) : Step := (s, .ok ())

/-- The command is refused. -/
def refuse (s : Session) (error : CommandError) : Step := (s, .error error)

/-- Goes on with the result of an operation on the keyspace. -/
def andThen {α : Type} (s : Session) (outcome : Except KeyspaceError (Keyspace × α))
    (next : Session → α → Step) : Step :=
  match outcome with
  | .ok (keyspace, result) => next { s with keyspace } result
  | .error error => s.refuse (.keyspace error)

/-- Ends with the result of an operation on the keyspace. -/
def finish (s : Session) (outcome : Except KeyspaceError Keyspace) : Step :=
  match outcome with
  | .ok keyspace => done { s with keyspace }
  | .error error => s.refuse (.keyspace error)

/-- Goes on with an argument that was read. -/
def reading {α : Type} (s : Session) (argument : Except CommandError α)
    (next : α → Step) : Step :=
  match argument with
  | .ok value => next value
  | .error error => s.refuse error

/-! ## §2. Single commands. -/

/-- Selects a database. -/
def select (s : Session) (index : Nat) : Step :=
  if index < s.keyspace.count then done { s with selected := index }
  else s.refuse (.keyspace (.databaseOutOfRange index s.keyspace.count))

/-- Writes a string as a `SET` asks. -/
def set (s : Session) (request : Command.SetRequest) : Step :=
  s.andThen (s.keyspace.get s.selected request.key) fun s existing =>
    if request.applies existing then
      s.finish (s.keyspace.put s.selected request.key (request.entry existing))
    else s.done

/-- Removes keys. -/
def removeAll : List Bytes → Session → Step
  | [], s => s.done
  | key :: keys, s =>
    s.andThen (s.keyspace.remove s.selected key) fun s _ => removeAll keys s

/-- Changes the collection under a key; an absent one is made first. -/
def upsert (s : Session) (key : Bytes) (kind : Kind) (change : Value → Value) : Step :=
  s.andThen (s.keyspace.get s.selected key) fun s found =>
    match found with
    | some entry =>
      match entry.expectKind kind with
      | .error error => s.refuse (.keyspace error)
      | .ok () =>
        s.andThen
          (s.keyspace.update s.selected key fun entry =>
            ({ entry with value := change entry.value }, ()))
          fun s _ => s.done
    | none =>
      s.finish
        (s.keyspace.put s.selected key (Entry.fresh (change (Value.emptyOf kind)) none))

/-- Sets or removes a deadline. -/
def setExpiry (s : Session) (key : Bytes) (expiresAt : Option Millis) : Step :=
  s.andThen (s.keyspace.setExpiry s.selected key expiresAt) fun s _ => s.done

/-! ## §3. The interpreter. -/

/-- Carries out a verb with its arguments; `name` is what the command was
called. -/
def run (s : Session) (name : String) : Command.Verb → List Bytes → Step
  | .select, [index] => s.reading (Command.parseNat index) s.select
  | .set, args => s.reading (Command.SetRequest.parse s.keyspace.now args) s.set
  | .del, key :: keys => removeAll (key :: keys) s
  | .pushBack, key :: item :: items => s.upsert key .list (Value.append (item :: items))
  | .pushFront, key :: item :: items => s.upsert key .list (Value.prepend (item :: items))
  | .setFields, key :: args =>
    s.reading (Command.fieldArguments name args) fun pairs =>
      s.upsert key .hash (Value.setFields pairs)
  | .addMembers, key :: member :: members =>
    s.upsert key .set (Value.addMembers (member :: members))
  | .setScores, key :: args =>
    s.reading (Command.scoredArguments name args) fun items =>
      s.upsert key .sortedSet (Value.setScores items)
  | .expire form, [key, amount] =>
    s.reading (Command.parseNat amount) fun amount =>
      s.setExpiry key (some (form.resolve s.keyspace.now amount))
  | .persist, [key] => s.setExpiry key none
  | .flushDatabase, _ => s.finish (s.keyspace.clear s.selected)
  | .flushAll, _ => s.finish (.ok s.keyspace.clearAll)
  | .swapDatabases, [a, b] =>
    s.reading (Command.parseNat a) fun a =>
      s.reading (Command.parseNat b) fun b => s.finish (s.keyspace.swap a b)
  | _, _ => s.refuse (.wrongArity name)

/-- Hands a command outside the vocabulary to the fallback. -/
def defer (s : Session) (name : Bytes) (args : List Bytes) : Step :=
  match s.fallback with
  | some handle =>
    let (keyspace, result) := handle s.keyspace s.selected (name :: args)
    ({ s with keyspace, deferred := s.deferred ++ [(s.selected, name :: args)] }, result)
  | none => s.refuse (.unknown (Command.nameText name))

/-- Applies a command. -/
def apply (s : Session) : Command → Step
  | [] => s.refuse .empty
  | name :: args =>
    match Command.Verb.ofName? name with
    | some verb => s.run (Command.nameText name) verb args
    | none => s.defer name args

/-- Applies commands one after the other, going on after a refusal, and
returns the verdict on each. -/
def applyAll (s : Session) : List Command → Session × List (Except CommandError Unit)
  | [] => (s, [])
  | command :: commands =>
    let (s, verdict) := s.apply command
    let (s, verdicts) := s.applyAll commands
    (s, verdict :: verdicts)

end Session

/-! ## §4. Commands as changes of a keyspace. -/

/-- The command that selects a database. -/
def Command.selecting (database : Nat) : Command :=
  [Bytes.ofString "SELECT", Bytes.ofNat database]

/-- What one command does to a database of a keyspace: a fresh session
selects the database and applies the command. -/
def Command.effect (command : Command) (database : Nat) (ks : Keyspace) :
    Keyspace × Except CommandError Unit :=
  match (Session.start ks none).apply (Command.selecting database) with
  | (s, .ok ()) =>
    let (s, verdict) := s.apply command
    (s.keyspace, verdict)
  | (s, .error error) => (s.keyspace, .error error)

end DurableStore
