/-
  DurableStore.Replication.Followers
  ────────────────────────────────
  **FOLLOWERS.**

  Every registered follower has a channel into which each message is put;
  whoever serves the follower takes the messages out at the other end.
  When that end is dropped the follower is disconnected, which is found out
  at the next message: then the follower is no longer registered.

  A channel outlives the registration: after a follower was removed, what
  it was sent before can still be taken out.
-/
import DurableStore.Bytes.Basic

namespace DurableStore

/-- The number of a follower; numbers are never used again. -/
abbrev FollowerId := Nat

/-- A registered follower. -/
structure Follower where
  id : FollowerId
  /-- The greatest offset that the follower has acknowledged. -/
  acknowledged : Nat
  deriving DecidableEq, Repr

/-- The receiving end of a channel. -/
structure Channel where
  id : FollowerId
  /-- The messages that wait, oldest first. -/
  waiting : List Bytes
  deriving DecidableEq, Repr

/-- The registered followers and the receiving ends that are held. -/
structure Followers where
  nextId : FollowerId
  registered : List Follower
  channels : List Channel
  deriving DecidableEq, Repr

namespace Followers

/-- No follower yet. -/
def none : Followers := ⟨0, [], []⟩

/-- Whether the receiving end of a follower's channel is held. -/
def isConnected (f : Followers) (id : FollowerId) : Bool :=
  f.channels.any fun channel => channel.id = id

/-- Whether a follower is registered. -/
def isRegistered (f : Followers) (id : FollowerId) : Bool :=
  f.registered.any fun follower => follower.id = id

/-- Registers a follower, whose messages begin with the next one. -/
def register (f : Followers) : FollowerId × Followers :=
  (f.nextId,
    { nextId := f.nextId + 1
      registered := f.registered ++ [⟨f.nextId, 0⟩]
      channels := f.channels ++ [⟨f.nextId, []⟩] })

/-- Ends a registration; false if there was none. -/
def remove (f : Followers) (id : FollowerId) : Bool × Followers :=
  (f.isRegistered id,
    { f with registered := f.registered.filter fun follower => follower.id ≠ id })

/-- Drops the receiving end of a channel; false if it was not held. -/
def disconnect (f : Followers) (id : FollowerId) : Bool × Followers :=
  (f.isConnected id, { f with channels := f.channels.filter fun channel => channel.id ≠ id })

/-- A channel after a message for the given followers. -/
def Channel.receive (ids : List FollowerId) (message : Bytes) (channel : Channel) : Channel :=
  if channel.id ∈ ids then { channel with waiting := channel.waiting ++ [message] } else channel

/-- Sends a message to every registered follower, strikes out those that are
disconnected, and returns how many remain. -/
def forward (f : Followers) (message : Bytes) : Nat × Followers :=
  let reached := f.registered.filter fun follower => f.isConnected follower.id
  (reached.length,
    { f with
      registered := reached
      channels := f.channels.map (Channel.receive (reached.map Follower.id) message) })

/-- Records the offset that a follower acknowledges; false if it is not
registered.  A smaller offset than before changes nothing. -/
def acknowledge (f : Followers) (id : FollowerId) (offset : Nat) : Bool × Followers :=
  (f.isRegistered id,
    { f with
      registered := f.registered.map fun follower =>
        if follower.id = id then
          { follower with acknowledged := max follower.acknowledged offset }
        else follower })

/-- How many registered followers have acknowledged at least an offset. -/
def acknowledgedCount (f : Followers) (offset : Nat) : Nat :=
  f.registered.countP fun follower => offset ≤ follower.acknowledged

/-- The number of registered followers. -/
def count (f : Followers) : Nat := f.registered.length

/-- Takes the waiting messages out of a channel, if its end is held. -/
def drain (f : Followers) (id : FollowerId) : Option (List Bytes) × Followers :=
  ((f.channels.find? fun channel => channel.id = id).map Channel.waiting,
    { f with
      channels := f.channels.map fun channel =>
        if channel.id = id then { channel with waiting := [] } else channel })

end Followers

end DurableStore
