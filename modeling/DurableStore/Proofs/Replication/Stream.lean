/-
  DurableStore.Proofs.Replication.Stream
  ────────────────────────────────
  **THE REPLICATION STREAM.**

  Everything that an engine sends is one stream of bytes, from its opening
  on.  Its end is kept in the ring of the backlog (`Backlog.Keeps`), and what
  a follower has not taken yet waits in its channel:

      f.Reaches n bytes   — a follower is registered and connected, and
                            these bytes wait for it

  A write appends the same bytes to the stream and to every channel that is
  reached (`Engine.sent_propagate`).
-/
import DurableStore.Engine.Basic
import DurableStore.Proofs.Command.Stream
import DurableStore.Proofs.Replication.Backlog

namespace DurableStore

/-! ## §1. Channels. -/

namespace Followers

/-- The channel of a number, if its receiving end is held. -/
def channel? (f : Followers) (n : FollowerId) : Option Channel :=
  f.channels.find? fun channel => channel.id = n

/-- A follower is registered, the receiving end of its channel is held, and these
bytes wait in it. -/
structure Reaches (f : Followers) (n : FollowerId) (bytes : Bytes) : Prop where
  registered : f.isRegistered n = true
  waiting : ∃ channel, f.channel? n = some channel ∧ channel.waiting.flatten = bytes

/-- No channel has a number that will be given. -/
def Numbered (f : Followers) : Prop := ∀ channel ∈ f.channels, channel.id < f.nextId

variable {f : Followers} {n : FollowerId} {bytes : Bytes}

theorem id_of_channel? {channel : Channel} (h : f.channel? n = some channel) : channel.id = n :=
  of_decide_eq_true (List.find?_some (p := fun channel : Channel => decide (channel.id = n)) h)

theorem mem_of_channel? {channel : Channel} (h : f.channel? n = some channel) :
    channel ∈ f.channels := List.mem_of_find?_eq_some h

/-- A channel is found under its number after a change that keeps the numbers. -/
theorem find?_map_channel {change : Channel → Channel} (hid : ∀ c, (change c).id = c.id)
    (channels : List Channel) (n : FollowerId) :
    ((channels.map change).find? fun channel => channel.id = n)
      = (channels.find? fun channel => channel.id = n).map change := by
  have hsame : (fun channel : Channel => decide (channel.id = n)) ∘ change
      = fun channel => decide (channel.id = n) := by
    funext channel
    show decide ((change channel).id = n) = _
    rw [hid]
  rw [List.find?_map, hsame]

theorem id_receive (ids : List FollowerId) (message : Bytes) (channel : Channel) :
    (Channel.receive ids message channel).id = channel.id := by
  unfold Channel.receive
  split <;> rfl

/-- A channel with nothing waiting in it, if it has the given number. -/
theorem id_drained (n : FollowerId) (channel : Channel) :
    (if channel.id = n then { channel with waiting := [] } else channel).id = channel.id := by
  split <;> rfl

/-- **A message reaches every follower that is registered and connected.** -/
theorem Reaches.forward (h : f.Reaches n bytes) (message : Bytes) :
    (f.forward message).2.Reaches n (bytes ++ message) := by
  obtain ⟨channel, hfind, hflatten⟩ := h.waiting
  have hconnected : f.isConnected n = true :=
    List.any_eq_true.2 ⟨channel, mem_of_channel? hfind, decide_eq_true (id_of_channel? hfind)⟩
  obtain ⟨follower, hmem, hid⟩ := List.any_eq_true.1 h.registered
  have hsame : follower.id = n := of_decide_eq_true hid
  have hreached : follower ∈ f.registered.filter fun follower => f.isConnected follower.id :=
    List.mem_filter.2 ⟨hmem, hsame ▸ hconnected⟩
  -- it is among those that are sent the message
  have hmine : channel.id ∈ (f.registered.filter fun follower =>
      f.isConnected follower.id).map Follower.id := by
    rw [id_of_channel? hfind]
    exact List.mem_map.2 ⟨follower, hreached, hsame⟩
  refine ⟨List.any_eq_true.2 ⟨follower, hreached, hid⟩,
    { channel with waiting := channel.waiting ++ [message] }, ?_, ?_⟩
  · refine (find?_map_channel (id_receive _ _) _ _).trans ?_
    rw [show f.channels.find? _ = _ from hfind, Option.map_some]
    exact congrArg some (if_pos hmine)
  · rw [List.flatten_concat, hflatten]

theorem Numbered.forward (h : f.Numbered) (message : Bytes) : (f.forward message).2.Numbered := by
  intro channel hmem
  obtain ⟨before, hbefore, rfl⟩ := List.mem_map.1 hmem
  rw [id_receive]
  exact h before hbefore

theorem Numbered.lt (h : f.Numbered) (hreaches : f.Reaches n bytes) : n < f.nextId := by
  obtain ⟨channel, hfind, -⟩ := hreaches.waiting
  rw [← id_of_channel? hfind]
  exact h channel (mem_of_channel? hfind)

theorem Reaches.register (h : f.Reaches n bytes) : f.register.2.Reaches n bytes := by
  obtain ⟨channel, hfind, hflatten⟩ := h.waiting
  refine ⟨?_, channel, ?_, hflatten⟩
  · exact List.any_append.trans (Bool.or_eq_true_iff.2 (.inl h.registered))
  · refine List.find?_append.trans ?_
    rw [show f.channels.find? _ = _ from hfind]
    rfl

/-- **A new follower** is sent what comes from now on. -/
theorem Numbered.reaches_register (h : f.Numbered) : f.register.2.Reaches f.nextId [] := by
  -- the number is new, so no older channel is found under it
  have hnone : f.channel? f.nextId = Option.none := by
    refine List.find?_eq_none.2 ?_
    intro channel hmem hid
    exact Nat.ne_of_lt (h channel hmem) (of_decide_eq_true hid)
  have hnew : (List.find? (fun channel : Channel => channel.id = f.nextId) [⟨f.nextId, []⟩])
      = some ⟨f.nextId, []⟩ := List.find?_cons_of_pos (decide_eq_true rfl)
  refine ⟨?_, ⟨f.nextId, []⟩, ?_, rfl⟩
  · refine List.any_append.trans (Bool.or_eq_true_iff.2 (.inr ?_))
    exact List.any_eq_true.2 ⟨_, List.mem_singleton_self _, decide_eq_true rfl⟩
  · refine List.find?_append.trans ?_
    rw [show f.channels.find? _ = _ from hnone, hnew]
    rfl

theorem Numbered.register (h : f.Numbered) : f.register.2.Numbered := by
  intro channel hmem
  rcases List.mem_append.1 hmem with hold | hnew
  · exact Nat.lt_succ_of_lt (h channel hold)
  · rw [List.mem_singleton.1 hnew]
    exact Nat.lt_succ_self _

/-- When one follower is disconnected the others are not. -/
theorem Reaches.disconnect (h : f.Reaches n bytes) {other : FollowerId} (hne : n ≠ other) :
    (f.disconnect other).2.Reaches n bytes := by
  obtain ⟨channel, hfind, hflatten⟩ := h.waiting
  refine ⟨h.registered, channel, ?_, hflatten⟩
  refine List.find?_filter.trans (Eq.trans ?_ hfind)
  refine congrArg (fun p => List.find? p f.channels) (funext fun channel => ?_)
  by_cases hid : channel.id = n
  · simp [hid, hne]
  · simp [hid]

theorem Numbered.disconnect (h : f.Numbered) (other : FollowerId) :
    (f.disconnect other).2.Numbered :=
  fun channel hmem => h channel (List.mem_filter.1 hmem).1

/-- **A follower takes what waits for it.** -/
theorem Reaches.drain (h : f.Reaches n bytes) :
    (∃ messages, (f.drain n).1 = some messages ∧ messages.flatten = bytes)
      ∧ (f.drain n).2.Reaches n [] := by
  obtain ⟨channel, hfind, hflatten⟩ := h.waiting
  refine ⟨⟨channel.waiting, congrArg (Option.map Channel.waiting) hfind, hflatten⟩,
    h.registered, { channel with waiting := [] }, ?_, rfl⟩
  refine (find?_map_channel (id_drained n) _ _).trans ?_
  rw [show f.channels.find? _ = _ from hfind, Option.map_some, if_pos (id_of_channel? hfind)]

theorem Reaches.drain_other (h : f.Reaches n bytes) {other : FollowerId} (hne : n ≠ other) :
    (f.drain other).2.Reaches n bytes := by
  obtain ⟨channel, hfind, hflatten⟩ := h.waiting
  have hother : channel.id ≠ other := by
    rw [id_of_channel? hfind]
    exact hne
  refine ⟨h.registered, channel, ?_, hflatten⟩
  refine (find?_map_channel (id_drained other) _ _).trans ?_
  rw [show f.channels.find? _ = _ from hfind, Option.map_some, if_neg hother]

theorem Numbered.drain (h : f.Numbered) (other : FollowerId) : (f.drain other).2.Numbered := by
  intro channel hmem
  obtain ⟨before, hbefore, rfl⟩ := List.mem_map.1 hmem
  rw [id_drained]
  exact h before hbefore

end Followers

/-! ## §2. What a write sends. -/

namespace Engine

/-- Bytes were sent down the stream, and nothing else has changed but the log. -/
structure Sent (e e' : Engine) (bytes : Bytes) : Prop where
  keyspace : e'.keyspace = e.keyspace
  config : e'.config = e.config
  history : e'.history = e.history
  backlog : e'.backlog = e.backlog.write bytes
  reaches : ∀ {n before}, e.followers.Reaches n before → e'.followers.Reaches n (before ++ bytes)
  numbered : e.followers.Numbered → e'.followers.Numbered

variable {e e' e'' : Engine}

theorem Sent.trans {as bs : Bytes} (h : e.Sent e' as) (h' : e'.Sent e'' bs) :
    e.Sent e'' (as ++ bs) where
  keyspace := h'.keyspace.trans h.keyspace
  config := h'.config.trans h.config
  history := h'.history.trans h.history
  backlog := by rw [h'.backlog, h.backlog, Backlog.write_append]
  reaches := by
    intro n before hreaches
    rw [← List.append_assoc]
    exact h'.reaches (h.reaches hreaches)
  numbered := fun hnumbered => h'.numbered (h.numbered hnumbered)

theorem sent_send (e : Engine) (bytes : Bytes) : e.Sent (e.send bytes) bytes :=
  ⟨rfl, rfl, rfl, rfl, fun h => h.forward bytes, fun h => h.forward bytes⟩

theorem sent_selectStream (e : Engine) (database : Nat) :
    e.Sent (e.selectStream database) (Command.selection e.streamDatabase database)
      ∧ (e.selectStream database).streamDatabase = some database := by
  unfold selectStream Command.selection
  split
  · -- the stream is in that database already
    rename_i hsame
    refine ⟨⟨rfl, rfl, rfl, (Backlog.write_nil _).symm, ?_, fun h => h⟩, hsame⟩
    intro n before h
    rw [List.append_nil]
    exact h
  · obtain ⟨hkeyspace, hconfig, hhistory, hbacklog, hreaches, hnumbered⟩ :=
      sent_send e (Wire.encode (Command.selecting database))
    exact ⟨⟨hkeyspace, hconfig, hhistory, hbacklog, hreaches, hnumbered⟩, rfl⟩

/-- The log is not part of the stream. -/
theorem sent_appendLog (e : Engine) (database : Nat) (record : Bytes) :
    e.Sent (e.appendLog database record) []
      ∧ (e.appendLog database record).streamDatabase = e.streamDatabase := by
  unfold appendLog withJournal
  split
  · refine ⟨⟨rfl, rfl, rfl, (Backlog.write_nil _).symm, ?_, fun h => h⟩, rfl⟩
    intro n before h
    rw [List.append_nil]
    exact h
  · refine ⟨⟨rfl, rfl, rfl, (Backlog.write_nil _).symm, ?_, fun h => h⟩, rfl⟩
    intro n before h
    rw [List.append_nil]
    exact h

/-- **What a write that is propagated sends**: its record, after the selection of
its database where that is due. -/
theorem sent_propagate (e : Engine) (database : Nat) (record : Bytes) :
    e.Sent (e.propagate database record) (Command.selection e.streamDatabase database ++ record)
      ∧ (e.propagate database record).streamDatabase = some database := by
  obtain ⟨hselect, hdatabase⟩ := sent_selectStream e database
  obtain ⟨hlog, hkept⟩ := sent_appendLog (e.selectStream database) database record
  have hboth := hselect.trans hlog
  rw [List.append_nil] at hboth
  exact ⟨hboth.trans (sent_send _ record), hkept.trans hdatabase⟩

end Engine

end DurableStore
