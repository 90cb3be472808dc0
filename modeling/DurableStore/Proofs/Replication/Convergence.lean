/-
  DurableStore.Proofs.Replication.Convergence
  ────────────────────────────────
  **FOLLOWERS CONVERGE.**

  A leader is written to, and any number of followers come, fall behind, lose
  their connection and come back.  Three things have to stay aligned for
  each of them: how far it has followed the stream, what the leader still
  sends it, and the database that its session has selected.  They are, when
  the rest of the stream is all that the follower lacks:

      r.Follows e stream   — the stream from the offset of `r` on is what
                             `r` has received and what waits for it, and a
                             session that applies it holds what `e` holds

  A write adds its bytes to the stream and to every channel alike.  A
  registration changes nothing for those who follow already, since the next
  record names its database for everybody.  A follower that comes back is
  sent the rest of the stream, or it starts over with a snapshot and
  nothing of the stream is left.

  Main results:
    * `Cluster.Aligned.step` — one step keeps the invariant;
    * `followers_converge` — after every run, whatever a follower has still
      to apply makes its dataset that of the leader.
-/
import Mathlib.Logic.Relation
import DurableStore.Proofs.Engine.Limits
import DurableStore.Proofs.Replication.Stream

namespace DurableStore

open Loaded

/-! ## §1. Leader and followers. -/

/-- The follower's end of a connection. -/
structure Link where
  id : FollowerId
  /-- The bytes that were received and are not applied yet. -/
  received : Bytes

/-- What a follower has made of the stream. -/
structure Replica where
  session : Session
  /-- How far it has applied the stream. -/
  offset : Nat
  /-- The connection, if there is one. -/
  link : Option Link

namespace Replica

/-- A follower that has followed nothing yet. -/
def new (count : Nat) (now : Millis) : Replica :=
  ⟨Session.start (Keyspace.new count now) none, 0, none⟩

/-- Starts over with a snapshot file, and a session in database 0. -/
def restart (r : Replica) (id : FollowerId) (offset : Nat) (bytes : Bytes) :
    Except EngineError Replica :=
  match Snapshot.decode r.session.keyspace.count r.session.keyspace.now bytes with
  | .error fault => .error (.snapshot fault)
  | .ok s =>
    match r.session.keyspace.restore s with
    | .error error => .error (.keyspace error)
    | .ok ks => .ok ⟨Session.start ks none, offset, some ⟨id, []⟩⟩

/-- Takes the answer to a synchronization request. -/
def accept (r : Replica) (id : FollowerId) : PsyncOutcome → Except EngineError Replica
  | .resume _ missed => .ok { r with link := some ⟨id, missed⟩ }
  | .restart _ offset bytes => r.restart id offset bytes

/-- What the follower asks for when it comes back. -/
def request (r : Replica) (history : String) : PsyncRequest := ⟨some history, some r.offset⟩

/-- Receives messages. -/
def receive (r : Replica) (l : Link) (messages : List Bytes) : Replica :=
  { r with link := some { l with received := l.received ++ messages.flatten } }

/-- Applies a command that was read from the front of what was received. -/
def apply (r : Replica) (l : Link) (command : Command) (rest : Bytes) : Replica :=
  ⟨(r.session.apply command).1, r.offset + (l.received.length - rest.length),
    some { l with received := rest }⟩

end Replica

/-- A leader and its followers, each under a number of its own. -/
structure Cluster where
  engine : Engine
  replicas : Nat → Option Replica

/-- The cluster after something that concerns one follower. -/
def Cluster.put (c : Cluster) (e : Engine) (i : Nat) (r : Replica) : Cluster :=
  ⟨e, fun j => if j = i then some r else c.replicas j⟩

/-- One thing that happens to a leader or a follower, while the clock is held. -/
inductive Cluster.Step : Cluster → Cluster → Prop
  /-- A command is written to a database. -/
  | write {c : Cluster} (database : Nat) {command : Command} (hselect : ¬ command.Selects)
      (hfits : Wire.Fits command) :
      Step c { c with engine := (c.engine.execute database command).1 }
  /-- A follower comes that has not followed this history. -/
  | join {c : Cluster} (i : Nat) {request : PsyncRequest} {r : Replica}
      (hforeign : request.history ≠ some c.engine.history ∨ request.offset = none)
      (hbounded : c.engine.keyspace.snapshot.Bounded)
      (haccept : (Replica.new c.engine.keyspace.count c.engine.keyspace.now).accept
        (c.engine.psync request).2.1 (c.engine.psync request).2.2 = .ok r) :
      Step c (c.put (c.engine.psync request).1 i r)
  /-- A follower comes back and asks for what it has missed. -/
  | reconnect {c : Cluster} {i : Nat} {r r' : Replica} (hi : c.replicas i = some r)
      (hlink : r.link = none) (hbounded : c.engine.keyspace.snapshot.Bounded)
      (haccept : r.accept (c.engine.psync (r.request c.engine.history)).2.1
        (c.engine.psync (r.request c.engine.history)).2.2 = .ok r') :
      Step c (c.put (c.engine.psync (r.request c.engine.history)).1 i r')
  /-- A follower takes the messages that wait for it. -/
  | receive {c : Cluster} {i : Nat} {r : Replica} {l : Link} {messages : List Bytes}
      (hi : c.replicas i = some r) (hlink : r.link = some l)
      (hdrain : (c.engine.followers.drain l.id).1 = some messages) :
      Step c (c.put { c.engine with followers := (c.engine.followers.drain l.id).2 } i
        (r.receive l messages))
  /-- A follower applies the next command. -/
  | apply {c : Cluster} {i : Nat} {r : Replica} {l : Link} {command : Command} {rest : Bytes}
      (hi : c.replicas i = some r) (hlink : r.link = some l)
      (hdecode : Wire.decode l.received = .done command rest) :
      Step c (c.put c.engine i (r.apply l command rest))
  /-- A follower is disconnected; what it has not applied is lost. -/
  | disconnect {c : Cluster} {i : Nat} {r : Replica} {l : Link} (hi : c.replicas i = some r)
      (hlink : r.link = some l) :
      Step c (c.put { c.engine with followers := (c.engine.followers.disconnect l.id).2 } i
        { r with link := none })
  /-- A follower is disconnected, and the leader has not noticed it. -/
  | lose {c : Cluster} {i : Nat} {r : Replica} (hi : c.replicas i = some r) :
      Step c (c.put c.engine i { r with link := none })

/-! ## §2. The invariant. -/

/-- All that a follower lacks is the rest of the stream. -/
structure Replica.Follows (r : Replica) (e : Engine) (stream : Bytes) : Prop where
  offset : r.offset ≤ stream.length
  fallback : r.session.fallback = none
  stands : ∃ own, r.session.Stands e.keyspace.now e.keyspace.count own none
  yields : r.session.Yields (stream.drop r.offset) e.keyspace.now e.keyspace.count
    (e.keyspace.contents e.keyspace.now) e.streamDatabase
  link : ∀ l, r.link = some l → ∃ waiting, e.followers.Reaches l.id waiting
    ∧ l.received ++ waiting = stream.drop r.offset

/-- The backlog keeps the end of the stream, and every follower follows it over a
connection of its own. -/
structure Cluster.Aligned (config : Config) (now : Millis) (c : Cluster) (stream : Bytes) :
    Prop where
  steady : Steady config now Datum.Sound c.engine.keyspace
  backlog : c.engine.backlog.Keeps stream
  numbered : c.engine.followers.Numbered
  replicas : ∀ i r, c.replicas i = some r → r.Follows c.engine stream
  distinct : ∀ i j r s l m, c.replicas i = some r → c.replicas j = some s → r.link = some l →
    s.link = some m → l.id = m.id → i = j

variable {config : Config} {now : Millis} {c : Cluster} {stream : Bytes}

/-! ## §3. One follower. -/

namespace Replica

variable {r : Replica} {e e' : Engine}

/-- What happens to the leader is seen by a follower as more of the stream. -/
theorem Follows.sent (h : r.Follows e stream) {bytes : Bytes}
    (hkeeps : e.keyspace.Keeps e'.keyspace)
    (hreaches : ∀ {n before}, e.followers.Reaches n before →
      e'.followers.Reaches n (before ++ bytes))
    (hyields : ∀ {s : Session} {before : Bytes}, s.Yields before e.keyspace.now e.keyspace.count
        (e.keyspace.contents e.keyspace.now) e.streamDatabase →
      s.Yields (before ++ bytes) e.keyspace.now e.keyspace.count
        (e'.keyspace.contents e.keyspace.now) e'.streamDatabase) :
    r.Follows e' (stream ++ bytes) := by
  -- the offset lies within the stream, so the rest of it grows at its end
  have hdrop : (stream ++ bytes).drop r.offset = stream.drop r.offset ++ bytes :=
    List.drop_append_of_le_length h.offset
  refine ⟨?_, h.fallback, ?_, ?_, ?_⟩
  · rw [List.length_append]
    exact Nat.le_add_right_of_le h.offset
  · rw [hkeeps.now, hkeeps.count]
    exact h.stands
  · rw [hkeeps.now, hkeeps.count, hdrop]
    exact hyields h.yields
  · intro l hlink
    obtain ⟨waiting, hwaiting, hrest⟩ := h.link l hlink
    refine ⟨waiting ++ bytes, hreaches hwaiting, ?_⟩
    rw [← List.append_assoc, hrest, hdrop]

/-- **A registration changes nothing for those who follow already.** -/
theorem Follows.psync (h : r.Follows e stream) (request : PsyncRequest) :
    r.Follows (e.psync request).1 stream := by
  refine ⟨h.offset, h.fallback, h.stands, h.yields.forget, ?_⟩
  intro l hlink
  obtain ⟨waiting, hwaiting, hrest⟩ := h.link l hlink
  exact ⟨waiting, hwaiting.register, hrest⟩

/-- The followers may change as long as this one is reached. -/
theorem Follows.followers (h : r.Follows e stream) {f : Followers}
    (hreaches : ∀ l waiting, r.link = some l → e.followers.Reaches l.id waiting →
      f.Reaches l.id waiting) : r.Follows { e with followers := f } stream := by
  refine ⟨h.offset, h.fallback, h.stands, h.yields, ?_⟩
  intro l hlink
  obtain ⟨waiting, hwaiting, hrest⟩ := h.link l hlink
  exact ⟨waiting, hreaches l waiting hlink hwaiting, hrest⟩

/-- Without a connection a follower has still followed as far as it had. -/
theorem Follows.unlink (h : r.Follows e stream) : { r with link := none }.Follows e stream :=
  ⟨h.offset, h.fallback, h.stands, h.yields, fun _ hlink => nomatch hlink⟩

/-- **A follower receives what waits for it.** -/
theorem Follows.receive (h : r.Follows e stream) {l : Link} (hlink : r.link = some l)
    {messages : List Bytes} (hdrain : (e.followers.drain l.id).1 = some messages) :
    (r.receive l messages).Follows { e with followers := (e.followers.drain l.id).2 } stream := by
  obtain ⟨waiting, hwaiting, hrest⟩ := h.link l hlink
  obtain ⟨⟨messages', hmessages, hflatten⟩, hdrained⟩ := hwaiting.drain
  rw [hdrain] at hmessages
  cases hmessages
  refine ⟨h.offset, h.fallback, h.stands, h.yields, ?_⟩
  intro l' hlink'
  cases hlink'
  refine ⟨[], hdrained, ?_⟩
  show l.received ++ messages.flatten ++ [] = _
  rw [List.append_nil, hflatten]
  exact hrest

/-- **A follower applies the next record of the stream.** -/
theorem Follows.apply (h : r.Follows e stream) {l : Link} (hlink : r.link = some l)
    {command : Command} {rest : Bytes} (hdecode : Wire.decode l.received = .done command rest) :
    (r.apply l command rest).Follows e stream := by
  obtain ⟨waiting, hwaiting, hrest⟩ := h.link l hlink
  have hyields := h.yields
  rw [← hrest] at hyields
  obtain ⟨hreceived, hyields⟩ := hyields.decode hdecode
  obtain ⟨own, hstands⟩ := h.stands
  obtain ⟨hstands, hfallback⟩ := hstands.step h.fallback command
  -- a record is taken off the front of what is left, and the offset moves by its length
  have htaken : l.received.length - rest.length = (Wire.encode command).length := by
    rw [hreceived, List.length_append, Nat.add_sub_cancel]
  have hdrop : stream.drop (r.offset + (l.received.length - rest.length)) = rest ++ waiting := by
    rw [htaken, ← List.drop_drop, ← hrest, hreceived, List.append_assoc, List.drop_left]
  have hlength : (Wire.encode command).length ≤ stream.length - r.offset := by
    rw [← List.length_drop, ← hrest, hreceived, List.length_append, List.length_append]
    omega
  refine ⟨?_, hfallback, ⟨_, hstands⟩, ?_, ?_⟩
  · show r.offset + (l.received.length - rest.length) ≤ stream.length
    have hoffset := h.offset
    omega
  · show (r.session.apply command).1.Yields (stream.drop (r.offset + (l.received.length - rest.length)))
      _ _ _ _
    rw [hdrop]
    exact hyields
  · intro l' hlink'
    cases hlink'
    exact ⟨waiting, hwaiting, hdrop.symm⟩

/-- A follower that has followed nothing yet can follow. -/
theorem stands_new {count : Nat} (hpos : 0 < count) (hbound : count < Bytes.u64Bound)
    (now : Millis) :
    (Replica.new count now).session.Stands now count ((Keyspace.new count now).contents now) none := by
  have hcount : (Keyspace.new count now).count = count :=
    List.length_replicate.trans (Nat.max_eq_left hpos)
  have hregular : (Keyspace.new count now).Regular := ⟨rfl, by rw [hcount]; exact hbound⟩
  have hstands := Keyspace.stands_start hregular rfl (by rw [hcount]; exact hpos) none
  rw [hcount] at hstands
  exact hstands

/-- **A follower that starts over** holds what the leader holds. -/
theorem restart_spec {own : Contents}
    (hsession : r.session.Stands e.keyspace.now e.keyspace.count own none)
    (hsound : (e.keyspace.contents e.keyspace.now).Each Datum.Sound)
    (hbounded : e.keyspace.snapshot.Bounded) (id : FollowerId) (offset : Nat) :
    ∃ s, r.restart id offset e.encodeSnapshot = .ok ⟨s, offset, some ⟨id, []⟩⟩ ∧ s.fallback = none
      ∧ s.Stands e.keyspace.now e.keyspace.count (e.keyspace.contents e.keyspace.now) none := by
  obtain ⟨s, ks, hdecode, hrestore, hcontents⟩ :=
    Keyspace.restore_encoded e.config.compression (Snapshot.fits_of_sound hsound hbounded)
      hsession.count_eq
  rw [hsession.now_eq, Keyspace.live_contents e.keyspace (UInt64.le_refl _)] at hcontents
  have hkeeps := Keyspace.keeps_restore hrestore
  refine ⟨Session.start ks none, ?_, rfl, ?_⟩
  · unfold restart Engine.encodeSnapshot
    rw [hdecode]
    dsimp only
    rw [hrestore]
  · have hnow : ks.now = e.keyspace.now := hkeeps.now.trans hsession.now_eq
    have hcount : ks.count = e.keyspace.count := hkeeps.count.trans hsession.count_eq
    have hpos : 0 < ks.count := by
      rw [hcount]
      exact Nat.zero_lt_of_lt hsession.inRange
    have hstart := Keyspace.stands_start (hsession.regular.keeps hkeeps)
      (hkeeps.quiet hsession.quiet) hpos none
    rw [hnow, hcount, hcontents] at hstart
    exact hstart

/-- Then nothing of the stream is left for it. -/
theorem follows_restart {request : PsyncRequest} {own : Contents}
    (hsession : r.session.Stands e.keyspace.now e.keyspace.count own none)
    (hsound : (e.keyspace.contents e.keyspace.now).Each Datum.Sound)
    (hbacklog : e.backlog.Keeps stream) (hnumbered : e.followers.Numbered)
    (hbounded : e.keyspace.snapshot.Bounded) :
    ∃ r', r.restart e.followers.nextId e.backlog.offset e.encodeSnapshot = .ok r'
      ∧ r'.Follows (e.psync request).1 stream
      ∧ ∀ l, r'.link = some l → l.id = e.followers.nextId := by
  obtain ⟨s, hrestart, hfallback, hstands⟩ :=
    restart_spec hsession hsound hbounded e.followers.nextId e.backlog.offset
  -- the snapshot was taken at the end of the stream
  have hnothing : stream.drop e.backlog.offset = [] := by
    rw [hbacklog.offset, List.drop_length]
  refine ⟨_, hrestart, ⟨Nat.le_of_eq hbacklog.offset, hfallback, ⟨_, hstands⟩, ?_, ?_⟩, ?_⟩
  · show s.Yields (stream.drop e.backlog.offset) _ _ _ none
    rw [hnothing]
    exact .nil hstands
  · intro l hlink
    cases hlink
    exact ⟨[], hnumbered.reaches_register, hnothing.symm⟩
  · intro l hlink
    cases hlink
    rfl

/-- **Whatever a follower is answered, it can take**, and it follows the leader
then — provided that the leader continues only what the follower has
followed. -/
theorem follows_accept {request : PsyncRequest} {own : Contents}
    (hsession : r.session.Stands e.keyspace.now e.keyspace.count own none)
    (hsound : (e.keyspace.contents e.keyspace.now).Each Datum.Sound)
    (hbacklog : e.backlog.Keeps stream) (hnumbered : e.followers.Numbered)
    (hbounded : e.keyspace.snapshot.Bounded)
    (hresume : ∀ missed, e.missed? request = some missed →
      r.Follows e stream ∧ missed = stream.drop r.offset) :
    ∃ r', r.accept (e.psync request).2.1 (e.psync request).2.2 = .ok r'
      ∧ r'.Follows (e.psync request).1 stream
      ∧ ∀ l, r'.link = some l → l.id = e.followers.nextId := by
  show ∃ r', r.accept e.followers.nextId (e.outcome request) = .ok r' ∧ _
  unfold Engine.outcome
  cases hmissed : e.missed? request with
  | none => exact follows_restart hsession hsound hbacklog hnumbered hbounded
  | some missed =>
    -- what it has missed is all that is left, and nothing waits in its new channel
    obtain ⟨hfollows, hrest⟩ := hresume missed hmissed
    refine ⟨_, rfl, ?_, ?_⟩
    · have hafter := hfollows.psync request
      refine ⟨hafter.offset, hafter.fallback, hafter.stands, hafter.yields, ?_⟩
      intro l hlink
      cases hlink
      exact ⟨[], hnumbered.reaches_register, by rw [List.append_nil]; exact hrest⟩
    · intro l hlink
      cases hlink
      rfl

end Replica

/-! ## §4. Steps. -/

namespace Cluster

variable {e : Engine} {i : Nat} {r : Replica}

/-- What concerns one follower leaves a cluster aligned, if the others still follow
and it has a connection of its own. -/
theorem Aligned.put (h : c.Aligned config now stream)
    (hsteady : Steady config now Datum.Sound e.keyspace) (hbacklog : e.backlog.Keeps stream)
    (hnumbered : e.followers.Numbered)
    (hothers : ∀ j s, j ≠ i → c.replicas j = some s → s.Follows e stream)
    (hr : r.Follows e stream)
    (hown : ∀ l j s m, r.link = some l → j ≠ i → c.replicas j = some s → s.link = some m →
      l.id ≠ m.id) : (c.put e i r).Aligned config now stream := by
  have hcases : ∀ {j s}, (c.put e i r).replicas j = some s →
      (j = i ∧ s = r) ∨ (j ≠ i ∧ c.replicas j = some s) := by
    intro j s hj
    unfold Cluster.put at hj
    dsimp only at hj
    split at hj
    · rename_i hsame
      cases hj
      exact .inl ⟨hsame, rfl⟩
    · rename_i hne
      exact .inr ⟨hne, hj⟩
  -- two followers of one connection would be the one that has changed and another
  refine ⟨hsteady, hbacklog, hnumbered, ?_, ?_⟩
  · intro j s hj
    rcases hcases hj with ⟨-, rfl⟩ | ⟨hne, hj⟩
    · exact hr
    · exact hothers j s hne hj
  · intro j k s t l m hj hk hl hm hid
    rcases hcases hj with ⟨hji, hsr⟩ | ⟨hji, hcj⟩
    · rcases hcases hk with ⟨hki, -⟩ | ⟨hki, hck⟩
      · exact hji.trans hki.symm
      · exact absurd hid (hown l k t m (hsr ▸ hl) hki hck hm)
    · rcases hcases hk with ⟨-, htr⟩ | ⟨hki, hck⟩
      · exact absurd hid.symm (hown m j s l (htr ▸ hm) hji hcj hl)
      · exact h.distinct j k s t l m hcj hck hl hm hid

/-- A connection that a follower had before is still its own. -/
theorem Aligned.own (h : c.Aligned config now stream) (hi : c.replicas i = some r) {l : Link}
    (hlink : r.link = some l) {n : FollowerId} (hn : n = l.id) :
    ∀ j s m, j ≠ i → c.replicas j = some s → s.link = some m → n ≠ m.id := by
  intro j s m hj hs hm hid
  exact hj (h.distinct i j r s l m hi hs hlink hm (hn.symm.trans hid)).symm

theorem Aligned.sound (h : c.Aligned config now stream) :
    (c.engine.keyspace.contents c.engine.keyspace.now).Each Datum.Sound := by
  rw [h.steady.now_eq]
  exact h.steady.each

/-- What the leader sends reaches every follower, provided that a session that was
to apply the stream before is to apply it with what is sent now. -/
theorem Aligned.sends (h : c.Aligned config now stream) {bytes : Bytes}
    (hkeeps : c.engine.keyspace.Keeps e.keyspace)
    (heach : (e.keyspace.contents c.engine.keyspace.now).Each Datum.Sound)
    (hbacklog : e.backlog = c.engine.backlog.write bytes) (hnumbered : e.followers.Numbered)
    (hreaches : ∀ {n before}, c.engine.followers.Reaches n before →
      e.followers.Reaches n (before ++ bytes))
    (hyields : ∀ {s : Session} {before : Bytes},
      s.Yields before c.engine.keyspace.now c.engine.keyspace.count
        (c.engine.keyspace.contents c.engine.keyspace.now) c.engine.streamDatabase →
      s.Yields (before ++ bytes) c.engine.keyspace.now c.engine.keyspace.count
        (e.keyspace.contents c.engine.keyspace.now) e.streamDatabase) :
    Aligned config now { c with engine := e } (stream ++ bytes) := by
  rw [h.steady.now_eq] at heach
  refine ⟨h.steady.keeps hkeeps heach, ?_, hnumbered, ?_, h.distinct⟩
  · show e.backlog.Keeps (stream ++ bytes)
    rw [hbacklog]
    exact h.backlog.write bytes
  · exact fun i r hi => (h.replicas i r hi).sent hkeeps hreaches hyields

/-- **A write** is sent to all. -/
theorem Aligned.write (h : c.Aligned config now stream) (database : Nat) {command : Command}
    (hselect : ¬ command.Selects) (hfits : Wire.Fits command) :
    ∃ stream', Aligned config now { c with engine := (c.engine.execute database command).1 }
      stream' := by
  have heach := h.sound
  obtain ⟨ks, hkeeps, hcases⟩ :=
    Engine.execute_cases h.steady.regular h.steady.quiet database command
  rcases hcases with ⟨hexecute, hcontents⟩ | ⟨hexecute, hdatabase, hmeaning, hcontents⟩
  · -- nothing is sent for a write that is refused
    rw [hexecute]
    refine ⟨stream ++ [], h.sends hkeeps ?_ (Backlog.write_nil _).symm h.numbered ?_ ?_⟩
    · show (ks.contents c.engine.keyspace.now).Each Datum.Sound
      rw [hcontents]
      exact heach
    · intro n before hreaches
      rw [List.append_nil]
      exact hreaches
    · intro s before hyields
      rw [List.append_nil]
      show s.Yields before _ _ (ks.contents c.engine.keyspace.now) _
      rw [hcontents]
      exact hyields
  · obtain ⟨hsent, hstream⟩ :=
      Engine.sent_propagate (c.engine.withKeyspace ks) database (Wire.encode command)
    have hkeyspace : ((c.engine.withKeyspace ks).propagate database
        (Wire.encode command)).keyspace = ks := hsent.keyspace
    rw [hexecute]
    refine ⟨stream ++ (Command.selection c.engine.streamDatabase database ++ Wire.encode command),
      h.sends ?_ ?_ hsent.backlog (hsent.numbered h.numbered) hsent.reaches ?_⟩
    · rw [hkeyspace]
      exact hkeeps
    · rw [hkeyspace, hcontents]
      exact heach.meaning Datum.lasting_sound hfits _ _ database
    · intro s before hyields
      rw [hkeyspace, hstream, hcontents]
      exact hyields.record hdatabase hselect hfits hmeaning

/-- A registration leaves the others as they are, and gives a number that none of
them has. -/
theorem Aligned.psync (h : c.Aligned config now stream) (request : PsyncRequest)
    (hr : r.Follows (c.engine.psync request).1 stream)
    (hlink : ∀ l, r.link = some l → l.id = c.engine.followers.nextId) :
    (c.put (c.engine.psync request).1 i r).Aligned config now stream := by
  refine h.put h.steady h.backlog h.numbered.register ?_ hr ?_
  · exact fun j s _ hs => (h.replicas j s hs).psync request
  · intro l j s m hl _ hs hm hid
    obtain ⟨waiting, hreaches, -⟩ := (h.replicas j s hs).link m hm
    have hlt := h.numbered.lt hreaches
    rw [← hid, hlink l hl] at hlt
    exact Nat.lt_irrefl _ hlt

/-- **A new follower can take what it is answered**, and follows the leader then. -/
theorem Aligned.accepts_new (h : c.Aligned config now stream) {request : PsyncRequest}
    (hforeign : request.history ≠ some c.engine.history ∨ request.offset = none)
    (hbounded : c.engine.keyspace.snapshot.Bounded) :
    ∃ r', (Replica.new c.engine.keyspace.count c.engine.keyspace.now).accept
        (c.engine.psync request).2.1 (c.engine.psync request).2.2 = .ok r'
      ∧ r'.Follows (c.engine.psync request).1 stream
      ∧ ∀ l, r'.link = some l → l.id = c.engine.followers.nextId := by
  have hpos : 0 < c.engine.keyspace.count := by
    rw [h.steady.count_eq]
    exact emptyKeyspace_pos config now
  refine Replica.follows_accept (Replica.stands_new hpos h.steady.regular.count _) h.sound h.backlog
    h.numbered hbounded ?_
  -- nothing is continued for it
  intro missed hmissed
  unfold Engine.missed? at hmissed
  split at hmissed
  · rename_i history offset hhistory hoffset
    split at hmissed
    · rename_i hsame
      rcases hforeign with hother | hnone
      · exact absurd (hhistory.trans (congrArg some hsame)) hother
      · rw [hoffset] at hnone
        cases hnone
    · cases hmissed
  · cases hmissed

/-- **A follower that comes back can take what it is answered**, and follows the
leader then. -/
theorem Aligned.accepts (h : c.Aligned config now stream) (hi : c.replicas i = some r)
    (hbounded : c.engine.keyspace.snapshot.Bounded) :
    ∃ r', r.accept (c.engine.psync (r.request c.engine.history)).2.1
        (c.engine.psync (r.request c.engine.history)).2.2 = .ok r'
      ∧ r'.Follows (c.engine.psync (r.request c.engine.history)).1 stream
      ∧ ∀ l, r'.link = some l → l.id = c.engine.followers.nextId := by
  have hfollows := h.replicas i r hi
  obtain ⟨own, hstands⟩ := hfollows.stands
  refine Replica.follows_accept hstands h.sound h.backlog h.numbered hbounded ?_
  intro missed hmissed
  unfold Engine.missed? Replica.request at hmissed
  dsimp only at hmissed
  rw [if_pos rfl] at hmissed
  exact ⟨hfollows, Backlog.readAll?_of_keeps h.backlog hmissed⟩

/-- **One step keeps a cluster aligned.** -/
theorem Aligned.step {c' : Cluster} (h : c.Aligned config now stream) (hstep : Step c c') :
    ∃ stream', c'.Aligned config now stream' := by
  -- one case for each thing that happens; all but a write leave the stream as it is
  cases hstep with
  | write database hselect hfits => exact h.write database hselect hfits
  | join i hforeign hbounded haccept =>
    obtain ⟨r', haccept', hfollows, hlink⟩ := h.accepts_new hforeign hbounded
    rw [haccept] at haccept'
    cases haccept'
    exact ⟨stream, h.psync _ hfollows hlink⟩
  | reconnect hi hlink hbounded haccept =>
    obtain ⟨r', haccept', hfollows, hnew⟩ := h.accepts hi hbounded
    rw [haccept] at haccept'
    cases haccept'
    exact ⟨stream, h.psync _ hfollows hnew⟩
  | receive hi hlink hdrain =>
    -- the other channels are not drained, for each follower has one of its own
    refine ⟨stream, h.put h.steady h.backlog (h.numbered.drain _) ?_
      ((h.replicas _ _ hi).receive hlink hdrain) ?_⟩
    · intro j s hj hs
      refine (h.replicas j s hs).followers fun m waiting hm hreaches => ?_
      exact hreaches.drain_other (h.own hi hlink rfl j s m hj hs hm).symm
    · intro l' j s m hl' hj hs hm
      cases hl'
      exact h.own hi hlink rfl j s m hj hs hm
  | apply hi hlink hdecode =>
    refine ⟨stream, h.put h.steady h.backlog h.numbered (fun j s _ hs => h.replicas j s hs)
      ((h.replicas _ _ hi).apply hlink hdecode) ?_⟩
    intro l' j s m hl' hj hs hm
    cases hl'
    exact h.own hi hlink rfl j s m hj hs hm
  | disconnect hi hlink =>
    refine ⟨stream, h.put h.steady h.backlog (h.numbered.disconnect _) ?_ ?_
      (fun l' j s m hl' => nomatch hl')⟩
    · intro j s hj hs
      refine (h.replicas j s hs).followers fun m waiting hm hreaches => ?_
      exact hreaches.disconnect (h.own hi hlink rfl j s m hj hs hm).symm
    · exact (h.replicas _ _ hi).unlink.followers fun l' waiting hl' => nomatch hl'
  | lose hi =>
    -- the channel fills up, and nobody will take from it
    exact ⟨stream, h.put h.steady h.backlog h.numbered (fun j s _ hs => h.replicas j s hs)
      (h.replicas _ _ hi).unlink (fun l' j s m hl' => nomatch hl')⟩

/-- **So does a run**, by induction on its steps. -/
theorem Aligned.run {c' : Cluster} (h : c.Aligned config now stream)
    (hrun : Relation.ReflTransGen Step c c') : ∃ stream', c'.Aligned config now stream' := by
  induction hrun with
  | refl => exact ⟨stream, h⟩
  | tail _ hstep ih =>
    obtain ⟨stream', haligned⟩ := ih
    exact haligned.step hstep

end Cluster

/-! ## §5. Runs. -/

/-- A leader without followers is aligned with an empty stream. -/
theorem aligned_of_open? (hregular : (emptyKeyspace config now).Regular) {d : Disk}
    {history : String} {e : Engine} (h : Engine.open? config d now history none = .ok e)
    (hmemory : ∀ keys, e.load.source = .snapshot keys →
      (e.keyspace.contents now).Each Datum.InMemory) :
    Cluster.Aligned config now ⟨e, fun _ => none⟩ [] := by
  obtain ⟨-, -, -, -, hbacklog, hfollowers, -⟩ := Engine.opened_of_open? h
  refine ⟨(held_of_open? h hmemory).steady hregular, ?_, ?_, (fun i r hi => nomatch hi),
    fun i j r s l m hi => nomatch hi⟩
  · show e.backlog.Keeps []
    rw [hbacklog]
    exact Backlog.keeps_new _
  · show e.followers.Numbered
    rw [hfollowers]
    exact fun channel hmem => absurd hmem List.not_mem_nil

/-- A follower has the dataset of its leader once it has applied the whole stream,
and what it has received and what waits for it is all that it still has to
apply. -/
structure Replica.Converges (r : Replica) (e : Engine) : Prop where
  caughtUp : r.offset = e.backlog.offset → r.session.keyspace.dataset = e.keyspace.dataset
  catchesUp : ∀ l, r.link = some l → ∃ messages, (e.followers.drain l.id).1 = some messages
    ∧ (Wire.decodeAll (l.received ++ messages.flatten)).rest = []
    ∧ (Wire.decodeAll (l.received ++ messages.flatten)).fault = none
    ∧ (r.session.applyAll (Wire.decodeAll (l.received ++ messages.flatten)).commands).1.keyspace.dataset
      = e.keyspace.dataset

theorem Replica.Follows.converges {r : Replica} {e : Engine} (h : r.Follows e stream)
    (hbacklog : e.backlog.Keeps stream) : r.Converges e := by
  refine ⟨?_, ?_⟩
  · intro hoffset
    have hyields := h.yields
    rw [hoffset, hbacklog.offset, List.drop_length] at hyields
    have hstands := hyields.of_nil
    refine Keyspace.dataset_eq_iff.2 ⟨hstands.count_eq, ?_⟩
    rw [hstands.now_eq]
    exact hstands.contents_eq
  · intro l hlink
    obtain ⟨waiting, hwaiting, hrest⟩ := h.link l hlink
    obtain ⟨⟨messages, hmessages, hflatten⟩, -⟩ := hwaiting.drain
    have hyields := h.yields
    rw [← hrest, ← hflatten] at hyields
    obtain ⟨hread, hfault, hstands⟩ := hyields.decodeAll
    refine ⟨messages, hmessages, hread, hfault, Keyspace.dataset_eq_iff.2 ⟨hstands.count_eq, ?_⟩⟩
    rw [hstands.now_eq]
    exact hstands.contents_eq

/-- **Followers converge.**  An engine that evicts nothing is opened on any disk; if
it has loaded a snapshot file, memory holds what was in it.  After
every run of writes, of followers that come, go, lose their connection and
come back, and of what they receive and apply, every follower has the
dataset of the leader as soon as it has applied all that it received and that
waits for it.  And whatever a follower is answered when it comes or comes
back, it can take. -/
theorem followers_converge (hevict : (emptyKeyspace config now).mayEvict = false)
    (hcount : (emptyKeyspace config now).count < Bytes.u64Bound) {d : Disk} {history : String}
    {e : Engine} (hopen : Engine.open? config d now history none = .ok e)
    (hmemory : ∀ keys, e.load.source = .snapshot keys →
      (e.keyspace.contents now).Each Datum.InMemory)
    {c : Cluster} (hrun : Relation.ReflTransGen Cluster.Step ⟨e, fun _ => none⟩ c) :
    (∀ i r, c.replicas i = some r → r.Converges c.engine)
      ∧ (c.engine.keyspace.snapshot.Bounded →
        (∀ request : PsyncRequest,
            request.history ≠ some c.engine.history ∨ request.offset = none →
            ∃ r, (Replica.new c.engine.keyspace.count c.engine.keyspace.now).accept
              (c.engine.psync request).2.1 (c.engine.psync request).2.2 = .ok r)
          ∧ ∀ i r, c.replicas i = some r →
            ∃ r', r.accept (c.engine.psync (r.request c.engine.history)).2.1
              (c.engine.psync (r.request c.engine.history)).2.2 = .ok r') := by
  obtain ⟨stream, haligned⟩ := (aligned_of_open? ⟨hevict, hcount⟩ hopen hmemory).run hrun
  refine ⟨fun i r hi => (haligned.replicas i r hi).converges haligned.backlog, ?_⟩
  intro hbounded
  refine ⟨?_, ?_⟩
  · intro request hforeign
    obtain ⟨r, haccept, -⟩ := haligned.accepts_new hforeign hbounded
    exact ⟨r, haccept⟩
  · intro i r hi
    obtain ⟨r', haccept, -⟩ := haligned.accepts hi hbounded
    exact ⟨r', haccept⟩

/-- A follower that has taken the snapshot of an engine that holds nothing. -/
def newFollower : Replica := ⟨Session.start (Keyspace.new 1 50) none, 0, some ⟨0, []⟩⟩

/-- A leader with a follower for which a write waits. -/
def followedRun : Cluster :=
  let c := (Cluster.mk (Engine.blank smallConfig 50) fun _ => none).put
    ((Engine.blank smallConfig 50).psync ⟨none, none⟩).1 0 newFollower
  { c with engine := (c.engine.execute 0 (writeOf "v")).1 }

/-- A write that waits for a follower is not lost on it. -/
theorem followers_converge_followedRun :
    followedRun.engine.keyspace.dataset
        = [[(Bytes.ofString "k", .string (Bytes.ofString "v"), none)]]
      ∧ (∀ i r, followedRun.replicas i = some r → r.Converges followedRun.engine)
      ∧ (followedRun.engine.keyspace.snapshot.Bounded →
        (∀ request : PsyncRequest,
            request.history ≠ some followedRun.engine.history ∨ request.offset = none →
            ∃ r, (Replica.new followedRun.engine.keyspace.count
                followedRun.engine.keyspace.now).accept
              (followedRun.engine.psync request).2.1 (followedRun.engine.psync request).2.2 = .ok r)
          ∧ ∀ i r, followedRun.replicas i = some r →
            ∃ r', r.accept (followedRun.engine.psync (r.request followedRun.engine.history)).2.1
              (followedRun.engine.psync (r.request followedRun.engine.history)).2.2 = .ok r') := by
  have hbounded : (Engine.blank smallConfig 50).keyspace.snapshot.Bounded := by
    have hone : (Engine.blank smallConfig 50).keyspace.snapshot.databases = [[]] := by
      decide +kernel
    rw [show (Engine.blank smallConfig 50).keyspace.snapshot = ⟨50, [[]]⟩ from
      congrArg (Snapshot.mk 50) hone]
    exact ⟨by decide, by decide, by decide⟩
  refine ⟨by decide +kernel, followers_converge (by decide) (by decide +kernel)
    open?_smallConfig (fun _ hsource => nomatch hsource) ?_⟩
  exact .tail (.tail .refl (.join 0 (.inr rfl) hbounded rfl))
    (.write 0 (not_selects_writeOf "v") (fits_writeOf (by decide)))

end DurableStore
