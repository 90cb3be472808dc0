/-
  DurableStore.Proofs.Replication.Slices
  ────────────────────────────────
  **EACH FOLLOWER IS SENT A SLICE OF THE STREAM.**

  A leader is written to, with success or without, while followers come and
  go.  All that it ever wrote to its backlog is one stream of bytes.  What
  a follower was sent is a slice of that stream: it begins where the answer
  to its request ends, nothing in it is left out or sent twice, and it goes
  on until the follower is removed or disconnected.

      l.run events        — a leader after any events
      f.serves n          — a follower is registered and connected
      l.Passes event …    — all that one event can do to the stream, to the
                            followers and to what they are sent

  Every invariant is derived from `Passes`, which holds of every event
  (`passes_after`).

  Main results:
    * `Sound.run` — the backlog is what the stream makes of an empty one;
    * `Follows.run`, `Lost.run` — a follower is sent the rest of the stream
      until it is removed or disconnected;
    * `seamless_slices` — what is answered, and what is sent after that.
-/
import DurableStore.Proofs.Engine.Opening
import DurableStore.Proofs.Replication.Stream

namespace DurableStore

/-! ## §1. Followers that are served. -/

namespace Followers

/-- Whether a follower is registered and the receiving end of its channel is held. -/
def serves (f : Followers) (n : FollowerId) : Bool := f.isRegistered n && f.isConnected n

variable {f f' : Followers} {n : FollowerId} {bytes : Bytes}

theorem serves_iff : f.serves n = true ↔ ∃ bytes, f.Reaches n bytes := by
  unfold serves
  rw [Bool.and_eq_true]
  constructor
  · rintro ⟨hregistered, hconnected⟩
    obtain ⟨channel, hmem, hid⟩ := List.any_eq_true.1 hconnected
    have hfound : (f.channel? n).isSome = true := List.find?_isSome.2 ⟨channel, hmem, hid⟩
    obtain ⟨channel, hfind⟩ := Option.isSome_iff_exists.1 hfound
    exact ⟨channel.waiting.flatten, hregistered, channel, hfind, rfl⟩
  · rintro ⟨bytes, h⟩
    obtain ⟨channel, hfind, -⟩ := h.waiting
    exact ⟨h.registered,
      List.any_eq_true.2 ⟨channel, mem_of_channel? hfind, decide_eq_true (id_of_channel? hfind)⟩⟩

/-- When one follower is removed the others are not. -/
theorem Reaches.remove (h : f.Reaches n bytes) {other : FollowerId} (hne : n ≠ other) :
    (f.remove other).2.Reaches n bytes := by
  obtain ⟨follower, hmem, hid⟩ := List.any_eq_true.1 h.registered
  have hsame : follower.id = n := of_decide_eq_true hid
  refine ⟨List.any_eq_true.2 ⟨follower, List.mem_filter.2 ⟨hmem, ?_⟩, hid⟩, h.waiting⟩
  rw [hsame]
  exact decide_eq_true hne

/-- An acknowledgement changes nothing in what is sent. -/
theorem Reaches.acknowledge (h : f.Reaches n bytes) (other : FollowerId) (offset : Nat) :
    (f.acknowledge other offset).2.Reaches n bytes := by
  obtain ⟨follower, hmem, hid⟩ := List.any_eq_true.1 h.registered
  refine ⟨List.any_eq_true.2 ⟨_, List.mem_map.2 ⟨follower, hmem, rfl⟩, ?_⟩, h.waiting⟩
  split <;> exact hid

/-! ### Whoever is not served any more will not be again. -/

/-- New numbers are given upwards, and no follower that has a number is served
again once it is not. -/
structure Onward (f f' : Followers) : Prop where
  nextId : f.nextId ≤ f'.nextId
  served : ∀ n < f.nextId, f'.serves n = true → f.serves n = true
  numbered : f.Numbered → f'.Numbered

theorem Onward.refl (f : Followers) : f.Onward f := ⟨Nat.le_refl _, fun _ _ h => h, fun h => h⟩

theorem Onward.trans {f'' : Followers} (h : f.Onward f') (h' : f'.Onward f'') : f.Onward f'' where
  nextId := Nat.le_trans h.nextId h'.nextId
  served := fun n hn hserved => h.served n hn (h'.served n (Nat.lt_of_lt_of_le hn h.nextId) hserved)
  numbered := fun hnumbered => h'.numbered (h.numbered hnumbered)

/-- Whoever is registered and connected among old numbers was so before. -/
theorem onward_of (hnext : f.nextId ≤ f'.nextId)
    (hregistered : ∀ n < f.nextId, f'.isRegistered n = true → f.isRegistered n = true)
    (hconnected : ∀ n < f.nextId, f'.isConnected n = true → f.isConnected n = true)
    (hnumbered : f.Numbered → f'.Numbered) : f.Onward f' := by
  refine ⟨hnext, ?_, hnumbered⟩
  intro n hn hserved
  obtain ⟨hin, hup⟩ := Bool.and_eq_true_iff.1 hserved
  exact Bool.and_eq_true_iff.2 ⟨hregistered n hn hin, hconnected n hn hup⟩

theorem onward_forward (f : Followers) (message : Bytes) : f.Onward (f.forward message).2 := by
  refine onward_of (Nat.le_refl _) ?_ ?_ fun h => h.forward message
  · intro n hn h
    obtain ⟨follower, hmem, hid⟩ := List.any_eq_true.1 h
    exact List.any_eq_true.2 ⟨follower, (List.mem_filter.1 hmem).1, hid⟩
  · intro n hn h
    obtain ⟨channel, hmem, hid⟩ := List.any_eq_true.1 h
    obtain ⟨before, hbefore, rfl⟩ := List.mem_map.1 hmem
    rw [id_receive] at hid
    exact List.any_eq_true.2 ⟨before, hbefore, hid⟩

theorem onward_register (f : Followers) : f.Onward f.register.2 := by
  -- the number that is given is not among the old ones
  have hother : ∀ n < f.nextId, decide (f.nextId = n) = false :=
    fun n hn => decide_eq_false (Nat.ne_of_gt hn)
  refine onward_of (Nat.le_succ _) ?_ ?_ Numbered.register
  · intro n hn h
    simpa [register, isRegistered, hother n hn] using h
  · intro n hn h
    simpa [register, isConnected, hother n hn] using h

theorem onward_remove (f : Followers) (other : FollowerId) : f.Onward (f.remove other).2 := by
  refine onward_of (Nat.le_refl _) ?_ (fun _ _ h => h) fun h => h
  intro n hn h
  obtain ⟨follower, hmem, hid⟩ := List.any_eq_true.1 h
  exact List.any_eq_true.2 ⟨follower, (List.mem_filter.1 hmem).1, hid⟩

theorem onward_disconnect (f : Followers) (other : FollowerId) :
    f.Onward (f.disconnect other).2 := by
  refine onward_of (Nat.le_refl _) (fun _ _ h => h) ?_ fun h => h.disconnect other
  intro n hn h
  obtain ⟨channel, hmem, hid⟩ := List.any_eq_true.1 h
  exact List.any_eq_true.2 ⟨channel, (List.mem_filter.1 hmem).1, hid⟩

theorem onward_acknowledge (f : Followers) (other : FollowerId) (offset : Nat) :
    f.Onward (f.acknowledge other offset).2 := by
  refine onward_of (Nat.le_refl _) ?_ (fun _ _ h => h) fun h => h
  intro n hn h
  obtain ⟨follower, hmem, hid⟩ := List.any_eq_true.1 h
  obtain ⟨before, hbefore, rfl⟩ := List.mem_map.1 hmem
  refine List.any_eq_true.2 ⟨before, hbefore, ?_⟩
  split at hid <;> exact hid

theorem onward_drain (f : Followers) (other : FollowerId) : f.Onward (f.drain other).2 := by
  refine onward_of (Nat.le_refl _) (fun _ _ h => h) ?_ fun h => h.drain other
  intro n hn h
  obtain ⟨channel, hmem, hid⟩ := List.any_eq_true.1 h
  obtain ⟨before, hbefore, rfl⟩ := List.mem_map.1 hmem
  rw [id_drained] at hid
  exact List.any_eq_true.2 ⟨before, hbefore, hid⟩

theorem not_serves_remove (f : Followers) (n : FollowerId) : (f.remove n).2.serves n = false := by
  simp [serves, remove, isRegistered]

theorem not_serves_disconnect (f : Followers) (n : FollowerId) :
    (f.disconnect n).2.serves n = false := by
  simp [serves, disconnect, isConnected]

/-- A channel whose number was not given yet holds nothing. -/
theorem drain_of_le (h : f.Numbered) (hn : f.nextId ≤ n) : (f.drain n).1 = Option.none := by
  have hnone : f.channel? n = Option.none := by
    refine List.find?_eq_none.2 ?_
    intro channel hmem hid
    have hsame : channel.id = n := of_decide_eq_true hid
    exact Nat.not_lt_of_le hn (hsame ▸ h channel hmem)
  show (f.channel? n).map Channel.waiting = Option.none
  rw [hnone]
  rfl

end Followers

/-! ## §2. Requests that can go on. -/

/-- A request names a history and an offset from which the stream can go on, when
the stream has some length and its last bytes are kept. -/
def PsyncRequest.Continues (request : PsyncRequest) (history : String) (length kept offset : Nat) :
    Prop :=
  request.history = some history ∧ request.offset = some offset
    ∧ length - kept ≤ offset ∧ offset ≤ length

/-- What a follower missed is found exactly if it can go on. -/
theorem Engine.missed?_eq_some_iff {e : Engine} {stream : Bytes} (h : e.backlog.Keeps stream)
    (request : PsyncRequest) (missed : Bytes) :
    e.missed? request = some missed
      ↔ ∃ offset, request.Continues e.history stream.length e.backlog.capacity offset
        ∧ missed = stream.drop offset := by
  unfold missed? PsyncRequest.Continues
  cases request.history with
  | none => simp
  | some name =>
    cases request.offset with
    | none => simp
    | some offset =>
      dsimp only
      rw [Backlog.readAll?_eq h]
      by_cases hname : name = e.history
      · by_cases hin : stream.length - e.backlog.capacity ≤ offset ∧ offset ≤ stream.length
        · rw [if_pos hname, if_pos hin]
          grind
        · rw [if_pos hname, if_neg hin]
          grind
      · simp [hname]

/-! ## §3. What is not part of the stream. -/

/-- Nothing that concerns the stream has changed. -/
structure Engine.SameStream (e e' : Engine) : Prop where
  history : e'.history = e.history
  backlog : e'.backlog = e.backlog
  followers : e'.followers = e.followers
  streamDatabase : e'.streamDatabase = e.streamDatabase

namespace Engine

variable {e e' e'' : Engine}

theorem SameStream.trans (h : e.SameStream e') (h' : e'.SameStream e'') : e.SameStream e'' where
  history := h'.history.trans h.history
  backlog := h'.backlog.trans h.backlog
  followers := h'.followers.trans h.followers
  streamDatabase := h'.streamDatabase.trans h.streamDatabase

theorem sameStream_appendLog (e : Engine) (database : Nat) (record : Bytes) :
    e.SameStream (e.appendLog database record) := by
  unfold appendLog withJournal
  split <;> exact ⟨rfl, rfl, rfl, rfl⟩

theorem sameStream_logNotice (e : Engine) (notice : Notice) :
    e.SameStream (e.logNotice notice) := by
  unfold logNotice
  split
  · exact e.sameStream_appendLog _ _
  · exact ⟨rfl, rfl, rfl, rfl⟩

theorem sameStream_foldl_logNotice (notices : List Notice) (e : Engine) :
    e.SameStream (notices.foldl logNotice e) := by
  induction notices generalizing e with
  | nil => exact ⟨rfl, rfl, rfl, rfl⟩
  | cons notice notices ih => exact (e.sameStream_logNotice notice).trans (ih _)

/-- **A change of the keyspace is not sent**, nor are the evictions that it causes. -/
theorem sameStream_onKeyspace {α : Type} (e : Engine) (use : Keyspace → Keyspace × α) :
    e.SameStream (e.onKeyspace use).1 := by
  have hkeyspace : e.SameStream { e with keyspace := (use e.keyspace).1.takeNotices.2 } :=
    ⟨rfl, rfl, rfl, rfl⟩
  exact hkeyspace.trans (sameStream_foldl_logNotice _ _)

theorem onward_propagate (e : Engine) (database : Nat) (record : Bytes) :
    e.followers.Onward (e.propagate database record).followers := by
  have hselect : e.followers.Onward (e.selectStream database).followers := by
    unfold selectStream
    split
    · exact Followers.Onward.refl _
    · exact Followers.onward_forward _ _
  have hlog := (e.selectStream database).sameStream_appendLog database record
  show e.followers.Onward
    (((e.selectStream database).appendLog database record).followers.forward record).2
  rw [hlog.followers]
  exact hselect.trans (Followers.onward_forward _ _)

end Engine

/-! ## §4. A leader and what it sends. -/

/-- An engine that is followed, with what was sent so far. -/
structure Leader where
  engine : Engine
  /-- All bytes that were written to the backlog. -/
  stream : Bytes
  /-- The records that were handed on, each with its database. -/
  written : List (Nat × Bytes)
  /-- What each follower has taken out of its channel. -/
  taken : FollowerId → Bytes

/-- One thing that happens to a leader. -/
inductive Leader.Event : Type 1 where
  /-- A write that always takes place. -/
  | write {α : Type} (database : Nat) (mutation : Keyspace → Keyspace × α) (record : Bytes)
  /-- A write that may fail. -/
  | tryWrite {ε α : Type} (database : Nat) (mutation : Mutation ε α) (record : Bytes)
  | psync (request : PsyncRequest)
  | remove (n : FollowerId)
  | disconnect (n : FollowerId)
  | acknowledge (n : FollowerId) (offset : Nat)
  /-- A follower takes the messages that wait for it. -/
  | receive (n : FollowerId)

/-- Whether an event ends the service of a follower. -/
def Leader.Event.Ends (n : FollowerId) : Leader.Event → Prop
  | .remove other => other = n
  | .disconnect other => other = n
  | _ => False

namespace Leader

/-- A leader that nothing has happened to. -/
def opened (e : Engine) : Leader := ⟨e, [], [], fun _ => []⟩

/-- The leader after a record was handed on. -/
def wrote (l : Leader) (database : Nat) (record : Bytes) (e : Engine) : Leader where
  engine := e
  stream := l.stream ++ (Command.selection l.engine.streamDatabase database ++ record)
  written := l.written ++ [(database, record)]
  taken := l.taken

/-- The leader after something that concerns its followers only. -/
def withFollowers (l : Leader) (followers : Followers) : Leader :=
  { l with engine := { l.engine with followers } }

/-- The leader after an event. -/
def after (l : Leader) : Event → Leader
  | .write database mutation record =>
    l.wrote database record (l.engine.write database mutation record).1
  | .tryWrite database mutation record =>
    match l.engine.tryWrite database mutation record with
    | (e, .ok _) => l.wrote database record e
    | (e, .error _) => { l with engine := e }
  | .psync request => { l with engine := (l.engine.psync request).1 }
  | .remove n => l.withFollowers (l.engine.followers.remove n).2
  | .disconnect n => l.withFollowers (l.engine.followers.disconnect n).2
  | .acknowledge n offset => l.withFollowers (l.engine.followers.acknowledge n offset).2
  | .receive n =>
    let (messages, followers) := l.engine.followers.drain n
    { l.withFollowers followers with
      taken := fun other =>
        if other = n then l.taken n ++ (messages.getD []).flatten else l.taken other }

/-- The leader after some events. -/
def run (l : Leader) (events : List Event) : Leader := events.foldl after l

/-! ### What one event can do. -/

/-- A follower is served, and these bytes are all that it was sent. -/
def Sends (l : Leader) (n : FollowerId) (bytes : Bytes) : Prop :=
  ∃ waiting, l.engine.followers.Reaches n waiting ∧ l.taken n ++ waiting = bytes

/-- All that an event can do: some bytes are added to the stream, and everybody
who is still served is sent them. -/
structure Passes (l : Leader) (event : Event) (l' : Leader) (bytes : Bytes) : Prop where
  history : l'.engine.history = l.engine.history
  backlog : l'.engine.backlog = l.engine.backlog.write bytes
  stream : l'.stream = l.stream ++ bytes
  onward : l.engine.followers.Onward l'.engine.followers
  /-- Nothing is taken under a number that was not given yet. -/
  untaken : l.engine.followers.Numbered →
    ∀ n, l.engine.followers.nextId ≤ n → l'.taken n = l.taken n
  sends : ∀ {n sent}, ¬ event.Ends n → l.Sends n sent → l'.Sends n (sent ++ bytes)
  /-- The bytes are a record, and the selection of its database where that is due. -/
  recorded : (bytes = [] ∧ l'.written = l.written
      ∧ (l.engine.streamDatabase = none → l'.engine.streamDatabase = none))
    ∨ ∃ database record, bytes = Command.selection l.engine.streamDatabase database ++ record
      ∧ l'.written = l.written ++ [(database, record)]

variable {l : Leader}

/-- A change of the followers that leaves everybody else served adds nothing to
the stream. -/
theorem passes_followers {event : Event} {e : Engine} {f : Followers}
    (hsame : l.engine.history = e.history ∧ l.engine.backlog = e.backlog)
    (hdatabase : l.engine.streamDatabase = none → e.streamDatabase = none)
    (hfollowers : e.followers = f) (honward : l.engine.followers.Onward f)
    (hkept : ∀ {n waiting}, ¬ event.Ends n → l.engine.followers.Reaches n waiting →
      f.Reaches n waiting) :
    l.Passes event { l with engine := e } [] where
  history := hsame.1.symm
  backlog := hsame.2.symm.trans (Backlog.write_nil _).symm
  stream := (List.append_nil _).symm
  onward := hfollowers ▸ honward
  untaken := fun _ _ _ => rfl
  sends := by
    rintro n sent hends ⟨waiting, hreaches, htaken⟩
    refine ⟨waiting, ?_, ?_⟩
    · show e.followers.Reaches n waiting
      rw [hfollowers]
      exact hkept hends hreaches
    · rw [List.append_nil]
      exact htaken
  recorded := .inl ⟨rfl, rfl, hdatabase⟩

/-- **A write that fails is not seen in the stream.** -/
theorem passes_same {event : Event} {e : Engine} (h : l.engine.SameStream e) :
    l.Passes event { l with engine := e } [] :=
  passes_followers ⟨h.history.symm, h.backlog.symm⟩ (fun hnone => h.streamDatabase.trans hnone)
    h.followers (Followers.Onward.refl _) fun _ hreaches => hreaches

/-- **A write that is handed on** goes to the backlog and to every follower. -/
theorem passes_wrote {event : Event} {e : Engine} (h : l.engine.SameStream e) (database : Nat)
    (record : Bytes) :
    l.Passes event (l.wrote database record (e.propagate database record))
      (Command.selection l.engine.streamDatabase database ++ record) := by
  obtain ⟨hsent, -⟩ := Engine.sent_propagate e database record
  rw [h.streamDatabase] at hsent
  refine ⟨hsent.history.trans h.history, ?_, rfl, ?_, fun _ _ _ => rfl, ?_,
    .inr ⟨database, record, rfl, rfl⟩⟩
  · show (e.propagate database record).backlog = _
    rw [hsent.backlog, h.backlog]
  · show l.engine.followers.Onward (e.propagate database record).followers
    rw [← h.followers]
    exact e.onward_propagate database record
  · rintro n sent - ⟨waiting, hreaches, htaken⟩
    rw [← h.followers] at hreaches
    refine ⟨_, hsent.reaches hreaches, ?_⟩
    show l.taken n ++ _ = _
    rw [← List.append_assoc, htaken]

/-- What a follower takes is no longer waiting for it. -/
theorem passes_receive (l : Leader) (other : FollowerId) :
    l.Passes (.receive other) (l.after (.receive other)) [] := by
  refine ⟨rfl, (Backlog.write_nil _).symm, (List.append_nil _).symm,
    Followers.onward_drain _ other, ?_, ?_, .inl ⟨rfl, rfl, fun h => h⟩⟩
  · intro hnumbered n hn
    show (if n = other then l.taken other ++ ((l.engine.followers.drain other).1.getD []).flatten
      else l.taken n) = l.taken n
    split
    · rename_i hsame
      rw [← hsame, Followers.drain_of_le hnumbered hn]
      exact List.append_nil _
    · rfl
  · rintro n sent - ⟨waiting, hreaches, htaken⟩
    rw [List.append_nil]
    by_cases hsame : n = other
    · subst hsame
      obtain ⟨⟨messages, hmessages, hflatten⟩, hdrained⟩ := hreaches.drain
      refine ⟨[], hdrained, ?_⟩
      show (if n = n then l.taken n ++ ((l.engine.followers.drain n).1.getD []).flatten
        else l.taken n) ++ [] = sent
      rw [if_pos rfl, hmessages, Option.getD_some, hflatten, List.append_nil]
      exact htaken
    · refine ⟨waiting, hreaches.drain_other hsame, ?_⟩
      show (if n = other then _ else l.taken n) ++ waiting = sent
      rw [if_neg hsame]
      exact htaken

/-- A write that does not fail is handed on. -/
theorem after_of_ok {ε α : Type} {mutation : Mutation ε α} {value : α}
    (h : (mutation l.engine.keyspace).2 = .ok value) {database : Nat} {record : Bytes} :
    l.after (.tryWrite database mutation record)
      = l.wrote database record ((l.engine.onKeyspace mutation).1.propagate database record) := by
  unfold after Engine.tryWrite
  dsimp only
  rw [show (l.engine.onKeyspace mutation).2 = .ok value from h]

/-- A write that fails is a use of the keyspace. -/
theorem after_of_error {ε α : Type} {mutation : Mutation ε α} {error : ε}
    (h : (mutation l.engine.keyspace).2 = .error error) {database : Nat} {record : Bytes} :
    l.after (.tryWrite database mutation record)
      = { l with engine := (l.engine.onKeyspace mutation).1 } := by
  unfold after Engine.tryWrite
  dsimp only
  rw [show (l.engine.onKeyspace mutation).2 = .error error from h]

/-- **All that an event can do.** -/
theorem passes_after (l : Leader) (event : Event) :
    ∃ bytes, l.Passes event (l.after event) bytes := by
  cases event with
  | write database mutation record =>
    exact ⟨_, passes_wrote (l.engine.sameStream_onKeyspace mutation) database record⟩
  | tryWrite database mutation record =>
    have hsame := l.engine.sameStream_onKeyspace mutation
    cases hresult : (mutation l.engine.keyspace).2 with
    | ok value =>
      rw [after_of_ok hresult]
      exact ⟨_, passes_wrote hsame database record⟩
    | error error =>
      rw [after_of_error hresult]
      exact ⟨_, passes_same hsame⟩
  | psync request =>
    exact ⟨_, passes_followers ⟨rfl, rfl⟩ (fun _ => rfl) rfl (Followers.onward_register _)
      fun _ hreaches => hreaches.register⟩
  | remove other =>
    exact ⟨_, passes_followers ⟨rfl, rfl⟩ (fun h => h) rfl (Followers.onward_remove _ other)
      fun hends hreaches => hreaches.remove (Ne.symm hends)⟩
  | disconnect other =>
    exact ⟨_, passes_followers ⟨rfl, rfl⟩ (fun h => h) rfl (Followers.onward_disconnect _ other)
      fun hends hreaches => hreaches.disconnect (Ne.symm hends)⟩
  | acknowledge other offset =>
    exact ⟨_, passes_followers ⟨rfl, rfl⟩ (fun h => h) rfl
      (Followers.onward_acknowledge _ other offset)
      fun _ hreaches => hreaches.acknowledge other offset⟩
  | receive other => exact ⟨_, passes_receive l other⟩

theorem run_cons (l : Leader) (event : Event) (events : List Event) :
    l.run (event :: events) = (l.after event).run events := rfl

/-! ## §5. What every run keeps. -/

/-- The backlog is what the stream makes of an empty one, and whoever has no number
yet has taken nothing. -/
structure Sound (l : Leader) (size : Nat) (history : String) : Prop where
  history_eq : l.engine.history = history
  backlog : l.engine.backlog = (Backlog.new size).write l.stream
  numbered : l.engine.followers.Numbered
  untaken : ∀ n, l.engine.followers.nextId ≤ n → l.taken n = []

variable {size : Nat} {history : String}

theorem Sound.after (h : l.Sound size history) (event : Event) :
    (l.after event).Sound size history := by
  obtain ⟨bytes, hpasses⟩ := passes_after l event
  refine ⟨hpasses.history.trans h.history_eq, ?_, hpasses.onward.numbered h.numbered, ?_⟩
  · rw [hpasses.backlog, h.backlog, hpasses.stream, Backlog.write_append]
  · intro n hn
    have hnew := Nat.le_trans hpasses.onward.nextId hn
    rw [hpasses.untaken h.numbered n hnew]
    exact h.untaken n hnew

/-- **The backlog always holds the end of the stream**, by induction on the events. -/
theorem Sound.run (h : l.Sound size history) (events : List Event) :
    (l.run events).Sound size history := by
  induction events generalizing l with
  | nil => exact h
  | cons event events ih => exact ih (h.after event)

theorem sound_opened {config : Config} {d : Disk} {now : Millis} {fallback : Option Fallback}
    {e : Engine} (h : Engine.open? config d now history fallback = .ok e) :
    (opened e).Sound config.backlogSize history := by
  obtain ⟨-, -, -, -, hbacklog, hfollowers, -, hhistory, -⟩ := Engine.opened_of_open? h
  refine ⟨hhistory, hbacklog.trans (Backlog.write_nil _).symm, ?_, fun _ _ => rfl⟩
  intro channel hmem
  have hnone : channel ∈ e.followers.channels := hmem
  rw [hfollowers] at hnone
  exact absurd hnone List.not_mem_nil

/-- A follower is served, and what it was sent is the stream from an offset on. -/
def Follows (l : Leader) (n : FollowerId) (start : Nat) : Prop :=
  start ≤ l.stream.length ∧ l.Sends n (l.stream.drop start)

/-- A follower had a number, and is not served any more. -/
def Lost (l : Leader) (n : FollowerId) : Prop :=
  n < l.engine.followers.nextId ∧ l.engine.followers.serves n = false

variable {n : FollowerId} {start : Nat}

theorem Follows.after (h : l.Follows n start) {event : Event} (hends : ¬ event.Ends n) :
    (l.after event).Follows n start := by
  obtain ⟨hle, hsends⟩ := h
  obtain ⟨bytes, hpasses⟩ := passes_after l event
  have hsent := hpasses.sends hends hsends
  rw [← List.drop_append_of_le_length hle, ← hpasses.stream] at hsent
  refine ⟨?_, hsent⟩
  rw [hpasses.stream, List.length_append]
  omega

theorem Lost.after (h : l.Lost n) (event : Event) : (l.after event).Lost n := by
  obtain ⟨bytes, hpasses⟩ := passes_after l event
  refine ⟨Nat.lt_of_lt_of_le h.1 hpasses.onward.nextId, ?_⟩
  cases hserved : (l.after event).engine.followers.serves n with
  | false => rfl
  | true =>
    exact (hpasses.onward.served n h.1 hserved).symm.trans h.2

theorem Lost.run (h : l.Lost n) (events : List Event) : (l.run events).Lost n := by
  induction events generalizing l with
  | nil => exact h
  | cons event events ih => exact ih (h.after event)

/-- An event that ends the service of a follower does so. -/
theorem lost_of_ends (hn : n < l.engine.followers.nextId) {event : Event} (h : event.Ends n) :
    (l.after event).Lost n := by
  cases event with
  | remove other =>
    obtain rfl : other = n := h
    exact ⟨hn, Followers.not_serves_remove _ other⟩
  | disconnect other =>
    obtain rfl : other = n := h
    exact ⟨hn, Followers.not_serves_disconnect _ other⟩
  | write database mutation record => exact absurd h id
  | tryWrite database mutation record => exact absurd h id
  | psync request => exact absurd h id
  | acknowledge other offset => exact absurd h id
  | receive other => exact absurd h id

/-- **A follower is sent the rest of the stream** until it is removed or
disconnected, by induction on the events. -/
theorem Follows.run (h : l.Follows n start) (hn : n < l.engine.followers.nextId)
    (events : List Event) :
    ((∀ event ∈ events, ¬ event.Ends n) ∧ (l.run events).Follows n start)
      ∨ ((∃ event ∈ events, event.Ends n) ∧ (l.run events).Lost n) := by
  induction events generalizing l with
  | nil => exact .inl ⟨fun event hmem => absurd hmem List.not_mem_nil, h⟩
  | cons event events ih =>
    rw [run_cons]
    by_cases hends : event.Ends n
    · exact .inr ⟨⟨event, List.mem_cons_self, hends⟩, (lost_of_ends hn hends).run events⟩
    · obtain ⟨bytes, hpasses⟩ := passes_after l event
      have hn' := Nat.lt_of_lt_of_le hn hpasses.onward.nextId
      rcases ih (h.after hends) hn' with ⟨hkept, hfollows⟩ | ⟨⟨other, hmem, hother⟩, hlost⟩
      · exact .inl ⟨List.forall_mem_cons.2 ⟨hends, hkept⟩, hfollows⟩
      · exact .inr ⟨⟨other, List.mem_cons_of_mem _ hmem, hother⟩, hlost⟩

/-! ### The first record after a registration. -/

/-- No record has been handed on since an earlier state, and the next one will
name its database; or the first that was did. -/
def Resumed (before l : Leader) : Prop :=
  (l.stream = before.stream ∧ l.written = before.written ∧ l.engine.streamDatabase = none)
    ∨ ∃ database record more rest, l.written = before.written ++ (database, record) :: more
      ∧ l.stream = before.stream ++ (Wire.encode (Command.selecting database) ++ (record ++ rest))

theorem Resumed.after {before : Leader} (h : before.Resumed l) (event : Event) :
    before.Resumed (l.after event) := by
  obtain ⟨bytes, hpasses⟩ := passes_after l event
  have hstream := hpasses.stream
  rcases h with ⟨hsame, hwritten, hnone⟩ | ⟨database, record, more, rest, hwritten, hbytes⟩
  · rcases hpasses.recorded with ⟨rfl, hnothing, hstill⟩ | ⟨database, record, rfl, hone⟩
    · rw [List.append_nil] at hstream
      exact .inl ⟨hstream.trans hsame, hnothing.trans hwritten, hstill hnone⟩
    · -- the stream is in no database, so the record is preceded by a selection
      have hselection :
          Command.selection none database = Wire.encode (Command.selecting database) :=
        if_neg (fun heq => nomatch heq)
      rw [hsame, hnone, hselection] at hstream
      rw [hwritten] at hone
      exact .inr ⟨database, record, [], [], hone, by rw [hstream, List.append_nil]⟩
  · have hmore : ∃ later, (l.after event).written = l.written ++ later := by
      rcases hpasses.recorded with ⟨-, hnothing, -⟩ | ⟨other, record', -, hone⟩
      · exact ⟨[], by rw [hnothing, List.append_nil]⟩
      · exact ⟨_, hone⟩
    obtain ⟨later, hlater⟩ := hmore
    refine .inr ⟨database, record, more ++ later, rest ++ bytes, ?_, ?_⟩
    · rw [hlater, hwritten, List.append_assoc, List.cons_append]
    · rw [hstream, hbytes]
      simp only [List.append_assoc]

theorem Resumed.run {before : Leader} (h : before.Resumed l) (events : List Event) :
    before.Resumed (l.run events) := by
  induction events generalizing l with
  | nil => exact h
  | cons event events ih => exact ih (h.after event)

/-! ## §6. Requests and their answers. -/

/-- **What a request is answered.** -/
theorem Sound.outcome (h : l.Sound size history) (request : PsyncRequest) :
    (∃ offset, request.Continues history l.stream.length (max size 1) offset
        ∧ l.engine.outcome request = .resume history (l.stream.drop offset))
      ∨ ((¬ ∃ offset, request.Continues history l.stream.length (max size 1) offset)
        ∧ l.engine.outcome request
          = .restart history l.stream.length l.engine.encodeSnapshot) := by
  have hkeeps : l.engine.backlog.Keeps l.stream := by
    rw [h.backlog]
    exact Backlog.keeps_write_new size l.stream
  have hmissed := Engine.missed?_eq_some_iff hkeeps request
  rw [h.history_eq, h.backlog, Backlog.capacity_write_new] at hmissed
  unfold Engine.outcome
  rw [h.history_eq]
  cases hcase : l.engine.missed? request with
  | some missed =>
    obtain ⟨offset, hcontinues, rfl⟩ := (hmissed missed).1 hcase
    exact .inl ⟨offset, hcontinues, rfl⟩
  | none =>
    refine .inr ⟨?_, ?_⟩
    · rintro ⟨offset, hcontinues⟩
      rw [(hmissed _).2 ⟨offset, hcontinues, rfl⟩] at hcase
      cases hcase
    · dsimp only
      rw [hkeeps.offset]

/-- A follower that has just been answered is sent what comes next. -/
theorem Sound.follows_psync (h : l.Sound size history) (request : PsyncRequest) :
    (l.after (.psync request)).Follows (l.engine.psync request).2.1 l.stream.length := by
  refine ⟨Nat.le_refl _, [], h.numbered.reaches_register, ?_⟩
  show l.taken l.engine.followers.nextId ++ [] = l.stream.drop l.stream.length
  rw [h.untaken _ (Nat.le_refl _), List.drop_length]
  rfl

/-- The stream is only added to. -/
theorem stream_run (l : Leader) (events : List Event) :
    ∃ more, (l.run events).stream = l.stream ++ more := by
  induction events generalizing l with
  | nil => exact ⟨[], (List.append_nil _).symm⟩
  | cons event events ih =>
    obtain ⟨bytes, hpasses⟩ := passes_after l event
    obtain ⟨more, hmore⟩ := ih (l.after event)
    exact ⟨bytes ++ more, by rw [run_cons, hmore, hpasses.stream, List.append_assoc]⟩

/-! ## §7. Slices without a seam. -/

/-- **Each follower receives a seamless slice of the stream.**  A request is
answered with the bytes that the follower missed exactly if it names the history
and an offset that the backlog reaches, and else with a snapshot.  Until the
follower is removed or disconnected, what it is sent after that goes on in the
stream where the answer ended; and the first record in it is preceded by a
selection of its database. -/
theorem seamless_slices {config : Config} {d : Disk} {now : Millis} {fallback : Option Fallback}
    {e : Engine} (hopen : Engine.open? config d now history fallback = .ok e)
    {events : List Event} (hrun : (opened e).run events = l) (request : PsyncRequest)
    {later : List Event} {l' : Leader} (hlater : (l.after (.psync request)).run later = l')
    (hn : (l.engine.psync request).2.1 = n) :
    l.engine.backlog = (Backlog.new config.backlogSize).write l.stream
      ∧ ((∃ offset, request.Continues history l.stream.length (max config.backlogSize 1) offset
            ∧ (l.engine.psync request).2.2 = .resume history (l.stream.drop offset))
          ∨ ((¬ ∃ offset,
                request.Continues history l.stream.length (max config.backlogSize 1) offset)
            ∧ (l.engine.psync request).2.2
              = .restart history l.stream.length l.engine.encodeSnapshot))
      ∧ (l'.engine.followers.serves n = true ↔ ∀ event ∈ later, ¬ event.Ends n)
      ∧ (l'.engine.followers.serves n = true → ∃ messages, l'.Sends n messages
          ∧ ∀ offset ≤ l.stream.length, l.stream.drop offset ++ messages = l'.stream.drop offset)
      ∧ ∀ database record more, l'.written = l.written ++ (database, record) :: more →
          ∃ rest, l'.stream
            = l.stream ++ (Wire.encode (Command.selecting database) ++ (record ++ rest)) := by
  have hsound : l.Sound config.backlogSize history := by
    rw [← hrun]
    exact (sound_opened hopen).run events
  have hfollows := (hsound.follows_psync request).run (Nat.lt_succ_self _) later
  have hresumed : (l.after (.psync request)).Resumed l' := by
    rw [← hlater]
    exact Resumed.run (.inl ⟨rfl, rfl, rfl⟩) later
  obtain ⟨more, hmore⟩ := stream_run (l.after (.psync request)) later
  rw [hlater] at hfollows hmore
  rw [hn] at hfollows
  -- until it is gone the follower is sent what the stream is extended by
  refine ⟨hsound.backlog, hsound.outcome request, ?_, ?_, ?_⟩
  · rcases hfollows with ⟨hkept, -, waiting, hreaches, -⟩ | ⟨⟨event, hmem, hends⟩, -, hlost⟩
    · exact ⟨fun _ => hkept, fun _ => Followers.serves_iff.2 ⟨waiting, hreaches⟩⟩
    · constructor
      · intro hserved
        rw [hlost] at hserved
        cases hserved
      · intro hkept
        exact absurd hends (hkept event hmem)
  · intro hserved
    rcases hfollows with ⟨-, -, hsends⟩ | ⟨-, -, hlost⟩
    · refine ⟨_, hsends, ?_⟩
      intro offset hoffset
      have hstream : l'.stream = l.stream ++ more := hmore
      rw [hstream, List.drop_left, List.drop_append_of_le_length hoffset]
    · rw [hlost] at hserved
      cases hserved
  · intro database record others hwritten
    -- nothing was written, or the first record was, behind its selection
    rcases hresumed with ⟨-, hsame, -⟩ | ⟨first, bytes, after, rest, hfirst, hstream⟩
    · rw [hwritten] at hsame
      exact absurd hsame (by simp [after])
    · rw [hwritten] at hfirst
      have heq := List.append_cancel_left hfirst
      cases heq
      exact ⟨rest, hstream⟩

/-- A write of a string under the key `k`, with nothing done to the keyspace. -/
def writing (value : String) : Event :=
  .write 0 (fun ks => (ks, ())) (Wire.encode (writeOf value))

/-- A write that fails. -/
def failing (value : String) : Event :=
  .tryWrite 0 (fun ks => (ks, (.error () : Except Unit Unit))) (Wire.encode (writeOf value))

/-- A follower that comes back for nothing is sent the next record, and the
selection before it, though the record before was in the same database. -/
theorem seamless_slices_after_resume :
    ∃ l l' : Leader,
      (opened (Engine.blank smallConfig 50)).run [writing "1"] = l
        ∧ (l.after (.psync ⟨some "", some 50⟩)).run
          [failing "2", writing "3", .receive 0, .remove 1] = l'
        ∧ (l.engine.psync ⟨some "", some 50⟩).2.2 = .resume "" []
        ∧ l'.engine.followers.serves 0 = true
        ∧ l'.Sends 0 (Wire.encode (Command.selecting 0) ++ Wire.encode (writeOf "3")) := by
  have hbefore : (opened (Engine.blank smallConfig 50)).run [writing "1"] = _ := rfl
  have hlater : ((((opened (Engine.blank smallConfig 50)).run [writing "1"]).after
      (.psync ⟨some "", some 50⟩)).run [failing "2", writing "3", .receive 0, .remove 1]) = _ := rfl
  obtain ⟨-, hanswer, hserved, hsent, -⟩ :=
    seamless_slices open?_smallConfig hbefore ⟨some "", some 50⟩ hlater (n := 0) rfl
  have hserves := hserved.2 (by simp [writing, failing, Event.Ends])
  obtain ⟨messages, hsends, hslice⟩ := hsent hserves
  refine ⟨_, _, rfl, rfl, ?_, hserves, ?_⟩
  · rcases hanswer with ⟨offset, ⟨-, hoffset, -⟩, hresume⟩ | ⟨hnone, -⟩
    · cases hoffset
      exact hresume
    · exact absurd ⟨50, rfl, rfl, by decide, by decide⟩ hnone
  · have hmessages : messages = Wire.encode (Command.selecting 0) ++ Wire.encode (writeOf "3") :=
      hslice 50 (by decide)
    rw [← hmessages]
    exact hsends

end Leader

end DurableStore
