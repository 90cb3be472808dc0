/-
  DurableStore.Proofs.Replication.Order
  ────────────────────────────────
  **THE LOG AND THE STREAM AGREE ON THE ORDER OF WRITES.**

  A leader keeps a log and sends a stream, and each of the two names the
  database of its records for itself: the stream anew after a follower has
  come in, the log also for the keys that a write evicted.  Under any limits
  both hold the same writes in the order in which the keyspace was changed:

      Attempt          — a use of the keyspace: what it evicted, and the
                         command that was handed on after it, if one was
      propagated as    — what the stream should hold after some attempts
      recorded as      — what the log should hold: that, and before each
                         command a deletion of every key that was evicted
      l.Agrees as      — the leader after these attempts
      l.Served n s as  — what a follower that came in behind some stream was
                         sent during these attempts

  Main results:
    * `Agrees.step`, `Served.step` — one step keeps the invariants;
    * `log_agrees_with_stream` — after every run, for every follower, and
      after a write that fails.
-/
import DurableStore.Proofs.Command.Operation
import DurableStore.Proofs.Engine.Writes
import DurableStore.Proofs.Journal.Attribution
import DurableStore.Proofs.Keyspace.Notices
import DurableStore.Proofs.Replication.Slices

namespace DurableStore

/-! ## §1. What the two should hold. -/

/-- The keys whose eviction the notices tell, in order, each with its database. -/
def Keyspace.evictedKeys (ks : Keyspace) : List (Nat × Bytes) :=
  ks.evictions.map fun n => (n.database, n.key)

/-- A use of the keyspace, with or without success. -/
structure Attempt where
  /-- The keys that it evicted, each with its database. -/
  evicted : List (Nat × Bytes)
  /-- The command that was handed on after it, with its database. -/
  command : Option (Nat × Command)
  deriving DecidableEq, Repr

namespace Attempt

/-- The deletions that repeat evictions. -/
def deletions (evicted : List (Nat × Bytes)) : List (Nat × Command) :=
  evicted.map fun p => (p.1, Engine.evictionCommand p.2)

/-- What the replication stream should hold. -/
def propagated (attempts : List Attempt) : List (Nat × Command) := attempts.filterMap command

/-- What the log should hold. -/
def recorded (attempts : List Attempt) : List (Nat × Command) :=
  attempts.flatMap fun a => deletions a.evicted ++ a.command.toList

variable (attempts : List Attempt) (evicted : List (Nat × Bytes)) (w : Nat × Command)

theorem propagated_nothing : propagated (attempts ++ [⟨evicted, none⟩]) = propagated attempts := by
  unfold propagated
  rw [List.filterMap_append]
  exact List.append_nil _

theorem propagated_command :
    propagated (attempts ++ [⟨evicted, some w⟩])
      = propagated (attempts ++ [⟨evicted, none⟩]) ++ [w] := by
  rw [propagated_nothing]
  unfold propagated
  rw [List.filterMap_append]
  rfl

theorem recorded_nothing :
    recorded (attempts ++ [⟨evicted, none⟩]) = recorded attempts ++ deletions evicted := by
  unfold recorded
  rw [List.flatMap_append, List.flatMap_singleton]
  exact congrArg (_ ++ ·) (List.append_nil _)

theorem recorded_command :
    recorded (attempts ++ [⟨evicted, some w⟩])
      = recorded (attempts ++ [⟨evicted, none⟩]) ++ [w] := by
  rw [recorded_nothing]
  unfold recorded
  rw [List.flatMap_append, List.flatMap_singleton, List.append_assoc]
  rfl

end Attempt

/-! ## §2. The log. -/

namespace Engine

/-- The log of an engine lists some writes. -/
def LogLists (e : Engine) (writes : List (Nat × Command)) : Prop :=
  ∃ j content, e.journal = some j ∧ j.Carries e.disk content ∧ Lists content writes j.selected

variable {e : Engine} {writes : List (Nat × Command)}

/-- **A record is listed last.** -/
theorem LogLists.appendLog (h : e.LogLists writes) {database : Nat}
    (hdatabase : database < Bytes.u64Bound) {command : Command} (hselect : ¬ command.Selects)
    (hfits : Wire.Fits command) :
    (e.appendLog database (Wire.encode command)).LogLists (writes ++ [(database, command)]) := by
  obtain ⟨j, content, hjournal, hcarries, hlists⟩ := h
  have hwrote := Journal.wrote_append hcarries database (Wire.encode command)
  rw [appendLog_eq hjournal]
  refine ⟨_, _, rfl, hwrote.carries, ?_⟩
  rw [hwrote.selected]
  exact hlists.record hdatabase hselect hfits

/-- Handing a command on adds it to the log. -/
theorem LogLists.propagate (h : e.LogLists writes) {database : Nat}
    (hdatabase : database < Bytes.u64Bound) {command : Command} (hselect : ¬ command.Selects)
    (hfits : Wire.Fits command) :
    (e.propagate database (Wire.encode command)).LogLists (writes ++ [(database, command)]) := by
  obtain ⟨-, hjournal, hdisk, -⟩ := e.selectStream_keeps database
  have hselected : (e.selectStream database).LogLists writes := by
    unfold LogLists
    rw [hjournal, hdisk]
    exact h
  exact hselected.appendLog hdatabase hselect hfits

/-- Writing out what the log has collected changes the log only. -/
theorem flushLog_eq (e : Engine) :
    ∃ disk journal, e.flushLog = { e with disk := disk, journal := journal } := by
  unfold flushLog withJournal
  split <;> exact ⟨_, _, rfl⟩

theorem sameStream_flushLog (e : Engine) : e.SameStream e.flushLog := by
  obtain ⟨disk, journal, hflush⟩ := e.flushLog_eq
  rw [hflush]
  exact ⟨rfl, rfl, rfl, rfl⟩

theorem LogLists.flushLog (h : e.LogLists writes) : e.flushLog.LogLists writes := by
  obtain ⟨j, content, hjournal, hcarries, hlists⟩ := h
  unfold Engine.flushLog withJournal
  rw [hjournal]
  exact ⟨_, content, rfl, Journal.carries_flush hcarries, hlists⟩

/-- **Of the notices the evictions are listed**, by induction on the notices. -/
theorem LogLists.foldl_logNotice (h : e.LogLists writes) {evictions : List Notice}
    (hevicted : ∀ n ∈ evictions, n.event = .evicted)
    (hdatabase : ∀ n ∈ evictions, n.database < Bytes.u64Bound)
    (hkey : ∀ n ∈ evictions, n.key.length < lengthBound) :
    (evictions.foldl logNotice e).LogLists
      (writes ++ Attempt.deletions (evictions.map fun n => (n.database, n.key))) := by
  induction evictions generalizing e writes with
  | nil =>
    rw [List.map_nil, show Attempt.deletions [] = [] from rfl, List.append_nil]
    exact h
  | cons n evictions ih =>
    obtain ⟨hevicted₁, hevicted₂⟩ := List.forall_mem_cons.1 hevicted
    obtain ⟨hdatabase₁, hdatabase₂⟩ := List.forall_mem_cons.1 hdatabase
    obtain ⟨hkey₁, hkey₂⟩ := List.forall_mem_cons.1 hkey
    have hone : e.logNotice n = e.appendLog n.database (Wire.encode (evictionCommand n.key)) :=
      if_pos hevicted₁
    have hlisted := h.appendLog hdatabase₁ (not_selects_evictionCommand n.key)
      (fits_evictionCommand hkey₁)
    rw [← hone] at hlisted
    have hrest := ih hlisted hevicted₂ hdatabase₂ hkey₂
    rw [List.append_assoc] at hrest
    exact hrest

end Engine

/-! ## §3. Steps. -/

namespace Leader

/-- Whether an event concerns the followers only. -/
def Event.Attends : Event → Prop
  | .write _ _ _ => False
  | .tryWrite _ _ _ => False
  | _ => True

/-- What the leader does with its keyspace: operations, and whatever they evict is a key that
memory holds. -/
structure Uses (l : Leader) (ks : Keyspace) : Prop where
  operates : l.engine.keyspace.Operates ks
  inMemory : ∀ p ∈ ks.evictedKeys, p.2.length < lengthBound

/-- One thing that can happen to a leader, and the attempt that it is, if it is one. -/
inductive Step : Leader → Option Attempt → Leader → Prop
  /-- A write that always takes place. -/
  | write {l : Leader} {α : Type} {database : Nat} {command : Command}
      {mutation : Keyspace → Keyspace × α} (hdatabase : database < Bytes.u64Bound)
      (hselect : ¬ command.Selects) (hfits : Wire.Fits command)
      (huses : l.Uses (mutation l.engine.keyspace).1) :
      Step l (some ⟨(mutation l.engine.keyspace).1.evictedKeys, some (database, command)⟩)
        (l.after (.write database mutation (Wire.encode command)))
  /-- A write that may fail, and does not. -/
  | accept {l : Leader} {ε α : Type} {database : Nat} {command : Command} {mutation : Mutation ε α}
      {value : α} (hdatabase : database < Bytes.u64Bound) (hselect : ¬ command.Selects)
      (hfits : Wire.Fits command) (huses : l.Uses (mutation l.engine.keyspace).1)
      (hresult : (mutation l.engine.keyspace).2 = .ok value) :
      Step l (some ⟨(mutation l.engine.keyspace).1.evictedKeys, some (database, command)⟩)
        (l.after (.tryWrite database mutation (Wire.encode command)))
  /-- A write that fails. -/
  | refuse {l : Leader} {ε α : Type} {database : Nat} {record : Bytes} {mutation : Mutation ε α}
      {error : ε} (huses : l.Uses (mutation l.engine.keyspace).1)
      (hresult : (mutation l.engine.keyspace).2 = .error error) :
      Step l (some ⟨(mutation l.engine.keyspace).1.evictedKeys, none⟩)
        (l.after (.tryWrite database mutation record))
  /-- Keys are read, or the keyspace is swept. -/
  | use {l : Leader} {α : Type} {use : Keyspace → Keyspace × α}
      (huses : l.Uses (use l.engine.keyspace).1) :
      Step l (some ⟨(use l.engine.keyspace).1.evictedKeys, none⟩)
        { l with engine := (l.engine.onKeyspace use).1 }
  /-- A follower is registered, or something else happens to the followers. -/
  | attend (l : Leader) {event : Event} (h : event.Attends) : Step l none (l.after event)
  | flush (l : Leader) : Step l none { l with engine := l.engine.flushLog }
  | pass (l : Leader) (now : Millis) : Step l none { l with engine := l.engine.atTime now }

/-- What happens to a leader in a row, and the attempts among it. -/
inductive Runs (l : Leader) : List Attempt → Leader → Prop
  | nil : Runs l [] l
  | step {l' l'' : Leader} {attempts : List Attempt} {attempt : Option Attempt}
      (hruns : Runs l attempts l') (hstep : l'.Step attempt l'') :
      Runs l (attempts ++ attempt.toList) l''

/-! ## §4. The log and the stream. -/

/-- What holds of a leader after some attempts. -/
structure Agrees (l : Leader) (attempts : List Attempt) : Prop where
  stream : Lists l.stream (Attempt.propagated attempts) l.engine.streamDatabase
  log : l.engine.LogLists (Attempt.recorded attempts)
  evicted : l.engine.keyspace.stats.evicted = (attempts.flatMap Attempt.evicted).length
  count : l.engine.keyspace.count < Bytes.u64Bound
  listening : l.engine.keyspace.listening = true
  /-- All notices are taken. -/
  taken : l.engine.keyspace.notices = []

variable {l l' : Leader} {attempts : List Attempt}

/-- **A use of the keyspace** adds deletions to the log, and nothing to the stream. -/
theorem Agrees.onKeyspace (h : l.Agrees attempts) {α : Type} {use : Keyspace → Keyspace × α}
    (huses : l.Uses (use l.engine.keyspace).1) :
    Agrees { l with engine := (l.engine.onKeyspace use).1 }
      (attempts ++ [⟨(use l.engine.keyspace).1.evictedKeys, none⟩]) := by
  -- no notice was left from before, so all that are taken now are of this use
  obtain ⟨heard, hhears⟩ := huses.operates.hears h.listening
  have hnotices : (use l.engine.keyspace).1.notices = heard := by
    rw [hhears.notices, h.taken, List.nil_append]
  have hsame := l.engine.sameStream_onKeyspace use
  have hkeyspace : (l.engine.onKeyspace use).1.keyspace
      = (use l.engine.keyspace).1.takeNotices.2 := Engine.keyspace_foldl_logNotice _ _
  refine ⟨?_, ?_, ?_, ?_, ?_, ?_⟩
  · rw [Attempt.propagated_nothing]
    show Lists l.stream _ (l.engine.onKeyspace use).1.streamDatabase
    rw [hsame.streamDatabase]
    exact h.stream
  · -- of all notices only the evictions are logged
    have hmem : ∀ n ∈ (use l.engine.keyspace).1.evictions,
        n ∈ heard ∧ n.event = .evicted := by
      intro n hn
      obtain ⟨hin, hevent⟩ := List.mem_filter.1 hn
      exact ⟨hnotices ▸ hin, of_decide_eq_true hevent⟩
    have hlog : Engine.LogLists { l.engine with keyspace := (use l.engine.keyspace).1.takeNotices.2 }
        (Attempt.recorded attempts) := h.log
    have hlisted := hlog.foldl_logNotice (fun n hn => (hmem n hn).2)
      (fun n hn => Nat.lt_trans (hhears.database n (hmem n hn).1 (hmem n hn).2) h.count)
      (fun n hn => huses.inMemory _ (List.mem_map_of_mem hn))
    rw [Attempt.recorded_nothing]
    show Engine.LogLists ((use l.engine.keyspace).1.notices.foldl Engine.logNotice _) _
    rw [Engine.foldl_logNotice]
    exact hlisted
  · show (l.engine.onKeyspace use).1.keyspace.stats.evicted = _
    rw [hkeyspace, List.flatMap_append, List.flatMap_singleton, List.length_append, ← h.evicted]
    show (use l.engine.keyspace).1.stats.evicted
      = _ + ((use l.engine.keyspace).1.evictions.map _).length
    rw [hhears.evicted, List.length_map, Keyspace.evictions, hnotices, List.countP_eq_length_filter]
  · show (l.engine.onKeyspace use).1.keyspace.count < _
    rw [hkeyspace]
    show (use l.engine.keyspace).1.count < _
    rw [hhears.count]
    exact h.count
  · show (l.engine.onKeyspace use).1.keyspace.listening = true
    rw [hkeyspace]
    exact hhears.listening.trans h.listening
  · show (l.engine.onKeyspace use).1.keyspace.notices = []
    rw [hkeyspace]
    rfl

/-- **A command that is handed on** is added to both. -/
theorem Agrees.wrote {e : Engine} {evicted : List (Nat × Bytes)}
    (h : Agrees { l with engine := e } (attempts ++ [⟨evicted, none⟩]))
    (hsame : l.engine.SameStream e) {database : Nat} (hdatabase : database < Bytes.u64Bound)
    {command : Command} (hselect : ¬ command.Selects) (hfits : Wire.Fits command) :
    (l.wrote database (Wire.encode command) (e.propagate database (Wire.encode command))).Agrees
      (attempts ++ [⟨evicted, some (database, command)⟩]) := by
  obtain ⟨hsent, hafter⟩ := Engine.sent_propagate e database (Wire.encode command)
  refine ⟨?_, ?_, ?_, ?_, ?_, ?_⟩
  · -- evictions do not go through the stream, so they change nothing in the database it is in
    show Lists (l.stream ++ _) _ (e.propagate database (Wire.encode command)).streamDatabase
    rw [hafter, Attempt.propagated_command, ← hsame.streamDatabase]
    exact h.stream.record hdatabase hselect hfits
  · rw [Attempt.recorded_command]
    exact h.log.propagate hdatabase hselect hfits
  · show (e.propagate database (Wire.encode command)).keyspace.stats.evicted = _
    rw [hsent.keyspace, show e.keyspace.stats.evicted = _ from h.evicted, List.flatMap_append,
      List.flatMap_append]
    rfl
  · show (e.propagate database (Wire.encode command)).keyspace.count < _
    rw [hsent.keyspace]
    exact h.count
  · show (e.propagate database (Wire.encode command)).keyspace.listening = true
    rw [hsent.keyspace]
    exact h.listening
  · show (e.propagate database (Wire.encode command)).keyspace.notices = []
    rw [hsent.keyspace]
    exact h.taken

/-- A follower that comes in makes the stream name its database again. -/
theorem Agrees.attend (h : l.Agrees attempts) {event : Event} (hattends : event.Attends) :
    (l.after event).Agrees attempts := by
  cases event with
  | write => exact absurd hattends id
  | tryWrite => exact absurd hattends id
  | psync request =>
    exact ⟨h.stream.forget, h.log, h.evicted, h.count, h.listening, h.taken⟩
  | remove | disconnect | acknowledge | receive =>
    exact ⟨h.stream, h.log, h.evicted, h.count, h.listening, h.taken⟩

/-- **One step** keeps log and stream in line. -/
theorem Agrees.step {attempt : Option Attempt} (h : l.Agrees attempts)
    (hstep : l.Step attempt l') : l'.Agrees (attempts ++ attempt.toList) := by
  cases hstep with
  | write hdatabase hselect hfits huses =>
    exact (h.onKeyspace huses).wrote (l.engine.sameStream_onKeyspace _) hdatabase hselect hfits
  | @accept ε α database command mutation value hdatabase hselect hfits huses hresult =>
    rw [after_of_ok hresult]
    exact (h.onKeyspace huses).wrote (l.engine.sameStream_onKeyspace _) hdatabase hselect hfits
  | @refuse ε α database record mutation error huses hresult =>
    rw [after_of_error hresult]
    exact h.onKeyspace huses
  | use huses => exact h.onKeyspace huses
  | attend hattends =>
    rw [Option.toList_none, List.append_nil]
    exact h.attend hattends
  | flush =>
    rw [Option.toList_none, List.append_nil]
    have hlog := h.log.flushLog
    obtain ⟨disk, journal, hflush⟩ := l.engine.flushLog_eq
    rw [hflush] at hlog ⊢
    exact ⟨h.stream, hlog, h.evicted, h.count, h.listening, h.taken⟩
  | pass now =>
    rw [Option.toList_none, List.append_nil]
    exact ⟨h.stream, h.log, h.evicted, h.count, h.listening, h.taken⟩

/-- **Every run** keeps them so, by induction on it. -/
theorem Agrees.run (h : l.Agrees []) (hruns : l.Runs attempts l') : l'.Agrees attempts := by
  induction hruns with
  | nil => exact h
  | step _ hstep ih => exact ih.step hstep

/-- A leader that is opened where there is nothing. -/
theorem agrees_opened {config : Config} {d : Disk} {now : Millis} {history : String}
    {fallback : Option Fallback} {e : Engine}
    (hcount : (Loaded.emptyKeyspace config now).count < Bytes.u64Bound)
    (hopen : Engine.open? config d now history fallback = .ok e)
    (hfresh : e.Fresh config (Loaded.emptyKeyspace config now) []) :
    (opened e).Agrees [] := by
  obtain ⟨⟨j, hjournal, -, hselected, -, hcarries⟩, hkeyspace, -⟩ := hfresh
  obtain ⟨-, -, -, -, -, -, hstream, -⟩ := Engine.opened_of_open? hopen
  refine ⟨?_, ⟨j, [], hjournal, hcarries, ?_⟩, ?_, ?_, ?_, ?_⟩
  · show Lists [] [] e.streamDatabase
    rw [hstream]
    exact Lists.nil
  · rw [hselected]
    exact Lists.nil
  · show e.keyspace.stats.evicted = 0
    rw [hkeyspace]
    rfl
  · show e.keyspace.count < _
    rw [hkeyspace]
    exact hcount
  · show e.keyspace.listening = true
    rw [hkeyspace]
    rfl
  · show e.keyspace.notices = []
    rw [hkeyspace]
    rfl

/-! ## §5. The backlog and the followers. -/

variable {size : Nat} {history : String} {n : FollowerId} {before : Bytes}

/-- What is done without the stream leaves its end in the backlog. -/
theorem Sound.still (h : l.Sound size history) {e : Engine} (hsame : l.engine.SameStream e) :
    Sound { l with engine := e } size history where
  history_eq := hsame.history.trans h.history_eq
  backlog := hsame.backlog.trans h.backlog
  numbered := by
    rw [hsame.followers]
    exact h.numbered
  untaken := by
    rw [hsame.followers]
    exact h.untaken

/-- **One step** leaves the end of the stream in the backlog. -/
theorem Sound.step {attempt : Option Attempt} (h : l.Sound size history)
    (hstep : l.Step attempt l') : l'.Sound size history := by
  cases hstep with
  | write | accept | refuse | attend => exact h.after _
  | use => exact h.still (l.engine.sameStream_onKeyspace _)
  | flush => exact h.still l.engine.sameStream_flushLog
  | pass now => exact h.still ⟨rfl, rfl, rfl, rfl⟩

/-- So does every run, by induction on it. -/
theorem Sound.runs (h : l.Sound size history) (hruns : l.Runs attempts l') :
    l'.Sound size history := by
  induction hruns with
  | nil => exact h
  | step _ hstep ih => exact ih.step hstep

/-- A follower that came in behind some stream was sent all that was added to it since, as long as
it is served: the commands that were handed on. -/
structure Served (l : Leader) (n : FollowerId) (before : Bytes) (attempts : List Attempt) :
    Prop where
  /-- The number was given. -/
  issued : n < l.engine.followers.nextId
  grown : before <+: l.stream
  sends : l.engine.followers.serves n = true → l.Sends n (l.stream.drop before.length)
  lists : Lists (l.stream.drop before.length) (Attempt.propagated attempts) l.engine.streamDatabase

/-- What is done without the stream is not sent. -/
theorem Served.still (h : l.Served n before attempts) {e : Engine} (hsame : l.engine.SameStream e) :
    Served { l with engine := e } n before attempts where
  issued := by
    rw [hsame.followers]
    exact h.issued
  grown := h.grown
  sends := by
    unfold Sends
    rw [hsame.followers]
    exact h.sends
  lists := by
    rw [hsame.streamDatabase]
    exact h.lists

/-- **An event**: what it adds to the stream is sent to everybody who is still served. -/
theorem Served.after (h : l.Served n before attempts) {event : Event} {bytes : Bytes}
    (hstream : (l.after event).stream = l.stream ++ bytes) {attempts' : List Attempt}
    (hlists : Lists (l.stream.drop before.length ++ bytes) (Attempt.propagated attempts')
      (l.after event).engine.streamDatabase) :
    (l.after event).Served n before attempts' := by
  obtain ⟨_, hpasses⟩ := passes_after l event
  refine ⟨Nat.lt_of_lt_of_le h.issued hpasses.onward.nextId, ?_, ?_, ?_⟩
  · rw [hstream]
    exact h.grown.trans (List.prefix_append _ _)
  · -- whoever is served after the event was served before it, and the event did not end that
    intro hserved
    have hends : ¬ event.Ends n := by
      intro hends
      rw [(lost_of_ends h.issued hends).2] at hserved
      cases hserved
    have hbefore := hpasses.onward.served n h.issued hserved
    exact (Follows.after ⟨h.grown.length_le, h.sends hbefore⟩ hends).2
  · rw [hstream, List.drop_append_of_le_length h.grown.length_le]
    exact hlists

/-- What only concerns the followers adds nothing to the stream. -/
theorem Served.attend (h : l.Served n before attempts) {event : Event} (hattends : event.Attends) :
    (l.after event).Served n before attempts := by
  have hsame : Lists (l.stream.drop before.length ++ []) (Attempt.propagated attempts)
      l.engine.streamDatabase := by
    rw [List.append_nil]
    exact h.lists
  cases event with
  | write => exact absurd hattends id
  | tryWrite => exact absurd hattends id
  | psync request => exact h.after (List.append_nil _).symm hsame.forget
  | remove | disconnect | acknowledge | receive => exact h.after (List.append_nil _).symm hsame

/-- An attempt that hands nothing on adds no command. -/
theorem Served.nothing (h : l.Served n before attempts) (evicted : List (Nat × Bytes)) :
    l.Served n before (attempts ++ [⟨evicted, none⟩]) := by
  refine ⟨h.issued, h.grown, h.sends, ?_⟩
  rw [Attempt.propagated_nothing]
  exact h.lists

/-- **A command that is handed on** is sent last. -/
theorem Served.wrote (h : l.Served n before attempts) {event : Event} {e : Engine} {database : Nat}
    {command : Command} (hafter : l.after event
      = l.wrote database (Wire.encode command) (e.propagate database (Wire.encode command)))
    (hdatabase : database < Bytes.u64Bound) (hselect : ¬ command.Selects)
    (hfits : Wire.Fits command) (evicted : List (Nat × Bytes)) :
    (l.after event).Served n before (attempts ++ [⟨evicted, some (database, command)⟩]) := by
  obtain ⟨-, hselected⟩ := Engine.sent_propagate e database (Wire.encode command)
  refine h.after (congrArg stream hafter) ?_
  rw [hafter, Attempt.propagated_command, Attempt.propagated_nothing]
  show Lists _ _ (e.propagate database (Wire.encode command)).streamDatabase
  rw [hselected]
  exact h.lists.record hdatabase hselect hfits

/-- **One step.** -/
theorem Served.step {attempt : Option Attempt} (h : l.Served n before attempts)
    (hstep : l.Step attempt l') : l'.Served n before (attempts ++ attempt.toList) := by
  cases hstep with
  | write hdatabase hselect hfits _ => exact h.wrote rfl hdatabase hselect hfits _
  | accept hdatabase hselect hfits _ hresult =>
    exact h.wrote (after_of_ok hresult) hdatabase hselect hfits _
  | refuse _ hresult =>
    rw [after_of_error hresult]
    exact (h.still (l.engine.sameStream_onKeyspace _)).nothing _
  | use => exact (h.still (l.engine.sameStream_onKeyspace _)).nothing _
  | attend hattends =>
    rw [Option.toList_none, List.append_nil]
    exact h.attend hattends
  | flush =>
    rw [Option.toList_none, List.append_nil]
    exact h.still l.engine.sameStream_flushLog
  | pass now =>
    rw [Option.toList_none, List.append_nil]
    exact h.still ⟨rfl, rfl, rfl, rfl⟩

/-- **Every run**, by induction on it. -/
theorem Served.run (h : l.Served n before []) (hruns : l.Runs attempts l') :
    l'.Served n before attempts := by
  induction hruns with
  | nil => exact h
  | step _ hstep ih => exact ih.step hstep

/-- A follower that has just come in was sent nothing, and the stream is in no database for it. -/
theorem Sound.served_psync (h : l.Sound size history) (request : PsyncRequest) :
    (l.after (.psync request)).Served (l.engine.psync request).2.1 l.stream [] := by
  obtain ⟨-, hsends⟩ := h.follows_psync request
  refine ⟨Nat.lt_succ_self _, List.prefix_rfl, fun _ => hsends, ?_⟩
  show Lists (l.stream.drop l.stream.length) [] none
  rw [List.drop_length]
  exact Lists.nil

/-! ## §6. Every run. -/

/-- Bytes are complete commands: those that select no database are the given ones, each in
the database that the nearest `SELECT` before it names. -/
def Reads (now : Millis) (bytes : Bytes) (writes : List (Nat × Command)) : Prop :=
  (Wire.decodeAll bytes).rest = [] ∧ (Wire.decodeAll bytes).fault = none
    ∧ Command.attributed now none (Wire.decodeAll bytes).commands = Command.placed writes

theorem Agrees.reads_log (h : l.Agrees attempts) (now : Millis) :
    ∃ j, l.engine.journal = some j
      ∧ Reads now (j.content l.engine.disk) (Attempt.recorded attempts) := by
  obtain ⟨j, content, hjournal, hcarries, hlists⟩ := h.log
  refine ⟨j, hjournal, ?_⟩
  rw [Journal.content_eq hcarries]
  exact hlists.decodeAll now

/-- **The log and the stream agree on the order of writes.**  An engine that keeps a log is
opened where there is nothing, and goes through writes, with success or without and
under any limits, while followers come and go.  At any time the stream is, command by
command and database by database, what was handed on, in the order in which the
keyspace was changed.  The backlog reads back its last bytes, and a follower that comes
in is sent, as long as it is served, just what is handed on from then on.  The log is
that too, with a deletion of every key that was evicted, in its database, before the
command whose change evicted it; and there are as many deletions as the keyspace has
counted.  A write that fails then adds nothing to the stream, to the backlog or for any
follower, and only such deletions to the log. -/
theorem log_agrees_with_stream {config : Config} {d : Disk} {now : Millis} {history : String}
    {fallback : Option Fallback} {e : Engine} (happend : config.appendOnly = true)
    (hcount : (Loaded.emptyKeyspace config now).count < Bytes.u64Bound) (hwf : d.WellFormed)
    (hlog : d.exists? (Loaded.logPath config) = false)
    (hsnapshot : d.read (Loaded.snapshotPath config) = .ok none)
    (hopen : Engine.open? config d now history fallback = .ok e)
    (hruns : (opened e).Runs attempts l) (t : Millis) :
    l.engine.backlog = (Backlog.new config.backlogSize).write l.stream
      ∧ (∀ offset limit, l.engine.backlog.read? offset limit
        = if l.stream.length - max config.backlogSize 1 ≤ offset ∧ offset ≤ l.stream.length then
            some ((l.stream.drop offset).take limit)
          else none)
      ∧ Reads t l.stream (Attempt.propagated attempts)
      ∧ (∀ request n, (l.engine.psync request).2.1 = n → ∀ later l',
        (l.after (.psync request)).Runs later l' → ∃ sent, l'.stream = l.stream ++ sent
          ∧ Reads t sent (Attempt.propagated later)
          ∧ (l'.engine.followers.serves n = true → l'.Sends n sent))
      ∧ (∃ j, l.engine.journal = some j
        ∧ Reads t (j.content l.engine.disk) (Attempt.recorded attempts))
      ∧ (attempts.flatMap Attempt.evicted).length = l.engine.keyspace.stats.evicted
      ∧ ∀ (ε α : Type) (database : Nat) (mutation : Mutation ε α) (record : Bytes) (error : ε),
          l.Uses (mutation l.engine.keyspace).1 → (mutation l.engine.keyspace).2 = .error error →
          ∀ l', l.after (.tryWrite database mutation record) = l' →
            l'.stream = l.stream ∧ l.engine.SameStream l'.engine
              ∧ ∃ j, l'.engine.journal = some j
                ∧ Reads t (j.content l'.engine.disk) (Attempt.recorded attempts
                  ++ Attempt.deletions (mutation l.engine.keyspace).1.evictedKeys) := by
  have hagrees : l.Agrees attempts :=
    (agrees_opened hcount hopen (Engine.open?_of_nothing happend hwf hlog hsnapshot hopen)).run hruns
  have hsound : l.Sound config.backlogSize history := (sound_opened hopen).runs hruns
  refine ⟨hsound.backlog, ?_, hagrees.stream.decodeAll t, ?_, hagrees.reads_log t,
    hagrees.evicted.symm, ?_⟩
  · intro offset limit
    have hkeeps := Backlog.keeps_write_new config.backlogSize l.stream
    rw [hsound.backlog, hkeeps.read?_eq, Backlog.capacity_write_new]
  · rintro request n rfl later l' hlater
    obtain ⟨-, ⟨sent, hsent⟩, hsends, hlists⟩ := (hsound.served_psync request).run hlater
    rw [← hsent, List.drop_left] at hsends hlists
    exact ⟨sent, hsent.symm, hlists.decodeAll t, hsends⟩
  · -- the invariant of the run, after one more write that fails
    rintro ε α database mutation record error huses hresult l' rfl
    have hfailed := (hagrees.onKeyspace huses).reads_log t
    rw [Attempt.recorded_nothing] at hfailed
    rw [after_of_error hresult]
    exact ⟨rfl, l.engine.sameStream_onKeyspace mutation, hfailed⟩

/-- A change that makes room and then fails. -/
def makingRoom : Mutation Unit Unit := fun ks =>
  match ks.evict 0 with
  | .ok (ks, _) => (ks, .error ())
  | .error _ => (ks, .error ())

/-- It is an operation, with the keys that it evicts. -/
theorem step_makingRoom {evicted : List (Nat × Bytes)}
    (hevicted : (makingRoom l.engine.keyspace).1.evictedKeys = evicted)
    (hmemory : ∀ p ∈ evicted, p.2.length < lengthBound) :
    l.Step (some ⟨evicted, none⟩) (l.after (.tryWrite 0 makingRoom [])) := by
  subst hevicted
  cases hevict : l.engine.keyspace.evict 0 with
  | error error =>
    have hsame : makingRoom l.engine.keyspace = (l.engine.keyspace, .error ()) := by
      unfold makingRoom
      rw [hevict]
    refine .refuse ⟨?_, hmemory⟩ (congrArg Prod.snd hsame)
    rw [hsame]
  | ok outcome =>
    have hroom : makingRoom l.engine.keyspace = (outcome.1, .error ()) := by
      unfold makingRoom
      rw [hevict]
    refine .refuse ⟨?_, hmemory⟩ (congrArg Prod.snd hroom)
    rw [hroom]
    exact .single (.evict hevict)

/-- A write of a string under the key `k`. -/
def putting (value : String) : Event :=
  .write 0 ((writeOf value).effect 0) (Wire.encode (writeOf value))

theorem step_putting {value : String} (hvalue : (Bytes.ofString value).length < lengthBound)
    (hnone : ((writeOf value).effect 0 l.engine.keyspace).1.evictedKeys = []) :
    l.Step (some ⟨[], some (0, writeOf value)⟩) (l.after (putting value)) := by
  have huses : l.Uses ((writeOf value).effect 0 l.engine.keyspace).1 := by
    refine ⟨(writeOf value).operates_effect 0 _, ?_⟩
    rw [hnone]
    exact fun _ hmem => absurd hmem List.not_mem_nil
  have hstep := Step.write (show 0 < Bytes.u64Bound by decide) (not_selects_writeOf value)
    (fits_writeOf hvalue) huses
  rw [hnone] at hstep
  exact hstep

/-- A key is written, and evicted by a write that fails. -/
def roomMade : Leader :=
  (opened (Engine.blank tightConfig 50)).run [putting "1", .tryWrite 0 makingRoom []]

/-- A follower comes in then, and the key is written again. -/
def puttingBack : Leader := roomMade.run [.psync ⟨none, none⟩, putting "2"]

/-- The log holds the deletion of the key, and the stream does not; and the follower that came
in before the last write is sent that write only. -/
theorem log_agrees_with_stream_makingRoom :
    (opened (Engine.blank tightConfig 50)).Runs
        [⟨[], some (0, writeOf "1")⟩, ⟨[(0, Bytes.ofString "k")], none⟩] roomMade
      ∧ (roomMade.after (.psync ⟨none, none⟩)).Runs [⟨[], some (0, writeOf "2")⟩] puttingBack
      ∧ Reads 50 puttingBack.stream [(0, writeOf "1"), (0, writeOf "2")]
      ∧ (∃ sent, puttingBack.Sends 0 sent ∧ Reads 50 sent [(0, writeOf "2")])
      ∧ ∃ j, puttingBack.engine.journal = some j
        ∧ Reads 50 (j.content puttingBack.engine.disk)
          [(0, writeOf "1"), (0, [Bytes.ofString "DEL", Bytes.ofString "k"]), (0, writeOf "2")] := by
  have hput : (opened (Engine.blank tightConfig 50)).Step (some ⟨[], some (0, writeOf "1")⟩)
      ((opened (Engine.blank tightConfig 50)).after (putting "1")) :=
    step_putting (by decide) (by decide +kernel)
  have hroom : ((opened (Engine.blank tightConfig 50)).after (putting "1")).Step
      (some ⟨[(0, Bytes.ofString "k")], none⟩) roomMade :=
    step_makingRoom (by decide +kernel) (by decide)
  have hlast : (roomMade.after (.psync ⟨none, none⟩)).Step (some ⟨[], some (0, writeOf "2")⟩)
      puttingBack := step_putting (by decide) (by decide +kernel)
  have hattends : (Event.psync ⟨none, none⟩).Attends := trivial
  have hfirst := (Runs.step .nil hput).step hroom
  have hlater := Runs.step .nil hlast
  have hruns := (hfirst.step (.attend roomMade hattends)).step hlast
  obtain ⟨-, -, -, hfollowers, -⟩ := log_agrees_with_stream rfl (by decide +kernel)
    Disk.wellFormed_empty (by decide +kernel) (by decide +kernel) open?_tightConfig hfirst 50
  obtain ⟨sent, -, hsent, hsends⟩ := hfollowers ⟨none, none⟩ 0 rfl _ _ hlater
  obtain ⟨-, -, hstream, -, hlog, -⟩ := log_agrees_with_stream rfl (by decide +kernel)
    Disk.wellFormed_empty (by decide +kernel) (by decide +kernel) open?_tightConfig hruns 50
  exact ⟨hfirst, hlater, hstream, ⟨sent, hsends (by decide +kernel), hsent⟩, hlog⟩

end Leader

end DurableStore
