/-
  DurableStore.Proofs.Replication.Strays
  ────────────────────────────────
  **KEYS THAT STAY BEHIND WITH A FOLLOWER.**

  A leader under a memory ceiling evicts keys for its writes.  It logs a
  deletion of each of them, but sends none, and a follower without a ceiling
  evicts nothing itself.  So a live key that is evicted stays behind with
  the followers, unless the write puts the key back.

  A follower that took a snapshot of the leader holds what the leader
  holds, until a write drops something:

      command.Drops database ks   — a write evicts a live key other than the
                                    one that it writes
      e.Trails id s c             — session `s` comes to hold the contents
                                    `c` when it applies all that was sent
                                    under the number `id`

  What the leader holds after a write is within what the follower comes to
  hold, and it is the same exactly if the write drops nothing
  (`Trails.meet`).

  Main results:
    * `no_strays_iff_noneDrops` — when a follower never holds a key that its
      leader does not hold;
    * `evicted_stays_behind` — a write after which it does.
-/
import DurableStore.Proofs.Engine.Loading
import DurableStore.Proofs.Replication.Convergence
import DurableStore.Proofs.Replication.Slices

namespace DurableStore

open Loaded

/-! ## §1. Runs. -/

/-- Whether a write evicts a live key other than the one that it writes. -/
def Command.Drops (command : Command) (database : Nat) (ks : Keyspace) : Prop :=
  ∃ key ∈ command.victims database ks, command.writtenKey? ks.now ≠ some key
    ∧ ks.contents ks.now database key ≠ none

namespace Engine

/-- One thing that happens to a leader, while the clock is held. -/
inductive Incident where
  /-- A command is written to a database, unless it is refused. -/
  | write (database : Nat) (command : Command)
  /-- A follower comes, or comes back. -/
  | psync (request : PsyncRequest)

/-- Only commands that can be written down are written, and no `SELECT`. -/
def Incident.Proper : Incident → Prop
  | .write _ command => ¬ command.Selects ∧ Wire.Fits command
  | .psync _ => True

/-- Whether something that happens to a keyspace drops a live key. -/
def Incident.Drops (ks : Keyspace) : Incident → Prop
  | .write database command => command.Drops database ks
  | .psync _ => False

/-- The engine after something has happened to it. -/
def meet (e : Engine) : Incident → Engine
  | .write database command => (e.execute database command).1
  | .psync request => (e.psync request).1

/-- The engine after one thing after the other. -/
def meetAll (e : Engine) (incidents : List Incident) : Engine := incidents.foldl meet e

/-- Nothing that happens drops a live key. -/
def NoneDrops : Engine → List Incident → Prop
  | _, [] => True
  | e, incident :: incidents =>
    ¬ incident.Drops e.keyspace ∧ NoneDrops (e.meet incident) incidents

variable {config : Config} {now : Millis} {e : Engine} {id : FollowerId} {s : Session}
  {c : Contents}

/-! ## §2. The leader. -/

/-- A leader that can be followed. -/
structure Leads (e : Engine) (config : Config) (now : Millis) : Prop where
  held : Held config now Datum.Sound e.keyspace
  count : (emptyKeyspace config now).count < Bytes.u64Bound
  numbered : e.followers.Numbered

theorem Leads.count_lt (h : e.Leads config now) : e.keyspace.count < Bytes.u64Bound := by
  rw [h.held.count_eq]
  exact h.count

theorem Leads.sound (h : e.Leads config now) :
    (e.keyspace.contents e.keyspace.now).Each Datum.Sound := by
  rw [h.held.now_eq]
  exact h.held.each

/-- All that a write does: it is refused and nobody notices, or its record is sent. -/
theorem Leads.execute_cases (h : e.Leads config now) (database : Nat) (command : Command) :
    ∃ ks, e.keyspace.Keeps ks ∧ (e.execute database command).1.keyspace = ks
      ∧ ((e.SameStream (e.execute database command).1 ∧ ¬ command.Drops database e.keyspace
          ∧ ks.contents e.keyspace.now = e.keyspace.contents e.keyspace.now)
        ∨ (∃ e', e.SameStream e'
          ∧ e'.Sent (e.execute database command).1
            (Command.selection e.streamDatabase database ++ Wire.encode command)
          ∧ (e.execute database command).1.streamDatabase = some database
          ∧ database < e.keyspace.count
          ∧ command.meaning e.keyspace.now e.keyspace.count
              (e.keyspace.contents e.keyspace.now database) ≠ .refused
          ∧ ks.contents e.keyspace.now
              = (command.meaning e.keyspace.now e.keyspace.count
                  (e.keyspace.contents e.keyspace.now database)).on database e.keyspace.now
                    ((e.keyspace.contents e.keyspace.now).without database
                      (command.victims database e.keyspace)))) := by
  obtain ⟨ks, hkeeps, ⟨hexecute, hrefused, hcontents⟩ | ⟨hexecute, hdatabase, hmeaning, hcontents⟩⟩ :=
    execute_spec h.count_lt h.held.quiet database command
  · refine ⟨ks, hkeeps, by rw [hexecute]; rfl, .inl ⟨?_, ?_, hcontents⟩⟩
    · rw [hexecute]
      exact ⟨rfl, rfl, rfl, rfl⟩
    · -- what is refused evicts nothing, and where there is no database nothing is live
      rintro ⟨key, hvictim, -, hlive⟩
      by_cases hdatabase : database < e.keyspace.count
      · have hnone : command.victims database e.keyspace = [] :=
          Session.victims_of_refused
            (s := { Session.start e.keyspace none with selected := database }) (hrefused hdatabase)
        rw [hnone] at hvictim
        exact absurd hvictim List.not_mem_nil
      · rw [Keyspace.contents_of_le (Nat.le_of_not_lt hdatabase)] at hlive
        exact hlive rfl
  · -- evictions are logged first, which is not seen in the stream
    have hlogged := sameStream_foldl_logNotice
      (e.keyspace.told database (command.victims database e.keyspace)) (e.withKeyspace ks)
    have hwith : e.SameStream (e.withKeyspace ks) := ⟨rfl, rfl, rfl, rfl⟩
    have hsame := hwith.trans hlogged
    obtain ⟨hsent, hafter⟩ := sent_propagate
      ((e.keyspace.told database (command.victims database e.keyspace)).foldl logNotice
        (e.withKeyspace ks)) database (Wire.encode command)
    rw [hsame.streamDatabase, ← hexecute] at hsent
    rw [← hexecute] at hafter
    refine ⟨ks, hkeeps, ?_, .inr ⟨_, hsame, hsent, hafter, hdatabase, hmeaning, hcontents⟩⟩
    rw [hsent.keyspace, keyspace_foldl_logNotice]
    rfl

theorem Leads.meet (h : e.Leads config now) {incident : Incident} (hproper : incident.Proper) :
    (e.meet incident).Leads config now := by
  cases incident with
  | write database command =>
    refine ⟨h.held.execute h.count Datum.lasting_sound database hproper.2, h.count, ?_⟩
    obtain ⟨ks, -, -, ⟨hsame, -⟩ | ⟨e', hsame, hsent, -⟩⟩ := h.execute_cases database command
    · show (e.execute database command).1.followers.Numbered
      rw [hsame.followers]
      exact h.numbered
    · exact hsent.numbered (hsame.followers ▸ h.numbered)
  | psync request => exact ⟨h.held, h.count, h.numbered.register⟩

theorem Leads.meetAll (h : e.Leads config now) {incidents : List Incident}
    (hproper : ∀ incident ∈ incidents, incident.Proper) :
    (e.meetAll incidents).Leads config now := by
  induction incidents generalizing e with
  | nil => exact h
  | cons incident incidents ih =>
    obtain ⟨hfirst, hrest⟩ := List.forall_mem_cons.1 hproper
    exact ih (h.meet hfirst) hrest

/-! ## §3. A follower. -/

/-- A session comes to hold some contents when it applies all that was sent under a
number. -/
def Trails (e : Engine) (id : FollowerId) (s : Session) (c : Contents) : Prop :=
  ∃ bytes, e.followers.Reaches id bytes
    ∧ s.Yields bytes e.keyspace.now e.keyspace.count c e.streamDatabase

/-- A follower holds no key that its leader does not hold, once it has applied all that waits
for it. -/
def NoStrays (e : Engine) (id : FollowerId) (s : Session) : Prop :=
  ∃ messages ks, (e.followers.drain id).1 = some messages
    ∧ (Wire.decodeAll messages.flatten).rest = [] ∧ (Wire.decodeAll messages.flatten).fault = none
    ∧ (s.applyAll (Wire.decodeAll messages.flatten).commands).1.keyspace = ks
    ∧ ∀ i key, ks.contents ks.now i key ≠ none → e.keyspace.contents e.keyspace.now i key ≠ none

/-- **What happens to a leader is followed**: the follower comes to hold what the leader holds,
and besides what was dropped. -/
theorem Trails.meet (h : e.Trails id s (e.keyspace.contents e.keyspace.now))
    (hleads : e.Leads config now) {incident : Incident} (hproper : incident.Proper) :
    ∃ c, (e.meet incident).Trails id s c
      ∧ ((e.meet incident).keyspace.contents (e.meet incident).keyspace.now).Within c
      ∧ (c = (e.meet incident).keyspace.contents (e.meet incident).keyspace.now
        ↔ ¬ incident.Drops e.keyspace) := by
  obtain ⟨bytes, hreaches, hyields⟩ := h
  cases incident with
  | psync request =>
    exact ⟨_, ⟨bytes, hreaches.register, hyields.forget⟩, Contents.within_refl _,
      iff_of_true rfl fun hdrops => hdrops⟩
  | write database command =>
    obtain ⟨ks, hkeeps, hkeyspace, hcases⟩ := hleads.execute_cases database command
    show ∃ c, (e.execute database command).1.Trails id s c
      ∧ ((e.execute database command).1.keyspace.contents
          (e.execute database command).1.keyspace.now).Within c
      ∧ (c = (e.execute database command).1.keyspace.contents
          (e.execute database command).1.keyspace.now ↔ ¬ command.Drops database e.keyspace)
    unfold Trails
    rw [hkeyspace, hkeeps.now, hkeeps.count]
    rcases hcases with ⟨hsame, hdrops, hcontents⟩
      | ⟨e', hsame, hsent, hstream, hdatabase, hmeaning, hcontents⟩
    · -- nothing is sent for a write that is refused
      rw [hsame.followers, hsame.streamDatabase, hcontents]
      exact ⟨_, ⟨bytes, hreaches, hyields⟩, Contents.within_refl _, iff_of_true rfl hdrops⟩
    · -- the follower applies it to what the leader holds, what was evicted for it included
      rw [hstream, hcontents]
      refine ⟨_, ⟨_, hsent.reaches (hsame.followers ▸ hreaches),
        hyields.record hdatabase hproper.1 hproper.2 hmeaning⟩,
        (Contents.within_without _ _ _).on _ _ _, ?_⟩
      exact Session.effect_eq_iff { Session.start e.keyspace none with selected := database } command
        e.keyspace.count rfl

/-- A follower holds no stray key exactly if it comes to hold what the leader holds. -/
theorem Trails.noStrays_iff (h : e.Trails id s c)
    (hwithin : (e.keyspace.contents e.keyspace.now).Within c) :
    e.NoStrays id s ↔ c = e.keyspace.contents e.keyspace.now := by
  obtain ⟨bytes, hreaches, hyields⟩ := h
  obtain ⟨⟨messages, hdrain, rfl⟩, -⟩ := hreaches.drain
  obtain ⟨hrest, hfault, hstands⟩ := hyields.decodeAll
  have hcontents := hstands.contents_eq
  rw [← hstands.now_eq] at hcontents
  rw [← hwithin.keys_iff]
  constructor
  · rintro ⟨messages', ks, hdrain', -, -, rfl, hkeys⟩
    rw [hdrain] at hdrain'
    cases hdrain'
    rw [hcontents] at hkeys
    exact hkeys
  · intro hkeys
    refine ⟨messages, _, hdrain, hrest, hfault, rfl, ?_⟩
    rw [hcontents]
    exact hkeys

/-- **A whole run** leaves no stray key at any point exactly if nothing is dropped, by
induction on the run. -/
theorem Trails.run_iff {incidents : List Incident}
    (h : e.Trails id s (e.keyspace.contents e.keyspace.now)) (hleads : e.Leads config now)
    (hproper : ∀ incident ∈ incidents, incident.Proper) :
    (∀ n, (e.meetAll (incidents.take n)).NoStrays id s) ↔ e.NoneDrops incidents := by
  have hstart : e.NoStrays id s := (h.noStrays_iff (Contents.within_refl _)).2 rfl
  induction incidents generalizing e with
  | nil =>
    refine iff_of_true (fun n => ?_) trivial
    rw [List.take_nil]
    exact hstart
  | cons incident incidents ih =>
    obtain ⟨hfirst, hrest⟩ := List.forall_mem_cons.1 hproper
    obtain ⟨c, hafter, hwithin, hiff⟩ := h.meet hleads hfirst
    have hone := hafter.noStrays_iff hwithin
    constructor
    · intro hall
      have hsame := hone.1 (hall 1)
      rw [hsame] at hafter
      exact ⟨hiff.1 hsame, (ih hafter (hleads.meet hfirst) hrest (hone.2 hsame)).1
        fun n => hall (n + 1)⟩
    · rintro ⟨hdrops, hlater⟩ n
      have hsame := hiff.2 hdrops
      rw [hsame] at hafter
      cases n with
      | zero => exact hstart
      | succ n => exact (ih hafter (hleads.meet hfirst) hrest (hone.2 hsame)).2 hlater n

/-- A follower that has just taken the snapshot of a leader. -/
theorem Leads.accepts (h : e.Leads config now) {request : PsyncRequest}
    (hrestart : e.missed? request = none) (hbounded : e.keyspace.snapshot.Bounded) :
    ∃ r, (Replica.new e.keyspace.count e.keyspace.now).accept (e.psync request).2.1
        (e.psync request).2.2 = .ok r
      ∧ (e.psync request).1.Trails (e.psync request).2.1 r.session
        (e.keyspace.contents e.keyspace.now) := by
  have hpos : 0 < e.keyspace.count := by
    rw [h.held.count_eq]
    exact emptyKeyspace_pos config now
  obtain ⟨s, haccept, -, hstands⟩ :=
    Replica.restart_spec (Replica.stands_new hpos h.count_lt e.keyspace.now) h.sound hbounded
      e.followers.nextId e.backlog.offset
  have hanswer : (e.psync request).2.2 = .restart e.history e.backlog.offset e.encodeSnapshot := by
    show e.outcome request = _
    unfold outcome
    rw [hrestart]
  rw [hanswer]
  exact ⟨_, haccept, [], h.numbered.reaches_register, .nil hstands⟩

end Engine

/-! ## §4. Opening a leader. -/

open Engine

/-- **When no evicted key stays behind.**  An engine is opened on any disk, under any ceiling
and any policy, and goes through writes and registrations.  A follower without a ceiling
comes, is answered with a snapshot and can take it.  At every point after that it holds, once
it has applied all that it was sent, no live key that the leader does not hold — if and only
if no write of that time evicts a live key other than the one that it writes. -/
theorem no_strays_iff_noneDrops {config : Config} {now : Millis}
    (hcount : (emptyKeyspace config now).count < Bytes.u64Bound) {d : Disk} {history : String}
    {e : Engine} (hopen : Engine.open? config d now history none = .ok e)
    (hmemory : ∀ keys, e.load.source = .snapshot keys →
      (e.keyspace.contents now).Each Datum.InMemory)
    {before later : List Incident} (hbefore : ∀ incident ∈ before, incident.Proper)
    (hlater : ∀ incident ∈ later, incident.Proper) {l : Engine} (hl : e.meetAll before = l)
    {request : PsyncRequest} (hrestart : l.missed? request = none)
    (hbounded : l.keyspace.snapshot.Bounded) :
    ∃ r, (Replica.new l.keyspace.count l.keyspace.now).accept (l.psync request).2.1
        (l.psync request).2.2 = .ok r
      ∧ ((∀ n, ((l.psync request).1.meetAll (later.take n)).NoStrays (l.psync request).2.1 r.session)
        ↔ (l.psync request).1.NoneDrops later) := by
  obtain ⟨-, -, -, -, -, hfollowers, -⟩ := opened_of_open? hopen
  have hnumbered : e.followers.Numbered := by
    rw [hfollowers]
    exact fun channel hmem => absurd hmem List.not_mem_nil
  have hopened : e.Leads config now := ⟨held_of_open? hopen hmemory, hcount, hnumbered⟩
  have hleads : l.Leads config now := hl ▸ hopened.meetAll hbefore
  obtain ⟨r, haccept, htrails⟩ := hleads.accepts hrestart hbounded
  have hafter : (l.psync request).1.Leads config now := 
    hleads.meet (show (Incident.psync request).Proper from trivial)
  exact ⟨r, haccept, htrails.run_iff hafter hlater⟩

/-- A key is written once, and another one so often that the last write looks at the memory. -/
def crowdingOut : List Incident :=
  .write 0 [Bytes.ofString "SET", Bytes.ofString "a", Bytes.ofString "v"]
    :: List.replicate 49 (.write 0 (writeOf "v"))

theorem proper_crowdingOut : ∀ incident ∈ crowdingOut, incident.Proper := by
  refine List.forall_mem_cons.2 ⟨⟨by decide +kernel, ?_⟩, ?_⟩
  · exact Wire.fits_of_short (by decide) (by decide) (by decide)
  · intro incident hmem
    rw [List.eq_of_mem_replicate hmem]
    exact ⟨not_selects_writeOf "v", fits_writeOf (by decide)⟩

/-- A follower that comes before that run. -/
theorem no_strays_iff_noneDrops_crowdingOut :
    ∃ r, (Replica.new 1 50).accept ((Engine.blank tightConfig 50).psync ⟨none, none⟩).2.1
        ((Engine.blank tightConfig 50).psync ⟨none, none⟩).2.2 = .ok r
      ∧ ((∀ n, (((Engine.blank tightConfig 50).psync ⟨none, none⟩).1.meetAll
            (crowdingOut.take n)).NoStrays 0 r.session)
        ↔ ((Engine.blank tightConfig 50).psync ⟨none, none⟩).1.NoneDrops crowdingOut) := by
  have hbounded : (Engine.blank tightConfig 50).keyspace.snapshot.Bounded := by
    have hone : (Engine.blank tightConfig 50).keyspace.snapshot.databases = [[]] := by
      decide +kernel
    rw [show (Engine.blank tightConfig 50).keyspace.snapshot = ⟨50, [[]]⟩ from
      congrArg (Snapshot.mk 50) hone]
    exact ⟨by decide, by decide, by decide⟩
  exact no_strays_iff_noneDrops (by decide +kernel) open?_tightConfig
    (fun _ hsource => nomatch hsource) (fun _ hmem => absurd hmem List.not_mem_nil)
    proper_crowdingOut rfl rfl hbounded

/-- The leader after that run, with a follower from the beginning. -/
def crowdedLeader : Engine :=
  ((Engine.blank tightConfig 50).psync ⟨none, none⟩).1.meetAll crowdingOut

/-- **The last write evicts both keys and puts one of them back.**  The other one stays
behind with the follower. -/
theorem evicted_stays_behind :
    Engine.open? tightConfig Disk.empty 50 "" none = .ok (Engine.blank tightConfig 50)
      ∧ (Replica.new 1 50).accept ((Engine.blank tightConfig 50).psync ⟨none, none⟩).2.1
          ((Engine.blank tightConfig 50).psync ⟨none, none⟩).2.2 = .ok newFollower
      ∧ crowdedLeader.keyspace.dataset
        = [[(Bytes.ofString "k", .string (Bytes.ofString "v"), none)]]
      ∧ (crowdedLeader.followers.drain 0).1.map (fun messages =>
          (newFollower.session.applyAll
            (Wire.decodeAll messages.flatten).commands).1.keyspace.dataset)
        = some [[(Bytes.ofString "a", .string (Bytes.ofString "v"), none),
            (Bytes.ofString "k", .string (Bytes.ofString "v"), none)]] := by
  refine ⟨rfl, rfl, ?_, ?_⟩
  · decide +kernel
  · decide +kernel

end DurableStore
