/-
  DurableStore.Proofs.Engine.EvictionLog
  ────────────────────────────────
  **WHAT THE LOG KNOWS OF EVICTIONS.**

  Under a memory ceiling a write may evict keys before it takes effect.
  The log gets a deletion for each of them and then the command.  The
  command found its key before the eviction; whoever replays the log finds
  it after the deletions.  That makes a difference for one kind of command
  only, a `SET` whose own eviction took the key that it is about to write:

      with XX        — the engine writes, and the replay does not
      with KEEPTTL   — the engine keeps the deadline, and the replay has
                       none to keep

  Such a command MISLEADS a replay (`Command.Misleads`).

  Main results:
    * `Traced.step` — one write is recorded with its evictions, and what is
      recorded agrees with the engine exactly if the write does not mislead;
    * `replay_agrees_iff_noneMisleads` — the log accounts for every eviction
      of a run exactly if no write of the run misleads.
-/
import DurableStore.Proofs.Engine.Records
import DurableStore.Proofs.Engine.Writes
import DurableStore.Proofs.Keyspace.StoredKeys

namespace DurableStore

open Loaded

/-! ## §1. Misleading writes. -/

namespace Command

/-- Whether a `SET` that found a datum writes something else where it finds
nothing: with `XX` it writes nothing there, and with `KEEPTTL` it keeps no
deadline. -/
def SetRequest.Depends (request : SetRequest) (now : Millis) (d : Datum) : Prop :=
  if request.ifPresent then (request.datum (some d)).isLive now = true
  else request.keepDeadline = true ∧ d.expiresAt ≠ request.expiresAt

/-- Whether a write evicts the key that it is about to write, and depends on
what was there. -/
def Misleads (command : Command) (database : Nat) (ks : Keyspace) : Prop :=
  ∃ request, command.action ks.now = .ok (.set request)
    ∧ request.key ∈ command.victims database ks
    ∧ ∃ d, ks.contents ks.now database request.key = some d ∧ request.Depends ks.now d

/-- **What a `SET` writes over a live datum and what it writes where there is
nothing** is the same exactly if it does not depend on what was there. -/
theorem SetRequest.filter_datum_iff (request : SetRequest) {now : Millis} {d : Datum}
    (hlive : d.isLive now = true) :
    (some (request.datum (some d))).filter (Datum.isLive now)
        = (if request.ifPresent then none
          else (some (⟨.string request.value, request.expiresAt⟩ : Datum)).filter (Datum.isLive now))
      ↔ ¬ request.Depends now d := by
  unfold Depends
  cases request.ifPresent with
  | true =>
    rw [if_pos rfl, if_pos rfl, Option.filter_some]
    cases (request.datum (some d)).isLive now with
    | true => exact iff_of_false (fun h => nomatch h) (fun h => h rfl)
    | false => exact iff_of_true rfl (fun h => nomatch h)
  | false =>
    rw [if_neg (by decide), if_neg (by decide)]
    unfold SetRequest.datum
    cases request.keepDeadline with
    | false => exact iff_of_true rfl (fun h => nomatch h.1)
    | true =>
      -- the deadline that is kept belongs to a live datum, so the value is written
      have hkept : (some (⟨.string request.value, d.expiresAt⟩ : Datum)).filter (Datum.isLive now)
          = some ⟨.string request.value, d.expiresAt⟩ := by
        rw [Option.filter_some]
        exact if_pos hlive
      dsimp only
      rw [hkept]
      constructor
      · rintro heq ⟨-, hne⟩
        have hsame := Option.some.inj (Option.filter_eq_some_iff.1 heq.symm).1
        exact hne (congrArg Datum.expiresAt hsame).symm
      · intro hsame
        have hdeadline : d.expiresAt = request.expiresAt := by
          by_contra hne
          exact hsame ⟨rfl, hne⟩
        rw [← hdeadline, hkept]

/-- **A `SET` that is repeated on what its eviction left** does the same exactly
if its key was not evicted, or it does not depend on what was there. -/
theorem set_without_iff {c : Contents} {i count : Nat} {now : Millis} {keys : List Bytes}
    {request : SetRequest} (hlive : ∀ d, c i request.key = some d → d.isLive now = true)
    (happlies : request.appliesTo (c i request.key) = true) :
    ((Action.set request).effect count (c i)).on i now (c.without i keys)
        = ((Action.set request).effect count (c.without i keys i)).on i now (c.without i keys)
      ↔ ¬ (request.key ∈ keys ∧ ∃ d, c i request.key = some d ∧ request.Depends now d) := by
  have hwrites : ((Action.set request).effect count (c i)).on i now (c.without i keys)
      = (c.without i keys).assign i request.key
          ((some (request.datum (c i request.key))).filter (Datum.isLive now)) := by
    show ((if request.appliesTo (c i request.key) then Effect.assign request.key
      (some (request.datum (c i request.key))) else .nothing)).on i now (c.without i keys) = _
    rw [if_pos happlies]
    rfl
  -- what was evicted besides the key does not matter
  by_cases hmem : request.key ∈ keys
  · have hgone : c.without i keys i request.key = none := by
      rw [Contents.without_apply, if_pos ⟨rfl, hmem⟩]
    cases hfound : c i request.key with
    | none =>
      rw [set_on_of_absent hgone hfound, set_on_of_absent hgone hgone]
      refine iff_of_true rfl ?_
      rintro ⟨-, d, hsome, -⟩
      cases hsome
    | some d =>
      rw [hwrites, set_on_of_absent hgone hgone, Contents.assign_eq_iff, hfound,
        request.filter_datum_iff (hlive d hfound)]
      refine not_congr ⟨fun hdepends => ⟨hmem, d, rfl, hdepends⟩, ?_⟩
      rintro ⟨-, d', hsome, hdepends⟩
      cases hsome
      exact hdepends
  · have hkept : c.without i keys i request.key = c i request.key := by
      rw [Contents.without_apply, if_neg fun hand => hmem hand.2]
    refine iff_of_true ?_ fun hand => hmem hand.1
    dsimp only [Action.effect]
    rw [hkept]

end Command

/-! ## §2. One command. -/

namespace Session

open Command

/-- **A command that is repeated on what its eviction left** does the same
exactly if it does not mislead. -/
theorem effect_without_iff (s : Session) (action : Action) (count : Nat) {c left : Contents}
    (hc : c = s.keyspace.contents s.keyspace.now)
    (hleft : left = c.without s.selected (s.victimsFor action)) :
    (action.effect count (c s.selected)).on s.selected s.keyspace.now left
        = (action.effect count (left s.selected)).on s.selected s.keyspace.now left
      ↔ ¬ ∃ request, action = .set request ∧ request.key ∈ s.victimsFor action
          ∧ ∃ d, c s.selected request.key = some d ∧ request.Depends s.keyspace.now d := by
  by_cases hnone : s.victimsFor action = []
  · -- nothing was evicted
    rw [hnone] at hleft ⊢
    rw [hleft]
    refine iff_of_true rfl ?_
    rintro ⟨request, -, hmem, -⟩
    exact absurd hmem List.not_mem_nil
  rcases of_victimsFor hnone with ⟨request, rfl, happlies⟩ | ⟨key, kind, edit, rfl, habsent⟩
  · -- a `SET` may depend on the datum that its own eviction took
    rw [← hc] at happlies
    have hlive : ∀ d, c s.selected request.key = some d → d.isLive s.keyspace.now = true := by
      intro d hfound
      rw [hc] at hfound
      exact Keyspace.contents_isLive hfound
    rw [hleft, Command.set_without_iff hlive happlies]
    refine not_congr ⟨fun h => ⟨request, rfl, h⟩, ?_⟩
    rintro ⟨request', hsame, h⟩
    cases hsame
    exact h
  · -- the key of a new collection was absent, and is so after the eviction
    have hgone : left s.selected key = c s.selected key := by
      rw [hleft, Contents.without_apply, hc, habsent]
      exact ite_self _
    refine iff_of_true ?_ ?_
    · dsimp only [Action.effect]
      rw [hgone]
    · rintro ⟨request, hsame, -⟩
      cases hsame

/-- A command that is not refused is not refused when it is repeated. -/
theorem effect_without_ne_refused (s : Session) (action : Action) {count : Nat} {c left : Contents}
    (hc : c = s.keyspace.contents s.keyspace.now)
    (hleft : left = c.without s.selected (s.victimsFor action))
    (h : action.effect count (c s.selected) ≠ .refused) :
    action.effect count (left s.selected) ≠ .refused := by
  by_cases hnone : s.victimsFor action = []
  · rw [hnone] at hleft
    rw [hleft]
    exact h
  rcases of_victimsFor hnone with ⟨request, rfl, -⟩ | ⟨key, kind, edit, rfl, habsent⟩
  · dsimp only [Action.effect]
    split <;> exact fun heq => nomatch heq
  · have hgone : left s.selected key = none := by
      rw [hleft, Contents.without_apply, hc, habsent]
      exact ite_self _
    dsimp only [Action.effect]
    rw [hgone]
    exact fun heq => nomatch heq

end Session

namespace Command

theorem meaning_without_ne_refused (command : Command) (database : Nat) (ks : Keyspace)
    (h : command.meaning ks.now ks.count (ks.contents ks.now database) ≠ .refused) :
    command.meaning ks.now ks.count
      ((ks.contents ks.now).without database (command.victims database ks) database)
        ≠ .refused := by
  unfold meaning at h ⊢
  cases haction : command.action ks.now with
  | error error =>
    rw [haction] at h
    exact h
  | ok action =>
    have hvictims : command.victims database ks
        = ({ Session.start ks none with selected := database } : Session).victimsFor action :=
      Session.victims_of_action haction
    rw [haction] at h
    rw [hvictims]
    exact Session.effect_without_ne_refused
      { Session.start ks none with selected := database } action rfl rfl h

/-- **A command that is repeated on what its eviction left** does the same
exactly if it does not mislead. -/
theorem meaning_without_iff (command : Command) (database : Nat) (ks : Keyspace) :
    (command.meaning ks.now ks.count (ks.contents ks.now database)).on database ks.now
          ((ks.contents ks.now).without database (command.victims database ks))
        = (command.meaning ks.now ks.count
            ((ks.contents ks.now).without database (command.victims database ks) database)).on
              database ks.now
              ((ks.contents ks.now).without database (command.victims database ks))
      ↔ ¬ command.Misleads database ks := by
  unfold Misleads meaning
  cases haction : command.action ks.now with
  | error error =>
    refine iff_of_true rfl ?_
    rintro ⟨request, hread, -⟩
    cases hread
  | ok action =>
    have hvictims : command.victims database ks
        = ({ Session.start ks none with selected := database } : Session).victimsFor action :=
      Session.victims_of_action haction
    have hiff := Session.effect_without_iff
      { Session.start ks none with selected := database } action ks.count rfl rfl
    rw [← hvictims] at hiff
    refine hiff.trans (not_congr (exists_congr fun request => and_congr_left fun _ => ?_))
    exact ⟨congrArg Except.ok, Except.ok.inj⟩

/-- A write that misleads takes effect. -/
theorem Misleads.not_refused {command : Command} {database : Nat} {ks : Keyspace}
    (h : command.Misleads database ks) :
    database < ks.count
      ∧ command.meaning ks.now ks.count (ks.contents ks.now database) ≠ .refused := by
  obtain ⟨request, haction, -, d, hfound, -⟩ := h
  refine ⟨?_, ?_⟩
  · by_contra hle
    rw [Keyspace.contents_of_le (Nat.le_of_not_lt hle)] at hfound
    cases hfound
  · unfold meaning
    rw [haction]
    dsimp only [Action.effect]
    split <;> exact fun heq => nomatch heq

end Command

/-! ## §3. Logs. -/

namespace Engine

/-- The log of an engine records some contents, for a replay that evicts
nothing. -/
def Recorded (e : Engine) (config : Config) (now : Millis) (c : Contents) : Prop :=
  ∃ j content, e.journal = some j ∧ j.Carries e.disk content
    ∧ Records config.unlimited now content c j.selected

/-- What an engine is between two writes. -/
structure Traced (e : Engine) (config : Config) (now : Millis) : Prop where
  now_eq : e.keyspace.now = now
  count_eq : e.keyspace.count = (emptyKeyspace config.unlimited now).count
  bound : (emptyKeyspace config.unlimited now).count < Bytes.u64Bound
  quiet : e.keyspace.Quiet
  listening : e.keyspace.listening = true
  keysFit : e.keyspace.KeysFit

variable {config : Config} {now : Millis} {e : Engine} {c : Contents} {database : Nat}

/-- The deletion of an evicted key is recorded. -/
theorem Recorded.evict (h : e.Recorded config now c)
    (hdatabase : database < (emptyKeyspace config.unlimited now).count) {key : Bytes}
    (hkey : key.length < lengthBound) :
    (e.appendLog database (Wire.encode (evictionCommand key))).Recorded config now
      (c.assign database key none) := by
  obtain ⟨j, content, hjournal, hcarries, hrecords⟩ := h
  have hwrote := Journal.wrote_append hcarries database (Wire.encode (evictionCommand key))
  rw [appendLog_eq hjournal]
  refine ⟨_, _, rfl, hwrote.carries, ?_⟩
  rw [hwrote.selected]
  exact hrecords.evict hdatabase hkey

/-- **The evictions of a write are recorded**, one after the other. -/
theorem Recorded.logEvictions (h : e.Recorded config now c)
    (hdatabase : database < (emptyKeyspace config.unlimited now).count) {keys : List Bytes}
    (hkeys : ∀ key ∈ keys, key.length < lengthBound) :
    (e.logEvictions database keys).Recorded config now (c.without database keys) := by
  induction keys generalizing e c with
  | nil => exact h
  | cons key keys ih =>
    obtain ⟨hkey, hrest⟩ := List.forall_mem_cons.1 hkeys
    exact ih (h.evict hdatabase hkey) hrest

/-- **A command that is propagated is recorded**, with the effect that it has on
what was recorded before. -/
theorem Recorded.propagate (h : e.Recorded config now c)
    (hdatabase : database < (emptyKeyspace config.unlimited now).count) {command : Command}
    (hselect : ¬ command.Selects) (hfits : Wire.Fits command)
    (hmeaning : command.meaning now (emptyKeyspace config.unlimited now).count (c database)
      ≠ .refused) :
    (e.propagate database (Wire.encode command)).Recorded config now
      ((command.meaning now (emptyKeyspace config.unlimited now).count (c database)).on database
        now c) := by
  obtain ⟨j, content, hjournal, hcarries, hrecords⟩ := h
  have hwrote := Journal.wrote_append hcarries database (Wire.encode command)
  obtain ⟨-, -, hdisk, happended⟩ := propagate_log hjournal database (Wire.encode command)
  refine ⟨_, _, happended, hdisk ▸ hwrote.carries, ?_⟩
  rw [hwrote.selected]
  exact hrecords.record hdatabase hselect hfits hmeaning

/-! ## §4. Runs of writes. -/

/-- Writes commands one after the other, each to its database. -/
def executeAll (e : Engine) (writes : List (Nat × Command)) : Engine :=
  writes.foldl (fun e w => (e.execute w.1 w.2).1) e

/-- No write of a run misleads a replay. -/
def NoneMisleads : Engine → List (Nat × Command) → Prop
  | _, [] => True
  | e, w :: writes =>
    ¬ w.2.Misleads w.1 e.keyspace ∧ NoneMisleads (e.execute w.1 w.2).1 writes

theorem Traced.bound' (h : e.Traced config now) : e.keyspace.count < Bytes.u64Bound := by
  rw [h.count_eq]
  exact h.bound

/-- A write leaves the keyspace as it has to be between two writes. -/
theorem Traced.execute (h : e.Traced config now) (database : Nat) {command : Command}
    (hfits : Wire.Fits command) {ks : Keyspace} (hkeeps : e.keyspace.Keeps ks)
    (hkeyspace : (e.execute database command).1.keyspace = ks) :
    (e.execute database command).1.Traced config now where
  now_eq := by
    rw [hkeyspace]
    exact hkeeps.now.trans h.now_eq
  count_eq := by
    rw [hkeyspace]
    exact hkeeps.count.trans h.count_eq
  bound := h.bound
  quiet := by
    rw [hkeyspace]
    exact hkeeps.quiet h.quiet
  listening := by
    rw [hkeyspace]
    exact hkeeps.listening.trans h.listening
  keysFit := by
    rw [keyspace_execute]
    exact (h.keysFit.effect h.bound' database hfits).congr rfl

/-- **One write**: what is recorded after it agrees with the engine exactly if
the write does not mislead. -/
theorem Traced.step (h : e.Traced config now)
    (hrecorded : e.Recorded config now (e.keyspace.contents now)) (database : Nat)
    {command : Command} (hselect : ¬ command.Selects) (hfits : Wire.Fits command) :
    (e.execute database command).1.Traced config now
      ∧ ∃ c, (e.execute database command).1.Recorded config now c
        ∧ (c = (e.execute database command).1.keyspace.contents now
          ↔ ¬ command.Misleads database e.keyspace) := by
  obtain ⟨ks, hkeeps, hcases⟩ := execute_spec h.bound' h.quiet database command
  rcases hcases with ⟨hexecute, hrefused, hcontents⟩ | ⟨hexecute, hdatabase, hmeaning, hcontents⟩
  · -- a command that is refused evicts nothing, and is not recorded
    refine ⟨h.execute database hfits hkeeps (by rw [hexecute]; rfl), e.keyspace.contents now, ?_, ?_⟩
    · rw [hexecute]
      exact hrecorded
    · rw [hexecute, ← h.now_eq]
      refine iff_of_true hcontents.symm fun hmisleads => ?_
      obtain ⟨hdatabase, hmeaning⟩ := hmisleads.not_refused
      exact hmeaning (hrefused hdatabase)
  · -- the evictions are recorded first, and then the command on what they left
    have hkeyspace : (e.execute database command).1.keyspace = ks := by
      rw [hexecute, keyspace_propagate, keyspace_foldl_logNotice]
      rfl
    have hvictims : ∀ key ∈ command.victims database e.keyspace, key.length < lengthBound :=
      Session.victims_fit (s := { Session.start e.keyspace none with selected := database })
        h.keysFit command
    have hiff := command.meaning_without_iff database e.keyspace
    have hrepeated := command.meaning_without_ne_refused database e.keyspace hmeaning
    have hwith : (e.withKeyspace ks).Recorded config now (e.keyspace.contents now) := hrecorded
    rw [h.now_eq, h.count_eq] at hrepeated hiff hcontents
    rw [h.count_eq] at hdatabase
    have hpropagated :=
      (hwith.logEvictions hdatabase hvictims).propagate hdatabase hselect hfits hrepeated
    rw [← foldl_told _ h.listening, ← hexecute] at hpropagated
    refine ⟨h.execute database hfits hkeeps hkeyspace, _, hpropagated, ?_⟩
    rw [hkeyspace, hcontents, eq_comm]
    exact hiff

/-- What a log replays to is the dataset exactly if the contents were recorded. -/
theorem Traced.agrees_iff (h : e.Traced config now) (hrecorded : e.Recorded config now c) :
    (∃ j, e.journal = some j
        ∧ (replayed config.unlimited now none (j.content e.disk)).keyspace.dataset
          = e.keyspace.dataset) ↔ c = e.keyspace.contents now := by
  obtain ⟨j, content, hjournal, hcarries, hrecords⟩ := hrecorded
  have hdataset := hrecords.dataset_eq_iff none h.now_eq h.count_eq
  rw [← Journal.content_eq hcarries] at hdataset
  constructor
  · rintro ⟨j', hsome, hsame⟩
    rw [hjournal] at hsome
    cases hsome
    exact hdataset.1 hsame
  · exact fun hc => ⟨j, hjournal, hdataset.2 hc⟩

/-- **The log accounts for the evictions of a run exactly if no write of it
misleads**, by induction on the run. -/
theorem Traced.run_agrees_iff {writes : List (Nat × Command)} (h : e.Traced config now)
    (hrecorded : e.Recorded config now (e.keyspace.contents now))
    (hselect : ∀ w ∈ writes, ¬ w.2.Selects) (hfits : ∀ w ∈ writes, Wire.Fits w.2) :
    (∀ n, ∃ j, (e.executeAll (writes.take n)).journal = some j
        ∧ (replayed config.unlimited now none
            (j.content (e.executeAll (writes.take n)).disk)).keyspace.dataset
          = (e.executeAll (writes.take n)).keyspace.dataset)
      ↔ e.NoneMisleads writes := by
  induction writes generalizing e with
  | nil =>
    refine iff_of_true (fun n => ?_) trivial
    rw [List.take_nil]
    exact (h.agrees_iff hrecorded).2 rfl
  | cons w writes ih =>
    obtain ⟨hselect₁, hselect₂⟩ := List.forall_mem_cons.1 hselect
    obtain ⟨hfits₁, hfits₂⟩ := List.forall_mem_cons.1 hfits
    obtain ⟨htraced, c, hafter, hiff⟩ := h.step hrecorded w.1 hselect₁ hfits₁
    constructor
    · intro hall
      have hone : c = (e.execute w.1 w.2).1.keyspace.contents now :=
        (htraced.agrees_iff hafter).1 (hall 1)
      rw [hone] at hafter
      exact ⟨hiff.1 hone, (ih htraced hafter hselect₂ hfits₂).1 fun n => hall (n + 1)⟩
    · rintro ⟨hfirst, hrest⟩ n
      rw [hiff.2 hfirst] at hafter
      cases n with
      | zero => exact (h.agrees_iff hrecorded).2 rfl
      | succ n => exact (ih htraced hafter hselect₂ hfits₂).2 hrest n

/-- An engine that is opened where there is nothing is between two writes, and
its log records that there is nothing. -/
theorem traced_of_nothing (hbound : (emptyKeyspace config now).count < Bytes.u64Bound)
    (h : e.Fresh config (emptyKeyspace config now) []) :
    e.Traced config now ∧ e.Recorded config now (e.keyspace.contents now) := by
  obtain ⟨⟨j, hjournal, -, hselected, -, hcarries⟩, hkeyspace, -⟩ := h
  have hregular : (emptyKeyspace config.unlimited now).Regular := ⟨rfl, hbound⟩
  refine ⟨⟨?_, ?_, hbound, ?_, ?_, ?_⟩, j, [], hjournal, hcarries, ?_⟩
  · rw [hkeyspace]
    rfl
  · rw [hkeyspace]
    rfl
  · rw [hkeyspace]
    rfl
  · rw [hkeyspace]
    rfl
  · intro db hdb
    rw [hkeyspace] at hdb
    rw [List.eq_of_mem_replicate hdb]
    exact Database.keysFit_empty
  · have hcontents : e.keyspace.contents now = Contents.none := by
      rw [hkeyspace]
      exact contents_emptyKeyspace config now now
    rw [hselected, hcontents]
    exact .nil hregular

end Engine

open Engine

/-- **When the log accounts for every eviction.**  An engine that keeps a log is
opened where there is nothing, under any ceiling and any policy, and goes
through a run of writes.  At every point of the run the log, replayed into
an empty keyspace without a ceiling, gives the dataset of the engine — if
and only if no write of the run evicts the key that it is about to write
and depends on what was there. -/
theorem replay_agrees_iff_noneMisleads {config : Config} {now : Millis}
    (happend : config.appendOnly = true)
    (hcount : (emptyKeyspace config now).count < Bytes.u64Bound) {d : Disk} (hwf : d.WellFormed)
    (hlog : d.exists? (logPath config) = false)
    (hsnapshot : d.read (snapshotPath config) = .ok none) {history : String}
    {fallback : Option Fallback} {e : Engine}
    (hopen : Engine.open? config d now history fallback = .ok e) {writes : List (Nat × Command)}
    (hselect : ∀ w ∈ writes, ¬ w.2.Selects) (hfits : ∀ w ∈ writes, Wire.Fits w.2) :
    (∀ n, ∃ j, (e.executeAll (writes.take n)).journal = some j
        ∧ (replayed config.unlimited now none
            (j.content (e.executeAll (writes.take n)).disk)).keyspace.dataset
          = (e.executeAll (writes.take n)).keyspace.dataset)
      ↔ e.NoneMisleads writes := by
  obtain ⟨htraced, hrecorded⟩ :=
    traced_of_nothing hcount (Engine.open?_of_nothing happend hwf hlog hsnapshot hopen)
  exact htraced.run_agrees_iff hrecorded hselect hfits

/-- A key is written so often that the next write looks at the memory. -/
def dueWrites : List (Nat × Command) :=
  List.replicate 49 (0, [Bytes.ofString "SET", Bytes.ofString "k", Bytes.ofString "v"])

/-- A plain `SET` may evict its own key. -/
theorem replay_agrees_iff_noneMisleads_dueWrites :
    (∀ n, ∃ j, ((Engine.blank tightConfig 50).executeAll (dueWrites.take n)).journal = some j
        ∧ (replayed tightConfig.unlimited 50 none (j.content
            ((Engine.blank tightConfig 50).executeAll (dueWrites.take n)).disk)).keyspace.dataset
          = ((Engine.blank tightConfig 50).executeAll (dueWrites.take n)).keyspace.dataset)
      ↔ (Engine.blank tightConfig 50).NoneMisleads dueWrites := by
  have hfits : ∀ w ∈ dueWrites, Wire.Fits w.2 := by
    intro w hw
    rw [List.eq_of_mem_replicate hw]
    exact Wire.fits_of_short (by decide) (by decide) (by decide)
  exact replay_agrees_iff_noneMisleads rfl (by decide +kernel) Disk.wellFormed_empty
    (by decide +kernel) (by decide +kernel) open?_tightConfig (by decide +kernel) hfits

/-- The next write evicts the key and writes it again, because it was there. -/
def evictingRun : Engine :=
  (Engine.blank tightConfig 50).executeAll (dueWrites ++
    [(0, [Bytes.ofString "SET", Bytes.ofString "k", Bytes.ofString "w", Bytes.ofString "XX"])])

/-- **With `XX` it misleads the replay**, which finds the key deleted and does
not write. -/
theorem replay_loses_evicted :
    Engine.open? tightConfig Disk.empty 50 "" none = .ok (Engine.blank tightConfig 50)
      ∧ evictingRun.keyspace.dataset = [[(Bytes.ofString "k", .string (Bytes.ofString "w"), none)]]
      ∧ evictingRun.journal.map (fun j =>
          (replayed tightConfig.unlimited 50 none (j.content evictingRun.disk)).keyspace.dataset)
        = some [[]] := by
  refine ⟨rfl, ?_, ?_⟩
  · decide +kernel
  · decide +kernel

end DurableStore
