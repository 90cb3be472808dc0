/-
  DurableStore.Proofs.Engine.Writes
  ────────────────────────────────
  **ONE WRITE OF AN ENGINE.**

  A write is refused, and then nobody but the keyspace notices it, or it
  changes the contents by what the command means and is handed on: to the
  log, and to the stream with its backlog and followers.  The keys that it
  evicted are logged before it, each by a deletion (`execute_spec`); where
  nothing is evicted there is nothing else to log (`execute_cases`).
-/
import DurableStore.Engine.Basic
import DurableStore.Proofs.Command.Stream

namespace DurableStore

/-! ## §1. Notices. -/

/-- The notices of a keyspace that was quiet are taken, and nothing else. -/
theorem Keyspace.keeps_takeNotices {ks ks' : Keyspace} {reported : List Notice}
    (h : ks.Evicts ks' reported) (hquiet : ks.Quiet) : ks.Keeps ks'.takeNotices.2 where
  now := h.now
  count := h.count
  maxMemory := h.maxMemory
  policy := h.policy
  listening := h.listening
  evictions := by
    rw [List.append_nil]
    exact hquiet.symm

namespace Engine

/-- Of all notices only those of evictions are logged. -/
theorem foldl_logNotice (notices : List Notice) (e : Engine) :
    notices.foldl logNotice e
      = (notices.filter fun notice => notice.event = .evicted).foldl logNotice e := by
  induction notices generalizing e with
  | nil => rfl
  | cons notice notices ih =>
    by_cases hevicted : notice.event = .evicted
    · rw [List.filter_cons_of_pos (by simpa using hevicted), List.foldl_cons, List.foldl_cons, ih]
    · have hsame : e.logNotice notice = e := if_neg hevicted
      rw [List.filter_cons_of_neg (by simpa using hevicted), List.foldl_cons, hsame, ih]

/-- A change of the keyspace, and the log of what it evicted. -/
theorem onKeyspace_of_evicts {α : Type} (e : Engine) {use : Keyspace → Keyspace × α}
    {reported : List Notice} (hquiet : e.keyspace.Quiet)
    (h : e.keyspace.Evicts (use e.keyspace).1 reported) :
    e.onKeyspace use
      = (reported.foldl logNotice { e with keyspace := (use e.keyspace).1.takeNotices.2 },
          (use e.keyspace).2) := by
  have hreported : (use e.keyspace).1.evictions = reported := by
    rw [h.evictions, show e.keyspace.evictions = [] from hquiet, List.nil_append]
  have hlogged := foldl_logNotice (use e.keyspace).1.notices
    { e with keyspace := (use e.keyspace).1.takeNotices.2 }
  rw [show (use e.keyspace).1.notices.filter _ = _ from hreported] at hlogged
  exact congrArg (·, (use e.keyspace).2) hlogged

/-! ## §2. Writes. -/

/-- The keyspace of an engine after a write that nobody else notices. -/
def withKeyspace (e : Engine) (keyspace : Keyspace) : Engine := { e with keyspace }

/-- The log after the eviction of keys of a database. -/
def logEvictions (e : Engine) (database : Nat) (keys : List Bytes) : Engine :=
  keys.foldl (fun e key => e.appendLog database (Wire.encode (evictionCommand key))) e

theorem not_selects_evictionCommand (key : Bytes) : ¬ (evictionCommand key).Selects := by
  show ¬ Command.Verb.ofName? (Bytes.ofString "DEL") = some .select
  decide +kernel

theorem fits_evictionCommand {key : Bytes} (h : key.length < lengthBound) :
    Wire.Fits (evictionCommand key) :=
  Wire.fits_of_short (by decide) (Nat.le_add_left 1 2) (List.forall_mem_singleton.2 h)

theorem foldl_told (e : Engine) {ks : Keyspace} (h : ks.listening = true) (database : Nat)
    (keys : List Bytes) :
    (ks.told database keys).foldl logNotice e = e.logEvictions database keys := by
  unfold Keyspace.told logEvictions
  rw [if_pos h, List.foldl_map]
  rfl

/-- **A write is refused, or its evictions are logged and it is propagated.** -/
theorem execute_spec {e : Engine} (hcount : e.keyspace.count < Bytes.u64Bound)
    (hquiet : e.keyspace.Quiet) (database : Nat) (command : Command) :
    ∃ ks, e.keyspace.Keeps ks ∧
      (((e.execute database command).1 = e.withKeyspace ks
          ∧ (database < e.keyspace.count → command.meaning e.keyspace.now e.keyspace.count
              (e.keyspace.contents e.keyspace.now database) = .refused)
          ∧ ks.contents e.keyspace.now = e.keyspace.contents e.keyspace.now)
        ∨ ((e.execute database command).1
              = ((e.keyspace.told database (command.victims database e.keyspace)).foldl logNotice
                  (e.withKeyspace ks)).propagate database (Wire.encode command)
          ∧ database < e.keyspace.count
          ∧ command.meaning e.keyspace.now e.keyspace.count
              (e.keyspace.contents e.keyspace.now database) ≠ .refused
          ∧ ks.contents e.keyspace.now
              = (command.meaning e.keyspace.now e.keyspace.count
                  (e.keyspace.contents e.keyspace.now database)).on database e.keyspace.now
                    ((e.keyspace.contents e.keyspace.now).without database
                      (command.victims database e.keyspace)))) := by
  unfold execute tryWrite
  by_cases hdatabase : database < e.keyspace.count
  · obtain ⟨hevicts, hverdict, hcontents⟩ := Keyspace.changed hcount hdatabase command
    rw [onKeyspace_of_evicts e hquiet hevicts]
    refine ⟨_, Keyspace.keeps_takeNotices hevicts hquiet, ?_⟩
    cases hresult : (command.effect database e.keyspace).2 with
    | ok value => exact .inr ⟨rfl, hdatabase, hverdict.1 hresult, hcontents⟩
    | error error =>
      -- a command that is refused has evicted nothing
      have hrefused : command.meaning e.keyspace.now e.keyspace.count
          (e.keyspace.contents e.keyspace.now database) = .refused := by
        by_contra hne
        rw [hverdict.2 hne] at hresult
        cases hresult
      have hnone : command.victims database e.keyspace = [] :=
        Session.victims_of_refused
          (s := { Session.start e.keyspace none with selected := database }) hrefused
      rw [hnone, hrefused] at hcontents
      rw [hnone, Keyspace.told_nil]
      exact .inl ⟨rfl, fun _ => hrefused, hcontents⟩
  · obtain ⟨error, heffect⟩ := Keyspace.effect_of_le (Nat.le_of_not_lt hdatabase) command
    have hkeeps : e.keyspace.Keeps (command.effect database e.keyspace).1 := by
      rw [heffect]
      exact Keyspace.Keeps.refl _
    rw [onKeyspace_of_evicts e hquiet hkeeps]
    refine ⟨_, Keyspace.keeps_takeNotices hkeeps hquiet, .inl ?_⟩
    rw [heffect]
    exact ⟨rfl, fun hlt => absurd hlt hdatabase, rfl⟩

/-- **A write is refused, or it takes effect and is propagated**, where nothing
is evicted. -/
theorem execute_cases {e : Engine} (hregular : e.keyspace.Regular) (hquiet : e.keyspace.Quiet)
    (database : Nat) (command : Command) :
    ∃ ks, e.keyspace.Keeps ks ∧
      (((e.execute database command).1 = e.withKeyspace ks
          ∧ ks.contents e.keyspace.now = e.keyspace.contents e.keyspace.now)
        ∨ ((e.execute database command).1
              = (e.withKeyspace ks).propagate database (Wire.encode command)
          ∧ database < e.keyspace.count
          ∧ command.meaning e.keyspace.now e.keyspace.count
              (e.keyspace.contents e.keyspace.now database) ≠ .refused
          ∧ ks.contents e.keyspace.now
              = (command.meaning e.keyspace.now e.keyspace.count
                  (e.keyspace.contents e.keyspace.now database)).on database e.keyspace.now
                    (e.keyspace.contents e.keyspace.now))) := by
  obtain ⟨ks, hkeeps, ⟨hsame, -, hcontents⟩ | ⟨hwritten, hdatabase, hmeaning, hcontents⟩⟩ :=
    execute_spec hregular.count hquiet database command
  · exact ⟨ks, hkeeps, .inl ⟨hsame, hcontents⟩⟩
  · have hnone : command.victims database e.keyspace = [] :=
      Session.victims_eq_nil (s := { Session.start e.keyspace none with selected := database })
        hdatabase hregular.noEviction command
    rw [hnone] at hwritten hcontents
    rw [Keyspace.told_nil] at hwritten
    exact ⟨ks, hkeeps, .inr ⟨hwritten, hdatabase, hmeaning, hcontents⟩⟩

/-! ## §3. Propagation. -/

theorem selectStream_keeps (e : Engine) (database : Nat) :
    (e.selectStream database).keyspace = e.keyspace ∧ (e.selectStream database).journal = e.journal
      ∧ (e.selectStream database).disk = e.disk ∧ (e.selectStream database).config = e.config := by
  unfold selectStream
  split <;> exact ⟨rfl, rfl, rfl, rfl⟩

/-- What a record that is appended does to the log. -/
theorem appendLog_eq {e : Engine} {journal : Journal} (h : e.journal = some journal)
    (database : Nat) (record : Bytes) :
    e.appendLog database record
      = { e with
          disk := (journal.append e.disk database record).1
          journal := some (journal.append e.disk database record).2 } := by
  unfold appendLog withJournal
  rw [h]

/-- What a write that is propagated does to the log. -/
theorem propagate_log {e : Engine} {journal : Journal} (h : e.journal = some journal)
    (database : Nat) (record : Bytes) :
    (e.propagate database record).keyspace = e.keyspace
      ∧ (e.propagate database record).config = e.config
      ∧ (e.propagate database record).disk = (journal.append e.disk database record).1
      ∧ (e.propagate database record).journal = some (journal.append e.disk database record).2 := by
  obtain ⟨hkeyspace, hjournal, hdisk, hconfig⟩ := e.selectStream_keeps database
  have happend := appendLog_eq (hjournal.trans h) database record
  rw [hdisk] at happend
  unfold propagate
  rw [happend]
  exact ⟨hkeyspace, hconfig, rfl, rfl⟩

/-! ## §4. The keyspace. -/

theorem keyspace_appendLog (e : Engine) (database : Nat) (record : Bytes) :
    (e.appendLog database record).keyspace = e.keyspace := by
  unfold appendLog withJournal
  split <;> rfl

theorem keyspace_propagate (e : Engine) (database : Nat) (record : Bytes) :
    (e.propagate database record).keyspace = e.keyspace := by
  unfold propagate
  show ((e.selectStream database).appendLog database record).keyspace = e.keyspace
  rw [keyspace_appendLog, (e.selectStream_keeps database).1]

theorem keyspace_foldl_logNotice (notices : List Notice) (e : Engine) :
    (notices.foldl logNotice e).keyspace = e.keyspace := by
  induction notices generalizing e with
  | nil => rfl
  | cons notice notices ih =>
    have hone : (e.logNotice notice).keyspace = e.keyspace := by
      unfold logNotice
      split
      · exact keyspace_appendLog e _ _
      · rfl
    rw [List.foldl_cons, ih, hone]

/-- The keyspace of an engine after a write is what the command makes of it. -/
theorem keyspace_execute (e : Engine) (database : Nat) (command : Command) :
    (e.execute database command).1.keyspace
      = (command.effect database e.keyspace).1.takeNotices.2 := by
  unfold execute tryWrite onKeyspace
  dsimp only
  split
  · rw [keyspace_propagate, keyspace_foldl_logNotice]
  · rw [keyspace_foldl_logNotice]

end Engine

end DurableStore
