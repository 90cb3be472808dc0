/-
  DurableStore.Proofs.Engine.Selection
  ────────────────────────────────
  **WHICH DATABASE A RECORD CHANGES.**

  A log names a database by a `SELECT`, and the records after it belong to
  that database.  A replay that cannot apply the `SELECT` passes over it,
  and stays in the database that it had selected before:

      namedBy now log   — the database that the nearest `SELECT` of a log
                          names; none if it is malformed
      s.selected        — the database that the replay has selected

  The two are the same as long as the named database exists
  (`Follows.run`).  So a record changes at most the database that the log
  names for it, unless the nearest `SELECT` was refused: then it changes
  another one, or nothing.

  Main results:
    * `apply_elsewhere` — a record changes the selected database only, the
      evictions that it causes included;
    * `replay_keeps_named_iff` — the records of a log change only the
      databases named for them exactly if every record that follows a
      refused `SELECT` changes nothing.
-/
import DurableStore.Proofs.Engine.Records

namespace DurableStore

open Loaded

/-! ## §1. Commands that span databases. -/

namespace Command

/-- Whether the name of a command is that of one that concerns more than one
database. -/
def Spans : Command → Prop
  | [] => False
  | name :: _ => Verb.ofName? name = some .flushAll ∨ Verb.ofName? name = some .swapDatabases

instance (command : Command) : Decidable command.Spans :=
  match command with
  | [] => .isFalse id
  | name :: _ => inferInstanceAs (Decidable (Verb.ofName? name = some .flushAll
      ∨ Verb.ofName? name = some .swapDatabases))

end Command

/-- Whether an effect stays within the selected database. -/
def Effect.Within : Effect → Prop
  | .clearAll => False
  | .swap _ _ => False
  | _ => True

theorem Command.within_of_not_spans {command : Command} (h : ¬ command.Spans) (now : Millis)
    (count : Nat) (found : Bytes → Option Datum) : (command.meaning now count found).Within := by
  unfold meaning
  cases haction : command.action now with
  | error error => trivial
  | ok action =>
    obtain ⟨name, args, verb, rfl, hverb, hof⟩ := isOf_of_action haction
    cases action with
    | clearAll => exact absurd (.inl (hverb.trans (congrArg some hof))) h
    | swap a b => exact absurd (.inr (hverb.trans (congrArg some hof))) h
    | select index =>
      dsimp only [Action.effect]
      split <;> trivial
    | set request =>
      dsimp only [Action.effect]
      split <;> trivial
    | change key kind edit =>
      dsimp only [Action.effect]
      split
      · split <;> trivial
      · trivial
    | expire key expiresAt =>
      dsimp only [Action.effect]
      split <;> trivial
    | remove keys => trivial
    | clear => trivial

theorem Contents.without_elsewhere (c : Contents) {i j : Nat} (h : j ≠ i) (keys : List Bytes) :
    c.without i keys j = c j := by
  funext k
  rw [without_apply, if_neg fun hand => h hand.1]

/-- **What stays within a database is not seen in another.** -/
theorem Effect.on_elsewhere {effect : Effect} (hwithin : effect.Within) {i j : Nat} (h : j ≠ i)
    (t : Millis) (c : Contents) : effect.on i t c j = c j := by
  cases effect with
  | assign key d =>
    funext k
    exact if_neg fun hand => h hand.1
  | remove keys => exact c.without_elsewhere h keys
  | clear =>
    funext k
    exact if_neg h
  | clearAll => exact absurd hwithin id
  | swap a b => exact absurd hwithin id
  | refused => rfl
  | nothing => rfl
  | select index => rfl

/-- **A record changes the selected database only**, the evictions that it causes
included. -/
theorem Session.apply_elsewhere {s : Session} (hfallback : s.fallback = none)
    (hselected : s.selected < s.keyspace.count) {command : Command} (hspans : ¬ command.Spans)
    {j : Nat} (h : j ≠ s.selected) :
    (s.apply command).1.keyspace.contents s.keyspace.now j
      = s.keyspace.contents s.keyspace.now j := by
  have hspec := apply_evicting command (.inl hfallback) hselected
  rw [hspec.contents _ (UInt64.le_refl _),
    Effect.on_elsewhere (Command.within_of_not_spans hspans _ _ _) h,
    Contents.without_elsewhere _ h]

/-! ## §2. Named databases. -/

namespace Command

/-- The database that is named after a record, given the one named before it. -/
def naming (now : Millis) (before : Option Nat) (command : Command) : Option Nat :=
  if command.Selects then
    match command.action now with
    | .ok (.select index) => some index
    | _ => none
  else before

/-- The database that the nearest `SELECT` of a log names: none if it is
malformed, and the first one if there is no `SELECT`. -/
def namedBy (now : Millis) (commands : List Command) : Option Nat :=
  commands.foldl (naming now) (some 0)

end Command

namespace Session

open Command

/-- A replay has selected the database that is named, if there is such a one. -/
structure Follows (s : Session) (now : Millis) (count : Nat) (named : Option Nat) : Prop where
  now_eq : s.keyspace.now = now
  count_eq : s.keyspace.count = count
  inRange : s.selected < s.keyspace.count
  fallback : s.fallback = none
  selected : ∀ i, named = some i → i < count → s.selected = i

variable {s : Session} {now : Millis} {count : Nat} {named : Option Nat}

/-- **One record.** -/
theorem Follows.step (h : s.Follows now count named) (command : Command) :
    (s.apply command).1.Follows now count (command.naming now named) := by
  have hspec := apply_evicting command (.inl h.fallback) h.inRange
  refine ⟨hspec.evicts.now.trans h.now_eq, hspec.evicts.count.trans h.count_eq,
    hspec.selected_lt h.inRange, hspec.fallback.trans h.fallback, ?_⟩
  intro i hnamed hi
  rw [hspec.selected, h.now_eq, h.count_eq]
  unfold naming at hnamed
  split at hnamed
  · split at hnamed
    · rename_i index haction
      cases hnamed
      -- the database that is named exists, so the `SELECT` is applied
      have hmeaning : ∀ found, command.meaning now count found = .select i := by
        intro found
        unfold meaning
        rw [haction]
        exact if_pos hi
      rw [hmeaning]
      rfl
    · cases hnamed
  · rename_i hselect
    have hkept : ∀ effect : Effect, (∀ index, effect ≠ .select index) →
        effect.selection s.selected = s.selected := by
      intro effect hne
      cases effect with
      | select index => exact absurd rfl (hne index)
      | _ => rfl
    rw [hkept _ (meaning_ne_select hselect _ _ _)]
    exact h.selected i hnamed hi

/-- **A whole log**, by induction on it. -/
theorem Follows.run {commands : List Command} (h : s.Follows now count named) :
    (s.applyAll commands).1.Follows now count (commands.foldl (naming now) named) := by
  induction commands generalizing s named with
  | nil => exact h
  | cons command commands ih => exact ih (h.step command)

/-- A record that is not to span databases keeps all but the named one exactly if
the named one exists or it changes nothing. -/
theorem Follows.keeps_named_iff (h : s.Follows now count named) {command : Command}
    (hspans : ¬ command.Spans) :
    (∀ j, named ≠ some j →
        (s.apply command).1.keyspace.contents now j = s.keyspace.contents now j)
      ↔ (∃ i, named = some i ∧ i < count)
        ∨ (s.apply command).1.keyspace.contents now = s.keyspace.contents now := by
  have hcount : (s.apply command).1.keyspace.count = count := (h.step command).count_eq
  constructor
  · intro hkeeps
    by_cases hexists : ∃ i, named = some i ∧ i < count
    · exact .inl hexists
    · -- the named database does not exist, so nothing is in it before or after
      refine .inr (funext fun j => ?_)
      by_cases hnamed : named = some j
      · have hle : count ≤ j := Nat.le_of_not_lt fun hlt => hexists ⟨j, hnamed, hlt⟩
        funext key
        rw [Keyspace.contents_of_le (hcount ▸ hle), Keyspace.contents_of_le (h.count_eq ▸ hle)]
      · exact hkeeps j hnamed
  · rintro (⟨i, hnamed, hi⟩ | hsame) j hne
    · have hselected : s.selected = i := h.selected i hnamed hi
      have helsewhere : j ≠ s.selected := by
        rw [hselected]
        rintro rfl
        exact hne hnamed
      rw [← h.now_eq]
      exact apply_elsewhere h.fallback h.inRange hspans helsewhere
    · rw [hsame]

end Session

/-! ## §3. Replays. -/

/-- The replay of the first records of a log. -/
def replayedTo (config : Config) (now : Millis) (bytes : Bytes) (n : Nat) : Session :=
  ((Session.start (emptyKeyspace config now) none).applyAll
    ((Replay.ofBytes bytes).commands.take n)).1

theorem replayedTo_succ (config : Config) (now : Millis) {bytes : Bytes} {n : Nat}
    {command : Command} (h : (Replay.ofBytes bytes).commands[n]? = some command) :
    replayedTo config now bytes (n + 1) = ((replayedTo config now bytes n).apply command).1 := by
  unfold replayedTo
  rw [List.take_add_one, h]
  exact Session.applyAll_append _ _ _

theorem follows_replayedTo (config : Config) (now : Millis) (bytes : Bytes) (n : Nat) :
    (replayedTo config now bytes n).Follows now (emptyKeyspace config now).count
      (Command.namedBy now ((Replay.ofBytes bytes).commands.take n)) := by
  refine Session.Follows.run ⟨rfl, rfl, emptyKeyspace_pos config now, rfl, ?_⟩
  intro i hnamed _
  exact Option.some.inj hnamed

/-- Every record of a log that does not span databases changes at most the
database that the log names for it. -/
def KeepsNamed (config : Config) (now : Millis) (bytes : Bytes) : Prop :=
  ∀ n command, (Replay.ofBytes bytes).commands[n]? = some command → ¬ command.Spans →
    ∀ j, Command.namedBy now ((Replay.ofBytes bytes).commands.take n) ≠ some j →
      (replayedTo config now bytes (n + 1)).keyspace.contents now j
        = (replayedTo config now bytes n).keyspace.contents now j

/-- Every record of a log that does not span databases follows a `SELECT` of a
database that exists, or no `SELECT`, or it changes nothing. -/
def NoneStrays (config : Config) (now : Millis) (bytes : Bytes) : Prop :=
  ∀ n command, (Replay.ofBytes bytes).commands[n]? = some command → ¬ command.Spans →
    (∃ i, Command.namedBy now ((Replay.ofBytes bytes).commands.take n) = some i
        ∧ i < (emptyKeyspace config now).count)
      ∨ (replayedTo config now bytes (n + 1)).keyspace.contents now
        = (replayedTo config now bytes n).keyspace.contents now

/-- **When a replay keeps to the databases that the log names.**  Where there is
a log, whatever it holds and however many databases there are, an engine
opens with what the log replays.  Its records change only the databases
named for them — if and only if none of them strays. -/
theorem replay_keeps_named_iff {config : Config} (happend : config.appendOnly = true) {d : Disk}
    {id : Nat} {bytes : Bytes}
    (hlog : d.find (logPath config) = .ok (.file id bytes)) (now : Millis) (history : String) :
    (∃ e, Engine.open? config d now history none = .ok e
        ∧ e.keyspace.contents now = (replayedTo config now bytes
            (Replay.ofBytes bytes).commands.length).keyspace.contents now)
      ∧ (KeepsNamed config now bytes ↔ NoneStrays config now bytes) := by
  obtain ⟨l, hholds⟩ := Disk.holds_of_find hlog
  obtain ⟨e, hopen, hkeyspace, -⟩ := Engine.open?_of_log happend hholds now history none
  refine ⟨⟨e, hopen, ?_⟩, ?_⟩
  · rw [hkeyspace]
    unfold replayedTo
    rw [List.take_length]
    rfl
  · refine forall_congr' fun n => forall_congr' fun command => forall_congr' fun hcommand =>
      forall_congr' fun hspans => ?_
    rw [replayedTo_succ config now hcommand]
    exact (follows_replayedTo config now bytes n).keeps_named_iff hspans

/-- A record that follows a `SELECT` of database 5. -/
def strayRecord : List Command :=
  [Command.selecting 5, [Bytes.ofString "SET", Bytes.ofString "k", Bytes.ofString "v"]]

/-- With sixteen databases the record is in its place. -/
theorem replay_keeps_named_iff_strayRecord :
    (∃ e, Engine.open? { smallConfig with databases := 16 } (Disk.ofLog strayRecord) 50 "" none
            = .ok e
        ∧ e.keyspace.contents 50 = (replayedTo { smallConfig with databases := 16 } 50
            (strayRecord.flatMap Wire.encode)
            (Replay.ofBytes (strayRecord.flatMap Wire.encode)).commands.length).keyspace.contents 50)
      ∧ (KeepsNamed { smallConfig with databases := 16 } 50 (strayRecord.flatMap Wire.encode)
          ↔ NoneStrays { smallConfig with databases := 16 } 50 (strayRecord.flatMap Wire.encode)) :=
  replay_keeps_named_iff rfl rfl 50 ""

/-- **With two databases it strays**: the `SELECT` is refused, and the key lands
in database 0. -/
theorem replay_strays :
    ¬ KeepsNamed { smallConfig with databases := 2 } 50 (strayRecord.flatMap Wire.encode)
      ∧ (Engine.open? { smallConfig with databases := 2 } (Disk.ofLog strayRecord) 50
          "" none).toOption.map (fun e => e.keyspace.dataset)
        = some [[(Bytes.ofString "k", .string (Bytes.ofString "v"), none)], []] := by
  refine ⟨?_, by decide +kernel⟩
  intro hkeeps
  have hnamed : Command.namedBy 50 ((Replay.ofBytes (strayRecord.flatMap Wire.encode)).commands.take 1)
      ≠ some 0 := by decide +kernel
  have hchange := hkeeps 1 [Bytes.ofString "SET", Bytes.ofString "k", Bytes.ofString "v"]
    (by decide +kernel) (by decide +kernel) 0 hnamed
  have hkey := congrFun hchange (Bytes.ofString "k")
  revert hkey
  decide +kernel

end DurableStore
