/-
  DurableStore.Proofs.Command.Lockstep
  ────────────────────────────────
  **REPEATING WRITES.**

  A log and a replication stream record writes in the same way: a command,
  and before it a `SELECT` unless the record before belonged to the same
  database.  Whoever applies the records at the same reading of the clock
  holds what the writer holds:

      s.Stands now count c selected   — session `s` holds the contents `c`,
                                        and has selected what the records say

  The contents of the writer change by the effect of the command on what
  its eviction leaves (`Keyspace.changed`), and those of a session that
  applies the records by the same effect (`Stands.records`).

      Builds now count commands c selected c' selected'
                                      — every session that holds `c` accepts
                                        all the commands, and holds `c'` then

  Such statements are put together one command after the other
  (`Builds.append`).
-/
import DurableStore.Proofs.Bytes.Decimal
import DurableStore.Proofs.Command.Meaning

namespace DurableStore

/-! ## §1. Selecting a database. -/

namespace Command

/-- Whether the name of a command is that of a `SELECT`. -/
def Selects : Command → Prop
  | [] => False
  | name :: _ => Verb.ofName? name = some .select

instance (command : Command) : Decidable command.Selects :=
  match command with
  | [] => .isFalse id
  | name :: _ => inferInstanceAs (Decidable (Verb.ofName? name = some .select))

theorem ofName?_select : Verb.ofName? (Bytes.ofString "SELECT") = some .select := by
  decide +kernel

theorem action_selecting (now : Millis) {database : Nat} (h : database < Bytes.u64Bound) :
    (selecting database).action now = .ok (.select database) := by
  unfold selecting action
  dsimp only
  rw [ofName?_select]
  dsimp only [Verb.action]
  unfold parseNat
  rw [Bytes.toNat?_ofNat h]
  rfl

theorem inVocabulary_selecting (database : Nat) : (selecting database).InVocabulary := by
  unfold selecting InVocabulary
  dsimp only
  rw [ofName?_select]
  rfl

/-- The verb of an action that does not stay within the selected database. -/
def Action.IsOf (verb : Verb) : Action → Prop
  | .select _ => verb = .select
  | .clearAll => verb = .flushAll
  | .swap _ _ => verb = .swapDatabases
  | _ => True

/-- An action is read from its verb. -/
theorem isOf_of_action {command : Command} {now : Millis} {action : Action}
    (h : command.action now = .ok action) :
    ∃ name args verb, command = name :: args ∧ Verb.ofName? name = some verb
      ∧ action.IsOf verb := by
  obtain ⟨name, args, verb, hcommand, hverb, hreads⟩ := reads_of_action h
  refine ⟨name, args, verb, hcommand, hverb, ?_⟩
  cases hreads with
  | select | flushAll | swapDatabases => rfl
  | _ => trivial

/-- Only a `SELECT` is read as one. -/
theorem selects_of_action {command : Command} {now : Millis} {index : Nat}
    (h : command.action now = .ok (.select index)) : command.Selects := by
  obtain ⟨name, args, verb, rfl, hverb, hof⟩ := isOf_of_action h
  exact hverb.trans (congrArg some hof)

/-- A command that can be read is one of the vocabulary. -/
theorem inVocabulary_of_action {command : Command} {now : Millis} {action : Action}
    (h : command.action now = .ok action) : command.InVocabulary := by
  obtain ⟨name, args, verb, rfl, hverb, -⟩ := isOf_of_action h
  show (Verb.ofName? name).isSome = true
  rw [hverb]
  rfl

theorem inVocabulary_of_meaning {command : Command} {now : Millis} {count : Nat}
    {found : Bytes → Option Datum} (h : command.meaning now count found ≠ .refused) :
    command.InVocabulary := by
  unfold meaning at h
  cases haction : command.action now with
  | ok action => exact inVocabulary_of_action haction
  | error error =>
    rw [haction] at h
    exact absurd rfl h

theorem meaning_ne_select {command : Command} (h : ¬ command.Selects) (now : Millis) (count : Nat)
    (found : Bytes → Option Datum) (index : Nat) :
    command.meaning now count found ≠ .select index :=
  fun hmeaning => h (selects_of_action (of_meaning_select hmeaning).1)

/-- The records of a write, given the database of the record before. -/
def records (command : Command) (selected : Option Nat) (database : Nat) : List Command :=
  (if selected = some database then [] else [selecting database]) ++ [command]

end Command

/-! ## §2. Writes. -/

/-- The keys that a write to a database evicts. -/
def Command.victims (command : Command) (database : Nat) (ks : Keyspace) : List Bytes :=
  ({ Session.start ks none with selected := database } : Session).victims command

namespace Keyspace

/-- What a keyspace must be like for writes to be repeated: nothing is
evicted, and the number of databases is one that a command can name. -/
structure Regular (ks : Keyspace) : Prop where
  noEviction : ks.mayEvict = false
  count : ks.count < Bytes.u64Bound

theorem Regular.keeps {ks ks' : Keyspace} (h : ks.Regular) (hkeeps : ks.Keeps ks') :
    ks'.Regular where
  noEviction := by rw [hkeeps.mayEvict_eq]; exact h.noEviction
  count := by rw [hkeeps.count]; exact h.count

/-- What a write to a database does, on what its eviction leaves. -/
structure Changed (ks : Keyspace) (database : Nat) (command : Command)
    (outcome : Keyspace × Except CommandError Unit) : Prop where
  evicts : ks.Evicts outcome.1 (ks.told database (command.victims database ks))
  verdict : outcome.2 = .ok ()
    ↔ command.meaning ks.now ks.count (ks.contents ks.now database) ≠ .refused
  contents : outcome.1.contents ks.now
    = (command.meaning ks.now ks.count (ks.contents ks.now database)).on database ks.now
        ((ks.contents ks.now).without database (command.victims database ks))

/-- A write is made by a session that has selected the database. -/
theorem effect_of_lt {ks : Keyspace} (h : ks.count < Bytes.u64Bound) {database : Nat}
    (hdatabase : database < ks.count) (command : Command) :
    command.effect database ks
      = ((({ Session.start ks none with selected := database } : Session).apply command).1.keyspace,
        (({ Session.start ks none with selected := database } : Session).apply command).2) := by
  have hselect : (Session.start ks none).apply (Command.selecting database)
      = ({ Session.start ks none with selected := database }, .ok ()) := by
    rw [Session.apply_eq (.inl rfl), Command.action_selecting _ (Nat.lt_trans hdatabase h)]
    exact if_pos hdatabase
  unfold Command.effect
  rw [hselect]

/-- **A write does what its command means, on what its eviction leaves.** -/
theorem changed {ks : Keyspace} (h : ks.count < Bytes.u64Bound) {database : Nat}
    (hdatabase : database < ks.count) (command : Command) :
    ks.Changed database command (command.effect database ks) := by
  have hspec := Session.apply_evicting
    (s := { Session.start ks none with selected := database }) command (.inl rfl) hdatabase
  rw [effect_of_lt h hdatabase]
  exact ⟨hspec.evicts, hspec.verdict, hspec.contents ks.now (UInt64.le_refl _)⟩

/-- A write to a database that does not exist is refused. -/
theorem effect_of_le {ks : Keyspace} {database : Nat} (h : ks.count ≤ database)
    (command : Command) : ∃ error, command.effect database ks = (ks, .error error) := by
  have hselect : ∃ error, (Session.start ks none).apply (Command.selecting database)
      = (Session.start ks none, .error error) := by
    rw [Session.apply_eq (.inl rfl)]
    unfold Session.reading
    split
    · rename_i action haction
      unfold Command.selecting Command.action at haction
      dsimp only at haction
      rw [Command.ofName?_select] at haction
      dsimp only [Command.Verb.action] at haction
      unfold Command.parseNat at haction
      -- an index out of range, or one too great to be read
      by_cases hbound : database < Bytes.u64Bound
      · rw [Bytes.toNat?_ofNat hbound] at haction
        cases haction
        exact ⟨_, if_neg (Nat.not_lt.2 h)⟩
      · rw [Bytes.toNat?_ofNat_of_le (Nat.le_of_not_lt hbound)] at haction
        cases haction
    · exact ⟨_, rfl⟩
  obtain ⟨error, hselect⟩ := hselect
  unfold Command.effect
  rw [hselect]
  exact ⟨error, rfl⟩

end Keyspace

/-! ## §3. Commands that build contents. -/

namespace Session

theorem applyAll_append (s : Session) (as bs : List Command) :
    (s.applyAll (as ++ bs)).1 = ((s.applyAll as).1.applyAll bs).1 := by
  induction as generalizing s with
  | nil => rfl
  | cons command as ih => exact ih (s.apply command).1

theorem verdicts_append (s : Session) (as bs : List Command) :
    (s.applyAll (as ++ bs)).2 = (s.applyAll as).2 ++ ((s.applyAll as).1.applyAll bs).2 := by
  induction as generalizing s with
  | nil => rfl
  | cons command as ih => exact congrArg ((s.apply command).2 :: ·) (ih (s.apply command).1)

/-- A session holds some contents at the present and evicts nothing; the database of the
last record, where it is known, is selected and exists. -/
structure Rests (s : Session) (now : Millis) (count : Nat) (c : Contents)
    (selected : Option Nat) : Prop where
  noEviction : s.keyspace.mayEvict = false
  now_eq : s.keyspace.now = now
  count_eq : s.keyspace.count = count
  contents_eq : s.keyspace.contents now = c
  selected_eq : ∀ database, selected = some database → s.selected = database ∧ database < count

/-- A session accepts all of some commands and holds other contents then. -/
structure Accepts (s : Session) (commands : List Command) (now : Millis) (count : Nat)
    (c : Contents) (selected : Option Nat) : Prop where
  rests : (s.applyAll commands).1.Rests now count c selected
  verdicts : ∀ verdict ∈ (s.applyAll commands).2, verdict = .ok ()
  keeps : s.keyspace.Keeps (s.applyAll commands).1.keyspace
  inRange : s.selected < count → (s.applyAll commands).1.selected < count

theorem Rests.forget {s : Session} {now : Millis} {count : Nat} {c : Contents}
    {selected : Option Nat} (h : s.Rests now count c selected) : s.Rests now count c none :=
  { h with selected_eq := fun _ hnone => nomatch hnone }

end Session

namespace Command

/-- Every session that holds the first contents accepts the commands, and holds the
second then. -/
def Builds (now : Millis) (count : Nat) (commands : List Command) (c : Contents)
    (selected : Option Nat) (c' : Contents) (selected' : Option Nat) : Prop :=
  ∀ s : Session, s.Rests now count c selected → s.Accepts commands now count c' selected'

namespace Builds

variable {now : Millis} {count : Nat} {as bs : List Command} {a b c : Contents}
  {atA atB atC : Option Nat}

theorem nil : Builds now count [] c atC c atC := by
  intro s hs
  exact ⟨hs, by simp [Session.applyAll], Keyspace.Keeps.refl _, id⟩

/-- **Commands in a row.** -/
theorem append (has : Builds now count as a atA b atB) (hbs : Builds now count bs b atB c atC) :
    Builds now count (as ++ bs) a atA c atC := by
  intro s hs
  have hfirst := has s hs
  have hsecond := hbs _ hfirst.rests
  refine ⟨?_, ?_, ?_, ?_⟩
  · rw [Session.applyAll_append]
    exact hsecond.rests
  · rw [Session.verdicts_append]
    intro verdict hverdict
    rcases List.mem_append.1 hverdict with hverdict | hverdict
    · exact hfirst.verdicts verdict hverdict
    · exact hsecond.verdicts verdict hverdict
  · rw [Session.applyAll_append]
    exact hfirst.keeps.trans hsecond.keeps
  · rw [Session.applyAll_append]
    intro hrange
    exact hsecond.inRange (hfirst.inRange hrange)

/-- The commands that follow may name their database again. -/
theorem forget (h : Builds now count as a atA b atB) : Builds now count as a atA b none := by
  intro s hs
  have hall := h s hs
  exact { hall with rests := hall.rests.forget }

/-- A database is selected, whatever was selected before. -/
theorem select {database : Nat} (hdatabase : database < count)
    (hbound : database < Bytes.u64Bound) :
    Builds now count [selecting database] c atC c (some database) := by
  intro s hs
  have hinRange : database < s.keyspace.count := by rw [hs.count_eq]; exact hdatabase
  have hselect : s.apply (selecting database) = ({ s with selected := database }, .ok ()) := by
    rw [Session.apply_eq (.inr (inVocabulary_selecting database)), action_selecting _ hbound]
    exact if_pos hinRange
  have hall : s.applyAll [selecting database] = ({ s with selected := database }, [.ok ()]) := by
    show ((s.apply (selecting database)).1, [(s.apply (selecting database)).2]) = _
    rw [hselect]
  refine ⟨?_, ?_, ?_, ?_⟩
  · rw [hall]
    exact { hs with
      selected_eq := fun other hother => by
        cases hother
        exact ⟨rfl, hdatabase⟩ }
  · rw [hall]
    simp
  · rw [hall]
    exact Keyspace.Keeps.refl _
  · rw [hall]
    exact fun _ => hdatabase

/-- **A command does what it means** to the selected database. -/
theorem single {database : Nat} {command : Command} {effect : Effect}
    (hmeaning : command.meaning now count (c database) = effect) (hverdict : effect ≠ .refused)
    (hselect : ∀ index, effect ≠ .select index) :
    Builds now count [command] c (some database) (effect.on database now c) (some database) := by
  intro s hs
  subst hmeaning
  obtain ⟨hdatabase, hrange⟩ := hs.selected_eq database rfl
  have hinRange : s.selected < s.keyspace.count := by rw [hs.count_eq, hdatabase]; exact hrange
  have hspec := Session.apply_spec command
    (.inr (inVocabulary_of_meaning hverdict)) hinRange hs.noEviction
  rw [hs.now_eq, hs.count_eq, hs.contents_eq, hdatabase] at hspec
  have hkept : (s.apply command).1.selected = database := by
    rw [hspec.selected, hdatabase]
    cases hcase : command.meaning now count (c database) with
    | select index => exact absurd hcase (hselect index)
    | _ => rfl
  refine ⟨⟨?_, ?_, ?_, ?_, ?_⟩, ?_, hspec.keeps, ?_⟩
  · exact hspec.keeps.mayEvict_eq.trans hs.noEviction
  · exact hspec.keeps.now.trans hs.now_eq
  · exact hspec.keeps.count.trans hs.count_eq
  · show (s.apply command).1.keyspace.contents now = _
    rw [hspec.contents now (UInt64.le_of_eq hs.now_eq), hs.contents_eq, hdatabase]
  · intro other hother
    cases hother
    exact ⟨hkept, hrange⟩
  · intro verdict hone
    rw [List.mem_singleton.1 hone]
    exact hspec.verdict.2 hverdict
  · intro _
    show (s.apply command).1.selected < count
    rw [hkept]
    exact hrange

end Builds

end Command

/-! ## §4. Sessions that repeat writes. -/

namespace Session

/-- A session holds some contents at the present, and the database of the last
record is selected in it. -/
structure Stands (s : Session) (now : Millis) (count : Nat) (c : Contents)
    (selected : Option Nat) : Prop where
  regular : s.keyspace.Regular
  quiet : s.keyspace.Quiet
  now_eq : s.keyspace.now = now
  count_eq : s.keyspace.count = count
  inRange : s.selected < count
  contents_eq : s.keyspace.contents now = c
  selected_eq : ∀ database, selected = some database → s.selected = database

namespace Stands

variable {s : Session} {now : Millis} {count : Nat} {c : Contents} {selected : Option Nat}

/-- A record may name its database again. -/
theorem forget (h : s.Stands now count c selected) : s.Stands now count c none :=
  { h with selected_eq := fun _ hnone => nomatch hnone }

theorem rests (h : s.Stands now count c selected) : s.Rests now count c selected where
  noEviction := h.regular.noEviction
  now_eq := h.now_eq
  count_eq := h.count_eq
  contents_eq := h.contents_eq
  selected_eq := by
    intro database hsome
    have hselected := h.selected_eq database hsome
    exact ⟨hselected, hselected ▸ h.inRange⟩

/-- **A session repeats what builds other contents.** -/
theorem build {commands : List Command} {c' : Contents} {selected' : Option Nat}
    (h : s.Stands now count c selected)
    (hbuilds : Command.Builds now count commands c selected c' selected') :
    (s.applyAll commands).1.Stands now count c' selected' := by
  have hall := hbuilds s h.rests
  exact ⟨h.regular.keeps hall.keeps, hall.keeps.quiet h.quiet, hall.rests.now_eq,
    hall.rests.count_eq, hall.inRange h.inRange, hall.rests.contents_eq,
    fun database hsome => (hall.rests.selected_eq database hsome).1⟩

theorem applySelect (h : s.Stands now count c selected) {database : Nat}
    (hdatabase : database < count) :
    (s.apply (Command.selecting database)).1.Stands now count c (some database) := by
  have hbound : database < Bytes.u64Bound := by
    have hcount := h.regular.count
    rw [h.count_eq] at hcount
    omega
  exact h.build (Command.Builds.select hdatabase hbound)

/-- **A session repeats a write.** -/
theorem applyCommand {database : Nat} (h : s.Stands now count c (some database))
    {command : Command} {effect : Effect} (hmeaning : command.meaning now count (c database) = effect)
    (hverdict : effect ≠ .refused) (hselect : ∀ index, effect ≠ .select index) :
    (s.apply command).1.Stands now count (effect.on database now c) (some database) :=
  h.build (Command.Builds.single hmeaning hverdict hselect)

/-- **Recorded writes are repeated.** -/
theorem records (h : s.Stands now count c selected) {database : Nat} (hdatabase : database < count)
    {command : Command} (hselect : ¬ command.Selects)
    (hmeaning : command.meaning now count (c database) ≠ .refused) :
    (s.applyAll (command.records selected database)).1.Stands now count
      ((command.meaning now count (c database)).on database now c) (some database) := by
  unfold Command.records
  split
  · rename_i hsame
    rw [hsame] at h
    exact h.applyCommand rfl hmeaning (Command.meaning_ne_select hselect _ _ _)
  · exact (h.applySelect hdatabase).applyCommand rfl hmeaning
      (Command.meaning_ne_select hselect _ _ _)

end Stands

/-- **Any command leaves a session that can go on**, if there is no fallback. -/
theorem Stands.step {s : Session} {now : Millis} {count : Nat} {c : Contents}
    {selected : Option Nat} (h : s.Stands now count c selected) (hfallback : s.fallback = none)
    (command : Command) :
    (s.apply command).1.Stands now count
        ((command.meaning now count (c s.selected)).on s.selected now c) none
      ∧ (s.apply command).1.fallback = none := by
  have hselected : s.selected < s.keyspace.count := by
    rw [h.count_eq]
    exact h.inRange
  have hspec := apply_spec command (.inl hfallback) hselected h.regular.noEviction
  have hcount : (s.apply command).1.keyspace.count = count := hspec.keeps.count.trans h.count_eq
  refine ⟨⟨h.regular.keeps hspec.keeps, hspec.keeps.quiet h.quiet,
    hspec.keeps.now.trans h.now_eq, hcount, ?_, ?_, fun _ hnone => nomatch hnone⟩,
    hspec.fallback.trans hfallback⟩
  · rw [← hcount]
    exact hspec.selected_lt hselected
  · rw [hspec.contents now (UInt64.le_of_eq h.now_eq), h.now_eq, h.count_eq, h.contents_eq]

/-- Commands without even a name change nothing. -/
theorem applyAll_filter (s : Session) (commands : List Command) :
    (s.applyAll (commands.filter fun command => !command.isEmpty)).1 = (s.applyAll commands).1 := by
  induction commands generalizing s with
  | nil => rfl
  | cons command commands ih =>
    cases command with
    | nil => exact ih s
    | cons name args => exact ih (s.apply (name :: args)).1

end Session

end DurableStore
