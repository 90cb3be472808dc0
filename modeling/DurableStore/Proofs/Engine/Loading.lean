/-
  DurableStore.Proofs.Engine.Loading
  ────────────────────────────────
  **WHAT A MEMORY CEILING DOES TO A LOAD.**

  A log is replayed into a keyspace that has its memory ceiling already.
  So the writes of the replay evict keys, as the writes did that were
  logged, and nobody logs that.  A command DROPS something if it evicts a
  live key other than the one that it writes (`Session.Drops`).

  The proof runs the replay beside one into a keyspace without a ceiling:

      Beside s u   — both sessions hold the same contents, and have selected
                     the same database

  A command that drops nothing keeps the two beside each other, and one that
  drops something separates them (`Beside.step_iff`).

  Main result:
    * `load_agrees_iff_noneDrops` — an engine loads its log as it would
      without a ceiling exactly if no command of the log drops anything.
-/
import DurableStore.Proofs.Engine.Records

namespace DurableStore

open Loaded

/-! ## §1. Commands that drop keys. -/

/-- The key under which a command may put an entry. -/
def Command.writtenKey? (now : Millis) (command : Command) : Option Bytes :=
  match command.action now with
  | .ok (.set request) => some request.key
  | .ok (.change key _ _) => some key
  | _ => none

/-- What is taken away and then written over is not missed. -/
theorem Contents.assign_without_iff {c : Contents} {i : Nat} {keys : List Bytes} {key : Bytes}
    {d : Option Datum} :
    (c.without i keys).assign i key d = c.assign i key d
      ↔ ∀ victim ∈ keys, victim ≠ key → c i victim = Option.none := by
  constructor
  · intro h victim hvictim hne
    have hthere := congrFun (congrFun h i) victim
    unfold assign at hthere
    rw [if_neg fun hand => hne hand.2, if_neg fun hand => hne hand.2, without_apply,
      if_pos ⟨rfl, hvictim⟩] at hthere
    exact hthere.symm
  · intro h
    funext j k
    unfold assign
    by_cases hkey : j = i ∧ k = key
    · rw [if_pos hkey, if_pos hkey]
    · rw [if_neg hkey, if_neg hkey, without_apply]
      by_cases hvictim : j = i ∧ k ∈ keys
      · rw [if_pos hvictim, hvictim.1, h k hvictim.2 fun hk => hkey ⟨hvictim.1, hk⟩]
      · rw [if_neg hvictim]

namespace Session

open Command

/-- Whether a command evicts a live key other than the one that it writes. -/
def Drops (s : Session) (command : Command) : Prop :=
  ∃ key ∈ s.victims command, command.writtenKey? s.keyspace.now ≠ some key
    ∧ s.keyspace.contents s.keyspace.now s.selected key ≠ none

/-- No command of a log drops anything when it is replayed. -/
def NoneDrops : Session → List Command → Prop
  | _, [] => True
  | s, command :: commands => ¬ s.Drops command ∧ NoneDrops (s.apply command).1 commands

/-- **The effect of a command on what its eviction leaves** is the effect without
an eviction exactly if the command drops nothing. -/
theorem effect_eq_iff (s : Session) (command : Command) (count : Nat) {c : Contents}
    (hc : c = s.keyspace.contents s.keyspace.now) :
    (command.meaning s.keyspace.now count (c s.selected)).on s.selected s.keyspace.now c
        = (command.meaning s.keyspace.now count (c s.selected)).on s.selected s.keyspace.now
            (c.without s.selected (s.victims command))
      ↔ ¬ s.Drops command := by
  -- where nothing is evicted there is nothing to compare
  by_cases hnone : s.victims command = []
  · unfold Drops
    rw [hnone]
    refine iff_of_true rfl ?_
    rintro ⟨key, hkey, -⟩
    exact absurd hkey List.not_mem_nil
  cases haction : command.action s.keyspace.now with
  | error error =>
    unfold victims at hnone
    rw [haction] at hnone
    exact absurd rfl hnone
  | ok action =>
    -- only a command that assigns to one key makes room for it
    have hwrites : ∃ key d, command.writtenKey? s.keyspace.now = some key
        ∧ command.meaning s.keyspace.now count (c s.selected) = .assign key d := by
      unfold writtenKey? meaning
      rw [victims_of_action haction] at hnone
      rw [haction]
      rcases of_victimsFor hnone with ⟨request, rfl, happlies⟩ | ⟨key, kind, edit, rfl, habsent⟩
      · rw [← hc] at happlies
        exact ⟨request.key, _, rfl, if_pos happlies⟩
      · refine ⟨key, some ⟨edit (Value.emptyOf kind), none⟩, rfl, ?_⟩
        dsimp only [Action.effect]
        rw [hc, habsent]
    obtain ⟨key, d, hkey, hmeaning⟩ := hwrites
    rw [hmeaning]
    refine eq_comm.trans (Contents.assign_without_iff.trans ?_)
    unfold Drops
    rw [hkey, ← hc]
    constructor
    · rintro h ⟨victim, hvictim, hne, hlive⟩
      exact hlive (h victim hvictim fun heq => hne (congrArg some heq.symm))
    · intro h victim hvictim hne
      by_contra hlive
      exact h ⟨victim, hvictim, fun heq => hne (Option.some.inj heq).symm, hlive⟩

/-! ## §2. Two replays beside each other. -/

/-- Two sessions at the same clock reading that have selected the same database;
in the second nothing is evicted. -/
structure Beside (s u : Session) : Prop where
  now : u.keyspace.now = s.keyspace.now
  count : u.keyspace.count = s.keyspace.count
  selected : u.selected = s.selected
  inRange : s.selected < s.keyspace.count
  fallback : s.fallback = none
  fallback' : u.fallback = none
  noEviction : u.keyspace.mayEvict = false

variable {s u : Session}

/-- **One command** keeps two sessions that hold the same beside each other, and
they go on holding the same exactly if it drops nothing. -/
theorem Beside.step (h : Beside s u) (command : Command)
    (hcontents : u.keyspace.contents u.keyspace.now = s.keyspace.contents s.keyspace.now) :
    Beside (s.apply command).1 (u.apply command).1
      ∧ ((u.apply command).1.keyspace.contents (u.apply command).1.keyspace.now
            = (s.apply command).1.keyspace.contents (s.apply command).1.keyspace.now
          ↔ ¬ s.Drops command) := by
  have hinRange : u.selected < u.keyspace.count := by
    rw [h.selected, h.count]
    exact h.inRange
  have hs := apply_evicting command (.inl h.fallback) h.inRange
  have hu := apply_spec command (.inl h.fallback') hinRange h.noEviction
  rw [hcontents, h.now, h.count, h.selected] at hu
  refine ⟨⟨?_, ?_, ?_, hs.selected_lt h.inRange, ?_, ?_, ?_⟩, ?_⟩
  · rw [hu.keeps.now, hs.evicts.now, h.now]
  · rw [hu.keeps.count, hs.evicts.count, h.count]
  · rw [hu.selected, hs.selected, h.selected]
  · rw [hs.fallback, h.fallback]
  · rw [hu.fallback, h.fallback']
  · rw [hu.keeps.mayEvict_eq, h.noEviction]
  · rw [hu.keeps.now, hs.evicts.now, hu.contents _ (UInt64.le_refl _),
      hs.contents _ (UInt64.le_refl _), hcontents, h.now, h.selected]
    exact s.effect_eq_iff command _ rfl

/-- **A whole log** leaves the same at every point exactly if none of its commands
drops anything, by induction on the log. -/
theorem Beside.run_iff {commands : List Command} (h : Beside s u)
    (hcontents : u.keyspace.contents u.keyspace.now = s.keyspace.contents s.keyspace.now) :
    (∀ n, (s.applyAll (commands.take n)).1.keyspace.dataset
        = (u.applyAll (commands.take n)).1.keyspace.dataset) ↔ s.NoneDrops commands := by
  have hdataset : ∀ {s u : Session}, Beside s u → (s.keyspace.dataset = u.keyspace.dataset
      ↔ u.keyspace.contents u.keyspace.now = s.keyspace.contents s.keyspace.now) := by
    intro s u h
    rw [Keyspace.dataset_eq_iff, h.count, and_iff_right rfl, eq_comm]
  induction commands generalizing s u with
  | nil =>
    refine iff_of_true (fun n => ?_) trivial
    rw [List.take_nil]
    exact (hdataset h).2 hcontents
  | cons command commands ih =>
    obtain ⟨hbeside, hiff⟩ := h.step command hcontents
    constructor
    · intro hall
      have hone := (hdataset hbeside).1 (hall 1)
      exact ⟨hiff.1 hone, (ih hbeside hone).1 fun n => hall (n + 1)⟩
    · rintro ⟨hfirst, hrest⟩ n
      cases n with
      | zero => exact (hdataset h).2 hcontents
      | succ n => exact (ih hbeside (hiff.2 hfirst)).2 hrest n

end Session

/-! ## §3. Loading. -/

theorem beside_start (config : Config) (now : Millis) :
    Session.Beside (Session.start (emptyKeyspace config now) none)
      (Session.start (emptyKeyspace config.unlimited now) none) where
  now := rfl
  count := rfl
  selected := rfl
  inRange := emptyKeyspace_pos config now
  fallback := rfl
  fallback' := rfl
  noEviction := rfl

/-- **When loading evicts nothing that matters.**  Where there is a log, whatever
it holds and whatever the ceiling and the policy are, an engine opens with
what the log replays.  At every point of the log that is what a replay into
a keyspace without a ceiling gives — if and only if no command of the log
evicts a live key other than the one that it writes. -/
theorem load_agrees_iff_noneDrops {config : Config} (happend : config.appendOnly = true) {d : Disk}
    {id : Nat} {bytes : Bytes}
    (hlog : d.find (logPath config) = .ok (.file id bytes)) (now : Millis) (history : String) :
    (∃ e, Engine.open? config d now history none = .ok e
        ∧ e.keyspace.dataset = (replayed config now none bytes).keyspace.dataset)
      ∧ ((∀ n, ((Session.start (emptyKeyspace config now) none).applyAll
              ((Replay.ofBytes bytes).commands.take n)).1.keyspace.dataset
            = ((Session.start (emptyKeyspace config.unlimited now) none).applyAll
              ((Replay.ofBytes bytes).commands.take n)).1.keyspace.dataset)
          ↔ (Session.start (emptyKeyspace config now) none).NoneDrops
              (Replay.ofBytes bytes).commands) := by
  obtain ⟨l, hholds⟩ := Disk.holds_of_find hlog
  obtain ⟨e, hopen, hkeyspace, -⟩ := Engine.open?_of_log happend hholds now history none
  refine ⟨⟨e, hopen, ?_⟩, (beside_start config now).run_iff ?_⟩
  · rw [hkeyspace]
    rfl
  · exact (contents_emptyKeyspace config.unlimited now now).trans
      (contents_emptyKeyspace config now now).symm

/-- A list is pushed to, and again after many other writes. -/
def splitList : List Command :=
  [[Bytes.ofString "RPUSH", Bytes.ofString "l", Bytes.ofString "a"]]
    ++ List.replicate 49 [Bytes.ofString "SET", Bytes.ofString "x", Bytes.ofString "1"]
    ++ [[Bytes.ofString "RPUSH", Bytes.ofString "l", Bytes.ofString "b"]]

/-- Without a ceiling any log is loaded as it is. -/
theorem load_agrees_iff_noneDrops_splitList :
    (∃ e, Engine.open? smallConfig (Disk.ofLog splitList) 50 "" none = .ok e
        ∧ e.keyspace.dataset
          = (replayed smallConfig 50 none (splitList.flatMap Wire.encode)).keyspace.dataset)
      ∧ ((∀ n, ((Session.start (emptyKeyspace smallConfig 50) none).applyAll
              ((Replay.ofBytes (splitList.flatMap Wire.encode)).commands.take n)).1.keyspace.dataset
            = ((Session.start (emptyKeyspace smallConfig.unlimited 50) none).applyAll
              ((Replay.ofBytes (splitList.flatMap Wire.encode)).commands.take n)).1.keyspace.dataset)
          ↔ (Session.start (emptyKeyspace smallConfig 50) none).NoneDrops
              (Replay.ofBytes (splitList.flatMap Wire.encode)).commands) :=
  load_agrees_iff_noneDrops rfl rfl 50 ""

/-- **Under a ceiling half of the list is lost**: the key is evicted between the
two, and made anew by the second. -/
theorem load_splits_list :
    (Engine.open? tightConfig (Disk.ofLog splitList) 50 "" none).toOption.map
        (fun e => e.keyspace.dataset)
      = some [[(Bytes.ofString "l", .list [Bytes.ofString "b"], none),
          (Bytes.ofString "x", .string (Bytes.ofString "1"), none)]]
    ∧ (replayed tightConfig.unlimited 50 none (splitList.flatMap Wire.encode)).keyspace.dataset
      = [[(Bytes.ofString "l", .list [Bytes.ofString "a", Bytes.ofString "b"], none),
          (Bytes.ofString "x", .string (Bytes.ofString "1"), none)]] := by
  refine ⟨?_, ?_⟩
  · decide +kernel
  · decide +kernel

end DurableStore
