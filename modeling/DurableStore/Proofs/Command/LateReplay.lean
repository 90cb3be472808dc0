/-
  DurableStore.Proofs.Command.LateReplay
  ────────────────────────────────
  **REPLAYING A LOG AT A LATER TIME.**

  A log holds the commands but not the readings of the clock at which they
  were carried out, and a replay carries all of them out at one later time
  `t`.  Deadlines in a log are absolute, so most commands do the same then.
  The exception is a command that found a key alive whose deadline has
  passed by `t`: in the replay that key LAPSES, and the command finds
  nothing.  No removal of the key was ever logged.

      Action.Stale t found   — the commands for which this shows at `t`

  A replay agrees with the original at every point of the log exactly if no
  command of the log is stale (`replay_agrees_iff`).
-/
import DurableStore.Engine.Opening
import DurableStore.Proofs.Command.Meaning

namespace DurableStore

namespace Command

/-! ## §1. Absolute deadlines. -/

/-- Whether no option of a `SET` counts its deadline from now. -/
def absoluteOptions : List Bytes → Bool
  | [] => true
  | name :: rest =>
    match SetOption.ofName? name with
    | some (.deadline form) =>
      match rest with
      | [] => true
      | _ :: rest => !form.fromNow && absoluteOptions rest
    | _ => absoluteOptions rest

/-- Whether no deadline of a command is counted from now. -/
def isAbsolute : Command → Bool
  | [] => true
  | name :: args =>
    match Verb.ofName? name with
    | some .set => absoluteOptions (args.drop 2)
    | some (.expire form) => !form.fromNow
    | _ => true

theorem resolve_of_absolute {form : DeadlineForm} (h : form.fromNow = false) (now now' : Millis)
    (amount : Nat) : form.resolve now amount = form.resolve now' amount := by
  unfold DeadlineForm.resolve
  rw [h]
  rfl

theorem withOptions_of_absolute {options : List Bytes} (h : absoluteOptions options = true)
    (now now' : Millis) (request : SetRequest) :
    SetRequest.withOptions now options request = SetRequest.withOptions now' options request := by
  -- on the options, as `absoluteOptions` goes through them: a deadline takes two, the others one
  induction options using absoluteOptions.induct generalizing request with
  | case1 => rfl
  | case2 name form hname =>
    rw [SetRequest.withOptions.eq_def now, SetRequest.withOptions.eq_def now']
    dsimp only
    rw [hname]
  | case3 name form hname amount rest ih =>
    unfold absoluteOptions at h
    rw [hname] at h
    obtain ⟨hform, hrest⟩ := (Bool.and_eq_true _ _).mp h
    rw [Bool.not_eq_true'] at hform
    rw [SetRequest.withOptions.eq_def now, SetRequest.withOptions.eq_def now']
    dsimp only
    rw [hname]
    dsimp only
    cases parseNat amount with
    | error error => rfl
    | ok n =>
      show SetRequest.withOptions now rest _ = SetRequest.withOptions now' rest _
      rw [resolve_of_absolute hform now now']
      exact ih hrest _
  | case4 name rest hname ih =>
    have hrest : absoluteOptions rest = true := by
      unfold absoluteOptions at h
      split at h
      · rename_i hdeadline
        exact absurd hdeadline (hname _)
      · exact h
    rw [SetRequest.withOptions.eq_def now, SetRequest.withOptions.eq_def now']
    dsimp only
    cases hoption : SetOption.ofName? name with
    | none => rfl
    | some option =>
      cases option with
      | deadline form => exact absurd hoption (hname form)
      | ifAbsent => exact ih hrest _
      | ifPresent => exact ih hrest _
      | answerOld => exact ih hrest _
      | keepDeadline => exact ih hrest _

/-- Only `SET` and the commands that set a deadline look at the clock. -/
theorem Verb.action_congr {verb : Verb} (hset : verb ≠ .set) (hexpire : ∀ form, verb ≠ .expire form)
    (name : String) (args : List Bytes) (now now' : Millis) :
    verb.action name now args = verb.action name now' args := by
  cases verb with
  | set => exact absurd rfl hset
  | expire form => exact absurd rfl (hexpire form)
  | _ => unfold Verb.action; split <;> simp_all

/-- **An absolute command reads the same at every time.** -/
theorem action_of_absolute {command : Command} (h : command.isAbsolute = true) (now now' : Millis) :
    command.action now = command.action now' := by
  cases command with
  | nil => rfl
  | cons name args =>
    unfold action
    unfold isAbsolute at h
    dsimp only at h ⊢
    cases hverb : Verb.ofName? name with
    | none => rfl
    | some verb =>
      rw [hverb] at h
      dsimp only
      -- `SET` and the deadlines read the clock, and none of the others does
      cases verb with
      | set =>
        have hparse : SetRequest.parse now args = SetRequest.parse now' args := by
          match args, h with
          | [], _ => rfl
          | [_], _ => rfl
          | key :: value :: options, h => exact withOptions_of_absolute h now now' _
        show (SetRequest.parse now args >>= fun request => pure (Action.set request))
          = (SetRequest.parse now' args >>= fun request => pure (Action.set request))
        rw [hparse]
      | expire form =>
        rw [Bool.not_eq_true'] at h
        match args with
        | [] => rfl
        | [_] => rfl
        | [key, amount] =>
          unfold Verb.action
          dsimp only
          cases parseNat amount with
          | error error => rfl
          | ok n =>
            show Except.ok (Action.expire key (some (form.resolve now n)))
              = Except.ok (Action.expire key (some (form.resolve now' n)))
            rw [resolve_of_absolute h now now']
        | _ :: _ :: _ :: _ => rfl
      | _ => refine Verb.action_congr ?_ ?_ _ _ _ _ <;> simp

/-! ## §2. Stale commands. -/

/-- A key is found alive whose deadline has passed by `t`. -/
def Lapses (t : Millis) (found : Option Datum) : Prop := ∃ d, found = some d ∧ d.isLive t = false

/-- Whether a `SET` leaves another datum at `t` when its key lapses: its own
deadline has not passed by then, and it is either only the original that
writes, or only the replay. -/
def SetRequest.Diverges (request : SetRequest) (t : Millis) : Prop :=
  (⟨.string request.value, request.expiresAt⟩ : Datum).isLive t = true
    ∧ request.ifPresent ≠ (request.ifAbsent || request.keepDeadline)

/-- Whether a command that was read leaves other contents at `t` when what it
finds lapses. -/
def Action.Stale (t : Millis) (found : Bytes → Option Datum) : Action → Prop
  | .set request => Lapses t (found request.key) ∧ request.Diverges t
  | .change key _ _ => Lapses t (found key)
  | .expire key expiresAt =>
    ∃ d, found key = some d ∧ d.isLive t = false
      ∧ d.value.isEmptyCollection = false ∧ (⟨d.value, expiresAt⟩ : Datum).isLive t = true
  | _ => False

/-- Whether a command is stale at `t`. -/
def Stale (t now : Millis) (found : Bytes → Option Datum) (command : Command) : Prop :=
  ∃ action, command.action now = .ok action ∧ action.Stale t found

end Command

/-! ## §3. One command. -/

namespace Command

/-- What a later reader finds of what was found. -/
def foundLater (t : Millis) (found : Bytes → Option Datum) : Bytes → Option Datum :=
  fun key => (found key).filter (Datum.isLive t)

theorem foundLater_of_not_lapses {t : Millis} {found : Bytes → Option Datum} {key : Bytes}
    (h : ¬ Lapses t (found key)) : foundLater t found key = found key := by
  unfold foundLater
  cases hfound : found key with
  | none => rfl
  | some d =>
    cases hlive : d.isLive t with
    | true => rw [Option.filter_some, if_pos hlive]
    | false => exact absurd ⟨d, hfound, hlive⟩ h

theorem foundLater_of_lapses {t : Millis} {found : Bytes → Option Datum} {key : Bytes}
    (h : Lapses t (found key)) : foundLater t found key = none := by
  obtain ⟨d, hfound, hlapsed⟩ := h
  unfold foundLater
  rw [hfound, Option.filter_some, if_neg (by rw [hlapsed]; decide)]

/-- A datum with a deadline that has passed is not seen. -/
theorem filter_of_lapsed {t : Millis} {d : Datum} (h : d.isLive t = false) (value : Value) :
    (some (⟨value, d.expiresAt⟩ : Datum)).filter (Datum.isLive t) = none := by
  have hsame : (⟨value, d.expiresAt⟩ : Datum).isLive t = d.isLive t := rfl
  rw [Option.filter_some, hsame, if_neg (by rw [h]; decide)]

theorem filter_keptDatum_of_lapsed {t : Millis} {d : Datum} (h : d.isLive t = false)
    (value : Value) :
    (keptDatum ⟨value, d.expiresAt⟩).filter (Datum.isLive t) = none := by
  unfold keptDatum
  split
  · rfl
  · exact filter_of_lapsed h value

variable {t : Millis} {i count : Nat} {c : Contents} {found : Bytes → Option Datum}

/-- What a `SET` of the original leaves when its key lapses: with `NX` it does
not write, and with `KEEPTTL` it writes what lapses too. -/
theorem set_on_of_lapsed {request : SetRequest} {d : Datum} (hc : c i request.key = none)
    (hfound : found request.key = some d) (hlapsed : d.isLive t = false) :
    ((Action.set request).effect count found).on i t c
      = c.assign i request.key (if request.ifAbsent || request.keepDeadline then none
          else (some (⟨.string request.value, request.expiresAt⟩ : Datum)).filter (Datum.isLive t)) := by
  have hnothing := Contents.assign_self hc
  have hdatum : (some (request.datum (some d))).filter (Datum.isLive t)
      = if request.keepDeadline then none
        else (some (⟨.string request.value, request.expiresAt⟩ : Datum)).filter (Datum.isLive t) := by
    unfold SetRequest.datum
    cases request.keepDeadline with
    | true => exact filter_of_lapsed hlapsed _
    | false => rfl
  dsimp only [Action.effect]
  rw [hfound, SetRequest.appliesTo_some]
  cases request.ifAbsent with
  | true =>
    rw [if_neg (by decide), Bool.true_or, if_pos rfl, hnothing]
    rfl
  | false =>
    rw [if_pos (by decide), Bool.false_or, ← hdatum]
    rfl

theorem set_agrees_iff (hc : c i = foundLater t found) (request : SetRequest) :
    ((Action.set request).effect count found).on i t c
        = ((Action.set request).effect count (foundLater t found)).on i t c
      ↔ ¬ (Action.set request).Stale t found := by
  by_cases hlapses : Lapses t (found request.key)
  · have hlater := foundLater_of_lapses hlapses
    have hthere : c i request.key = none := by rw [hc, hlater]
    obtain ⟨d, hfound, hlapsed⟩ := hlapses
    have hstale : (Action.set request).Stale t found ↔ request.Diverges t :=
      and_iff_right ⟨d, hfound, hlapsed⟩
    rw [hstale, set_on_of_lapsed hthere hfound hlapsed, set_on_of_absent hthere hlater,
      Contents.assign_eq_iff]
    unfold SetRequest.Diverges
    rw [Option.filter_some]
    cases (⟨.string request.value, request.expiresAt⟩ : Datum).isLive t <;>
      cases request.ifPresent <;> cases request.ifAbsent <;> cases request.keepDeadline <;> simp
  · dsimp only [Action.effect]
    rw [foundLater_of_not_lapses hlapses]
    exact ⟨fun _ hstale => hlapses hstale.1, fun _ => rfl⟩

theorem change_agrees_iff (hc : c i = foundLater t found) (key : Bytes) (kind : Kind)
    (edit : Value → Value) :
    ((Action.change key kind edit).effect count found).on i t c
        = ((Action.change key kind edit).effect count (foundLater t found)).on i t c
      ↔ ¬ (Action.change key kind edit).Stale t found := by
  by_cases hlapses : Lapses t (found key)
  · have hlater := foundLater_of_lapses hlapses
    have hthere : c i key = none := by rw [hc, hlater]
    have hstale : (Action.change key kind edit).Stale t found := hlapses
    refine iff_of_false ?_ (not_not_intro hstale)
    obtain ⟨d, hfound, hlapsed⟩ := hlapses
    -- the original changes what lapses, or refuses to; the replay begins a new collection
    have horiginal : ((Action.change key kind edit).effect count found).on i t c = c := by
      dsimp only [Action.effect]
      rw [hfound]
      dsimp only
      split
      · show c.assign i key _ = c
        rw [filter_keptDatum_of_lapsed hlapsed, Contents.assign_self hthere]
      · rfl
    have hreplay : ((Action.change key kind edit).effect count (foundLater t found)).on i t c
        = c.assign i key (some ⟨edit (Value.emptyOf kind), none⟩) := by
      dsimp only [Action.effect]
      rw [hlater]
      rfl
    rw [horiginal, hreplay, Contents.eq_assign_iff, hthere]
    exact fun h => nomatch h
  · dsimp only [Action.effect]
    rw [foundLater_of_not_lapses hlapses]
    exact ⟨fun _ hstale => hlapses hstale, fun _ => rfl⟩

theorem expire_agrees_iff (hc : c i = foundLater t found) (key : Bytes)
    (expiresAt : Option Millis) :
    ((Action.expire key expiresAt).effect count found).on i t c
        = ((Action.expire key expiresAt).effect count (foundLater t found)).on i t c
      ↔ ¬ (Action.expire key expiresAt).Stale t found := by
  by_cases hlapses : Lapses t (found key)
  · have hlater := foundLater_of_lapses hlapses
    have hthere : c i key = none := by rw [hc, hlater]
    obtain ⟨d, hfound, hlapsed⟩ := hlapses
    have horiginal : ((Action.expire key expiresAt).effect count found).on i t c
        = c.assign i key ((keptDatum ⟨d.value, expiresAt⟩).filter (Datum.isLive t)) := by
      dsimp only [Action.effect]
      rw [hfound]
      rfl
    have hreplay : ((Action.expire key expiresAt).effect count (foundLater t found)).on i t c
      = c := by
      dsimp only [Action.effect]
      rw [hlater]
      rfl
    -- the original sets the deadline, the replay finds nothing: they differ if the datum then shows
    have hstale : (Action.expire key expiresAt).Stale t found
        ↔ (keptDatum ⟨d.value, expiresAt⟩).filter (Datum.isLive t) ≠ none := by
      unfold Action.Stale keptDatum
      constructor
      · rintro ⟨d', hfound', -, hkept, hlive⟩
        obtain rfl := Option.some.inj (hfound.symm.trans hfound')
        rw [if_neg (by rw [hkept]; decide), Option.filter_some, if_pos hlive]
        exact fun h => nomatch h
      · intro hseen
        refine ⟨d, hfound, hlapsed, ?_⟩
        split at hseen
        · exact absurd rfl hseen
        · rename_i hkept
          rw [Option.filter_some] at hseen
          refine ⟨Bool.eq_false_iff.2 hkept, ?_⟩
          by_cases hlive : (⟨d.value, expiresAt⟩ : Datum).isLive t = true
          · exact hlive
          · rw [if_neg hlive] at hseen
            exact absurd rfl hseen
    rw [horiginal, hreplay, hstale, not_not, eq_comm, Contents.eq_assign_iff, hthere, eq_comm]
  · dsimp only [Action.effect]
    rw [foundLater_of_not_lapses hlapses]
    refine ⟨?_, fun _ => rfl⟩
    rintro - ⟨d, hfound, hlapsed, -⟩
    exact hlapses ⟨d, hfound, hlapsed⟩

/-- **A command leaves the same contents at `t` exactly if it is not stale.** -/
theorem agrees_iff (hc : c i = foundLater t found) (action : Action) :
    (action.effect count found).on i t c = (action.effect count (foundLater t found)).on i t c
      ↔ ¬ action.Stale t found := by
  cases action with
  | set request => exact set_agrees_iff hc request
  | change key kind edit => exact change_agrees_iff hc key kind edit
  | expire key expiresAt => exact expire_agrees_iff hc key expiresAt
  | select index => exact ⟨fun _ h => h, fun _ => rfl⟩
  | remove keys => exact ⟨fun _ h => h, fun _ => rfl⟩
  | clear => exact ⟨fun _ h => h, fun _ => rfl⟩
  | clearAll => exact ⟨fun _ h => h, fun _ => rfl⟩
  | swap a b => exact ⟨fun _ h => h, fun _ => rfl⟩

/-- Whatever lapses, the same database is selected. -/
theorem selection_eq (action : Action) (found found' : Bytes → Option Datum) (selected : Nat) :
    (action.effect count found).selection selected
      = (action.effect count found').selection selected := by
  cases action with
  | set request =>
    dsimp only [Action.effect]
    split <;> split <;> rfl
  | change key kind edit =>
    have hsame : ∀ found, ((Action.change key kind edit).effect count found).selection selected
        = selected := by
      intro found
      dsimp only [Action.effect]
      split
      · split <;> rfl
      · rfl
    rw [hsame, hsame]
  | expire key expiresAt =>
    dsimp only [Action.effect]
    split <;> split <;> rfl
  | select index => rfl
  | remove keys => rfl
  | clear => rfl
  | clearAll => rfl
  | swap a b => rfl

end Command

/-! ## §4. Runs. -/

namespace Session

open Command

/-- The session at another clock reading. -/
def atTime (s : Session) (now : Millis) : Session :=
  { s with keyspace := s.keyspace.atTime now }

/-- Carries out the commands of a log, each at its reading of the clock. -/
def applyTimed (s : Session) : List (Millis × Command) → Session
  | [] => s
  | (now, command) :: log => ((s.atTime now).apply command).1.applyTimed log

/-- No command of a log is stale at `t` when it is carried out. -/
def NoneStale (t : Millis) : Session → List (Millis × Command) → Prop
  | _, [] => True
  | s, (now, command) :: log =>
    ¬ command.Stale t now (s.keyspace.contents now s.selected)
      ∧ NoneStale t ((s.atTime now).apply command).1 log

/-- A session and the replay of its commands at `t`: they may differ in what
they hold, but nothing is evicted and the same database is selected. -/
structure Paired (t : Millis) (s replay : Session) : Prop where
  selected : replay.selected = s.selected
  count : replay.keyspace.count = s.keyspace.count
  inRange : s.selected < s.keyspace.count
  noEviction : s.keyspace.mayEvict = false
  noEviction' : replay.keyspace.mayEvict = false
  now : replay.keyspace.now = t

variable {t now : Millis} {s replay : Session} {command : Command}

/-- The effects of one command in a session and in its replay. -/
theorem Paired.performs (h : Paired t s replay) (now : Millis)
    (hvocabulary : command.InVocabulary) :
    (s.atTime now).Performs ((s.atTime now).apply command)
        (command.meaning now s.keyspace.count (s.keyspace.contents now s.selected))
      ∧ replay.Performs (replay.apply command)
        (command.meaning t s.keyspace.count (replay.keyspace.contents t s.selected)) := by
  have hinRange : replay.selected < replay.keyspace.count := by
    rw [h.selected, h.count]
    exact h.inRange
  have horiginal := apply_spec (s := s.atTime now) command (.inr hvocabulary)
    h.inRange h.noEviction
  have hreplay := apply_spec (s := replay) command (.inr hvocabulary)
    hinRange h.noEviction'
  rw [h.now, h.count, h.selected] at hreplay
  exact ⟨horiginal, hreplay⟩

/-- A command keeps a session and its replay paired. -/
theorem Paired.step (h : Paired t s replay) (now : Millis) (hvocabulary : command.InVocabulary)
    (habsolute : command.isAbsolute = true) :
    Paired t ((s.atTime now).apply command).1 (replay.apply command).1 := by
  obtain ⟨horiginal, hreplay⟩ := h.performs now hvocabulary
  refine ⟨?_, ?_, horiginal.selected_lt h.inRange, ?_, ?_, ?_⟩
  · rw [horiginal.selected, hreplay.selected, h.selected]
    show (command.meaning t _ _).selection s.selected = (command.meaning now _ _).selection s.selected
    unfold meaning
    rw [action_of_absolute habsolute t now]
    cases command.action now with
    | ok action => exact selection_eq action _ _ _
    | error error => rfl
  · rw [horiginal.keeps.count, hreplay.keeps.count, h.count]
    rfl
  · rw [horiginal.keeps.mayEvict_eq]
    exact h.noEviction
  · rw [hreplay.keeps.mayEvict_eq]
    exact h.noEviction'
  · rw [hreplay.keeps.now]
    exact h.now

/-- **A command keeps the contents at `t` equal exactly if it is not stale.** -/
theorem Paired.step_agrees_iff (h : Paired t s replay) (hvocabulary : command.InVocabulary)
    (habsolute : command.isAbsolute = true) (hnow : now ≤ t)
    (hcontents : replay.keyspace.contents t = s.keyspace.contents t) :
    (replay.apply command).1.keyspace.contents t
        = ((s.atTime now).apply command).1.keyspace.contents t
      ↔ ¬ command.Stale t now (s.keyspace.contents now s.selected) := by
  obtain ⟨horiginal, hreplay⟩ := h.performs now hvocabulary
  have hfound : s.keyspace.contents t s.selected
      = foundLater t (s.keyspace.contents now s.selected) := by
    rw [← s.keyspace.live_contents hnow]
    rfl
  have hsame : ((s.atTime now).keyspace.contents t) = s.keyspace.contents t := rfl
  have hselected : (s.atTime now).selected = s.selected := rfl
  -- both sessions do what the command means to them, so only the two meanings are compared
  rw [horiginal.contents t hnow, hreplay.contents t (UInt64.le_of_eq h.now), h.selected, hsame,
    hselected, hcontents, hfound]
  unfold meaning Stale
  rw [action_of_absolute habsolute t now]
  cases command.action now with
  | error error =>
    refine iff_of_true rfl ?_
    rintro ⟨action, hread, -⟩
    cases hread
  | ok action =>
    have hstale : (∃ action', Except.ok (ε := CommandError) action = .ok action'
        ∧ action'.Stale t (s.keyspace.contents now s.selected))
        ↔ action.Stale t (s.keyspace.contents now s.selected) := by
      constructor
      · rintro ⟨action', hread, haction⟩
        cases hread
        exact haction
      · exact fun haction => ⟨action, rfl, haction⟩
    rw [hstale, eq_comm]
    exact agrees_iff hfound action

/-- The commands of a log keep a session and its replay paired. -/
theorem Paired.run {log : List (Millis × Command)} (h : Paired t s replay)
    (hvocabulary : ∀ p ∈ log, p.2.InVocabulary) (habsolute : ∀ p ∈ log, p.2.isAbsolute = true) :
    Paired t (s.applyTimed log) (replay.applyAll (log.map Prod.snd)).1 := by
  induction log generalizing s replay with
  | nil => exact h
  | cons p log ih =>
    obtain ⟨hvocabulary₁, hvocabulary₂⟩ := List.forall_mem_cons.1 hvocabulary
    obtain ⟨habsolute₁, habsolute₂⟩ := List.forall_mem_cons.1 habsolute
    exact ih (h.step p.1 hvocabulary₁ habsolute₁) hvocabulary₂ habsolute₂

/-- **A replay agrees at every point of a log exactly if no command is stale.** -/
theorem Paired.run_agrees_iff {log : List (Millis × Command)} (h : Paired t s replay)
    (hvocabulary : ∀ p ∈ log, p.2.InVocabulary) (habsolute : ∀ p ∈ log, p.2.isAbsolute = true)
    (hnow : ∀ p ∈ log, p.1 ≤ t) (hcontents : replay.keyspace.contents t = s.keyspace.contents t) :
    (∀ n, (replay.applyAll ((log.take n).map Prod.snd)).1.keyspace.contents t
        = (s.applyTimed (log.take n)).keyspace.contents t)
      ↔ NoneStale t s log := by
  -- agreement after the first command is agreement at the start of the rest
  induction log generalizing s replay with
  | nil =>
    refine iff_of_true (fun n => ?_) trivial
    rw [List.take_nil]
    exact hcontents
  | cons p log ih =>
    obtain ⟨now, command⟩ := p
    obtain ⟨hvocabulary₁, hvocabulary₂⟩ := List.forall_mem_cons.1 hvocabulary
    obtain ⟨habsolute₁, habsolute₂⟩ := List.forall_mem_cons.1 habsolute
    obtain ⟨hnow₁, hnow₂⟩ := List.forall_mem_cons.1 hnow
    have hstep := h.step_agrees_iff hvocabulary₁ habsolute₁ hnow₁ hcontents
    have hpaired := h.step now hvocabulary₁ habsolute₁
    constructor
    · intro hall
      have hfirst := hstep.1 (hall 1)
      exact ⟨hfirst, (ih hpaired hvocabulary₂ habsolute₂ hnow₂ (hall 1)).1 fun n => hall (n + 1)⟩
    · rintro ⟨hfirst, hrest⟩ n
      cases n with
      | zero => exact hcontents
      | succ n => exact (ih hpaired hvocabulary₂ habsolute₂ hnow₂ (hstep.2 hfirst)).2 hrest n

end Session

/-! ## §5. Logs. -/

open Session in
theorem paired_start {config : Config} {t : Millis} (start : Millis)
    (fallback fallback' : Option Fallback)
    (hevict : (Loaded.emptyKeyspace config t).mayEvict = false) :
    Paired t (Session.start (Loaded.emptyKeyspace config start) fallback)
      (Session.start (Loaded.emptyKeyspace config t) fallback') := by
  refine ⟨rfl, rfl, ?_, hevict, hevict, rfl⟩
  show 0 < (List.replicate (max config.databases 1) Database.empty).length
  rw [List.length_replicate]
  omega

/-- **When a log can be replayed later.**  Where nothing is evicted, replaying a
log of absolute commands at a time `t` that is not before any of its readings
gives, at every point of the log, the dataset that the original has live at
`t` — if and only if no command of the log is stale at `t`. -/
theorem replay_agrees_iff_noneStale (config : Config) (start : Millis) {t : Millis}
    (fallback fallback' : Option Fallback) {log : List (Millis × Command)}
    (hevict : (Loaded.emptyKeyspace config t).mayEvict = false)
    (hvocabulary : ∀ p ∈ log, p.2.InVocabulary) (habsolute : ∀ p ∈ log, p.2.isAbsolute = true)
    (hnow : ∀ p ∈ log, p.1 ≤ t) :
    (∀ n,
      ((Session.start (Loaded.emptyKeyspace config t) fallback').applyAll
          ((log.take n).map Prod.snd)).1.keyspace.dataset
        = (((Session.start (Loaded.emptyKeyspace config start) fallback).applyTimed
            (log.take n)).keyspace.atTime t).dataset)
      ↔ (Session.start (Loaded.emptyKeyspace config start) fallback).NoneStale t log := by
  have hpaired := paired_start start fallback fallback' hevict
  have hcontents : (Loaded.emptyKeyspace config t).contents t
      = (Loaded.emptyKeyspace config start).contents t := by
    rw [Keyspace.contents_of_replicate rfl, Keyspace.contents_of_replicate rfl]
  rw [← hpaired.run_agrees_iff hvocabulary habsolute hnow hcontents]
  refine forall_congr' fun n => ?_
  have hrun := hpaired.run (fun p (hp : p ∈ log.take n) => hvocabulary p (List.mem_of_mem_take hp))
    (fun p hp => habsolute p (List.mem_of_mem_take hp))
  rw [Keyspace.dataset_eq_iff, hrun.now]
  exact and_iff_right hrun.count

/-- A key written with a deadline and made persistent before it. -/
def persistedLog : List (Millis × Command) :=
  [(50, [Bytes.ofString "SET", Bytes.ofString "k", Bytes.ofString "v", Bytes.ofString "PXAT",
      Bytes.ofString "100"]),
    (60, [Bytes.ofString "PERSIST", Bytes.ofString "k"])]

/-- Before the deadline the log can be replayed. -/
theorem replay_agrees_iff_noneStale_persisted :
    (∀ n,
      ((Session.start (Loaded.emptyKeyspace Config.default 90) none).applyAll
          ((persistedLog.take n).map Prod.snd)).1.keyspace.dataset
        = (((Session.start (Loaded.emptyKeyspace Config.default 50) none).applyTimed
            (persistedLog.take n)).keyspace.atTime 90).dataset)
      ↔ (Session.start (Loaded.emptyKeyspace Config.default 50) none).NoneStale 90 persistedLog :=
  replay_agrees_iff_noneStale Config.default 50 none none (by decide +kernel) (by decide +kernel)
    (by decide +kernel) (by decide +kernel)

/-- **After the deadline it cannot**: the replay sets a deadline that has passed
already, finds no key to make persistent, and loses it. -/
theorem replay_loses_persisted :
    (persistedLog.map Prod.fst).Pairwise (· ≤ ·) ∧ (∀ p ∈ persistedLog, p.1 ≤ 200)
      ∧ (∀ p ∈ persistedLog, p.2.InVocabulary ∧ p.2.isAbsolute = true)
      ∧ ((Session.start (Loaded.emptyKeyspace { Config.default with databases := 1 } 200) none).applyAll
          (persistedLog.map Prod.snd)).1.keyspace.dataset = [[]]
      ∧ (((Session.start (Loaded.emptyKeyspace { Config.default with databases := 1 } 50)
            none).applyTimed persistedLog).keyspace.atTime 200).dataset
          = [[(Bytes.ofString "k", .string (Bytes.ofString "v"), none)]] := by
  refine ⟨?_, ?_, ?_, ?_, ?_⟩
  · decide
  · decide +kernel
  · decide +kernel
  · decide +kernel
  · decide +kernel

end DurableStore
