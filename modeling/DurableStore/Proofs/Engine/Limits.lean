/-
  DurableStore.Proofs.Engine.Limits
  ────────────────────────────────
  **WHAT AN ENGINE HOLDS UNDER ANY LIMITS.**

  A memory ceiling takes keys away, while a log is loaded and with every
  write; it never makes anything new.  So what holds of every datum, and is
  not spoiled by a command, holds under any ceiling:

      c.Within c'            — whatever is in `c` is in `c'`
      Held config now P ks   — a keyspace under the limits of a configuration,
                               every datum of which has a property

  An effect on less leaves less (`Within.on`), and that is all there is to
  it.

  Main results: `held_of_load`, `Held.execute`.
-/
import DurableStore.Proofs.Engine.Records
import DurableStore.Proofs.Snapshot.Restore
import DurableStore.Proofs.Snapshot.Scores

namespace DurableStore

open Loaded

/-! ## §1. Less. -/

namespace Contents

variable {c c' c'' : Contents} {i : Nat}

/-- Whatever is in some contents is in others too. -/
def Within (c c' : Contents) : Prop := ∀ i key d, c i key = some d → c' i key = some d

theorem within_refl (c : Contents) : c.Within c := fun _ _ _ h => h

theorem within_without (c : Contents) (i : Nat) (keys : List Bytes) :
    (c.without i keys).Within c := by
  intro j k d h
  rw [without_apply] at h
  split at h
  · cases h
  · exact h

theorem Within.assign (h : c.Within c') (i : Nat) (key : Bytes) (d : Option Datum) :
    (c.assign i key d).Within (c'.assign i key d) := by
  intro j k d' hfound
  unfold Contents.assign at hfound ⊢
  split
  · rename_i hsame
    rw [if_pos hsame] at hfound
    exact hfound
  · rename_i hother
    rw [if_neg hother] at hfound
    exact h j k d' hfound

/-- **An effect on less leaves less.** -/
theorem Within.on (h : c.Within c') (i : Nat) (t : Millis) (effect : Effect) :
    (effect.on i t c).Within (effect.on i t c') := by
  -- an effect says for each key what is there after it, from what was there before or from nothing
  cases effect with
  | refused | nothing | select => exact h
  | assign key d => exact h.assign i key _
  | remove keys =>
    intro j k d hfound
    dsimp only [Effect.on] at hfound ⊢
    rw [without_apply] at hfound ⊢
    split at hfound
    · cases hfound
    · rename_i hkept
      rw [if_neg hkept]
      exact h j k d hfound
  | clear =>
    intro j k d hfound
    dsimp only [Effect.on, Contents.clear] at hfound ⊢
    split at hfound
    · cases hfound
    · rename_i hkept
      rw [if_neg hkept]
      exact h j k d hfound
  | clearAll => exact within_refl _
  | swap a b =>
    intro j k d hfound
    dsimp only [Effect.on, Contents.swap] at hfound ⊢
    split at hfound
    · rename_i hb
      rw [if_pos hb]
      exact h a k d hfound
    · rename_i hb
      rw [if_neg hb]
      split at hfound
      · rename_i ha
        rw [if_pos ha]
        exact h b k d hfound
      · rename_i ha
        rw [if_neg ha]
        exact h j k d hfound

theorem Within.each {P : Bytes → Datum → Prop} (h : c.Within c') (heach : c'.Each P) : c.Each P :=
  fun i key d hfound => heach i key d (h i key d hfound)

/-- Contents with less in them have the same keys exactly if they are the same. -/
theorem Within.keys_iff (h : c.Within c') :
    (∀ i key, c' i key ≠ Option.none → c i key ≠ Option.none) ↔ c' = c := by
  constructor
  · intro hkeys
    funext i key
    cases hfound : c i key with
    | some d => exact h i key d hfound
    | none =>
      by_contra hne
      exact hkeys i key hne hfound
  · rintro rfl i key hne
    exact hne

end Contents

/-! ## §2. Keyspaces. -/

/-- A keyspace under the limits of a configuration, every datum of which has a property. -/
structure Held (config : Config) (now : Millis) (P : Bytes → Datum → Prop) (ks : Keyspace) :
    Prop where
  now_eq : ks.now = now
  count_eq : ks.count = (emptyKeyspace config now).count
  maxMemory_eq : ks.maxMemory = config.maxMemory
  policy_eq : ks.policy = config.policy
  quiet : ks.Quiet
  each : (ks.contents now).Each P

variable {config : Config} {now : Millis} {P : Bytes → Datum → Prop} {ks ks' : Keyspace}

theorem held_emptyKeyspace : Held config now P (emptyKeyspace config now) := by
  refine ⟨rfl, rfl, rfl, rfl, rfl, ?_⟩
  rw [contents_emptyKeyspace]
  exact Contents.each_none

theorem Held.keeps (h : Held config now P ks) (hkeeps : ks.Keeps ks')
    (heach : (ks'.contents now).Each P) : Held config now P ks' where
  now_eq := hkeeps.now.trans h.now_eq
  count_eq := hkeeps.count.trans h.count_eq
  maxMemory_eq := hkeeps.maxMemory.trans h.maxMemory_eq
  policy_eq := hkeeps.policy.trans h.policy_eq
  quiet := hkeeps.quiet h.quiet
  each := heach

theorem Held.withListener (h : Held config now P ks) : Held config now P ks.withListener :=
  ⟨h.now_eq, h.count_eq, h.maxMemory_eq, h.policy_eq, h.quiet, h.each⟩

/-- Where the limits evict nothing, a keyspace is steady. -/
theorem Held.steady (h : Held config now P ks) (hregular : (emptyKeyspace config now).Regular) :
    Steady config now P ks := by
  refine ⟨h.now_eq, h.count_eq, ⟨?_, ?_⟩, h.quiet, h.each⟩
  · have hsame : ks.mayEvict = (emptyKeyspace config now).mayEvict := by
      unfold Keyspace.mayEvict
      rw [h.maxMemory_eq, h.policy_eq]
      rfl
    rw [hsame]
    exact hregular.noEviction
  · rw [h.count_eq]
    exact hregular.count

/-- What a command leaves under a ceiling is within what it leaves without one. -/
theorem each_meaning_without {c : Contents} (h : c.Each P) (hlasting : Datum.Lasting P)
    {command : Command} (hfits : Wire.Fits command) (count i : Nat) (keys : List Bytes) :
    ((command.meaning now count (c i)).on i now (c.without i keys)).Each P :=
  ((c.within_without i keys).on i now _).each (h.meaning hlasting hfits now count i)

/-! ## §3. Loading. -/

/-- A replay under any limits, in which nobody listens. -/
structure Session.Holds (s : Session) (config : Config) (now : Millis)
    (P : Bytes → Datum → Prop) : Prop where
  keyspace : Held config now P s.keyspace
  deaf : s.keyspace.listening = false
  inRange : s.selected < s.keyspace.count
  fallback : s.fallback = none

theorem Session.Holds.apply {s : Session} (h : s.Holds config now P) (hlasting : Datum.Lasting P)
    {command : Command} (hfits : Wire.Fits command) : (s.apply command).1.Holds config now P := by
  have hspec := Session.apply_evicting command (.inl h.fallback) h.inRange
  -- nobody is told of the evictions
  have htold : s.keyspace.told s.selected (s.victims command) = [] := by
    unfold Keyspace.told
    rw [h.deaf]
    rfl
  have hkeeps := hspec.evicts
  rw [htold] at hkeeps
  refine ⟨h.keyspace.keeps hkeeps ?_, hkeeps.listening.trans h.deaf, hspec.selected_lt h.inRange,
    hspec.fallback.trans h.fallback⟩
  rw [hspec.contents now (UInt64.le_of_eq h.keyspace.now_eq), h.keyspace.now_eq]
  exact each_meaning_without h.keyspace.each hlasting hfits _ _ _

/-- **A replay**, by induction on the log. -/
theorem Session.Holds.run {s : Session} (h : s.Holds config now P) (hlasting : Datum.Lasting P)
    {commands : List Command} (hfits : ∀ command ∈ commands, Wire.Fits command) :
    (s.applyAll commands).1.Holds config now P := by
  induction commands generalizing s with
  | nil => exact h
  | cons command commands ih =>
    obtain ⟨hfirst, hrest⟩ := List.forall_mem_cons.1 hfits
    exact ih (h.apply hlasting hfirst) hrest

/-- Memory holds a key and the byte strings under it. -/
def Datum.InMemory (key : Bytes) (d : Datum) : Prop :=
  key.length < lengthBound ∧ ∀ bytes ∈ d.value.strings, bytes.length < lengthBound

/-- **What was loaded from a snapshot file can be written out**, if memory holds it. -/
theorem held_of_ofSnapshot {d : Disk} {loaded : Loaded} (h : ofSnapshot config d now = .ok loaded)
    (hmemory : ∀ keys, loaded.report.source = .snapshot keys →
      (loaded.keyspace.contents now).Each Datum.InMemory) :
    Held config now Datum.Sound loaded.keyspace := by
  rcases ofSnapshot_cases h with ⟨-, rfl⟩ | ⟨bytes, s, ks, -, hdecode, hrestore, rfl⟩
  · exact held_emptyKeyspace
  · -- a snapshot file with a score that is no number would not have been read
    have hnumeric : (ks.contents now).Each fun _ d => d.value.Numeric :=
      Keyspace.each_restore hrestore (Snapshot.numeric_of_decode hdecode) now
    refine held_emptyKeyspace.keeps (Keyspace.keeps_restore hrestore) ?_
    intro i key d hd
    obtain ⟨hkey, hstrings⟩ := hmemory _ rfl i key d hd
    exact ⟨hkey, Value.sound_of_numeric (hnumeric i key d hd) hstrings⟩

/-- **What was loaded can be written out**, if memory holds it. -/
theorem held_of_load {d : Disk} {loaded : Loaded} (h : load config d now none = .ok loaded)
    (hmemory : ∀ keys, loaded.report.source = .snapshot keys →
      (loaded.keyspace.contents now).Each Datum.InMemory) :
    Held config now Datum.Sound loaded.keyspace := by
  unfold load at h
  split at h
  · -- the commands of a log fit, and so does what they store
    unfold ofLog at h
    cases hreplay : d.replay (logPath config) with
    | error error =>
      rw [hreplay] at h
      cases h
    | ok replay =>
      rw [hreplay] at h
      dsimp only at h
      split at h
      · cases h
      · cases h
        have hstart :
            (Session.start (emptyKeyspace config now) none).Holds config now Datum.Sound :=
          ⟨held_emptyKeyspace, rfl, emptyKeyspace_pos config now, rfl⟩
        exact (hstart.run Datum.lasting_sound (Disk.fits_of_replay hreplay)).keyspace
  · exact held_of_ofSnapshot h hmemory

/-- What an engine holds when it has just been opened. -/
theorem held_of_open? {d : Disk} {history : String} {e : Engine}
    (h : Engine.open? config d now history none = .ok e)
    (hmemory : ∀ keys, e.load.source = .snapshot keys →
      (e.keyspace.contents now).Each Datum.InMemory) :
    Held config now Datum.Sound e.keyspace := by
  obtain ⟨loaded, hload, hkeyspace, hreport, -⟩ := Engine.opened_of_open? h
  rw [hkeyspace, hreport] at hmemory
  rw [hkeyspace]
  exact (held_of_load hload hmemory).withListener

/-! ## §4. Writing. -/

/-- **A write leaves what is true of every datum**, whatever it evicts. -/
theorem Held.execute {e : Engine} (h : Held config now P e.keyspace)
    (hcount : (emptyKeyspace config now).count < Bytes.u64Bound) (hlasting : Datum.Lasting P)
    (database : Nat) {command : Command} (hfits : Wire.Fits command) :
    Held config now P (e.execute database command).1.keyspace := by
  obtain ⟨ks, hkeeps, hcases⟩ :=
    Engine.execute_spec (h.count_eq ▸ hcount) h.quiet database command
  rw [h.now_eq] at hcases
  rcases hcases with ⟨hexecute, -, hcontents⟩ | ⟨hexecute, -, -, hcontents⟩
  · rw [hexecute]
    refine h.keeps hkeeps ?_
    show (ks.contents now).Each P
    rw [hcontents]
    exact h.each
  · rw [hexecute, Engine.keyspace_propagate, Engine.keyspace_foldl_logNotice]
    refine h.keeps hkeeps ?_
    show (ks.contents now).Each P
    rw [hcontents]
    exact each_meaning_without h.each hlasting hfits _ _ _

end DurableStore
