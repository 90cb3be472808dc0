/-
  DurableStore.Proofs.Engine.Records
  ────────────────────────────────
  **WHAT THE BYTES OF A LOG RECORD.**

  An engine loads its log into an empty keyspace.  So what a log is worth
  is what that keyspace holds in the end:

      Records config now bytes c selected   — the bytes are records that,
          replayed at `now` into the empty keyspace of a configuration,
          leave the contents `c`

  A fallback has nothing to do then, since every record is of the
  vocabulary.  Records are added at the end, each with its effect
  (`Records.record`), and the deletion of an evicted key takes that key
  (`Records.evict`).  A reconstruction records what a keyspace held, but for
  collections without elements (`Records.kept`).
-/
import DurableStore.Proofs.Command.Storable
import DurableStore.Proofs.Engine.Opening
import DurableStore.Proofs.Engine.Writes
import DurableStore.Proofs.Journal.Rebuild

namespace DurableStore

open Loaded

variable {config : Config} {now : Millis}

/-! ## §1. Empty keyspaces. -/

/-- The configuration without the memory ceiling. -/
def Config.unlimited (config : Config) : Config := { config with maxMemory := 0 }

theorem count_emptyKeyspace (config : Config) (now : Millis) :
    (emptyKeyspace config now).count = max config.databases 1 :=
  List.length_replicate

theorem emptyKeyspace_pos (config : Config) (now : Millis) :
    0 < (emptyKeyspace config now).count := by
  rw [count_emptyKeyspace]
  exact Nat.lt_of_lt_of_le Nat.zero_lt_one (Nat.le_max_right _ _)

theorem contents_emptyKeyspace (config : Config) (now t : Millis) :
    (emptyKeyspace config now).contents t = Contents.none :=
  Keyspace.contents_of_replicate rfl t

/-- A session on an empty keyspace holds nothing. -/
theorem stands_emptyKeyspace (h : (emptyKeyspace config now).Regular) (fallback : Option Fallback) :
    (Session.start (emptyKeyspace config now) fallback).Stands now
      (emptyKeyspace config now).count Contents.none none where
  regular := h
  quiet := rfl
  now_eq := rfl
  count_eq := rfl
  inRange := emptyKeyspace_pos config now
  contents_eq := contents_emptyKeyspace config now now
  selected_eq := fun _ hnone => nomatch hnone

/-! ## §2. Steady keyspaces. -/

/-- A keyspace whose writes are repeated exactly, and every datum of which has
a property that no write spoils. -/
structure Steady (config : Config) (now : Millis) (P : Bytes → Datum → Prop) (ks : Keyspace) :
    Prop where
  now_eq : ks.now = now
  count_eq : ks.count = (emptyKeyspace config now).count
  regular : ks.Regular
  quiet : ks.Quiet
  each : (ks.contents now).Each P

variable {P : Bytes → Datum → Prop}

/-- An empty keyspace is steady, unless there is a ceiling or it has more
databases than can be named. -/
theorem steady_emptyKeyspace (h : (emptyKeyspace config now).Regular) :
    Steady config now P (emptyKeyspace config now) := by
  refine ⟨rfl, rfl, h, rfl, ?_⟩
  rw [contents_emptyKeyspace]
  exact Contents.each_none

theorem Steady.keeps {ks ks' : Keyspace} (h : Steady config now P ks) (hkeeps : ks.Keeps ks')
    (heach : (ks'.contents now).Each P) : Steady config now P ks' where
  now_eq := hkeeps.now.trans h.now_eq
  count_eq := hkeeps.count.trans h.count_eq
  regular := h.regular.keeps hkeeps
  quiet := hkeeps.quiet h.quiet
  each := heach

theorem Steady.mono {Q : Bytes → Datum → Prop} {ks : Keyspace} (h : Steady config now P ks)
    (himp : ∀ key d, P key d → Q key d) : Steady config now Q ks where
  now_eq := h.now_eq
  count_eq := h.count_eq
  regular := h.regular
  quiet := h.quiet
  each := fun i key d hd => himp key d (h.each i key d hd)

theorem Steady.withListener {ks : Keyspace} (h : Steady config now P ks) :
    Steady config now P ks.withListener :=
  ⟨h.now_eq, h.count_eq, ⟨h.regular.noEviction, h.regular.count⟩, h.quiet, h.each⟩

/-! ## §3. Records. -/

/-- Some bytes are records that, replayed into an empty keyspace, leave some
contents; a fallback would have nothing to do. -/
def Records (config : Config) (now : Millis) (bytes : Bytes) (c : Contents)
    (selected : Option Nat) : Prop :=
  ∀ fallback, (Session.start (emptyKeyspace config now) fallback).Yields bytes now
    (emptyKeyspace config now).count c selected

namespace Records

variable {bytes : Bytes} {c : Contents} {selected : Option Nat}

/-- No bytes record that there is nothing. -/
theorem nil (h : (emptyKeyspace config now).Regular) : Records config now [] Contents.none none :=
  fun fallback => .nil (stands_emptyKeyspace h fallback)

theorem forget (h : Records config now bytes c selected) : Records config now bytes c none :=
  fun fallback => (h fallback).forget

/-- **A command that takes effect is recorded at the end.** -/
theorem record (h : Records config now bytes c selected) {database : Nat}
    (hdatabase : database < (emptyKeyspace config now).count) {command : Command}
    (hselect : ¬ command.Selects) (hfits : Wire.Fits command)
    (hmeaning : command.meaning now (emptyKeyspace config now).count (c database) ≠ .refused) :
    Records config now (bytes ++ (Command.selection selected database ++ Wire.encode command))
      ((command.meaning now (emptyKeyspace config now).count (c database)).on database now c)
      (some database) :=
  fun fallback => (h fallback).record hdatabase hselect hfits hmeaning

/-- **The deletion of an evicted key** takes that key. -/
theorem evict (h : Records config now bytes c selected) {database : Nat}
    (hdatabase : database < (emptyKeyspace config now).count) {key : Bytes}
    (hkey : key.length < lengthBound) :
    Records config now
      (bytes ++ (Command.selection selected database ++ Wire.encode (Engine.evictionCommand key)))
      (c.assign database key none) (some database) := by
  have hverb : Command.Verb.ofName? (Bytes.ofString "DEL") = some .del := by decide +kernel
  have hmeaning : ∀ count found,
      (Engine.evictionCommand key).meaning now count found = .remove [key] := by
    intro count found
    unfold Engine.evictionCommand Command.meaning Command.action
    dsimp only
    rw [hverb]
    rfl
  have hrecord := h.record hdatabase (Engine.not_selects_evictionCommand key)
    (Engine.fits_evictionCommand hkey) (by rw [hmeaning]; exact fun heq => nomatch heq)
  rw [hmeaning] at hrecord
  exact hrecord

/-- **A reconstruction records the contents it was made of**, but for collections
without elements. -/
theorem kept (hregular : (emptyKeyspace config now).Regular) {ks : Keyspace}
    (h : Steady config now Datum.Sound ks) :
    Records config now ks.snapshot.reconstructionBytes (ks.contents now).kept none := by
  intro fallback
  have hstands := stands_emptyKeyspace hregular fallback
  have hsound := h.each
  -- the replay counts databases and reads the clock as the keyspace does
  rw [← h.count_eq] at hstands ⊢
  rw [← h.now_eq] at hstands hsound ⊢
  exact ⟨ks.snapshot.reconstruction, rfl, Wire.fits_of_mem_reconstruction h.regular hsound,
    Keyspace.kept_rebuilt hsound hstands⟩

/-- The session that has replayed what was recorded. -/
theorem stands (h : Records config now bytes c selected) (fallback : Option Fallback) :
    (replayed config now fallback bytes).Stands now (emptyKeyspace config now).count c selected :=
  (h fallback).replay

/-- A log that only records is complete. -/
theorem intact (h : Records config now bytes c selected) : Replay.intact bytes = bytes := by
  unfold Replay.intact
  rw [(h none).not_truncated, if_neg (by decide)]

/-- **A replay leaves the dataset of a keyspace exactly if its contents were
recorded.** -/
theorem dataset_eq_iff (h : Records config now bytes c selected) (fallback : Option Fallback)
    {ks : Keyspace} (hnow : ks.now = now) (hcount : ks.count = (emptyKeyspace config now).count) :
    (replayed config now fallback bytes).keyspace.dataset = ks.dataset ↔ c = ks.contents now := by
  have hstands := h.stands fallback
  rw [Keyspace.dataset_eq_iff, hstands.count_eq, hstands.now_eq, hstands.contents_eq, hcount, hnow]
  exact and_iff_right rfl

end Records

end DurableStore
