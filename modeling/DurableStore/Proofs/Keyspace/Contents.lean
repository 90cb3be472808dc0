/-
  DurableStore.Proofs.Keyspace.Contents
  ────────────────────────────────
  **WHAT A KEYSPACE HOLDS.**

  Whoever looks at a keyspace at a clock reading sees, under each key, the
  value and the deadline of the entry that is live then:

      contents ks t i key   — the DATUM of `key` in database `i` at time `t`

  Access times, charged memory, counters, and entries that are expired but
  not removed yet are no part of it.  An operation made at one reading is
  described by what it does to the contents at that reading and at every
  later one; the removal of an expired entry is seen at none of them.

  Main results:
    * `dataset_eq_iff` — equal datasets are equal contents;
    * one lemma for each operation, which callers use in place of its
      definition: `visit_spec`, `update_spec`, `remove_spec`, …
-/
import DurableStore.Keyspace.Operations
import DurableStore.Proofs.Value.Rebuild

namespace DurableStore

/-! ## §1. Data. -/

/-- What there is to know about a key: its value and its deadline. -/
structure Datum where
  value : Value
  expiresAt : Option Millis
  deriving DecidableEq

namespace Datum

/-- Whether the clock is not past the deadline. -/
def isLive (t : Millis) (d : Datum) : Bool :=
  match d.expiresAt with
  | some deadline => !(deadline < t)
  | none => true

theorem isLive_of_le {t t' : Millis} {d : Datum} (h : t ≤ t') (hlive : d.isLive t' = true) :
    d.isLive t = true := by
  unfold isLive at hlive ⊢
  split at hlive
  · rename_i deadline _
    rw [Bool.not_eq_true', decide_eq_false_iff_not] at hlive ⊢
    intro hlt
    exact hlive (UInt64.lt_of_lt_of_le hlt h)
  · rfl

end Datum

/-- The datum of an entry. -/
def Entry.datum (e : Entry) : Datum := ⟨e.value, e.expiresAt⟩

/-- The entry of a datum that was accessed at a time. -/
def Datum.accessed (d : Datum) (t : Millis) : Entry := ⟨d.value, d.expiresAt, t⟩

theorem Entry.isLive_datum (e : Entry) (t : Millis) : e.datum.isLive t = !e.isExpired t := by
  unfold Datum.isLive Entry.isExpired Entry.datum
  cases e.expiresAt <;> rfl

@[simp] theorem Entry.datum_touch (e : Entry) (t : Millis) : (e.touch t).datum = e.datum := rfl

/-! ## §2. Databases. -/

namespace Database

/-- The datum that a database holds under a key at a time. -/
def datum? (db : Database) (t : Millis) (key : Bytes) : Option Datum :=
  ((db.entries.find? key).map Entry.datum).filter (Datum.isLive t)

theorem datum?_of_entries {db db' : Database} {key : Bytes} {entry : Entry}
    (h : db'.entries = db.entries.insert key entry) (t : Millis) (k : Bytes) :
    db'.datum? t k = if k = key then (some entry.datum).filter (Datum.isLive t)
      else db.datum? t k := by
  unfold datum?
  rw [h, ByteMap.find?_insert]
  split <;> rfl

theorem datum?_store (db : Database) (key : Bytes) (entry : Entry) (t : Millis) (k : Bytes) :
    (db.store key entry).datum? t k = if k = key then (some entry.datum).filter (Datum.isLive t)
      else db.datum? t k :=
  datum?_of_entries rfl t k

theorem datum?_replace (db : Database) (key : Bytes) (before after : Entry) (t : Millis)
    (k : Bytes) :
    (db.replace key before after).datum? t k
      = if k = key then (some after.datum).filter (Datum.isLive t) else db.datum? t k :=
  datum?_of_entries rfl t k

theorem datum?_insert (db : Database) (key : Bytes) (entry : Entry) (t : Millis) (k : Bytes) :
    (db.insert key entry).datum? t k = if k = key then (some entry.datum).filter (Datum.isLive t)
      else db.datum? t k :=
  datum?_of_entries rfl t k

theorem datum?_erase (db : Database) (key : Bytes) (entry : Entry) (t : Millis) (k : Bytes) :
    (db.erase key entry).datum? t k = if k = key then none else db.datum? t k := by
  unfold datum? erase
  dsimp only
  rw [ByteMap.find?_erase]
  split <;> rfl

end Database

/-! ## §3. Contents. -/

/-- What is under each key of each database. -/
abbrev Contents := Nat → Bytes → Option Datum

namespace Contents

/-- Nothing anywhere. -/
def none : Contents := fun _ _ => Option.none

/-- Another datum, or none, under one key. -/
def assign (c : Contents) (i : Nat) (key : Bytes) (d : Option Datum) : Contents :=
  fun j k => if j = i ∧ k = key then d else c j k

/-- Nothing in one database. -/
def clear (c : Contents) (i : Nat) : Contents := fun j k => if j = i then Option.none else c j k

/-- Two databases exchanged. -/
def swap (c : Contents) (a b : Nat) : Contents :=
  fun j k => if j = b then c a k else if j = a then c b k else c j k

/-- Nothing under some keys of a database. -/
def without (c : Contents) (i : Nat) (keys : List Bytes) : Contents :=
  keys.foldl (fun c key => c.assign i key Option.none) c

/-- What is still live at a time. -/
def live (c : Contents) (t : Millis) : Contents := fun j k => (c j k).filter (Datum.isLive t)

theorem assign_self {c : Contents} {i : Nat} {key : Bytes} {d : Option Datum} (h : c i key = d) :
    c.assign i key d = c := by
  funext j k
  unfold assign
  split
  · rename_i heq
    rw [heq.1, heq.2, h]
  · rfl

theorem assign_eq_iff {c : Contents} {i : Nat} {key : Bytes} {d d' : Option Datum} :
    c.assign i key d = c.assign i key d' ↔ d = d' := by
  constructor
  · intro h
    have hkey := congrFun (congrFun h i) key
    unfold assign at hkey
    rw [if_pos ⟨rfl, rfl⟩, if_pos ⟨rfl, rfl⟩] at hkey
    exact hkey
  · rintro rfl
    rfl

theorem eq_assign_iff {c : Contents} {i : Nat} {key : Bytes} {d : Option Datum} :
    c = c.assign i key d ↔ c i key = d := by
  constructor
  · intro h
    have hkey := congrFun (congrFun h i) key
    unfold assign at hkey
    rw [if_pos ⟨rfl, rfl⟩] at hkey
    exact hkey
  · intro h
    exact (assign_self h).symm

@[simp] theorem without_nil (c : Contents) (i : Nat) : c.without i [] = c := rfl

theorem without_append (c : Contents) (i : Nat) (xs ys : List Bytes) :
    c.without i (xs ++ ys) = (c.without i xs).without i ys :=
  List.foldl_append

/-- The keys that are taken out hold nothing, and the others what they held. -/
theorem without_apply (c : Contents) (i : Nat) (keys : List Bytes) (j : Nat) (k : Bytes) :
    c.without i keys j k = if j = i ∧ k ∈ keys then Option.none else c j k := by
  induction keys generalizing c with
  | nil => exact (if_neg fun h => absurd h.2 List.not_mem_nil).symm
  | cons key keys ih =>
    show (c.assign i key Option.none).without i keys j k = _
    rw [ih]
    unfold assign
    by_cases hj : j = i
    · by_cases hk : k = key
      · simp [hj, hk]
      · simp [hj, hk]
    · simp [hj]

end Contents

namespace Keyspace

/-- What a keyspace holds at a time. -/
def contents (ks : Keyspace) (t : Millis) : Contents :=
  fun i key => (ks.databases.getD i Database.empty).datum? t key

theorem contents_congr {ks ks' : Keyspace} (h : ks'.databases = ks.databases) :
    ks'.contents = ks.contents := by
  unfold contents
  rw [h]

/-- What is held at a later time is what is live then of what is held now. -/
theorem live_contents (ks : Keyspace) {t t' : Millis} (h : t ≤ t') :
    (ks.contents t).live t' = ks.contents t' := by
  funext i key
  unfold Contents.live contents Database.datum?
  rw [Option.filter_filter]
  congr 1
  funext d
  cases hlive : d.isLive t' with
  | false => simp
  | true => simp [Datum.isLive_of_le h hlive]

theorem contents_isLive {ks : Keyspace} {t : Millis} {i : Nat} {key : Bytes} {d : Datum}
    (h : ks.contents t i key = some d) : d.isLive t = true := by
  unfold contents Database.datum? at h
  exact (Option.filter_eq_some_iff.1 h).2

theorem contents_of_le {ks : Keyspace} {i : Nat} (h : ks.count ≤ i) (t : Millis) (key : Bytes) :
    ks.contents t i key = none := by
  unfold contents
  rw [List.getD_eq_getElem?_getD, List.getElem?_eq_none h]
  rfl

/-- Where all databases are empty nothing is held. -/
theorem contents_of_replicate {ks : Keyspace} {n : Nat}
    (h : ks.databases = List.replicate n Database.empty) (t : Millis) :
    ks.contents t = Contents.none := by
  funext i key
  unfold contents
  rw [h, List.getD_eq_getElem?_getD, List.getElem?_replicate]
  split <;> rfl

theorem database_of_lt {ks : Keyspace} {i : Nat} (h : i < ks.count) :
    ks.database i = .ok (ks.databases.getD i Database.empty) := by
  unfold database
  rw [List.getD_eq_getElem?_getD, List.getElem?_eq_getElem h]
  rfl

theorem database_of_le {ks : Keyspace} {i : Nat} (h : ks.count ≤ i) :
    ks.database i = .error (.databaseOutOfRange i ks.count) := by
  unfold database
  rw [List.getElem?_eq_none h]

theorem getD_modify {α : Type} {l : List α} {i : Nat} (h : i < l.length) (f : α → α) (d : α)
    (j : Nat) : (l.modify i f).getD j d = if j = i then f (l.getD i d) else l.getD j d := by
  rw [List.getD_eq_getElem?_getD, List.getElem?_modify, List.getD_eq_getElem?_getD,
    List.getD_eq_getElem?_getD, List.getElem?_eq_getElem h]
  by_cases hj : j = i
  · subst hj
    rw [if_pos rfl, List.getElem?_eq_getElem h, Option.map_eq_map, Option.map_some, if_pos rfl]
    rfl
  · rw [if_neg hj]
    cases l[j]? with
    | none => rfl
    | some a => rw [Option.map_eq_map, Option.map_some, if_neg (Ne.symm hj)]

/-- A change of one database is seen in that database only. -/
theorem contents_modifyDatabase {ks : Keyspace} {i : Nat} (h : i < ks.count)
    (f : Database → Database) (t : Millis) (j : Nat) (key : Bytes) :
    (ks.modifyDatabase i f).contents t j key
      = if j = i then (f (ks.databases.getD i Database.empty)).datum? t key
        else ks.contents t j key := by
  unfold contents modifyDatabase
  dsimp only
  rw [getD_modify h]
  split <;> rfl

/-- A change of a database that concerns one key assigns to that key. -/
theorem contents_modifyDatabase_assign {ks : Keyspace} {i : Nat} (hi : i < ks.count)
    {f : Database → Database} {key : Bytes} {t : Millis} {d : Option Datum}
    (h : ∀ db k, (f db).datum? t k = if k = key then d else db.datum? t k) :
    (ks.modifyDatabase i f).contents t = (ks.contents t).assign i key d := by
  funext j k
  rw [contents_modifyDatabase hi, h]
  unfold Contents.assign contents
  by_cases hj : j = i
  · subst hj
    by_cases hk : k = key <;> simp [hk]
  · simp [hj]

/-! ## §4. What operations keep. -/

/-- The notices of evictions. -/
def evictions (ks : Keyspace) : List Notice :=
  ks.notices.filter fun notice => notice.event = .evicted

/-- No notice tells of an eviction. -/
def Quiet (ks : Keyspace) : Prop := ks.evictions = []

/-- Everything but the entries, the counters and the notices is as before, and
these evictions were reported. -/
structure Evicts (ks ks' : Keyspace) (reported : List Notice) : Prop where
  now : ks'.now = ks.now
  count : ks'.count = ks.count
  maxMemory : ks'.maxMemory = ks.maxMemory
  policy : ks'.policy = ks.policy
  listening : ks'.listening = ks.listening
  evictions : ks'.evictions = ks.evictions ++ reported

/-- Nothing of that is changed, and no eviction was reported. -/
abbrev Keeps (ks ks' : Keyspace) : Prop := ks.Evicts ks' []

theorem Evicts.trans {a b c : Keyspace} {xs ys : List Notice} (hab : a.Evicts b xs)
    (hbc : b.Evicts c ys) : a.Evicts c (xs ++ ys) where
  now := hbc.now.trans hab.now
  count := hbc.count.trans hab.count
  maxMemory := hbc.maxMemory.trans hab.maxMemory
  policy := hbc.policy.trans hab.policy
  listening := hbc.listening.trans hab.listening
  evictions := by rw [hbc.evictions, hab.evictions, List.append_assoc]

theorem Evicts.mayEvict_eq {ks ks' : Keyspace} {reported : List Notice}
    (h : ks.Evicts ks' reported) : ks'.mayEvict = ks.mayEvict := by
  unfold mayEvict
  rw [h.maxMemory, h.policy]

theorem keeps_of_notices {ks ks' : Keyspace} (hnow : ks'.now = ks.now)
    (hcount : ks'.count = ks.count) (hmaxMemory : ks'.maxMemory = ks.maxMemory)
    (hpolicy : ks'.policy = ks.policy) (hlistening : ks'.listening = ks.listening)
    (hnotices : ks'.notices = ks.notices) : ks.Keeps ks' := by
  refine ⟨hnow, hcount, hmaxMemory, hpolicy, hlistening, ?_⟩
  unfold evictions
  rw [hnotices, List.append_nil]

theorem Keeps.refl (ks : Keyspace) : ks.Keeps ks := keeps_of_notices rfl rfl rfl rfl rfl rfl

theorem Keeps.trans {a b c : Keyspace} (hab : a.Keeps b) (hbc : b.Keeps c) : a.Keeps c :=
  Evicts.trans hab hbc

theorem Evicts.thenKeeps {a b c : Keyspace} {reported : List Notice} (hab : a.Evicts b reported)
    (hbc : b.Keeps c) : a.Evicts c reported := by
  have hall := hab.trans hbc
  rw [List.append_nil] at hall
  exact hall

theorem Keeps.thenEvicts {a b c : Keyspace} {reported : List Notice} (hab : a.Keeps b)
    (hbc : b.Evicts c reported) : a.Evicts c reported :=
  Evicts.trans hab hbc

theorem Keeps.quiet {ks ks' : Keyspace} (h : ks.Keeps ks') (hquiet : ks.Quiet) : ks'.Quiet := by
  have hevictions := h.evictions
  rw [List.append_nil] at hevictions
  exact hevictions.trans hquiet

theorem keeps_modifyDatabase (ks : Keyspace) (i : Nat) (f : Database → Database) :
    ks.Keeps (ks.modifyDatabase i f) :=
  keeps_of_notices rfl (count_modifyDatabase ks i f) rfl rfl rfl rfl

theorem keeps_countHit (ks : Keyspace) : ks.Keeps ks.countHit :=
  keeps_of_notices rfl rfl rfl rfl rfl rfl

theorem keeps_countMiss (ks : Keyspace) : ks.Keeps ks.countMiss :=
  keeps_of_notices rfl rfl rfl rfl rfl rfl

theorem keeps_countRemoval (ks : Keyspace) (event : Event) : ks.Keeps (ks.countRemoval event) := by
  cases event <;> exact keeps_of_notices rfl rfl rfl rfl rfl rfl

/-- What a listener is told of the eviction of keys of a database. -/
def told (ks : Keyspace) (i : Nat) (keys : List Bytes) : List Notice :=
  if ks.listening then keys.map fun key => ⟨.evicted, i, key⟩ else []

theorem evicts_notify (ks : Keyspace) (i : Nat) (key : Bytes) :
    ks.Evicts (ks.notify i key .evicted) (ks.told i [key]) := by
  unfold notify told
  split
  · refine ⟨rfl, rfl, rfl, rfl, rfl, ?_⟩
    exact List.filter_append _ _
  · exact Keeps.refl ks

theorem keeps_notify (ks : Keyspace) (i : Nat) (key : Bytes) {event : Event}
    (h : event ≠ .evicted) : ks.Keeps (ks.notify i key event) := by
  unfold notify
  split
  · refine ⟨rfl, rfl, rfl, rfl, rfl, ?_⟩
    have hskipped :
        [(⟨event, i, key⟩ : Notice)].filter (fun notice => notice.event = .evicted) = [] :=
      List.filter_cons_of_neg (by simpa using h)
    show (ks.notices ++ [(⟨event, i, key⟩ : Notice)]).filter _ = _
    rw [List.filter_append, hskipped]
    rfl
  · exact Keeps.refl ks

theorem databases_countRemoval (ks : Keyspace) (event : Event) :
    (ks.countRemoval event).databases = ks.databases := by
  cases event <;> rfl

theorem databases_notify (ks : Keyspace) (i : Nat) (key : Bytes) (event : Event) :
    (ks.notify i key event).databases = ks.databases := by
  unfold notify
  split <;> rfl

/-! ## §5. Steps. -/

/-- What a discarded entry leaves: nothing under its key. -/
theorem contents_discard {ks : Keyspace} {i : Nat} (hi : i < ks.count) (key : Bytes) (entry : Entry)
    (event : Event) (t : Millis) :
    (ks.discard i key entry event).contents t = (ks.contents t).assign i key none := by
  have hdatabases : (ks.discard i key entry event).databases
      = (ks.modifyDatabase i (·.erase key entry)).databases := by
    unfold discard
    rw [databases_notify, databases_countRemoval]
  rw [contents_congr hdatabases]
  exact contents_modifyDatabase_assign hi fun db k => db.datum?_erase key entry t k

theorem keeps_counted (ks : Keyspace) (i : Nat) (key : Bytes) (entry : Entry) (event : Event) :
    ks.Keeps ((ks.modifyDatabase i (·.erase key entry)).countRemoval event) :=
  (keeps_modifyDatabase ks i _).trans (keeps_countRemoval _ event)

theorem discard_spec {ks : Keyspace} {i : Nat} (hi : i < ks.count) (key : Bytes) (entry : Entry)
    {event : Event} (h : event ≠ .evicted) :
    ks.Keeps (ks.discard i key entry event)
      ∧ ∀ t, (ks.discard i key entry event).contents t = (ks.contents t).assign i key none :=
  ⟨(keeps_counted ks i key entry event).trans (keeps_notify _ i key h),
    contents_discard hi key entry event⟩

/-- What a lookup finds, and that nobody sees it happen. -/
theorem visit_eq {ks : Keyspace} {i : Nat} (hi : i < ks.count) (key : Bytes) :
    ∃ ks', ks.visit i key = .ok (ks', (ks.contents ks.now i key).map (·.accessed ks.now))
      ∧ ks.Keeps ks' ∧ ∀ t, ks.now ≤ t → ks'.contents t = ks.contents t := by
  have hdatum : ks.contents ks.now i key
      = (((ks.databases.getD i Database.empty).entries.find? key).map Entry.datum).filter
          (Datum.isLive ks.now) := rfl
  unfold visit
  rw [database_of_lt hi]
  dsimp only [bind, Except.bind]
  cases hfind : (ks.databases.getD i Database.empty).entries.find? key with
  | none =>
    -- a miss is counted, and nothing else
    rw [hfind] at hdatum
    exact ⟨_, by rw [hdatum]; rfl, keeps_countMiss ks, fun t _ => rfl⟩
  | some entry =>
    rw [hfind, Option.map_some, Option.filter_some, Entry.isLive_datum] at hdatum
    dsimp only
    cases hexpired : entry.isExpired ks.now with
    | true =>
      -- the entry is removed, and was no longer seen
      rw [hexpired] at hdatum
      obtain ⟨hkeeps, hcontents⟩ := discard_spec hi key entry (show Event.expired ≠ .evicted by decide)
      refine ⟨_, by rw [hdatum]; rfl, hkeeps.trans (keeps_countMiss _), ?_⟩
      intro t ht
      have hgone : ks.contents t i key = none := by
        rw [← live_contents ks ht]
        unfold Contents.live
        rw [hdatum]
        rfl
      have hsame : (ks.discard i key entry .expired).countMiss.contents t
          = (ks.discard i key entry .expired).contents t := rfl
      rw [hsame, hcontents, Contents.assign_self hgone]
    | false =>
      -- the entry is touched, which is not seen either
      rw [hexpired] at hdatum
      refine ⟨_, by rw [hdatum]; rfl, (keeps_modifyDatabase ks i _).trans (keeps_countHit _), ?_⟩
      intro t ht
      have hsame : (ks.modifyDatabase i (·.store key (entry.touch ks.now))).countHit.contents t
          = (ks.modifyDatabase i (·.store key (entry.touch ks.now))).contents t := rfl
      have hstored : ks.contents t i key
          = (some (entry.touch ks.now).datum).filter (Datum.isLive t) := by
        unfold contents Database.datum?
        rw [hfind]
        rfl
      rw [hsame, contents_modifyDatabase_assign hi fun db k => db.datum?_store key _ t k]
      exact Contents.assign_self hstored

/-- A lookup finds the datum that is held under the key. -/
theorem visit_spec {ks : Keyspace} {i : Nat} (hi : i < ks.count) (key : Bytes) :
    ∃ ks' found, ks.visit i key = .ok (ks', found) ∧ ks.Keeps ks'
      ∧ found.map Entry.datum = ks.contents ks.now i key
      ∧ ∀ t, ks.now ≤ t → ks'.contents t = ks.contents t := by
  obtain ⟨ks', hvisit, hkeeps, hcontents⟩ := visit_eq hi key
  refine ⟨ks', _, hvisit, hkeeps, ?_, hcontents⟩
  cases ks.contents ks.now i key <;> rfl

/-- What a change in place does: the datum under the key becomes another, or
none if an empty collection is left. -/
theorem update_spec {α : Type} {ks : Keyspace} {i : Nat} (hi : i < ks.count) (key : Bytes)
    (change : Entry → Entry × α) :
    ∃ ks', ks.update i key change
        = .ok (ks', (ks.contents ks.now i key).map fun d => (change (d.accessed ks.now)).2)
      ∧ ks.Keeps ks'
      ∧ ∀ t, ks.now ≤ t → ks'.contents t =
        match ks.contents ks.now i key with
        | none => ks.contents t
        | some d => (ks.contents t).assign i key
            (if (change (d.accessed ks.now)).1.value.isEmptyCollection then none
              else (some (change (d.accessed ks.now)).1.datum).filter (Datum.isLive t)) := by
  obtain ⟨ks₁, hvisit, hkeeps, hcontents⟩ := visit_eq hi key
  unfold update
  rw [hvisit]
  dsimp only [bind, Except.bind]
  cases ks.contents ks.now i key with
  | none => exact ⟨ks₁, rfl, hkeeps, hcontents⟩
  | some d =>
    have hi₁ : i < ks₁.count := by rw [hkeeps.count]; exact hi
    rw [Option.map_some, Option.map_some]
    dsimp only
    generalize d.accessed ks.now = before
    -- the new entry is put in the place of the old one first, and taken out again if it is empty
    have hkeeps₂ :=
      hkeeps.trans (keeps_modifyDatabase ks₁ i (·.replace key before (change before).1))
    have hcontents₂ : ∀ t, ks.now ≤ t →
        (ks₁.modifyDatabase i (·.replace key before (change before).1)).contents t
          = (ks.contents t).assign i key ((some (change before).1.datum).filter (Datum.isLive t)) := by
      intro t ht
      rw [← hcontents t ht]
      exact contents_modifyDatabase_assign hi₁ fun db k => db.datum?_replace key before _ t k
    split
    · have hi₂ : i < (ks₁.modifyDatabase i (·.replace key before (change before).1)).count := by
        rw [count_modifyDatabase]
        exact hi₁
      obtain ⟨hkeeps₃, hcontents₃⟩ := discard_spec hi₂ key (change before).1
        (show Event.del ≠ .evicted by decide)
      refine ⟨_, rfl, hkeeps₂.trans hkeeps₃, ?_⟩
      intro t ht
      rw [hcontents₃, hcontents₂ t ht]
      funext j k
      unfold Contents.assign
      split <;> rfl
    · exact ⟨_, rfl, hkeeps₂, hcontents₂⟩

/-! ## §6. Operations on one key. -/

/-- Removing a key. -/
theorem remove_spec {ks : Keyspace} {i : Nat} (hi : i < ks.count) (key : Bytes) :
    ∃ ks' found, ks.remove i key = .ok (ks', found) ∧ ks.Keeps ks'
      ∧ found.map Entry.datum = ks.contents ks.now i key
      ∧ ∀ t, ks'.contents t = (ks.contents t).assign i key none := by
  have hdatum : ks.contents ks.now i key
      = (((ks.databases.getD i Database.empty).entries.find? key).map Entry.datum).filter
          (Datum.isLive ks.now) := rfl
  unfold remove
  rw [database_of_lt hi]
  dsimp only [bind, Except.bind]
  cases hfind : (ks.databases.getD i Database.empty).entries.find? key with
  | none =>
    rw [hfind] at hdatum
    refine ⟨_, _, rfl, Keeps.refl ks, hdatum.symm, ?_⟩
    intro t
    refine (Contents.assign_self ?_).symm
    unfold contents Database.datum?
    rw [hfind]
    rfl
  | some entry =>
    rw [hfind, Option.map_some, Option.filter_some, Entry.isLive_datum] at hdatum
    dsimp only
    cases hexpired : entry.isExpired ks.now with
    | true =>
      rw [hexpired] at hdatum
      obtain ⟨hkeeps, hcontents⟩ := discard_spec hi key entry (show Event.expired ≠ .evicted by decide)
      exact ⟨_, _, rfl, hkeeps, hdatum.symm, hcontents⟩
    | false =>
      rw [hexpired] at hdatum
      obtain ⟨hkeeps, hcontents⟩ := discard_spec hi key entry (show Event.del ≠ .evicted by decide)
      exact ⟨_, _, rfl, hkeeps, hdatum.symm, hcontents⟩

/-- Setting or removing a deadline. -/
theorem setExpiry_spec {ks : Keyspace} {i : Nat} (hi : i < ks.count) (key : Bytes)
    (expiresAt : Option Millis) :
    ∃ ks', ks.setExpiry i key expiresAt = .ok (ks', (ks.contents ks.now i key).isSome)
      ∧ ks.Keeps ks'
      ∧ ∀ t, ks.now ≤ t → ks'.contents t =
        match ks.contents ks.now i key with
        | none => ks.contents t
        | some d => (ks.contents t).assign i key
            (if d.value.isEmptyCollection then none
              else (some (⟨d.value, expiresAt⟩ : Datum)).filter (Datum.isLive t)) := by
  obtain ⟨ks', hupdate, hkeeps, hcontents⟩ :=
    update_spec hi key fun entry => ({ entry with expiresAt }, ())
  unfold setExpiry
  rw [hupdate]
  refine ⟨ks', ?_, hkeeps, hcontents⟩
  cases ks.contents ks.now i key <;> rfl

/-! ## §7. Operations on databases. -/

/-- Emptying a database. -/
theorem clear_spec {ks : Keyspace} {i : Nat} (hi : i < ks.count) :
    ∃ ks', ks.clear i = .ok ks' ∧ ks.Keeps ks'
      ∧ ∀ t, ks'.contents t = (ks.contents t).clear i := by
  unfold clear
  rw [database_of_lt hi]
  refine ⟨_, rfl, keeps_modifyDatabase ks i _, ?_⟩
  intro t
  funext j k
  rw [contents_modifyDatabase hi]
  rfl

/-- Emptying all databases. -/
theorem clearAll_spec (ks : Keyspace) :
    ks.Keeps ks.clearAll ∧ ∀ t, ks.clearAll.contents t = Contents.none := by
  refine ⟨keeps_of_notices rfl (List.length_map _) rfl rfl rfl rfl, ?_⟩
  intro t
  funext j k
  unfold contents clearAll
  dsimp only
  rw [List.getD_eq_getElem?_getD, List.getElem?_map]
  cases ks.databases[j]? <;> rfl

theorem getD_swap {α : Type} {l : List α} {a b : Nat} (ha : a < l.length) (hb : b < l.length)
    (d : α) (j : Nat) :
    ((l.set a (l.getD b d)).set b (l.getD a d)).getD j d
      = if j = b then l.getD a d else if j = a then l.getD b d else l.getD j d := by
  rw [List.getD_eq_getElem?_getD, List.getElem?_set, List.getElem?_set, List.length_set]
  by_cases hj : j = b
  · rw [if_pos hj.symm, if_pos hb, if_pos hj]
    rfl
  · rw [if_neg (Ne.symm hj), if_neg hj]
    by_cases hja : j = a
    · rw [if_pos hja.symm, if_pos ha, if_pos hja]
      rfl
    · rw [if_neg (Ne.symm hja), if_neg hja, ← List.getD_eq_getElem?_getD]

/-- Exchanging two databases. -/
theorem swap_spec {ks : Keyspace} {a b : Nat} (ha : a < ks.count) (hb : b < ks.count) :
    ∃ ks', ks.swap a b = .ok ks' ∧ ks.Keeps ks'
      ∧ ∀ t, ks'.contents t = (ks.contents t).swap a b := by
  have hlength : ((ks.databases.set a (ks.databases.getD b Database.empty)).set b
      (ks.databases.getD a Database.empty)).length = ks.count := by
    rw [List.length_set, List.length_set]
    rfl
  unfold swap
  rw [database_of_lt ha, database_of_lt hb]
  refine ⟨_, rfl, keeps_of_notices rfl hlength rfl rfl rfl rfl, ?_⟩
  intro t
  funext j k
  unfold contents Contents.swap
  dsimp only
  rw [getD_swap ha hb]
  split
  · rfl
  · split <;> rfl

theorem swap_of_le {ks : Keyspace} {a b : Nat} (h : ¬ (a < ks.count ∧ b < ks.count)) :
    ∃ error, ks.swap a b = .error error := by
  unfold swap
  by_cases ha : a < ks.count
  · rw [database_of_lt ha, database_of_le (Nat.le_of_not_lt fun hb => h ⟨ha, hb⟩)]
    exact ⟨_, rfl⟩
  · rw [database_of_le (Nat.le_of_not_lt ha)]
    exact ⟨_, rfl⟩

/-- Loading entries inserts them, touched. -/
theorem entries_foldl_load (now : Millis) (entries : List (Bytes × Entry)) (db : Database) :
    (entries.foldl (load now) db).entries
      = db.entries.insertMany (entries.map fun p => (p.1, p.2.touch now)) := by
  induction entries generalizing db with
  | nil => rfl
  | cons p entries ih => exact ih (load now db p)

/-- **Restoring** loads each database from its list.  It is refused if there are entries
in a database that does not exist. -/
theorem restore_eq_ok_iff {ks ks' : Keyspace} {s : Snapshot} :
    ks.restore s = .ok ks'
      ↔ (∀ entries ∈ s.databases.drop ks.count, entries = [])
        ∧ ks' = { ks with
            databases := (List.range ks.count).map fun i =>
              loadAll ks.now (s.databases.getD i []) } := by
  have hempty : ((s.databases.drop ks.count).any fun entries => !entries.isEmpty) = false
      ↔ ∀ entries ∈ s.databases.drop ks.count, entries = [] := by
    simp only [List.any_eq_false, Bool.not_eq_true', Bool.not_eq_false, List.isEmpty_iff]
  unfold restore
  rw [← hempty]
  cases (s.databases.drop ks.count).any fun entries => !entries.isEmpty with
  | true => exact iff_of_false (by rw [if_pos rfl]; exact nofun) fun h => Bool.noConfusion h.1
  | false =>
    rw [if_neg Bool.false_ne_true]
    exact ⟨fun h => ⟨rfl, (Except.ok.inj h).symm⟩, fun h => congrArg Except.ok h.2.symm⟩

/-- A snapshot of no more databases is restored. -/
theorem restore_of_le {ks : Keyspace} {s : Snapshot} (h : s.databases.length ≤ ks.count) :
    ks.restore s = .ok { ks with
      databases := (List.range ks.count).map fun i => loadAll ks.now (s.databases.getD i []) } := by
  refine restore_eq_ok_iff.2 ⟨?_, rfl⟩
  rw [List.drop_of_length_le h]
  exact List.forall_mem_nil _

/-- Restoring changes the databases only. -/
theorem keeps_restore {ks ks' : Keyspace} {s : Snapshot} (h : ks.restore s = .ok ks') :
    ks.Keeps ks' := by
  obtain ⟨-, rfl⟩ := restore_eq_ok_iff.1 h
  refine keeps_of_notices rfl ?_ rfl rfl rfl rfl
  unfold count
  rw [List.length_map, List.length_range]

/-! ## §8. Datasets. -/

/-- The live keys of each database with their values and deadlines, in order. -/
def dataset (ks : Keyspace) : List (List (Bytes × Value × Option Millis)) :=
  ks.databases.map fun db =>
    (Snapshot.liveAt ks.now db.entries.toList).map fun p => (p.1, p.2.value, p.2.expiresAt)

/-- The live entries of a list as they stand in a dataset. -/
def listed (t : Millis) (entries : List (Bytes × Entry)) : List (Bytes × Value × Option Millis) :=
  (Snapshot.liveAt t entries).map fun p => (p.1, p.2.value, p.2.expiresAt)

theorem sorted_listed (t : Millis) {entries : List (Bytes × Entry)} (h : Assoc.Sorted entries) :
    Assoc.Sorted (listed t entries) := by
  exact Assoc.sorted_map (fun e : Entry => (e.value, e.expiresAt)) (List.Pairwise.filter _ h)

/-- A lookup among the live entries finds what is live of what there is. -/
theorem find?_liveAt (t : Millis) {entries : List (Bytes × Entry)} (h : Assoc.Sorted entries)
    (key : Bytes) :
    (Assoc.find? key (Snapshot.liveAt t entries)).map Entry.datum
      = ((Assoc.find? key entries).map Entry.datum).filter (Datum.isLive t) := by
  have hfind : Assoc.find? key (Snapshot.liveAt t entries)
      = (Assoc.find? key entries).filter fun e => !e.isExpired t :=
    Assoc.find?_filter (fun e : Entry => !e.isExpired t) h key
  rw [hfind]
  cases Assoc.find? key entries with
  | none => rfl
  | some e =>
    rw [Option.map_some, Option.filter_some, Option.filter_some, Entry.isLive_datum]
    split <;> rfl

theorem contents_eq_find?_liveAt (ks : Keyspace) (t : Millis) (i : Nat) (key : Bytes) :
    ks.contents t i key = (Assoc.find? key
      (Snapshot.liveAt t (ks.databases.getD i Database.empty).entries.toList)).map Entry.datum := by
  rw [find?_liveAt t (ks.databases.getD i Database.empty).entries.sorted]
  rfl

theorem contents_eq_find?_listed (ks : Keyspace) (t : Millis) (i : Nat) (key : Bytes) :
    (ks.contents t i key).map (fun d => (d.value, d.expiresAt))
      = Assoc.find? key (listed t (ks.databases.getD i Database.empty).entries.toList) := by
  rw [contents_eq_find?_liveAt, Option.map_map]
  exact (Assoc.find?_map (fun e : Entry => (e.value, e.expiresAt)) key _).symm

theorem map_datum_injective {d d' : Option Datum}
    (h : d.map (fun d => (d.value, d.expiresAt)) = d'.map fun d => (d.value, d.expiresAt)) :
    d = d' := by
  cases d with
  | none =>
    cases d' with
    | none => rfl
    | some d' => cases h
  | some d =>
    cases d' with
    | none => cases h
    | some d' =>
      cases d
      cases d'
      cases h
      rfl

/-- A database as it stands in a dataset. -/
theorem getElem?_dataset {ks : Keyspace} {i : Nat} (hi : i < ks.count) :
    ks.dataset[i]? = some (listed ks.now (ks.databases.getD i Database.empty).entries.toList) := by
  unfold dataset
  rw [List.getElem?_map, List.getElem?_eq_getElem hi, List.getD_eq_getElem?_getD,
    List.getElem?_eq_getElem hi]
  rfl

/-- What a keyspace holds stands in its dataset. -/
theorem mem_dataset {ks : Keyspace} {i : Nat} {key : Bytes} {d : Datum}
    (h : ks.contents ks.now i key = some d) :
    ∃ entries ∈ ks.dataset, (key, d.value, d.expiresAt) ∈ entries := by
  have hi : i < ks.count := by
    by_contra hle
    rw [contents_of_le (Nat.le_of_not_lt hle)] at h
    cases h
  have hfound := contents_eq_find?_listed ks ks.now i key
  rw [h, Option.map_some] at hfound
  exact ⟨_, List.mem_of_getElem? (getElem?_dataset hi),
    (Assoc.find?_eq_some_iff (sorted_listed _ (ByteMap.sorted _))).1 hfound.symm⟩

/-- **Datasets are equal when contents are.** -/
theorem dataset_eq_iff {ks ks' : Keyspace} :
    ks.dataset = ks'.dataset
      ↔ ks.count = ks'.count ∧ ks.contents ks.now = ks'.contents ks'.now := by
  constructor
  · intro h
    have hcount : ks.count = ks'.count := by
      have hlength := congrArg List.length h
      unfold dataset at hlength
      rw [List.length_map, List.length_map] at hlength
      exact hlength
    refine ⟨hcount, ?_⟩
    funext i key
    by_cases hi : i < ks.count
    · -- equal lists have the same under each key
      have hlist := getElem?_dataset hi
      rw [h, getElem?_dataset (hcount ▸ hi)] at hlist
      refine map_datum_injective ?_
      rw [contents_eq_find?_listed, contents_eq_find?_listed, Option.some.inj hlist]
    · rw [contents_of_le (Nat.le_of_not_lt hi), contents_of_le (hcount ▸ Nat.le_of_not_lt hi)]
  · rintro ⟨hcount, hcontents⟩
    refine List.ext_getElem? fun i => ?_
    by_cases hi : i < ks.count
    · -- both lists are in the order of the keys, so what is found in them determines them
      rw [getElem?_dataset hi, getElem?_dataset (hcount ▸ hi)]
      refine congrArg some (Assoc.eq_of_find?_eq (sorted_listed _ (ByteMap.sorted _))
        (sorted_listed _ (ByteMap.sorted _)) fun key => ?_)
      rw [← contents_eq_find?_listed, ← contents_eq_find?_listed, hcontents]
    · have hlength : ∀ ks : Keyspace, ks.count ≤ i → ks.dataset[i]? = none := by
        intro ks hle
        refine List.getElem?_eq_none ?_
        unfold dataset
        rw [List.length_map]
        exact hle
      rw [hlength ks (Nat.le_of_not_lt hi), hlength ks' (hcount ▸ Nat.le_of_not_lt hi)]

end Keyspace

end DurableStore
