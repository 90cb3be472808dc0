/-
  DurableStore.Proofs.Keyspace.Notices
  ────────────────────────────────
  **THE NOTICES TELL THE WHOLE STORY.**

  A listener that was there from the beginning knows which keys are stored,
  dead ones included, without looking: a key is stored exactly if the last
  it heard of that key is that it was written.  Seven paths lead out of a
  database, and all of them come down to taking out one stored entry; so a
  change of the keyspace is of one of two kinds:

      Silent   — the same keys are stored, and nobody is told
      Tells    — one key is written or goes, and one notice says so

  Main result: `notices_complete`.
-/
import DurableStore.Proofs.Keyspace.Changes
import DurableStore.Proofs.Keyspace.Operation

namespace DurableStore

/-! ## §1. What was heard of a key. -/

/-- The last event of a key in a row of notices. -/
def lastEvent? (notices : List Notice) (i : Nat) (key : Bytes) : Option Event :=
  (notices.filter fun n => i = n.database ∧ key = n.key).getLast?.map Notice.event

/-- The last that was heard of a key is that it was written. -/
def LastWritten (notices : List Notice) (i : Nat) (key : Bytes) : Prop :=
  lastEvent? notices i key = some .new ∨ lastEvent? notices i key = some .set

variable {notices : List Notice} {i : Nat} {key : Bytes}

theorem lastEvent?_concat (notices : List Notice) (n : Notice) (i : Nat) (key : Bytes) :
    lastEvent? (notices ++ [n]) i key
      = if i = n.database ∧ key = n.key then some n.event else lastEvent? notices i key := by
  unfold lastEvent?
  rw [List.filter_append, List.filter_cons, List.filter_nil]
  by_cases h : i = n.database ∧ key = n.key
  · rw [if_pos h, if_pos (decide_eq_true h), List.getLast?_concat]
    rfl
  · rw [if_neg h, if_neg (by simpa using h), List.append_nil]

theorem lastWritten_concat (notices : List Notice) (n : Notice) (i : Nat) (key : Bytes) :
    LastWritten (notices ++ [n]) i key
      ↔ if i = n.database ∧ key = n.key then n.event.isWrite = true else LastWritten notices i key := by
  unfold LastWritten
  rw [lastEvent?_concat]
  split
  · cases n.event <;> decide
  · rfl

namespace Keyspace

variable {ks ks' between : Keyspace} {db : Database} {f : Database → Database} {n : Notice}

/-! ## §2. What is stored. -/

/-- The entry that is stored under a key, live or dead. -/
def stored? (ks : Keyspace) (i : Nat) (key : Bytes) : Option Entry :=
  ks.databases[i]?.bind fun db => db.entries.find? key

theorem stored?_of_database (hdb : ks.databases[i]? = some db) (key : Bytes) :
    ks.stored? i key = db.entries.find? key := by
  unfold stored?
  rw [hdb]
  rfl

theorem stored?_modifyDatabase (hdb : ks.databases[i]? = some db) (j : Nat) (key : Bytes) :
    (ks.modifyDatabase i f).stored? j key
      = if j = i then (f db).entries.find? key else ks.stored? j key := by
  by_cases hj : j = i
  · rw [if_pos hj, hj, stored?_of_database (getElem?_modifyDatabase hdb f)]
  · unfold stored? modifyDatabase
    dsimp only
    rw [if_neg hj, List.getElem?_modify]
    simp only [if_neg (Ne.symm hj), Option.map_eq_map, Option.map_id_fun']
    rfl

/-! ## §3. Changes, as a listener hears them. -/

/-- The same keys are stored, and nobody is told. -/
structure Silent (ks ks' : Keyspace) : Prop where
  stored : ∀ i key, (ks'.stored? i key).isSome = (ks.stored? i key).isSome
  notices : ks'.notices = ks.notices
  expired : ks'.stats.expired = ks.stats.expired
  evicted : ks'.stats.evicted = ks.stats.evicted
  listening : ks'.listening = ks.listening

/-- One key is written or goes, and one notice says so.  Unless the key is new, it was
stored before. -/
structure Tells (ks ks' : Keyspace) (n : Notice) : Prop where
  before : n.event ≠ .new → (ks.stored? n.database n.key).isSome = true
  stored : ∀ i key, (ks'.stored? i key).isSome
    = if i = n.database ∧ key = n.key then n.event.isWrite else (ks.stored? i key).isSome
  notices : ks'.notices = ks.notices ++ [n]
  expired : ks'.stats.expired = ks.stats.expired + if n.event = .expired then 1 else 0
  evicted : ks'.stats.evicted = ks.stats.evicted + if n.event = .evicted then 1 else 0
  listening : ks'.listening = ks.listening

/-- A database in which the same keys are stored as before. -/
theorem silent_modifyDatabase (hdb : ks.databases[i]? = some db)
    (h : ∀ key, ((f db).entries.find? key).isSome = (db.entries.find? key).isSome) :
    ks.Silent (ks.modifyDatabase i f) where
  stored j key := by
    rw [stored?_modifyDatabase hdb]
    split
    · rename_i hj
      rw [h, hj, stored?_of_database hdb]
    · rfl
  notices := rfl
  expired := rfl
  evicted := rfl
  listening := rfl

/-- A stored entry comes to be another one. -/
theorem isSome_insert {before : Entry} (hstored : db.entries.find? key = some before)
    (after : Entry)
    (k : Bytes) : ((db.entries.insert key after).find? k).isSome = (db.entries.find? k).isSome := by
  rw [ByteMap.find?_insert]
  split
  · rename_i hk
    rw [hk, hstored]
    rfl
  · rfl

/-- A database in which one key is written or goes, with a notice of it. -/
theorem tells_notify {event : Event} (hlistening : between.listening = true)
    (hdb : ks.databases[i]? = some db)
    (hbetween : between.databases = (ks.modifyDatabase i f).databases)
    (hbefore : event ≠ .new → (db.entries.find? key).isSome = true)
    (hafter : ∀ k, ((f db).entries.find? k).isSome
      = if k = key then event.isWrite else (db.entries.find? k).isSome)
    (hnotices : between.notices = ks.notices)
    (hexpired : between.stats.expired = ks.stats.expired + if event = .expired then 1 else 0)
    (hevicted : between.stats.evicted = ks.stats.evicted + if event = .evicted then 1 else 0)
    (hkept : between.listening = ks.listening) :
    ks.Tells (between.notify i key event) ⟨event, i, key⟩ := by
  have hnotify : between.notify i key event
      = { between with notices := between.notices ++ [⟨event, i, key⟩] } := if_pos hlistening
  rw [hnotify]
  refine ⟨?_, ?_, congrArg (· ++ _) hnotices, hexpired, hevicted, hkept⟩
  · rw [stored?_of_database hdb]
    exact hbefore
  · intro j k
    have hstored : between.stored? j k = (ks.modifyDatabase i f).stored? j k := by
      unfold stored?
      rw [hbetween]
    show (between.stored? j k).isSome = _
    rw [hstored, stored?_modifyDatabase hdb]
    by_cases hj : j = i
    · rw [if_pos hj, hafter, hj, stored?_of_database hdb]
      simp only [true_and]
    · rw [if_neg hj, if_neg fun h => hj h.1]

/-- Writing is told as writing over something only if it was there. -/
theorem writeEvent_cases (db : Database) (key : Bytes) (t : Millis) :
    db.writeEvent key t = .new
      ∨ db.writeEvent key t = .set ∧ (db.entries.find? key).isSome = true := by
  unfold Database.writeEvent
  cases db.entries.find? key with
  | none => exact .inl rfl
  | some previous =>
    dsimp only
    split
    · exact .inl rfl
    · exact .inr ⟨rfl, rfl⟩

/-- **Whatever happens to a keyspace is silent or is told.** -/
theorem Change.silent_or_tells (h : Change ks ks') (hlistening : ks.listening = true) :
    ks.Silent ks' ∨ ∃ n, ks.Tells ks' n := by
  -- only a write and a removal are told; what is touched or replaced was stored before
  cases h with
  | count => exact .inl ⟨fun _ _ => rfl, rfl, rfl, rfl, rfl⟩
  | sample hdb size =>
    refine .inl (silent_modifyDatabase hdb fun key => ?_)
    rw [Database.entries_sample]
  | touch hdb hstored => exact .inl (silent_modifyDatabase hdb (isSome_insert hstored _))
  | replace hdb hstored after => exact .inl (silent_modifyDatabase hdb (isSome_insert hstored _))
  | @write i db hdb key entry =>
    have hinserted : ∀ k, ((db.entries.insert key (entry.touch ks.now)).find? k).isSome
        = if k = key then true else (db.entries.find? k).isSome := by
      intro k
      rw [ByteMap.find?_insert]
      split <;> rfl
    rcases writeEvent_cases db key ks.now with hevent | ⟨hevent, hthere⟩ <;> rw [hevent]
    · exact .inr ⟨_, tells_notify hlistening hdb rfl (absurd rfl) hinserted rfl rfl rfl rfl⟩
    · exact .inr ⟨_, tells_notify hlistening hdb rfl (fun _ => hthere) hinserted rfl rfl rfl rfl⟩
  | @discard i key db entry event hdb hstored hevent =>
    have hkept : ((ks.modifyDatabase i (·.erase key entry)).countRemoval event).listening
        = ks.listening := by cases event <;> rfl
    refine .inr ⟨_, tells_notify (hkept.trans hlistening) hdb (databases_countRemoval _ event)
      (fun _ => ?_) ?_ ?_ ?_ ?_ hkept⟩
    · rw [hstored]
      rfl
    · intro k
      show ((db.entries.erase key).find? k).isSome = _
      rw [ByteMap.find?_erase, hevent]
      split <;> rfl
    all_goals cases event <;> rfl

/-! ## §4. What the listener knows. -/

/-- What the notices say is how things stand. -/
structure Told (ks : Keyspace) : Prop where
  listening : ks.listening = true
  /-- A key is stored exactly if the last that was heard of it is that it was written. -/
  stored : ∀ i key, (ks.stored? i key).isSome = true ↔ LastWritten ks.notices i key
  /-- Whatever is told of a key that is not new comes after it was written. -/
  ordered : ∀ before n later, ks.notices = before ++ n :: later → n.event ≠ .new →
    LastWritten before n.database n.key
  expired : ks.stats.expired = ks.notices.countP fun n => n.event = .expired
  evicted : ks.stats.evicted = ks.notices.countP fun n => n.event = .evicted

theorem Silent.told (h : ks.Silent ks') (htold : ks.Told) : ks'.Told where
  listening := h.listening.trans htold.listening
  stored i key := by
    rw [h.stored, h.notices]
    exact htold.stored i key
  ordered := by
    rw [h.notices]
    exact htold.ordered
  expired := by
    rw [h.expired, h.notices]
    exact htold.expired
  evicted := by
    rw [h.evicted, h.notices]
    exact htold.evicted

/-- **One notice more.** -/
theorem Tells.told (h : ks.Tells ks' n) (htold : ks.Told) : ks'.Told where
  listening := h.listening.trans htold.listening
  stored i key := by
    rw [h.stored, h.notices, lastWritten_concat]
    split
    · rfl
    · exact htold.stored i key
  ordered before m later hsplit hevent := by
    rw [h.notices] at hsplit
    rcases List.eq_nil_or_concat later with rfl | ⟨earlier, last, rfl⟩
    · -- it is the new notice, and the key was stored until then
      obtain ⟨hbefore, hn⟩ := List.append_inj' hsplit rfl
      cases hn
      rw [← hbefore, ← htold.stored]
      exact h.before hevent
    · rw [List.concat_eq_append, ← List.cons_append, ← List.append_assoc] at hsplit
      obtain ⟨hearlier, -⟩ := List.append_inj' hsplit rfl
      exact htold.ordered before m earlier hearlier hevent
  expired := by
    rw [h.expired, h.notices, htold.expired, List.countP_append, List.countP_singleton]
    simp only [decide_eq_true_eq]
  evicted := by
    rw [h.evicted, h.notices, htold.evicted, List.countP_append, List.countP_singleton]
    simp only [decide_eq_true_eq]

/-- **A row of changes**, by induction on it. -/
theorem Changes.told (h : Changes ks ks') (htold : ks.Told) : ks'.Told := by
  induction h with
  | refl => exact htold
  | tail _ hstep ih =>
    rcases hstep.silent_or_tells ih.listening with hsilent | ⟨n, htells⟩
    · exact hsilent.told ih
    · exact htells.told ih

/-! ## §5. Runs. -/

/-- One step of a run: an operation on keys, or another clock reading. -/
inductive Traffic : Keyspace → Keyspace → Prop
  | work {ks ks' : Keyspace} (h : Work ks ks') : Traffic ks ks'
  | clock (ks : Keyspace) (t : Millis) : Traffic ks (ks.atTime t)

/-- An empty keyspace with a listener, under any limits. -/
def observed (count : Nat) (now : Millis) (maxMemory : Nat) (policy : EvictionPolicy) : Keyspace :=
  (((Keyspace.new count now).withMaxMemory maxMemory).withPolicy policy).withListener

variable {count maxMemory : Nat} {now : Millis} {policy : EvictionPolicy}

theorem told_observed : (observed count now maxMemory policy).Told where
  listening := rfl
  stored i key := by
    have hnone : (observed count now maxMemory policy).stored? i key = none := by
      unfold stored?
      cases hdb : (observed count now maxMemory policy).databases[i]? with
      | none => rfl
      | some db =>
        obtain rfl := List.eq_of_mem_replicate (List.mem_of_getElem? hdb)
        rfl
    rw [hnone]
    exact ⟨nofun, nofun⟩
  ordered before n later hsplit := by
    obtain ⟨-, hcons⟩ := List.append_eq_nil_iff.1 hsplit.symm
    cases hcons
  expired := rfl
  evicted := rfl

theorem told_of_run (h : Relation.ReflTransGen Traffic (observed count now maxMemory policy) ks) :
    ks.Told := by
  induction h with
  | refl => exact told_observed
  | tail _ hstep ih =>
    cases hstep with
    | work hwork => exact hwork.changes.told ih
    | clock t => exact ⟨ih.listening, ih.stored, ih.ordered, ih.expired, ih.evicted⟩

/-- **The notices tell the whole story.**  After any run of operations on keys and any
changes of the clock, from an empty keyspace with a listener: a key is stored, dead or
live, exactly if the last notice of it says that it was written; every notice that is
not of a new key comes after one that says that the key was written; and as many keys
have expired, and were evicted, as the notices say. -/
theorem notices_complete
    (h : Relation.ReflTransGen Traffic (observed count now maxMemory policy) ks) :
    (∀ i key, (∃ entry, ks.stored? i key = some entry)
        ↔ lastEvent? ks.notices i key = some .new ∨ lastEvent? ks.notices i key = some .set)
      ∧ (∀ before n later, ks.notices = before ++ n :: later → n.event ≠ .new →
          lastEvent? before n.database n.key = some .new
            ∨ lastEvent? before n.database n.key = some .set)
      ∧ (ks.stats.expired = ks.notices.countP fun n => n.event = .expired)
      ∧ ks.stats.evicted = ks.notices.countP fun n => n.event = .evicted := by
  have htold := told_of_run h
  refine ⟨fun i key => ?_, htold.ordered, htold.expired, htold.evicted⟩
  rw [← Option.isSome_iff_exists]
  exact htold.stored i key

/-- A key is evicted, and another one is found dead. -/
theorem notices_complete_removals :
    ∃ ks, Relation.ReflTransGen Traffic (observed 1 0 1 .allKeysLru) ks
      ∧ ks.notices = [⟨.new, 0, [97]⟩, ⟨.evicted, 0, [97]⟩, ⟨.new, 0, [98]⟩, ⟨.expired, 0, [98]⟩]
      ∧ (∀ i key, (∃ entry, ks.stored? i key = some entry)
          ↔ lastEvent? ks.notices i key = some .new ∨ lastEvent? ks.notices i key = some .set)
      ∧ (∀ before n later, ks.notices = before ++ n :: later → n.event ≠ .new →
          lastEvent? before n.database n.key = some .new
            ∨ lastEvent? before n.database n.key = some .set)
      ∧ (ks.stats.expired = ks.notices.countP fun n => n.event = .expired)
      ∧ ks.stats.evicted = ks.notices.countP fun n => n.event = .evicted := by
  have hput : (observed 1 0 1 .allKeysLru).put 0 [97] (Entry.fresh (.string [118]) none)
      = .ok ⟨[⟨ByteMap.empty.insert [97] (Entry.fresh (.string [118]) none), 50, 0⟩], 0, 1,
          .allKeysLru, 1, ⟨0, 0, 0, 0⟩, true, [⟨.new, 0, [97]⟩]⟩ := rfl
  have hevict : evict ⟨[⟨ByteMap.empty.insert [97] (Entry.fresh (.string [118]) none), 50, 0⟩], 0, 1,
          .allKeysLru, 1, ⟨0, 0, 0, 0⟩, true, [⟨.new, 0, [97]⟩]⟩ 0
      = .ok (⟨[⟨ByteMap.empty, 0, 0⟩], 0, 1, .allKeysLru, 1, ⟨0, 0, 0, 1⟩, true,
          [⟨.new, 0, [97]⟩, ⟨.evicted, 0, [97]⟩]⟩, 1) := rfl
  have hwrite : put ⟨[⟨ByteMap.empty, 0, 0⟩], 0, 1, .allKeysLru, 1, ⟨0, 0, 0, 1⟩, true,
          [⟨.new, 0, [97]⟩, ⟨.evicted, 0, [97]⟩]⟩ 0 [98] (Entry.fresh (.string [118]) (some 5))
      = .ok ⟨[⟨ByteMap.empty.insert [98] (Entry.fresh (.string [118]) (some 5)), 50, 0⟩], 0, 1,
          .allKeysLru, 2, ⟨0, 0, 0, 1⟩, true,
          [⟨.new, 0, [97]⟩, ⟨.evicted, 0, [97]⟩, ⟨.new, 0, [98]⟩]⟩ := rfl
  have hget : get ⟨[⟨ByteMap.empty.insert [98] (Entry.fresh (.string [118]) (some 5)), 50, 0⟩], 9, 1,
          .allKeysLru, 2, ⟨0, 0, 0, 1⟩, true,
          [⟨.new, 0, [97]⟩, ⟨.evicted, 0, [97]⟩, ⟨.new, 0, [98]⟩]⟩ 0 [98]
      = .ok (⟨[⟨ByteMap.empty, 0, 0⟩], 9, 1, .allKeysLru, 2, ⟨0, 1, 1, 1⟩, true,
          [⟨.new, 0, [97]⟩, ⟨.evicted, 0, [97]⟩, ⟨.new, 0, [98]⟩, ⟨.expired, 0, [98]⟩]⟩, none) := rfl
  have hrun := ((((Relation.ReflTransGen.single (Traffic.work (.put hput))).tail
    (.work (.evict hevict))).tail (.work (.put hwrite))).tail (.clock _ 9)).tail (.work (.get hget))
  exact ⟨_, hrun, rfl, notices_complete hrun⟩

/-! ## §6. Evictions. -/

/-- What a listener hears while a keyspace changes: as many evictions as are counted, in
databases that exist. -/
structure Hears (ks ks' : Keyspace) (heard : List Notice) : Prop where
  notices : ks'.notices = ks.notices ++ heard
  evicted : ks'.stats.evicted = ks.stats.evicted + heard.countP fun n => n.event = .evicted
  listening : ks'.listening = ks.listening
  count : ks'.count = ks.count
  database : ∀ n ∈ heard, n.event = .evicted → n.database < ks.count

theorem Hears.trans {ks'' : Keyspace} {heard more : List Notice} (h : ks.Hears ks' heard)
    (h' : ks'.Hears ks'' more) : ks.Hears ks'' (heard ++ more) where
  notices := by rw [h'.notices, h.notices, List.append_assoc]
  evicted := by rw [h'.evicted, h.evicted, List.countP_append, Nat.add_assoc]
  listening := h'.listening.trans h.listening
  count := h'.count.trans h.count
  database := by
    refine List.forall_mem_append.2 ⟨h.database, ?_⟩
    rw [← h.count]
    exact h'.database

/-- Nothing is heard where nobody is told and nothing is counted. -/
theorem hears_nothing (hnotices : ks'.notices = ks.notices)
    (hevicted : ks'.stats.evicted = ks.stats.evicted) (hlistening : ks'.listening = ks.listening)
    (hcount : ks'.count = ks.count) : ks.Hears ks' [] :=
  ⟨hnotices.trans (List.append_nil _).symm, hevicted, hlistening, hcount,
    fun _ hmem => absurd hmem List.not_mem_nil⟩

theorem Change.count_eq (h : Change ks ks') : ks'.count = ks.count := by
  cases h with
  | count => rfl
  | sample | touch | replace => exact count_modifyDatabase ks _ _
  | write =>
    exact (congrArg List.length (databases_notify _ _ _ _)).trans (count_modifyDatabase ks _ _)
  | discard =>
    exact (congrArg List.length (databases_discard _ _ _ _ _)).trans (count_modifyDatabase ks _ _)

theorem Change.hears (h : Change ks ks') (hlistening : ks.listening = true) :
    ∃ heard, ks.Hears ks' heard := by
  rcases h.silent_or_tells hlistening with hsilent | ⟨n, htells⟩
  · exact ⟨[], hears_nothing hsilent.notices hsilent.evicted hsilent.listening h.count_eq⟩
  · refine ⟨[n], htells.notices, ?_, htells.listening, h.count_eq, List.forall_mem_singleton.2 ?_⟩
    · rw [htells.evicted, List.countP_singleton]
      simp only [decide_eq_true_eq]
    · intro hevent
      -- what is evicted was stored, so its database exists
      have hstored : (ks.stored? n.database n.key).isSome = true :=
        htells.before (by rw [hevent]; exact nofun)
      by_contra hle
      unfold stored? at hstored
      rw [List.getElem?_eq_none (Nat.le_of_not_lt hle)] at hstored
      cases hstored

theorem Changes.hears (h : Changes ks ks') (hlistening : ks.listening = true) :
    ∃ heard, ks.Hears ks' heard := by
  induction h with
  | refl => exact ⟨[], hears_nothing rfl rfl rfl rfl⟩
  | tail _ hstep ih =>
    obtain ⟨heard, hbefore⟩ := ih
    obtain ⟨more, hafter⟩ := hstep.hears (hbefore.listening.trans hlistening)
    exact ⟨_, hbefore.trans hafter⟩

/-- Nobody is told of what is done with whole databases. -/
theorem Operation.hears (h : Operation ks ks') (hlistening : ks.listening = true) :
    ∃ heard, ks.Hears ks' heard := by
  have hcount := h.count
  cases h with
  | visit h => exact (changes_visit h).hears hlistening
  | update h => exact (changes_update h).hears hlistening
  | put h => exact (changes_put h).hears hlistening
  | remove h => exact (changes_remove h).hears hlistening
  | sweep => exact (changes_sweep ks).hears hlistening
  | evict h => exact (changes_evict h).hears hlistening
  | maybeEvict i => exact (changes_maybeEvict ks i).hears hlistening
  | clear h =>
    obtain ⟨-, -, h⟩ := exists_of_bind h
    cases h
    exact ⟨[], hears_nothing rfl rfl rfl hcount⟩
  | clearAll => exact ⟨[], hears_nothing rfl rfl rfl hcount⟩
  | swap h =>
    obtain ⟨da, -, h⟩ := exists_of_bind h
    obtain ⟨db, -, h⟩ := exists_of_bind h
    cases h
    exact ⟨[], hears_nothing rfl rfl rfl hcount⟩
  | restore h =>
    obtain ⟨-, rfl⟩ := Keyspace.restore_eq_ok_iff.1 h
    exact ⟨[], hears_nothing rfl rfl rfl hcount⟩

/-- **Whatever is done with a keyspace, its listener hears of every eviction.** -/
theorem Operates.hears (h : Operates ks ks') (hlistening : ks.listening = true) :
    ∃ heard, ks.Hears ks' heard := by
  induction h with
  | refl => exact ⟨[], hears_nothing rfl rfl rfl rfl⟩
  | tail _ hstep ih =>
    obtain ⟨heard, hbefore⟩ := ih
    obtain ⟨more, hafter⟩ := hstep.hears (hbefore.listening.trans hlistening)
    exact ⟨_, hbefore.trans hafter⟩

end Keyspace

end DurableStore
