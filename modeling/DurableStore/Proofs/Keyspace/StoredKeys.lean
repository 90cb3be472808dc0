/-
  DurableStore.Proofs.Keyspace.StoredKeys
  ────────────────────────────────
  **THE KEYS THAT ARE STORED.**

  An eviction may take an entry that is expired already and that nobody
  sees.  So what is known of the contents says nothing about the victims;
  what is known of the stored keys does:

      ks.KeysFit   — every stored key, live or not, fits in memory

  Every operation stores an entry only under a key that was stored before
  or that it was given.

  Main results:
    * `Session.keysFit_apply` — a command that fits stores only keys that do;
    * `Session.victims_fit` — the keys that it evicts fit.
-/
import DurableStore.Proofs.Command.Lockstep
import DurableStore.Proofs.Command.Storable
import DurableStore.Proofs.Keyspace.Steps

namespace DurableStore

/-! ## §1. Databases. -/

/-- Every stored key fits in memory. -/
def Database.KeysFit (db : Database) : Prop :=
  ∀ key entry, db.entries.find? key = some entry → key.length < lengthBound

namespace Database

variable {db db' : Database} {key : Bytes}

theorem keysFit_empty : empty.KeysFit := fun _ _ h => nomatch h

theorem KeysFit.congr (h : db.KeysFit) (hsame : db'.entries = db.entries) : db'.KeysFit := by
  intro k entry hfound
  rw [hsame] at hfound
  exact h k entry hfound

theorem KeysFit.insert (h : db.KeysFit) (hkey : key.length < lengthBound) {entry : Entry}
    (hinsert : db'.entries = db.entries.insert key entry) : db'.KeysFit := by
  intro k e hfound
  rw [hinsert, ByteMap.find?_insert] at hfound
  split at hfound
  · rename_i hsame
    rw [hsame]
    exact hkey
  · exact h k e hfound

theorem KeysFit.erase (h : db.KeysFit) (herase : db'.entries = db.entries.erase key) :
    db'.KeysFit := by
  intro k e hfound
  rw [herase, ByteMap.find?_erase] at hfound
  split at hfound
  · cases hfound
  · exact h k e hfound

end Database

namespace Keyspace

/-- Every stored key fits in memory. -/
def KeysFit (ks : Keyspace) : Prop := ∀ db ∈ ks.databases, db.KeysFit

variable {ks ks' : Keyspace} {i : Nat}

/-! ## §2. Steps. -/

theorem KeysFit.congr (h : ks.KeysFit) (hsame : ks'.databases = ks.databases) : ks'.KeysFit := by
  intro db hdb
  rw [hsame] at hdb
  exact h db hdb

theorem KeysFit.getD (h : ks.KeysFit) (i : Nat) :
    (ks.databases.getD i Database.empty).KeysFit :=
  forall_getD h Database.empty Database.keysFit_empty i

theorem KeysFit.database (h : ks.KeysFit) {db : Database} (hdb : ks.database i = .ok db) :
    db.KeysFit := by
  unfold Keyspace.database at hdb
  cases hget : ks.databases[i]? with
  | none =>
    rw [hget] at hdb
    cases hdb
  | some db' =>
    rw [hget] at hdb
    cases hdb
    exact h db (List.mem_of_getElem? hget)

theorem KeysFit.modify (h : ks.KeysFit) {f : Database → Database}
    (hf : ∀ db, db.KeysFit → (f db).KeysFit) : (ks.modifyDatabase i f).KeysFit := by
  intro db hdb
  obtain ⟨j, hj⟩ := List.getElem?_of_mem hdb
  unfold modifyDatabase at hj
  dsimp only at hj
  rw [List.getElem?_modify] at hj
  obtain ⟨before, hbefore, hafter⟩ := Option.map_eq_some_iff.1 hj
  have hfits := h before (List.mem_of_getElem? hbefore)
  rw [← hafter]
  split
  · exact hf before hfits
  · exact hfits

theorem KeysFit.discard (h : ks.KeysFit) (key : Bytes) (entry : Entry) (event : Event) :
    (ks.discard i key entry event).KeysFit := by
  have herased : (ks.modifyDatabase i (·.erase key entry)).KeysFit :=
    h.modify fun db hdb => hdb.erase rfl
  refine herased.congr ?_
  unfold Keyspace.discard
  rw [databases_notify, databases_countRemoval]

theorem KeysFit.visit (h : ks.KeysFit) {key : Bytes} {found : Option Entry}
    (hvisit : ks.visit i key = .ok (ks', found)) :
    ks'.KeysFit ∧ (found ≠ none → key.length < lengthBound) := by
  unfold Keyspace.visit at hvisit
  obtain ⟨db, hdb, hvisit⟩ := exists_of_bind hvisit
  cases hfind : db.entries.find? key with
  | none =>
    rw [hfind] at hvisit
    cases hvisit
    exact ⟨h.congr rfl, fun hne => absurd rfl hne⟩
  | some entry =>
    have hkey := h.database hdb key entry hfind
    rw [hfind] at hvisit
    dsimp only at hvisit
    split at hvisit
    · cases hvisit
      exact ⟨(h.discard key entry .expired).congr rfl, fun _ => hkey⟩
    · cases hvisit
      have htouched : (ks.modifyDatabase i (·.store key (entry.touch ks.now))).KeysFit :=
        h.modify fun db hdb => hdb.insert hkey rfl
      exact ⟨htouched.congr rfl, fun _ => hkey⟩

theorem KeysFit.update {α : Type} (h : ks.KeysFit) {key : Bytes} {change : Entry → Entry × α}
    {result : Option α} (hupdate : ks.update i key change = .ok (ks', result)) : ks'.KeysFit := by
  unfold Keyspace.update at hupdate
  obtain ⟨⟨ks₁, found⟩, hvisit, hupdate⟩ := exists_of_bind hupdate
  obtain ⟨hfits, hkey⟩ := h.visit hvisit
  cases found with
  | none =>
    cases hupdate
    exact hfits
  | some before =>
    have hreplaced : (ks₁.modifyDatabase i (·.replace key before (change before).1)).KeysFit :=
      hfits.modify fun db hdb => hdb.insert (hkey (fun hnone => nomatch hnone)) rfl
    dsimp only at hupdate
    split at hupdate
    · cases hupdate
      exact hreplaced.discard key _ .del
    · cases hupdate
      exact hreplaced

/-! ## §3. Evictions. -/

theorem KeysFit.attemptEviction (h : ks.KeysFit) (i : Nat) :
    (ks.attemptEviction i (ks.databases.getD i Database.empty)).1.KeysFit := by
  have hmoved : (ks.modifyDatabase i fun _ =>
      ((ks.databases.getD i Database.empty).sample ks.policy.sampleSize).2).KeysFit :=
    h.modify fun _ _ => (h.getD i).congr (Database.entries_sample _ _)
  unfold Keyspace.attemptEviction
  dsimp only
  split
  · exact hmoved.discard _ _ .evicted
  · exact hmoved

theorem victim?_fits (h : ks.KeysFit) {p : Bytes × Entry}
    (hvictim : ks.victim? (ks.databases.getD i Database.empty) = some p) :
    p.1.length < lengthBound :=
  h.getD i p.1 p.2 ((ByteMap.find?_eq_some_iff _).2 (mem_of_victim? hvictim))

theorem evictUpTo_fits (budget : Nat) (h : ks.KeysFit) (i : Nat) :
    (evictUpTo budget ks i).1.KeysFit
      ∧ ∀ key ∈ victimsUpTo budget ks i, key.length < lengthBound := by
  induction budget generalizing ks with
  | zero => exact ⟨h, fun key hkey => absurd hkey List.not_mem_nil⟩
  | succ budget ih =>
    unfold evictUpTo victimsUpTo
    cases hdb : ks.databases[i]? with
    | none => exact ⟨h, fun key hkey => absurd hkey List.not_mem_nil⟩
    | some db =>
      have hget : ks.databases.getD i Database.empty = db := by
        rw [List.getD_eq_getElem?_getD, hdb]
        rfl
      dsimp only
      split
      · exact ⟨h, fun key hkey => absurd hkey List.not_mem_nil⟩
      · have hattempt := h.attemptEviction i
        rw [hget] at hattempt
        obtain ⟨hrest, hvictims⟩ := ih hattempt
        refine ⟨hrest, ?_⟩
        intro key hkey
        rcases List.mem_append.1 hkey with hfirst | hlater
        · obtain ⟨p, hvictim, rfl⟩ := Option.map_eq_some_iff.1 (Option.mem_toList.1 hfirst)
          exact victim?_fits h (hget.symm ▸ hvictim)
        · exact hvictims key hlater

theorem victims_fit (h : ks.KeysFit) (i : Nat) :
    ∀ key ∈ ks.victims i, key.length < lengthBound := by
  have hcounted : ks.countWrite.KeysFit := h.congr rfl
  unfold victims
  split
  · exact (evictUpTo_fits maxAttempts hcounted i).2
  · exact fun key hkey => absurd hkey List.not_mem_nil

theorem KeysFit.evict (h : ks.KeysFit) {outcome : Keyspace × Nat}
    (hevict : ks.evict i = .ok outcome) : outcome.1.KeysFit := by
  unfold Keyspace.evict at hevict
  obtain ⟨db, hdb, hevict⟩ := exists_of_bind hevict
  split at hevict
  · rw [← Except.ok.inj hevict]
    exact (evictUpTo_fits maxAttempts h i).1
  · rw [← Except.ok.inj hevict]
    exact h

theorem KeysFit.maybeEvict (h : ks.KeysFit) (i : Nat) : (ks.maybeEvict i).1.KeysFit := by
  have hcount : ks.countWrite.KeysFit := h.congr rfl
  rcases maybeEvict_cases ks i with hsame | hcounted | ⟨n, hevict⟩
  · rw [hsame]
    exact h
  · rw [hcounted]
    exact hcount
  · exact hcount.evict hevict

/-! ## §4. Operations. -/

theorem KeysFit.put (h : ks.KeysFit) {key : Bytes} (hkey : key.length < lengthBound) {entry : Entry}
    (hput : ks.put i key entry = .ok ks') : ks'.KeysFit := by
  have hroom := h.maybeEvict i
  unfold Keyspace.put at hput
  generalize ks.maybeEvict i = outcome at hput hroom
  obtain ⟨room, result⟩ := outcome
  obtain ⟨db, hdb, hput⟩ := exists_of_bind hput
  obtain ⟨db', hdb', hput⟩ := exists_of_bind hput
  have hinserted : (room.modifyDatabase i (·.insert key (entry.touch room.now))).KeysFit :=
    hroom.modify fun db hdb => hdb.insert hkey rfl
  cases hput
  exact hinserted.congr (databases_notify _ i key _)

theorem KeysFit.remove (h : ks.KeysFit) {key : Bytes} {found : Option Entry}
    (hremove : ks.remove i key = .ok (ks', found)) : ks'.KeysFit := by
  unfold Keyspace.remove at hremove
  obtain ⟨db, hdb, hremove⟩ := exists_of_bind hremove
  split at hremove
  · cases hremove
    exact h
  · split at hremove
    · cases hremove
      exact h.discard key _ .expired
    · cases hremove
      exact h.discard key _ .del

theorem KeysFit.clear (h : ks.KeysFit) (hclear : ks.clear i = .ok ks') : ks'.KeysFit := by
  unfold Keyspace.clear at hclear
  obtain ⟨db, hdb, hclear⟩ := exists_of_bind hclear
  cases hclear
  exact h.modify fun _ _ => Database.keysFit_empty

theorem keysFit_clearAll (ks : Keyspace) : ks.clearAll.KeysFit := by
  intro db hdb
  obtain ⟨before, -, rfl⟩ := List.mem_map.1 hdb
  exact Database.keysFit_empty

theorem KeysFit.swap (h : ks.KeysFit) {a b : Nat} (hswap : ks.swap a b = .ok ks') :
    ks'.KeysFit := by
  unfold Keyspace.swap at hswap
  obtain ⟨da, hfirst, hswap⟩ := exists_of_bind hswap
  obtain ⟨db, hsecond, hswap⟩ := exists_of_bind hswap
  cases hswap
  intro db' hdb'
  rcases List.mem_or_eq_of_mem_set hdb' with hmem | rfl
  · rcases List.mem_or_eq_of_mem_set hmem with hmem' | rfl
    · exact h db' hmem'
    · exact h.database hsecond
  · exact h.database hfirst

end Keyspace

/-! ## §5. Commands. -/

namespace Session

open Command

/-- An operation whose outcome keeps a property of the keyspace. -/
theorem andThen_keeps {α : Type} {P : Keyspace → Prop} {s : Session} (h : P s.keyspace)
    {outcome : Except KeyspaceError (Keyspace × α)} {next : Session → α → Step}
    (hnext : ∀ ks result, outcome = .ok (ks, result) →
      P (next { s with keyspace := ks } result).1.keyspace) :
    P (s.andThen outcome next).1.keyspace := by
  unfold andThen
  split
  · exact hnext _ _ rfl
  · exact h

theorem finish_keeps {P : Keyspace → Prop} {s : Session} (h : P s.keyspace)
    {outcome : Except KeyspaceError Keyspace} (hfinish : ∀ ks, outcome = .ok ks → P ks) :
    P (s.finish outcome).1.keyspace := by
  unfold finish
  split
  · exact hfinish _ rfl
  · exact h

theorem keysFit_removeAll (keys : List Bytes) {s : Session} (h : s.keyspace.KeysFit) :
    (removeAll keys s).1.keyspace.KeysFit := by
  induction keys generalizing s with
  | nil => exact h
  | cons key keys ih =>
    refine andThen_keeps h fun ks found hremove => ?_
    exact ih (h.remove hremove)

/-- **What was read from a command that fits stores only keys that fit.** -/
theorem keysFit_perform {s : Session} (h : s.keyspace.KeysFit) {action : Action}
    (haction : action.Storable) : (s.perform action).1.keyspace.KeysFit := by
  -- only `SET` and a change of an absent key put a key, and that key is one of the command
  cases action with
  | select index =>
    show (s.select index).1.keyspace.KeysFit
    unfold select
    split <;> exact h
  | set request =>
    refine andThen_keeps h fun ks found hvisit => ?_
    have hvisited := (h.visit hvisit).1
    dsimp only
    split
    · exact finish_keeps hvisited fun ks' hput => hvisited.put haction.1 hput
    · exact hvisited
  | remove keys => exact keysFit_removeAll keys h
  | change key kind edit =>
    refine andThen_keeps h fun ks found hvisit => ?_
    have hvisited := (h.visit hvisit).1
    dsimp only
    split
    · split
      · exact hvisited
      · exact andThen_keeps hvisited fun ks' result hupdate => hvisited.update hupdate
    · exact finish_keeps hvisited fun ks' hput => hvisited.put haction.1 hput
  | expire key expiresAt =>
    refine andThen_keeps h fun ks found hexpiry => ?_
    unfold Keyspace.setExpiry at hexpiry
    cases hupdate : s.keyspace.update s.selected key
        fun entry => ({ entry with expiresAt }, ()) with
    | error error =>
      rw [hupdate] at hexpiry
      cases hexpiry
    | ok outcome =>
      obtain ⟨ks', result⟩ := outcome
      rw [hupdate] at hexpiry
      cases hexpiry
      exact h.update hupdate
  | clear => exact finish_keeps h fun ks hclear => h.clear hclear
  | clearAll =>
    exact finish_keeps h fun ks hclear => Except.ok.inj hclear ▸ Keyspace.keysFit_clearAll s.keyspace
  | swap a b => exact finish_keeps h fun ks hswap => h.swap hswap

/-- **A command that fits stores only keys that fit.** -/
theorem keysFit_apply {s : Session} (h : s.keyspace.KeysFit) {command : Command}
    (hvocabulary : s.fallback = none ∨ command.InVocabulary) (hfits : Wire.Fits command) :
    (s.apply command).1.keyspace.KeysFit := by
  rw [apply_eq hvocabulary]
  unfold reading
  split
  · rename_i action haction
    exact keysFit_perform h (storable_action hfits haction)
  · exact h

/-- The keys that a command evicts fit. -/
theorem victims_fit {s : Session} (h : s.keyspace.KeysFit) (command : Command) :
    ∀ key ∈ s.victims command, key.length < lengthBound := by
  have hvisited : ∀ key, (s.visited key).KeysFit := by
    intro key
    unfold visited
    split
    · rename_i hvisit
      exact (h.visit hvisit).1
    · exact h
  have hnone : ∀ key ∈ ([] : List Bytes), key.length < lengthBound :=
    fun key hkey => absurd hkey List.not_mem_nil
  unfold victims
  split
  · rename_i action _
    unfold victimsFor
    split
    · split
      · exact Keyspace.victims_fit (hvisited _) s.selected
      · exact hnone
    · split
      · exact hnone
      · exact Keyspace.victims_fit (hvisited _) s.selected
    · exact hnone
  · exact hnone

end Session

/-- **A write of a command that fits stores only keys that fit.** -/
theorem Keyspace.KeysFit.effect {ks : Keyspace} (h : ks.KeysFit)
    (hcount : ks.count < Bytes.u64Bound)
    (database : Nat) {command : Command} (hfits : Wire.Fits command) :
    (command.effect database ks).1.KeysFit := by
  by_cases hdatabase : database < ks.count
  · rw [Keyspace.effect_of_lt hcount hdatabase]
    exact Session.keysFit_apply h (.inl rfl) hfits
  · obtain ⟨error, heffect⟩ := Keyspace.effect_of_le (Nat.le_of_not_lt hdatabase) command
    rw [heffect]
    exact h

end DurableStore
