/-
  DurableStore.Proofs.Keyspace.Expiry
  ────────────────────────────────
  **WHEN A DEAD ENTRY GOES IS SEEN BY NOBODY.**

  A dead entry may stay where it is for any time, until a lookup meets it, a
  sweep takes it, or something is written over it.  A LIVE STORE has no dead
  entries: it is a map from key to datum for each database, from which a key
  is gone as soon as the clock is past its deadline.  A keyspace shows a live
  store,

      visible ks   — under each key the datum of the entry that is live now

  and what it answers to a request is what the live store that it shows
  would answer:

      (ks.request call).map shown = ks.visible.request call

  Sweeps and lookups beside the requests leave what is shown as it is.

  Main result: `expiry_is_unobservable`.
-/
import DurableStore.Proofs.Keyspace.Eviction
import DurableStore.Proofs.Keyspace.Operation

namespace DurableStore

/-! ## §1. Maps with fewer or other values. -/

namespace ByteMap

variable {α β : Type}

/-- The pairs with such values. -/
def filter (keep : α → Bool) (m : ByteMap α) : ByteMap α :=
  ⟨m.toList.filter fun p => keep p.2, List.Pairwise.filter _ m.sorted⟩

/-- The map with other values under the same keys. -/
def map (f : α → β) (m : ByteMap α) : ByteMap β :=
  ⟨m.toList.map fun p => (p.1, f p.2), Assoc.sorted_map f m.sorted⟩

@[simp] theorem find?_filter (keep : α → Bool) (m : ByteMap α) (key : Bytes) :
    (m.filter keep).find? key = (m.find? key).filter keep :=
  Assoc.find?_filter keep m.sorted key

@[simp] theorem find?_map (f : α → β) (m : ByteMap α) (key : Bytes) :
    (m.map f).find? key = (m.find? key).map f :=
  Assoc.find?_map f key m.toList

end ByteMap

/-! ## §2. Requests and answers. -/

/-- What is asked of a store.  A change in place may be any; it sees the value and the
deadline of an entry that was accessed just now. -/
inductive Call (α : Type) where
  | put (i : Nat) (key : Bytes) (entry : Entry)
  | get (i : Nat) (key : Bytes)
  | contains (i : Nat) (key : Bytes)
  | remove (i : Nat) (key : Bytes)
  | update (i : Nat) (key : Bytes) (change : Entry → Entry × α)
  | setExpiry (i : Nat) (key : Bytes) (expiresAt : Option Millis)
  | keys (i : Nat)
  | entries (i : Nat)
  | snapshot
  | clear (i : Nat)
  | clearAll
  | swap (a b : Nat)
  | restore (s : Snapshot)
  | clock (reading : Millis)

/-- The database that a request is about, if it is about a single one. -/
def Call.database? {α : Type} : Call α → Option Nat
  | .put i _ _ | .get i _ | .contains i _ | .remove i _ | .update i _ _ | .setExpiry i _ _
  | .keys i | .entries i | .clear i => some i
  | .snapshot | .clearAll | .swap _ _ | .restore _ | .clock _ => none

/-- The clock reading after a request. -/
def Call.clockAfter {α : Type} (now : Millis) : Call α → Millis
  | .clock reading => reading
  | _ => now

/-- What a store answers: access times are no part of it. -/
inductive Answer (α : Type) where
  | done
  | refused (error : KeyspaceError)
  | entry (found : Option Datum)
  | truth (found : Bool)
  | changed (result : Option α)
  | keys (keys : List Bytes)
  | entries (entries : List (Bytes × Datum))
  | snapshot (takenAt : Millis) (databases : List (List (Bytes × Datum)))
  deriving DecidableEq

/-- The live entries of a list, without their access times. -/
def liveData (now : Millis) (entries : List (Bytes × Entry)) : List (Bytes × Datum) :=
  (Snapshot.liveAt now entries).map fun p => (p.1, p.2.datum)

/-! ## §3. The live store. -/

/-- A clock reading, and what is under each key of each database. -/
structure LiveStore where
  now : Millis
  databases : List (ByteMap Datum)
  deriving DecidableEq

namespace LiveStore

/-- The number of databases. -/
def count (s : LiveStore) : Nat := s.databases.length

/-- A database by its index. -/
def database (s : LiveStore) (i : Nat) : Except KeyspaceError (ByteMap Datum) :=
  match s.databases[i]? with
  | some m => .ok m
  | none => .error (.databaseOutOfRange i s.count)

/-- Nothing under a key. -/
def drop (s : LiveStore) (i : Nat) (key : Bytes) : LiveStore :=
  { s with databases := s.databases.modify i (·.erase key) }

/-- A datum under a key, unless the clock is past its deadline. -/
def hold (s : LiveStore) (i : Nat) (key : Bytes) (d : Datum) : LiveStore :=
  if d.isLive s.now then { s with databases := s.databases.modify i (·.insert key d) }
  else s.drop i key

/-- Another datum under a key, unless it is a collection without elements. -/
def change (s : LiveStore) (i : Nat) (key : Bytes) (d : Datum) : LiveStore :=
  if d.value.isEmptyCollection then s.drop i key else s.hold i key d

/-- What a live store does and answers. -/
def request {α : Type} (s : LiveStore) : Call α → Except KeyspaceError (LiveStore × Answer α)
  | .put i key entry => do
    let _ ← s.database i
    return (s.hold i key entry.datum, .done)
  | .get i key => do
    let m ← s.database i
    return (s, .entry (m.find? key))
  | .contains i key => do
    let m ← s.database i
    return (s, .truth (m.find? key).isSome)
  | .remove i key => do
    let m ← s.database i
    return (s.drop i key, .entry (m.find? key))
  | .update i key change => do
    let m ← s.database i
    match m.find? key with
    | none => return (s, .changed none)
    | some d =>
      let (after, result) := change (d.accessed s.now)
      return (s.change i key after.datum, .changed (some result))
  | .setExpiry i key expiresAt => do
    let m ← s.database i
    match m.find? key with
    | none => return (s, .truth false)
    | some d => return (s.change i key ⟨d.value, expiresAt⟩, .truth true)
  | .keys i => do
    let m ← s.database i
    return (s, .keys m.keys)
  | .entries i => do
    let m ← s.database i
    return (s, .entries m.toList)
  | .snapshot => return (s, .snapshot s.now (s.databases.map ByteMap.toList))
  | .clear i => do
    let _ ← s.database i
    return ({ s with databases := s.databases.modify i fun _ => ByteMap.empty }, .done)
  | .clearAll => return ({ s with databases := s.databases.map fun _ => ByteMap.empty }, .done)
  | .swap a b => do
    let ma ← s.database a
    let mb ← s.database b
    return ({ s with databases := (s.databases.set a mb).set b ma }, .done)
  | .restore copy =>
    if (copy.databases.drop s.count).any fun entries => !entries.isEmpty then
      .error (.databaseOutOfRange (copy.databases.length - 1) s.count)
    else
      .ok ({ s with
        databases := (List.range s.count).map fun i =>
          ByteMap.ofList (liveData s.now (copy.databases.getD i [])) }, .done)
  | .clock reading =>
    return (⟨reading, s.databases.map (·.filter (Datum.isLive reading))⟩, .done)

/-- The answers to requests in a row; a request that is refused changes nothing. -/
def answers {α : Type} (s : LiveStore) : List (Call α) → List (Answer α)
  | [] => []
  | call :: calls =>
    match s.request call with
    | .ok (s, answer) => answer :: s.answers calls
    | .error error => .refused error :: s.answers calls

end LiveStore

/-! ## §4. The keyspace. -/

/-- What may happen to a keyspace beside the requests. -/
inductive Probe where
  | sweep
  | get (i : Nat) (key : Bytes)
  | contains (i : Nat) (key : Bytes)

namespace Keyspace

/-- What a keyspace does and answers. -/
def request {α : Type} (ks : Keyspace) : Call α → Except KeyspaceError (Keyspace × Answer α)
  | .put i key entry => do
    let ks ← ks.put i key entry
    return (ks, .done)
  | .get i key => do
    let (ks, found) ← ks.get i key
    return (ks, .entry (found.map Entry.datum))
  | .contains i key => do
    let (ks, found) ← ks.contains i key
    return (ks, .truth found)
  | .remove i key => do
    let (ks, found) ← ks.remove i key
    return (ks, .entry (found.map Entry.datum))
  | .update i key change => do
    let (ks, result) ← ks.update i key change
    return (ks, .changed result)
  | .setExpiry i key expiresAt => do
    let (ks, found) ← ks.setExpiry i key expiresAt
    return (ks, .truth found)
  | .keys i => do
    let keys ← ks.keys i
    return (ks, .keys keys)
  | .entries i => do
    let entries ← ks.entries i
    return (ks, .entries (entries.map fun p => (p.1, p.2.datum)))
  | .snapshot =>
    return (ks, .snapshot ks.snapshot.takenAt
      (ks.snapshot.databases.map fun entries => entries.map fun p => (p.1, p.2.datum)))
  | .clear i => do
    let ks ← ks.clear i
    return (ks, .done)
  | .clearAll => return (ks.clearAll, .done)
  | .swap a b => do
    let ks ← ks.swap a b
    return (ks, .done)
  | .restore s => do
    let ks ← ks.restore s
    return (ks, .done)
  | .clock reading => return (ks.atTime reading, .done)

/-- The keyspace after a sweep or a lookup that nobody asked for. -/
def probe (ks : Keyspace) : Probe → Keyspace
  | .sweep => ks.sweep.1
  | .get i key =>
    match ks.get i key with
    | .ok (ks, _) => ks
    | .error _ => ks
  | .contains i key =>
    match ks.contains i key with
    | .ok (ks, _) => ks
    | .error _ => ks

/-- The answers to the requests among requests and probes. -/
def answers {α : Type} (ks : Keyspace) : List (Call α ⊕ Probe) → List (Answer α)
  | [] => []
  | .inl call :: script =>
    match ks.request call with
    | .ok (ks, answer) => answer :: ks.answers script
    | .error error => .refused error :: ks.answers script
  | .inr probe :: script => (ks.probe probe).answers script

/-- The live store that a keyspace shows. -/
def visible (ks : Keyspace) : LiveStore where
  now := ks.now
  databases := ks.databases.map fun db =>
    (db.entries.map Entry.datum).filter (Datum.isLive ks.now)

end Keyspace

/-- The requests of a script. -/
def calls {α : Type} (script : List (Call α ⊕ Probe)) :
    List (Call α) := script.filterMap Sum.getLeft?

/-- The clock is never put back. -/
def Forward {α : Type} (now : Millis) : List (Call α ⊕ Probe) → Prop
  | [] => True
  | .inl call :: script => now ≤ call.clockAfter now ∧ Forward (call.clockAfter now) script
  | .inr _ :: script => Forward now script

/-! ## §5. What is under a key of a live store. -/

namespace LiveStore

variable {s s' : LiveStore} {i : Nat} {key : Bytes}

/-- What a live store holds. -/
def contents (s : LiveStore) : Contents := fun i key => (s.databases.getD i ByteMap.empty).find? key

theorem database_of_lt (h : i < s.count) :
    s.database i = .ok (s.databases.getD i ByteMap.empty) := by
  unfold database
  rw [List.getD_eq_getElem?_getD, List.getElem?_eq_getElem h]
  rfl

theorem database_of_le (h : s.count ≤ i) :
    s.database i = .error (.databaseOutOfRange i s.count) := by
  unfold database
  rw [List.getElem?_eq_none h]

/-- What is asked of a database that does not exist is refused. -/
theorem request_of_le {α : Type} {call : Call α} (hcall : call.database? = some i)
    (h : s.count ≤ i) : s.request call = .error (.databaseOutOfRange i s.count) := by
  cases call <;> cases hcall <;> simp only [request, database_of_le h, bind, Except.bind]

/-- **A live store is what it holds.** -/
theorem ext_contents (hnow : s.now = s'.now) (hcount : s.count = s'.count)
    (h : s.contents = s'.contents) : s = s' := by
  obtain ⟨now, ms⟩ := s
  obtain ⟨now', ms'⟩ := s'
  obtain rfl : now = now' := hnow
  have hlength : ms.length = ms'.length := hcount
  obtain rfl : ms = ms' := by
    refine List.ext_getElem hlength fun i hi hi' => ByteMap.ext fun key => ?_
    have hkey := congrFun (congrFun h i) key
    unfold contents at hkey
    dsimp only at hkey
    rw [List.getD_eq_getElem?_getD, List.getD_eq_getElem?_getD, List.getElem?_eq_getElem hi,
      List.getElem?_eq_getElem hi'] at hkey
    exact hkey
  rfl

theorem count_drop (s : LiveStore) (i : Nat) (key : Bytes) : (s.drop i key).count = s.count :=
  List.length_modify _ _ _

theorem now_hold (s : LiveStore) (i : Nat) (key : Bytes) (d : Datum) :
    (s.hold i key d).now = s.now := by
  unfold hold
  split <;> rfl

theorem count_hold (s : LiveStore) (i : Nat) (key : Bytes) (d : Datum) :
    (s.hold i key d).count = s.count := by
  unfold hold
  split <;> exact List.length_modify _ _ _

theorem now_change (s : LiveStore) (i : Nat) (key : Bytes) (d : Datum) :
    (s.change i key d).now = s.now := by
  unfold change
  split
  · rfl
  · exact now_hold s i key d

theorem count_change (s : LiveStore) (i : Nat) (key : Bytes) (d : Datum) :
    (s.change i key d).count = s.count := by
  unfold change
  split
  · exact count_drop s i key
  · exact count_hold s i key d

theorem contents_modify (h : i < s.count) (f : ByteMap Datum → ByteMap Datum) (j : Nat)
    (k : Bytes) :
    ({ s with databases := s.databases.modify i f } : LiveStore).contents j k
      = if j = i then (f (s.databases.getD i ByteMap.empty)).find? k else s.contents j k := by
  unfold contents
  dsimp only
  rw [Keyspace.getD_modify h]
  split <;> rfl

/-- A change of a database that concerns one key assigns to that key. -/
theorem contents_modify_assign (h : i < s.count) {f : ByteMap Datum → ByteMap Datum}
    {d : Option Datum} (hf : ∀ m k, (f m).find? k = if k = key then d else m.find? k) :
    ({ s with databases := s.databases.modify i f } : LiveStore).contents
      = s.contents.assign i key d := by
  funext j k
  rw [contents_modify h, hf]
  unfold Contents.assign contents
  by_cases hj : j = i
  · subst hj
    by_cases hk : k = key <;> simp [hk]
  · simp [hj]

theorem contents_drop (h : i < s.count) : (s.drop i key).contents = s.contents.assign i key none :=
  contents_modify_assign h fun m k => m.find?_erase key k

theorem contents_hold (h : i < s.count) (d : Datum) :
    (s.hold i key d).contents = s.contents.assign i key ((some d).filter (Datum.isLive s.now)) := by
  unfold hold
  cases hlive : d.isLive s.now with
  | false =>
    rw [if_neg (by decide), contents_drop h, Option.filter_some, hlive]
    rfl
  | true =>
    rw [if_pos rfl, Option.filter_some, hlive]
    exact contents_modify_assign h fun m k => m.find?_insert key k d

theorem contents_change (h : i < s.count) (d : Datum) :
    (s.change i key d).contents = s.contents.assign i key
      (if d.value.isEmptyCollection then none else (some d).filter (Datum.isLive s.now)) := by
  unfold change
  split
  · exact contents_drop h
  · exact contents_hold h d

end LiveStore

/-! ## §6. What a keyspace shows. -/

namespace Keyspace

variable {α : Type} {ks ks' : Keyspace} {i : Nat} {key : Bytes}

theorem count_visible (ks : Keyspace) : ks.visible.count = ks.count := List.length_map _

/-- **What is shown is what is held at the present.** -/
theorem contents_visible (ks : Keyspace) : ks.visible.contents = ks.contents ks.now := by
  funext i key
  unfold LiveStore.contents contents Database.datum? visible
  dsimp only
  rw [List.getD_eq_getElem?_getD, List.getElem?_map, List.getD_eq_getElem?_getD]
  cases ks.databases[i]? with
  | none => rfl
  | some db =>
    show ((db.entries.map Entry.datum).filter (Datum.isLive ks.now)).find? key = _
    rw [ByteMap.find?_filter, ByteMap.find?_map]
    rfl

theorem visible_eq {s : LiveStore} (hnow : ks.now = s.now) (hcount : ks.count = s.count)
    (h : ks.contents ks.now = s.contents) : ks.visible = s :=
  LiveStore.ext_contents hnow ((count_visible ks).trans hcount) ((contents_visible ks).trans h)

/-- What shows the same: nothing but the entries has changed, and they are the same to
everybody. -/
theorem visible_of_keeps (hkeeps : ks.Keeps ks') (h : ks'.contents ks.now = ks.contents ks.now) :
    ks'.visible = ks.visible := by
  refine visible_eq hkeeps.now (hkeeps.count.trans (count_visible ks).symm) ?_
  rw [hkeeps.now, h, contents_visible]

/-- What shows a live store in which a step was made: nothing but the entries has
changed, and they as the step says. -/
theorem visible_of_step {s : LiveStore} (hkeeps : ks.Keeps ks') (hnow : s.now = ks.now)
    (hcount : s.count = ks.visible.count) (h : ks'.contents ks.now = s.contents) :
    ks'.visible = s := by
  refine visible_eq (hkeeps.now.trans hnow.symm)
    (hkeeps.count.trans (hcount.trans (count_visible ks)).symm) ?_
  rw [hkeeps.now]
  exact h

theorem toList_visible (entries : ByteMap Entry) (t : Millis) :
    ((entries.map Entry.datum).filter (Datum.isLive t)).toList = liveData t entries.toList := by
  show List.filter _ (List.map _ _) = (List.filter _ _).map _
  rw [List.filter_map]
  congr 1
  exact List.filter_congr fun p _ => Entry.isLive_datum p.2 t

/-- The database that is shown in the place of a database. -/
theorem database_visible (h : i < ks.count) :
    ∃ m, ks.visible.database i = .ok m ∧ (∀ key, m.find? key = ks.contents ks.now i key)
      ∧ m.toList = liveData ks.now (ks.databases.getD i Database.empty).entries.toList := by
  have hi : i < ks.visible.count := by rw [count_visible]; exact h
  refine ⟨_, LiveStore.database_of_lt hi, fun key => ?_, ?_⟩
  · rw [← contents_visible]
    rfl
  · rw [← toList_visible]
    unfold visible
    dsimp only
    rw [List.getD_eq_getElem?_getD, List.getElem?_map, List.getD_eq_getElem?_getD,
      List.getElem?_eq_getElem h]
    rfl

/-! ## §7. Requests. -/

/-- What a keyspace shows after a request, and its answer. -/
def shown (p : Keyspace × Answer α) : LiveStore × Answer α := (p.1.visible, p.2)

/-- A request is answered as by the live store that is shown. -/
def Follows (ks : Keyspace) (call : Call α) : Prop :=
  (ks.request call).map shown = ks.visible.request call

/-- What is asked of a database that does not exist is refused. -/
theorem request_of_le {call : Call α} (hcall : call.database? = some i) (h : ks.count ≤ i) :
    ks.request call = .error (.databaseOutOfRange i ks.count) := by
  cases call <;> cases hcall <;>
    simp only [request, put, get, contains, remove, setExpiry, update, visit, keys, entries, clear,
      database_of_le h, bind, Except.bind]

/-- A request to a single database need only be looked at where that exists. -/
theorem follows_of_lt {call : Call α} (hcall : call.database? = some i)
    (h : i < ks.count → ks.Follows call) : ks.Follows call := by
  by_cases hi : i < ks.count
  · exact h hi
  · have hle := Nat.le_of_not_lt hi
    have hle' : ks.visible.count ≤ i := by rw [count_visible]; exact hle
    unfold Follows
    rw [request_of_le hcall hle, LiveStore.request_of_le hcall hle', count_visible]
    rfl

/-- **Looking a key up** answers what is shown under it. -/
theorem follows_get (hi : i < ks.count) (key : Bytes) : ks.Follows (.get i key : Call α) := by
  obtain ⟨ks', found, hvisit, hkeeps, hfound, hcontents⟩ := visit_spec hi key
  obtain ⟨m, hm, hfind, -⟩ := database_visible hi
  unfold Follows request LiveStore.request get
  dsimp only
  rw [hvisit, hm]
  show Except.ok (ks'.visible, Answer.entry (found.map Entry.datum)) = .ok (ks.visible, _)
  rw [visible_of_keeps hkeeps (hcontents _ (UInt64.le_refl _)), hfound, hfind]

theorem follows_contains (hi : i < ks.count) (key : Bytes) :
    ks.Follows (.contains i key : Call α) := by
  obtain ⟨ks', found, hvisit, hkeeps, hfound, hcontents⟩ := visit_spec hi key
  obtain ⟨m, hm, hfind, -⟩ := database_visible hi
  unfold Follows request LiveStore.request contains
  dsimp only
  rw [hvisit, hm]
  show Except.ok (ks'.visible, Answer.truth found.isSome) = .ok (ks.visible, _)
  rw [visible_of_keeps hkeeps (hcontents _ (UInt64.le_refl _)), hfind, ← hfound,
    Option.isSome_map]

/-- **Writing an entry** that is dead already shows nothing under its key. -/
theorem follows_put (hevict : ks.mayEvict = false) (hi : i < ks.count) (key : Bytes)
    (entry : Entry) : ks.Follows (.put i key entry : Call α) := by
  obtain ⟨ks', hput, hevicts, hcontents⟩ := put_spec hi key entry
  rw [victims_of_not_mayEvict hevict] at hevicts hcontents
  obtain ⟨m, hm, -, -⟩ := database_visible hi
  have hi' : i < ks.visible.count := by rw [count_visible]; exact hi
  unfold Follows request LiveStore.request
  dsimp only
  rw [hput, hm]
  show Except.ok (ks'.visible, Answer.done) = .ok (ks.visible.hold i key entry.datum, .done)
  refine congrArg (fun s => Except.ok (s, Answer.done)) (visible_of_step hevicts.keeps
    (LiveStore.now_hold _ _ _ _) (LiveStore.count_hold _ _ _ _) ?_)
  rw [hcontents, LiveStore.contents_hold hi', contents_visible, Contents.without_nil]
  rfl

theorem follows_remove (hi : i < ks.count) (key : Bytes) :
    ks.Follows (.remove i key : Call α) := by
  obtain ⟨ks', found, hremove, hkeeps, hfound, hcontents⟩ := Keyspace.remove_spec hi key
  obtain ⟨m, hm, hfind, -⟩ := database_visible hi
  have hi' : i < ks.visible.count := by rw [count_visible]; exact hi
  unfold Follows request LiveStore.request
  dsimp only
  rw [hremove, hm]
  show Except.ok (ks'.visible, Answer.entry (found.map Entry.datum))
    = .ok (ks.visible.drop i key, .entry (m.find? key))
  rw [hfound, hfind]
  refine congrArg (fun s => Except.ok (s, Answer.entry _)) (visible_of_step hkeeps rfl
    (LiveStore.count_drop _ _ _) ?_)
  rw [hcontents, LiveStore.contents_drop hi', contents_visible]

/-- What is shown where one datum was changed. -/
theorem visible_change (hi : i < ks.count) (hkeeps : ks.Keeps ks') (d : Datum)
    (h : ks'.contents ks.now = (ks.contents ks.now).assign i key
      (if d.value.isEmptyCollection then none else (some d).filter (Datum.isLive ks.now))) :
    ks'.visible = ks.visible.change i key d := by
  have hi' : i < ks.visible.count := by rw [count_visible]; exact hi
  refine visible_of_step hkeeps (LiveStore.now_change _ _ _ _) (LiveStore.count_change _ _ _ _) ?_
  rw [h, LiveStore.contents_change hi', contents_visible]
  rfl

/-- **Changing a key in place**: the change sees what is shown under the key. -/
theorem follows_update (hi : i < ks.count) (key : Bytes) (change : Entry → Entry × α) :
    ks.Follows (.update i key change) := by
  obtain ⟨ks', hupdate, hkeeps, hcontents⟩ := Keyspace.update_spec hi key change
  obtain ⟨m, hm, hfind, -⟩ := database_visible hi
  have hpresent := hcontents _ (UInt64.le_refl _)
  unfold Follows request LiveStore.request
  dsimp only
  rw [hupdate, hm]
  dsimp only [bind, Except.bind]
  rw [hfind]
  cases hdatum : ks.contents ks.now i key with
  | none =>
    rw [hdatum] at hpresent
    show Except.ok (ks'.visible, Answer.changed none) = .ok (ks.visible, _)
    rw [visible_of_keeps hkeeps hpresent]
  | some d =>
    rw [hdatum] at hpresent
    show Except.ok (ks'.visible, Answer.changed (some _))
      = .ok (ks.visible.change i key (change (d.accessed ks.now)).1.datum, _)
    rw [visible_change hi hkeeps (change (d.accessed ks.now)).1.datum hpresent]
    rfl

theorem follows_setExpiry (hi : i < ks.count) (key : Bytes) (expiresAt : Option Millis) :
    ks.Follows (.setExpiry i key expiresAt : Call α) := by
  obtain ⟨ks', hexpiry, hkeeps, hcontents⟩ := Keyspace.setExpiry_spec hi key expiresAt
  obtain ⟨m, hm, hfind, -⟩ := database_visible hi
  have hpresent := hcontents _ (UInt64.le_refl _)
  unfold Follows request LiveStore.request
  dsimp only
  rw [hexpiry, hm]
  dsimp only [bind, Except.bind]
  rw [hfind]
  cases hdatum : ks.contents ks.now i key with
  | none =>
    rw [hdatum] at hpresent
    show Except.ok (ks'.visible, Answer.truth false) = .ok (ks.visible, _)
    rw [visible_of_keeps hkeeps hpresent]
  | some d =>
    rw [hdatum] at hpresent
    show Except.ok (ks'.visible, Answer.truth true)
      = .ok (ks.visible.change i key ⟨d.value, expiresAt⟩, _)
    rw [visible_change hi hkeeps ⟨d.value, expiresAt⟩ hpresent]

/-- **Listing a database** lists what is shown of it. -/
theorem follows_entries (hi : i < ks.count) : ks.Follows (.entries i : Call α) := by
  obtain ⟨m, hm, -, hlist⟩ := database_visible hi
  unfold Follows request LiveStore.request entries
  dsimp only
  rw [database_of_lt hi, hm]
  show Except.ok (ks.visible, Answer.entries _) = .ok (ks.visible, .entries m.toList)
  rw [hlist]
  rfl

theorem follows_keys (hi : i < ks.count) : ks.Follows (.keys i : Call α) := by
  obtain ⟨m, hm, -, hlist⟩ := database_visible hi
  unfold Follows request LiveStore.request keys entries
  dsimp only
  rw [database_of_lt hi, hm]
  show Except.ok (ks.visible, Answer.keys _) = .ok (ks.visible, .keys (m.toList.map Prod.fst))
  rw [hlist]
  unfold liveData
  rw [List.map_map]
  rfl

/-- **A copy of everything** is a copy of what is shown. -/
theorem follows_snapshot (ks : Keyspace) : ks.Follows (.snapshot : Call α) := by
  have hlist : (ks.snapshot.databases.map fun entries => entries.map fun p => (p.1, p.2.datum))
      = ks.visible.databases.map ByteMap.toList := by
    unfold snapshot visible
    rw [List.map_map, List.map_map]
    exact List.map_congr_left fun db _ => (toList_visible db.entries ks.now).symm
  show Except.ok (ks.visible, Answer.snapshot ks.now _) = .ok (ks.visible, .snapshot ks.now _)
  rw [hlist]

theorem follows_clear (hi : i < ks.count) : ks.Follows (.clear i : Call α) := by
  obtain ⟨ks', hclear, hkeeps, hcontents⟩ := clear_spec hi
  obtain ⟨m, hm, -, -⟩ := database_visible hi
  have hi' : i < ks.visible.count := by rw [count_visible]; exact hi
  unfold Follows request LiveStore.request
  dsimp only
  rw [hclear, hm]
  refine congrArg (fun s => Except.ok (s, Answer.done))
    (visible_of_step hkeeps rfl (List.length_modify _ _ _) ?_)
  rw [hcontents, ← contents_visible]
  funext j k
  exact (LiveStore.contents_modify hi' (fun _ => ByteMap.empty) j k).symm

theorem follows_clearAll (ks : Keyspace) : ks.Follows (.clearAll : Call α) := by
  obtain ⟨hkeeps, hcontents⟩ := clearAll_spec ks
  refine congrArg (fun s => Except.ok (s, Answer.done))
    (visible_of_step hkeeps rfl (List.length_map _) ?_)
  rw [hcontents]
  funext j k
  unfold LiveStore.contents
  dsimp only
  rw [List.getD_eq_getElem?_getD, List.getElem?_map]
  cases ks.visible.databases[j]? <;> rfl

/-- **Exchanging two databases** exchanges what is shown of them. -/
theorem follows_swap (ks : Keyspace) (a b : Nat) : ks.Follows (.swap a b : Call α) := by
  have hcount := count_visible ks
  unfold Follows request LiveStore.request
  dsimp only
  by_cases ha : a < ks.count
  · have ha' : a < ks.visible.count := hcount ▸ ha
    rw [LiveStore.database_of_lt ha']
    by_cases hb : b < ks.count
    · have hb' : b < ks.visible.count := hcount ▸ hb
      obtain ⟨ks', hswap, hkeeps, hcontents⟩ := swap_spec ha hb
      rw [hswap, LiveStore.database_of_lt hb']
      refine congrArg (fun s => Except.ok (s, Answer.done)) (visible_of_step hkeeps rfl ?_ ?_)
      · show List.length _ = _
        rw [List.length_set, List.length_set]
        rfl
      · rw [hcontents, ← contents_visible]
        funext j k
        unfold LiveStore.contents Contents.swap
        dsimp only
        rw [getD_swap ha' hb']
        split
        · rfl
        · split <;> rfl
    · have hle := Nat.le_of_not_lt hb
      unfold swap
      rw [database_of_lt ha, database_of_le hle, LiveStore.database_of_le (hcount ▸ hle), hcount]
      rfl
  · have hle := Nat.le_of_not_lt ha
    unfold swap
    rw [database_of_le hle, LiveStore.database_of_le (hcount ▸ hle), hcount]
    rfl

/-- Entries that are loaded one after the other are shown as their data would be. -/
theorem datum?_foldl_load (now : Millis) {ps : List (Bytes × Entry)}
    (hlive : ∀ p ∈ ps, p.2.isExpired now = false) {db : Database} {m : ByteMap Datum}
    (h : ∀ key, db.datum? now key = m.find? key) (key : Bytes) :
    (ps.foldl (load now) db).datum? now key
      = (m.insertMany (ps.map fun p => (p.1, p.2.datum))).find? key := by
  induction ps generalizing db m with
  | nil => exact h key
  | cons p ps ih =>
    obtain ⟨hp, hps⟩ := List.forall_mem_cons.1 hlive
    refine ih (m := m.insert p.1 p.2.datum) hps fun k => ?_
    have hinserted : (load now db p).entries = db.entries.insert p.1 (p.2.touch now) := rfl
    rw [Database.datum?_of_entries hinserted, Entry.datum_touch, Option.filter_some,
      Entry.isLive_datum, hp, ByteMap.find?_insert, h]
    rfl

/-- **Restoring a snapshot** shows its live entries. -/
theorem follows_restore (ks : Keyspace) (s : Snapshot) : ks.Follows (.restore s : Call α) := by
  have hloaded : ∀ entries : List (Bytes × Entry),
      ((loadAll ks.now entries).entries.map Entry.datum).filter (Datum.isLive ks.now)
        = ByteMap.ofList (liveData ks.now entries) := by
    intro entries
    refine ByteMap.ext fun key => ?_
    rw [ByteMap.find?_filter, ByteMap.find?_map]
    refine datum?_foldl_load ks.now ?_ (fun _ => rfl) key
    intro p hp
    have hkept := (List.mem_filter.1 hp).2
    rw [Bool.not_eq_true'] at hkept
    exact hkept
  unfold Follows request LiveStore.request restore
  dsimp only
  rw [count_visible]
  split
  · rfl
  · refine congrArg (fun dbs => Except.ok (LiveStore.mk ks.now dbs, Answer.done)) ?_
    show List.map _ (List.map _ _) = _
    rw [List.map_map]
    exact List.map_congr_left fun i _ => hloaded _

/-- **A later clock reading** takes from what is shown what is dead by then. -/
theorem follows_clock {reading : Millis} (h : ks.now ≤ reading) :
    ks.Follows (.clock reading : Call α) := by
  refine congrArg (fun s => Except.ok (s, Answer.done)) (visible_eq rfl ?_ ?_)
  · show ks.count = List.length _
    rw [List.length_map]
    exact (count_visible ks).symm
  · show ks.contents reading = _
    rw [← live_contents ks h, ← contents_visible]
    funext j k
    unfold Contents.live LiveStore.contents
    dsimp only
    rw [List.getD_eq_getElem?_getD, List.getD_eq_getElem?_getD, List.getElem?_map]
    cases ks.visible.databases[j]? with
    | none => rfl
    | some m => exact (ByteMap.find?_filter _ m k).symm

/-- **Every request is answered as by the live store that is shown**, and shows then what
that store has become. -/
theorem follows_request (hevict : ks.mayEvict = false) (call : Call α)
    (hclock : ks.now ≤ call.clockAfter ks.now) : ks.Follows call := by
  cases call with
  | put i key entry => exact follows_of_lt rfl fun hi => follows_put hevict hi key entry
  | get i key => exact follows_of_lt rfl fun hi => follows_get hi key
  | contains i key => exact follows_of_lt rfl fun hi => follows_contains hi key
  | remove i key => exact follows_of_lt rfl fun hi => follows_remove hi key
  | update i key change => exact follows_of_lt rfl fun hi => follows_update hi key change
  | setExpiry i key expiresAt =>
    exact follows_of_lt rfl fun hi => follows_setExpiry hi key expiresAt
  | keys i => exact follows_of_lt rfl follows_keys
  | entries i => exact follows_of_lt rfl follows_entries
  | snapshot => exact follows_snapshot ks
  | clear i => exact follows_of_lt rfl follows_clear
  | clearAll => exact follows_clearAll ks
  | swap a b => exact follows_swap ks a b
  | restore s => exact follows_restore ks s
  | clock reading => exact follows_clock hclock

/-! ## §8. Runs. -/

/-- What is left to be said of a request that goes through: still nothing can be evicted,
and the clock shows what it was set to, if it was. -/
theorem settings_of_request {call : Call α} {answer : Answer α} (hevict : ks.mayEvict = false)
    (h : ks.request call = .ok (ks', answer)) :
    ks'.mayEvict = false ∧ ks'.now = call.clockAfter ks.now := by
  have hkept : ∀ {after : Keyspace}, ks.Keeps after → after.mayEvict = false ∧ after.now = ks.now :=
    fun hkeeps => ⟨hkeeps.mayEvict_eq.trans hevict, hkeeps.now⟩
  -- every request but the clock keeps both; each says so in its own lemma
  cases call with
  | put i key entry =>
    obtain ⟨after, hput, h⟩ := exists_of_bind h
    cases h
    exact hkept (keeps_put hevict hput)
  | get i key =>
    obtain ⟨after, hget, h⟩ := exists_of_bind h
    cases h
    exact hkept (keeps_visit hget)
  | contains i key =>
    obtain ⟨after, hcontains, h⟩ := exists_of_bind h
    obtain ⟨found, hvisit, hcontains⟩ := exists_of_bind hcontains
    cases hcontains
    cases h
    exact hkept (keeps_visit hvisit)
  | remove i key =>
    obtain ⟨after, hremove, h⟩ := exists_of_bind h
    cases h
    exact hkept (keeps_remove hremove)
  | update i key change =>
    obtain ⟨after, hupdate, h⟩ := exists_of_bind h
    cases h
    exact hkept (keeps_update hupdate)
  | setExpiry i key expiresAt =>
    obtain ⟨after, hexpiry, h⟩ := exists_of_bind h
    obtain ⟨found, hupdate, hexpiry⟩ := exists_of_bind hexpiry
    cases hexpiry
    cases h
    exact hkept (keeps_update hupdate)
  | keys i | entries i =>
    obtain ⟨listed, -, h⟩ := exists_of_bind h
    cases h
    exact hkept (Keeps.refl ks)
  | snapshot =>
    cases h
    exact hkept (Keeps.refl ks)
  | clear i =>
    obtain ⟨after, hclear, h⟩ := exists_of_bind h
    cases h
    exact hkept (keeps_clear hclear)
  | clearAll =>
    cases h
    exact hkept (clearAll_spec ks).1
  | swap a b =>
    obtain ⟨after, hswap, h⟩ := exists_of_bind h
    cases h
    exact hkept (keeps_swap hswap)
  | restore s =>
    obtain ⟨after, hrestore, h⟩ := exists_of_bind h
    cases h
    exact hkept (keeps_restore hrestore)
  | clock reading =>
    cases h
    exact ⟨hevict, rfl⟩

/-- Setting the clock is never refused. -/
theorem clockAfter_of_refused {call : Call α} {error : KeyspaceError}
    (h : ks.request call = .error error) : call.clockAfter ks.now = ks.now := by
  cases call <;> first | rfl | cases h

/-- **A sweep shows nothing new**: what it takes out was seen by nobody. -/
theorem visible_sweep (ks : Keyspace) : ks.Keeps ks.sweep.1 ∧ ks.sweep.1.visible = ks.visible := by
  have hrow := expires_sweep ks
  generalize ks.sweep.1 = swept at hrow
  induction hrow with
  | refl => exact ⟨Keeps.refl ks, rfl⟩
  | @tail between _ _ hstep ih =>
    cases hstep with
    | @discard i key db entry hdb hstored hdead =>
      have hi : i < between.count := (List.getElem?_eq_some_iff.1 hdb).1
      obtain ⟨hkeeps, hcontents⟩ :=
        discard_spec hi key entry (show Event.expired ≠ .evicted by decide)
      have hgone : between.contents between.now i key = none := by
        unfold contents Database.datum?
        rw [List.getD_eq_getElem?_getD, hdb, Option.getD_some, hstored, Option.map_some,
          Option.filter_some, Entry.isLive_datum, hdead]
        rfl
      refine ⟨ih.1.trans hkeeps, (visible_of_keeps hkeeps ?_).trans ih.2⟩
      rw [hcontents, Contents.assign_self hgone]

theorem visible_visit {found : Option Entry} (h : ks.visit i key = .ok (ks', found)) :
    ks.Keeps ks' ∧ ks'.visible = ks.visible := by
  obtain ⟨after, hvisit, hkeeps, hcontents⟩ := visit_eq (lt_of_bind h) key
  rw [hvisit] at h
  cases h
  exact ⟨hkeeps, visible_of_keeps hkeeps (hcontents _ (UInt64.le_refl _))⟩

/-- **What happens beside the requests is not seen.** -/
theorem visible_probe (ks : Keyspace) (probe : Probe) :
    ks.Keeps (ks.probe probe) ∧ (ks.probe probe).visible = ks.visible := by
  cases probe with
  | sweep => exact visible_sweep ks
  | get i key =>
    unfold Keyspace.probe
    dsimp only
    cases hget : ks.get i key with
    | error error => exact ⟨Keeps.refl ks, rfl⟩
    | ok p => exact visible_visit hget
  | contains i key =>
    unfold Keyspace.probe
    dsimp only
    cases hcontains : ks.contains i key with
    | error error => exact ⟨Keeps.refl ks, rfl⟩
    | ok p =>
      obtain ⟨found, hvisit, h⟩ := exists_of_bind hcontains
      cases h
      exact visible_visit hvisit

end Keyspace

/-- **Lazy and active expiry are unobservable.**  Where nothing is evicted and the clock is
never put back, a keyspace answers the requests of any script as the live store does that
it shows, whatever sweeps and lookups stand between them. -/
theorem expiry_is_unobservable {α : Type} {ks : Keyspace} (hevict : ks.mayEvict = false)
    {script : List (Call α ⊕ Probe)} (hclock : Forward ks.now script) :
    ks.answers script = ks.visible.answers (calls script) := by
  induction script generalizing ks with
  | nil => rfl
  | cons event script ih =>
    cases event with
    | inr probe =>
      obtain ⟨hkeeps, hvisible⟩ := ks.visible_probe probe
      have hrest := ih (hkeeps.mayEvict_eq.trans hevict) (by rw [hkeeps.now]; exact hclock)
      rw [hvisible] at hrest
      exact hrest
    | inl call =>
      have hfollows := Keyspace.follows_request hevict call hclock.1
      unfold Keyspace.Follows at hfollows
      show (match ks.request call with
        | .ok (ks, answer) => answer :: ks.answers script
        | .error error => .refused error :: ks.answers script)
        = (match ks.visible.request call with
          | .ok (s, answer) => answer :: s.answers (calls script)
          | .error error => .refused error :: ks.visible.answers (calls script))
      rw [← hfollows]
      cases hrequest : ks.request call with
      | error error =>
        have hlater := hclock.2
        rw [Keyspace.clockAfter_of_refused hrequest] at hlater
        exact congrArg (Answer.refused error :: ·) (ih hevict hlater)
      | ok p =>
        obtain ⟨hevict', hnow⟩ := Keyspace.settings_of_request hevict hrequest
        exact congrArg (p.2 :: ·) (ih hevict' (by rw [hnow]; exact hclock.2))

/-- A key is there at its deadline, and not after it, with a sweep and a lookup between. -/
theorem expiry_is_unobservable_deadline :
    let script : List (Call Unit ⊕ Probe) :=
      [.inl (.put 0 [107] (Entry.fresh (.string [118]) (some 5))), .inl (.clock 5), .inr .sweep,
        .inl (.get 0 [107]), .inl (.clock 6), .inr (.contains 0 [107]), .inl (.keys 0)]
    (Keyspace.new 1 0).mayEvict = false ∧ Forward 0 script
      ∧ (Keyspace.new 1 0).answers script
        = [.done, .done, .entry (some ⟨.string [118], some 5⟩), .done, .keys []]
      ∧ (Keyspace.new 1 0).answers script = (Keyspace.new 1 0).visible.answers (calls script) := by
  intro script
  have hclock : Forward 0 script :=
    ⟨by decide, by decide, by decide, by decide, by decide, trivial⟩
  exact ⟨rfl, hclock, by decide, expiry_is_unobservable rfl hclock⟩

end DurableStore
