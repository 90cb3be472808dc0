/-
  DurableStore.Proofs.Snapshot.RoundTrip
  ────────────────────────────────
  **A SNAPSHOT FILE READS BACK.**

  The reader goes through a file item by item and remembers two things, the
  database and the deadline of the next key.  Part of a file SCANS to some
  records when the reader, started before it in one context, finds these
  records and stands behind it in another:

      records ⟨position, bytes ++ rest⟩ = found ++ records ⟨…, rest⟩

  Parts in a row scan to their records in a row (`Scans.append`), so an
  entry, a database and the list of databases are followed one level after
  another.

  Main result: `decode_encode` — what is written is read back, entry by
  entry, unless a database with a live entry is out of range.
-/
import DurableStore.Snapshot.Format
import DurableStore.Proofs.Snapshot.Payload

namespace DurableStore.Snapshot

/-! ## §1. Snapshots that can be written. -/

/-- Every length in a snapshot fits in memory, and every score is a number. -/
structure Fits (s : Snapshot) : Prop where
  databases : s.databases.length < lengthBound
  entries : ∀ entries ∈ s.databases, entries.length < lengthBound
  keys : ∀ entries ∈ s.databases, ∀ p ∈ entries, p.1.length < lengthBound
  sound : ∀ entries ∈ s.databases, ∀ p ∈ entries, p.2.value.Sound
  counts : ∀ entries ∈ s.databases, ∀ p ∈ entries, p.2.value.count < lengthBound

/-! ## §2. Items. -/

theorem reads_info {key value : Bytes} (hkey : key.length < lengthBound)
    (hvalue : value.length < lengthBound) :
    Reads readItem (infoMarker :: (writeString false key ++ writeString false value))
      (.info key value) := by
  refine Reads.byte ?_
  exact (@pairForm_writeString false (key, value) hkey hvalue).reads.map fun r => rfl

theorem reads_sizes {keys deadlines : Nat} (hkeys : keys < lengthBound)
    (hdeadlines : deadlines < lengthBound) :
    Reads readItem (sizesMarker :: (writeLength keys ++ writeLength deadlines))
      (.sizes keys deadlines) := by
  refine Reads.byte ?_
  refine (reads_length (lt_u64Bound_of_lt hkeys)).bind ?_
  exact (reads_length (lt_u64Bound_of_lt hdeadlines)).map fun r => rfl

theorem reads_database {index : Nat} (h : index < lengthBound) :
    Reads readItem (databaseMarker :: writeLength index) (.database index) := by
  refine Reads.byte ?_
  exact (reads_length (lt_u64Bound_of_lt h)).map fun r => rfl

theorem reads_deadline (deadline : Millis) :
    Reads readItem (millisMarker :: Bytes.ofNatLE 8 deadline.toNat) (.deadline deadline) := by
  refine Reads.byte ?_
  refine (@reads_natLE 8 deadline.toNat deadline.toNat_lt).map ?_
  intro r
  show Except.ok (Item.deadline (UInt64.ofNat deadline.toNat), r) = _
  rw [UInt64.ofNat_toNat]

/-- **Behind a type byte stand a key and a value in its layout.** -/
theorem reads_stored {layout : Layout} {key form bytes : Bytes} {value : Value}
    (hkey : Reads readString form key) (hvalue : Reads (readValue layout) bytes value) :
    Reads readItem (layout.code :: (form ++ bytes)) (.entry key value) := by
  have hrest : Reads (fun r => do
      let key ← readString r
      let value ← readValue layout key.2
      return (.entry key.1 value.1, value.2)) (form ++ bytes) (Item.entry key value) := by
    refine hkey.bind ?_
    show Reads (fun r => readValue layout r >>= fun p => .ok (Item.entry key p.1, p.2)) bytes _
    exact hvalue.map fun r => rfl
  -- no type byte is one of the markers
  cases layout <;> exact (reads_byte _).bind hrest

theorem reads_entry (compression : Bool) {key : Bytes} {value : Value}
    (hkey : key.length < lengthBound) (hsound : value.Sound) (hcount : value.count < lengthBound) :
    Reads readItem ((Layout.ofValue value).code ::
      (writeString compression key ++ writeValue compression value)) (.entry key value) :=
  reads_stored (reads_string compression (lt_u64Bound_of_lt hkey))
    (reads_value compression hsound hcount)

/-! ## §3. Parts of a file. -/

/-- Part of a file leads the reader from one context to another, with some
records on the way. -/
def Target.Scans (t : Target) (c : Context) (bytes : Bytes) (found : List Record) (c' : Context) :
    Prop :=
  ∃ items, items ≤ bytes.length ∧ ∀ budget position rest,
    t.records (items + budget) c ⟨position, bytes ++ rest⟩
      = (t.records budget c' ⟨position + bytes.length, rest⟩).map fun p => (found ++ p.1, p.2)

variable {t : Target} {c c' c'' : Context}

theorem Target.Scans.nil (t : Target) (c : Context) : t.Scans c [] [] c := by
  refine ⟨0, Nat.le_refl _, ?_⟩
  intro budget position rest
  rw [Nat.zero_add]
  show t.records budget c ⟨position, rest⟩ = (t.records budget c ⟨position, rest⟩).map _
  cases t.records budget c ⟨position, rest⟩ <;> rfl

/-- **Parts in a row scan to their records in a row.** -/
theorem Target.Scans.append {as bs : Bytes} {ra rb : List Record} (ha : t.Scans c as ra c')
    (hb : t.Scans c' bs rb c'') : t.Scans c (as ++ bs) (ra ++ rb) c'' := by
  obtain ⟨n, hn, hfirst⟩ := ha
  obtain ⟨m, hm, hsecond⟩ := hb
  refine ⟨n + m, by rw [List.length_append]; omega, ?_⟩
  intro budget position rest
  rw [List.append_assoc, Nat.add_assoc, hfirst, hsecond, List.length_append, ← Nat.add_assoc]
  cases t.records budget c'' ⟨position + as.length + bs.length, rest⟩ with
  | error fault => rfl
  | ok p =>
    show Except.ok (ra ++ (rb ++ p.1), p.2) = Except.ok (ra ++ rb ++ p.1, p.2)
    rw [List.append_assoc]

theorem Reads.ne_nil {bytes : Bytes} {item : Item} (h : Reads readItem bytes item) :
    bytes ≠ [] := by
  rintro rfl
  have hread := h 0 []
  exact absurd hread (by intro heq; cases heq)

/-- An item leads the reader from one context to another, with some records
on the way. -/
def Target.Steps (t : Target) (c : Context) (bytes : Bytes) (found : List Record) (c' : Context) :
    Prop :=
  bytes ≠ [] ∧ ∀ budget position rest,
    t.records (budget + 1) c ⟨position, bytes ++ rest⟩
      = (t.records budget c' ⟨position + bytes.length, rest⟩).map fun p => (found ++ p.1, p.2)

theorem Target.Steps.scans {bytes : Bytes} {found : List Record} (h : t.Steps c bytes found c') :
    t.Scans c bytes found c' := by
  refine ⟨1, List.length_pos_iff.2 h.1, ?_⟩
  intro budget position rest
  rw [Nat.add_comm]
  exact h.2 budget position rest

/-- An item that says something about the next key. -/
theorem Target.Steps.advance {bytes : Bytes} {item : Item} (h : Reads readItem bytes item)
    (hkey : ∀ key value, item ≠ .entry key value) (hend : item ≠ .endOfFile)
    (hadvance : t.advance c item = .ok c') : t.Steps c bytes [] c' := by
  refine ⟨h.ne_nil, ?_⟩
  intro budget position rest
  rw [Target.records, h position rest]
  dsimp only [bind, Except.bind]
  split
  · rename_i key value
    exact absurd rfl (hkey key value)
  · exact absurd rfl hend
  · rw [hadvance]
    dsimp only
    cases t.records budget c' ⟨position + bytes.length, rest⟩ <;> rfl

/-- A key with its value. -/
theorem Target.Steps.entry {bytes key : Bytes} {value : Value} {found : Option Record}
    (h : Reads readItem bytes (.entry key value)) (hrecord : t.record? c key value = .ok found) :
    t.Steps c bytes found.toList { c with deadline := none } := by
  refine ⟨h.ne_nil, ?_⟩
  intro budget position rest
  rw [Target.records, h position rest]
  dsimp only [bind, Except.bind]
  rw [hrecord]
  dsimp only
  cases t.records budget { c with deadline := none } ⟨position + bytes.length, rest⟩ <;> rfl

/-! ## §4. Entries and databases. -/

/-- The record of an entry: its value and deadline, not accessed yet. -/
def recordOf (index : Nat) (p : Bytes × Entry) : Record :=
  ⟨index, p.1, Entry.fresh p.2.value p.2.expiresAt⟩

/-- What a snapshot can hold about an entry and its key. -/
structure EntryFits (p : Bytes × Entry) : Prop where
  key : p.1.length < lengthBound
  sound : p.2.value.Sound
  count : p.2.value.count < lengthBound

theorem record?_eq {index : Nat} (hindex : index < t.databases) (p : Bytes × Entry) :
    (t.record? ⟨index, p.2.expiresAt⟩ p.1 p.2.value).map Option.toList
      = .ok ((liveAt t.now [p]).map (recordOf index)) := by
  have hsame : (Entry.fresh p.2.value p.2.expiresAt).isExpired t.now = p.2.isExpired t.now := rfl
  unfold Target.record? liveAt
  dsimp only
  rw [hsame]
  cases hexpired : p.2.isExpired t.now with
  | true =>
    rw [if_pos rfl, List.filter_cons_of_neg (by rw [hexpired]; decide)]
    rfl
  | false =>
    rw [if_neg (by decide), if_pos hindex, List.filter_cons_of_pos (by rw [hexpired]; decide)]
    rfl

/-- **An entry scans to its record if it is still live, else to none.** -/
theorem scans_entry (compression : Bool) {index : Nat} (hindex : index < t.databases)
    {p : Bytes × Entry} (h : EntryFits p) :
    t.Scans ⟨index, none⟩ (writeEntry compression p.1 p.2)
      ((liveAt t.now [p]).map (recordOf index)) ⟨index, none⟩ := by
  have hread := reads_entry compression h.key h.sound h.count
  have hrecord := record?_eq hindex p
  cases hfound : t.record? ⟨index, p.2.expiresAt⟩ p.1 p.2.value with
  | error fault =>
    rw [hfound] at hrecord
    cases hrecord
  | ok found =>
    rw [hfound] at hrecord
    obtain hlist : found.toList = _ := Except.ok.inj hrecord
    have hentry := (Target.Steps.entry hread hfound).scans
    rw [hlist] at hentry
    unfold writeEntry
    cases hdeadline : p.2.expiresAt with
    | none =>
      rw [hdeadline] at hentry
      exact hentry
    | some deadline =>
      rw [hdeadline] at hentry
      have hadvance := Target.Steps.advance (t := t) (c := ⟨index, none⟩)
        (reads_deadline deadline) (by intros; simp) (by simp) rfl
      exact hadvance.scans.append hentry

theorem scans_entries (compression : Bool) {index : Nat} (hindex : index < t.databases)
    {entries : List (Bytes × Entry)} (h : ∀ p ∈ entries, EntryFits p) :
    t.Scans ⟨index, none⟩ (entries.flatMap fun p => writeEntry compression p.1 p.2)
      ((liveAt t.now entries).map (recordOf index)) ⟨index, none⟩ := by
  induction entries with
  | nil => exact Target.Scans.nil t ⟨index, none⟩
  | cons p entries ih =>
    obtain ⟨hp, hentries⟩ := List.forall_mem_cons.1 h
    have hlive : liveAt t.now (p :: entries) = liveAt t.now [p] ++ liveAt t.now entries :=
      List.filter_append [p] entries
    rw [List.flatMap_cons, hlive, List.map_append]
    exact (scans_entry compression hindex hp).append (ih hentries)

/-- What a snapshot can hold about a database. -/
structure DatabaseFits (d : Nat × List (Bytes × Entry)) : Prop where
  index : d.1 < lengthBound
  length : d.2.length < lengthBound
  entries : ∀ p ∈ d.2, EntryFits p

theorem writeDatabase_eq (compression : Bool) (index : Nat) (entries : List (Bytes × Entry)) :
    writeDatabase compression index entries
      = (databaseMarker :: writeLength index)
        ++ ((sizesMarker :: (writeLength entries.length
            ++ writeLength (entries.countP fun p => p.2.expiresAt.isSome)))
          ++ entries.flatMap fun p => writeEntry compression p.1 p.2) := by
  unfold writeDatabase
  rw [List.cons_append, List.cons_append]

/-- **A database scans to the records of its live entries.** -/
theorem scans_database (compression : Bool) {database : Nat} {d : Nat × List (Bytes × Entry)}
    (hindex : d.1 < t.databases) (h : DatabaseFits d) :
    t.Scans ⟨database, none⟩ (writeDatabase compression d.1 d.2)
      ((liveAt t.now d.2).map (recordOf d.1)) ⟨d.1, none⟩ := by
  have hselect : t.advance ⟨database, none⟩ (.database d.1) = .ok ⟨d.1, none⟩ := if_pos hindex
  have hdeadlines := Nat.lt_of_le_of_lt
    (List.countP_le_length (p := fun p : Bytes × Entry => p.2.expiresAt.isSome) (l := d.2)) h.length
  have hfirst := Target.Steps.advance (reads_database h.index) (by intros; simp) (by simp) hselect
  have hsecond := Target.Steps.advance (t := t) (c := ⟨d.1, none⟩)
    (reads_sizes h.length hdeadlines) (by intros; simp) (by simp) rfl
  rw [writeDatabase_eq]
  exact hfirst.scans.append (hsecond.scans.append (scans_entries compression hindex h.entries))

theorem scans_databases (compression : Bool) (database : Nat)
    {ds : List (Nat × List (Bytes × Entry))} (hindex : ∀ d ∈ ds, d.1 < t.databases)
    (h : ∀ d ∈ ds, DatabaseFits d) :
    ∃ last, t.Scans ⟨database, none⟩ (ds.flatMap fun d => writeDatabase compression d.1 d.2)
      (ds.flatMap fun d => (liveAt t.now d.2).map (recordOf d.1)) ⟨last, none⟩ := by
  induction ds generalizing database with
  | nil => exact ⟨database, Target.Scans.nil t ⟨database, none⟩⟩
  | cons d ds ih =>
    obtain ⟨hd, hds⟩ := List.forall_mem_cons.1 hindex
    obtain ⟨hfits, hrest⟩ := List.forall_mem_cons.1 h
    obtain ⟨last, htail⟩ := ih d.1 hds hrest
    refine ⟨last, ?_⟩
    rw [List.flatMap_cons, List.flatMap_cons]
    exact (scans_database compression hd hfits).append htail

/-! ## §5. Whole files. -/

/-- What stands between the header and the databases. -/
def writeInfos (takenAt : Millis) : Bytes :=
  writeInfo "redis-ver" (Bytes.ofString "7.2.0") ++
    (writeInfo "redis-bits" (Bytes.ofNat 64) ++
      writeInfo "ctime" (Bytes.ofNat (takenAt.toNat / 1000)))

theorem scans_infos (t : Target) (takenAt : Millis) :
    t.Scans ⟨0, none⟩ (writeInfos takenAt) [] ⟨0, none⟩ := by
  have htime : takenAt.toNat / 1000 < Bytes.u64Bound :=
    Nat.lt_of_le_of_lt (Nat.div_le_self _ _) takenAt.toNat_lt
  have hinfo : ∀ key value : Bytes, key.length < lengthBound → value.length < lengthBound →
      t.Scans ⟨0, none⟩ (infoMarker :: (writeString false key ++ writeString false value)) []
        ⟨0, none⟩ := by
    intro key value hkey hvalue
    exact (Target.Steps.advance (reads_info hkey hvalue) (by intros; simp) (by simp) rfl).scans
  have hversion := hinfo (Bytes.ofString "redis-ver") (Bytes.ofString "7.2.0")
    (by decide) (by decide)
  have hbits := hinfo (Bytes.ofString "redis-bits") (Bytes.ofNat 64)
    (by decide) (Bytes.length_ofNat_lt (by decide))
  have hclock := hinfo (Bytes.ofString "ctime") _ (by decide) (Bytes.length_ofNat_lt htime)
  exact hversion.append (hbits.append hclock)

theorem readHeader_preamble (takenAt : Millis) (rest : Bytes) :
    readHeader (writePreamble takenAt ++ rest) = .ok ⟨9, writeInfos takenAt ++ rest⟩ := by
  have hsplit : writePreamble takenAt ++ rest
      = magic ++ (writtenVersion ++ (writeInfos takenAt ++ rest)) := by
    unfold writePreamble writeInfos
    rw [List.append_assoc, List.append_assoc, List.append_assoc, List.append_assoc,
      List.append_assoc, List.append_assoc]
  rw [hsplit]
  generalize writeInfos takenAt ++ rest = rest
  rfl

/-- With a budget beyond the bytes of a part, the reader gets past it. -/
theorem Target.Scans.records {bytes : Bytes} {found : List Record} (h : t.Scans c bytes found c')
    {budget : Nat} (hbudget : bytes.length < budget) (position : Nat) (rest : Bytes) :
    ∃ left, t.records budget c ⟨position, bytes ++ rest⟩
      = (t.records (left + 1) c' ⟨position + bytes.length, rest⟩).map fun p =>
          (found ++ p.1, p.2) := by
  obtain ⟨items, hitems, hscan⟩ := h
  refine ⟨budget - items - 1, ?_⟩
  rw [← hscan]
  congr 1
  omega

theorem records_endOfFile (left database position : Nat) (rest : Bytes) :
    t.records (left + 1) ⟨database, none⟩ ⟨position, endOfFile :: rest⟩ = .ok ([], position) :=
  rfl

/-- A database that is out of range ends the reading. -/
theorem records_database (compression : Bool) {left database position : Nat} {rest : Bytes}
    {d : Nat × List (Bytes × Entry)} (h : DatabaseFits d) (hindex : t.databases ≤ d.1) :
    t.records (left + 1) ⟨database, none⟩ ⟨position, writeDatabase compression d.1 d.2 ++ rest⟩
      = .error (.databaseOutOfRange d.1 t.databases) := by
  have hadvance : t.advance ⟨database, none⟩ (.database d.1)
      = .error (.databaseOutOfRange d.1 t.databases) := if_neg (Nat.not_lt.2 hindex)
  rw [writeDatabase_eq, List.append_assoc, Target.records, reads_database h.index]
  dsimp only [bind, Except.bind]
  rw [hadvance]

/-! ## §6. The databases of a snapshot. -/

theorem mem_liveDatabases {s : Snapshot} {d : Nat × List (Bytes × Entry)}
    (h : d ∈ s.liveDatabases) :
    ∃ entries, s.databases[d.1]? = some entries ∧ d.2 = liveAt s.takenAt entries := by
  obtain ⟨hmem, -⟩ := List.mem_filter.1 h
  obtain ⟨⟨entries, index⟩, hzip, rfl⟩ := List.mem_map.1 hmem
  exact ⟨entries, List.mem_zipIdx_iff_getElem?.1 hzip, rfl⟩

theorem fits_of_mem_liveDatabases {s : Snapshot} (h : s.Fits) :
    ∀ d ∈ s.liveDatabases, DatabaseFits d := by
  intro d hd
  obtain ⟨entries, hentries, hlive⟩ := mem_liveDatabases hd
  have hin : entries ∈ s.databases := List.mem_of_getElem? hentries
  refine ⟨?_, ?_, ?_⟩
  · exact Nat.lt_trans (List.getElem?_eq_some_iff.1 hentries).1 h.databases
  · rw [hlive]
    exact Nat.lt_of_le_of_lt (List.length_filter_le _ _) (h.entries entries hin)
  · intro p hp
    rw [hlive] at hp
    have hmemp := (List.mem_filter.1 hp).1
    exact ⟨h.keys entries hin p hmemp, h.sound entries hin p hmemp, h.counts entries hin p hmemp⟩

theorem isExpired_mono {e : Entry} {earlier later : Millis} (h : earlier ≤ later)
    (hexpired : e.isExpired earlier = true) : e.isExpired later = true := by
  unfold Entry.isExpired at hexpired ⊢
  split at hexpired
  · exact decide_eq_true (UInt64.lt_of_lt_of_le (of_decide_eq_true hexpired) h)
  · exact absurd hexpired (by decide)

/-- What is live later was live earlier. -/
theorem liveAt_liveAt {earlier later : Millis} (h : earlier ≤ later)
    (entries : List (Bytes × Entry)) :
    liveAt later (liveAt earlier entries) = liveAt later entries := by
  unfold liveAt
  rw [List.filter_filter]
  refine List.filter_congr ?_
  intro p hp
  cases hearlier : p.2.isExpired earlier with
  | false => rw [Bool.not_false, Bool.and_true]
  | true => rw [isExpired_mono h hearlier]; rfl

/-- The entry as a snapshot file holds it: not accessed yet. -/
def asRead (p : Bytes × Entry) : Bytes × Entry := (p.1, Entry.fresh p.2.value p.2.expiresAt)

theorem recordsOf_map (index i : Nat) (entries : List (Bytes × Entry)) :
    recordsOf (entries.map (recordOf index)) i = if index = i then entries.map asRead else [] := by
  have hall : ∀ p : Bytes × Entry,
      ((fun record : Record => decide (record.database = i)) ∘ recordOf index) p
        = decide (index = i) := fun p => rfl
  unfold recordsOf
  rw [List.filter_map, List.map_map]
  split
  · rename_i heq
    rw [List.filter_eq_self.2 (fun p _ => (hall p).trans (decide_eq_true heq))]
    rfl
  · rename_i hne
    rw [List.filter_eq_nil_iff.2 (fun p _ => by rw [hall p, decide_eq_true_iff]; exact hne)]
    rfl

theorem recordsOf_append (as bs : List Record) (i : Nat) :
    recordsOf (as ++ bs) i = recordsOf as i ++ recordsOf bs i := by
  unfold recordsOf
  rw [List.filter_append, List.map_append]

/-- The records of one database among those of many. -/
theorem recordsOf_flatMap (now : Millis) (ds : List (Nat × List (Bytes × Entry))) (i : Nat) :
    recordsOf (ds.flatMap fun d => (liveAt now d.2).map (recordOf d.1)) i
      = ds.flatMap fun d => if d.1 = i then (liveAt now d.2).map asRead else [] := by
  induction ds with
  | nil => rfl
  | cons d ds ih =>
    rw [List.flatMap_cons, List.flatMap_cons, recordsOf_append, recordsOf_map, ih]

/-- Of numbered lists the one with a given number is picked out. -/
theorem flatMap_zipIdx_pick {α β : Type} {f : List α → List β} (hnil : f [] = [])
    (ls : List (List α)) (k i : Nat) :
    ((ls.zipIdx k).flatMap fun d => if d.2 = k + i then f d.1 else []) = f (ls.getD i []) := by
  -- lists that are numbered from beyond the number add nothing
  have hpast : ∀ (ls : List (List α)) (k j : Nat), j < k →
      ((ls.zipIdx k).flatMap fun d => if d.2 = j then f d.1 else []) = [] := by
    intro ls k j hj
    induction ls generalizing k with
    | nil => rfl
    | cons l ls ih =>
      rw [List.zipIdx_cons, List.flatMap_cons, if_neg (by dsimp only; omega), ih (k + 1) (by omega)]
      rfl
  induction ls generalizing k i with
  | nil => rw [List.getD_nil, hnil]; rfl
  | cons l ls ih =>
    rw [List.zipIdx_cons, List.flatMap_cons]
    cases i with
    | zero =>
      rw [if_pos (by rfl), Nat.add_zero, hpast ls (k + 1) k (by omega), List.append_nil]
      rfl
    | succ i =>
      have hnext := ih (k + 1) i
      rw [show k + 1 + i = k + (i + 1) by omega] at hnext
      rw [if_neg (by dsimp only; omega), hnext]
      rfl

/-- **The records of a database are its entries that are live.** -/
theorem recordsOf_liveDatabases {s : Snapshot} {now : Millis}
    (hlive : ∀ entries ∈ s.databases, liveAt now (liveAt s.takenAt entries) = liveAt now entries)
    (i : Nat) :
    recordsOf (s.liveDatabases.flatMap fun d => (liveAt now d.2).map (recordOf d.1)) i
      = (liveAt now (s.databases.getD i [])).map asRead := by
  have hdropped : ∀ ds : List (Nat × List (Bytes × Entry)),
      ((ds.filter fun d => !d.2.isEmpty).flatMap fun d =>
        if d.1 = i then (liveAt now d.2).map asRead else [])
      = ds.flatMap fun d => if d.1 = i then (liveAt now d.2).map asRead else [] := by
    intro ds
    induction ds with
    | nil => rfl
    | cons d ds ih =>
      rw [List.flatMap_cons, ← ih]
      cases hempty : d.2.isEmpty with
      | true =>
        rw [List.filter_cons_of_neg (by rw [hempty]; decide), List.isEmpty_iff.1 hempty]
        split <;> rfl
      | false =>
        rw [List.filter_cons_of_pos (by rw [hempty]; decide), List.flatMap_cons]
  have hlisted : liveAt now (liveAt s.takenAt (s.databases.getD i []))
      = liveAt now (s.databases.getD i []) := forall_getD hlive [] rfl i
  have hpick := flatMap_zipIdx_pick
    (f := fun l => (liveAt now (liveAt s.takenAt l)).map asRead) rfl s.databases 0 i
  rw [recordsOf_flatMap, liveDatabases, hdropped, List.flatMap_map]
  rw [Nat.zero_add, hlisted] at hpick
  exact hpick

/-! ## §7. Reading back. -/

theorem encode_eq (compression : Bool) (s : Snapshot) :
    encode compression s = writePreamble s.takenAt ++
      ((s.liveDatabases.flatMap fun d => writeDatabase compression d.1 d.2) ++
        endOfFile :: List.replicate 8 0) := by
  unfold encode
  rw [List.append_assoc]

theorem length_writeInfos_lt (takenAt : Millis) (rest : Bytes) :
    (writeInfos takenAt ++ rest).length < (writePreamble takenAt ++ rest).length := by
  have hpreamble : writePreamble takenAt = magic ++ (writtenVersion ++ writeInfos takenAt) := by
    unfold writePreamble writeInfos
    rw [List.append_assoc, List.append_assoc, List.append_assoc]
  rw [hpreamble, List.length_append, List.length_append, List.length_append, List.length_append]
  have hmagic : 0 < magic.length := by decide
  omega

/-- The entries of a snapshot that are live, as a reader for so many databases
returns them. -/
def asReadBack (s : Snapshot) (count : Nat) (now : Millis) : Snapshot :=
  ⟨now, (List.range count).map fun i => (liveAt now (s.databases.getD i [])).map asRead⟩

/-- A snapshot is read back for enough databases, if no entry is live again that was not
when it was taken. -/
theorem decode_encode_of_lt (compression : Bool) {s : Snapshot} (hfits : s.Fits) {count : Nat}
    {now : Millis}
    (hlive : ∀ entries ∈ s.databases, liveAt now (liveAt s.takenAt entries) = liveAt now entries)
    (hcount : ∀ d ∈ s.liveDatabases, d.1 < count) :
    decode count now (encode compression s) = .ok (s.asReadBack count now) := by
  obtain ⟨last, hdatabases⟩ := scans_databases (t := ⟨count, now⟩) compression 0 hcount
    (fits_of_mem_liveDatabases hfits)
  have hbody := (scans_infos ⟨count, now⟩ s.takenAt).append hdatabases
  -- no record is empty, so the budget of a whole file is enough for those in it
  have hbudget : (writeInfos s.takenAt ++ s.liveDatabases.flatMap fun d =>
      writeDatabase compression d.1 d.2).length < (encode compression s).length + 1 := by
    have hlength := length_writeInfos_lt s.takenAt
      ((s.liveDatabases.flatMap fun d => writeDatabase compression d.1 d.2) ++
        endOfFile :: List.replicate 8 0)
    rw [← encode_eq, ← List.append_assoc, List.length_append] at hlength
    omega
  obtain ⟨left, hrecords⟩ := hbody.records hbudget 9 (endOfFile :: List.replicate 8 0)
  rw [records_endOfFile, List.append_assoc] at hrecords
  unfold decode decodeUpTo
  have hheader := readHeader_preamble s.takenAt
    ((s.liveDatabases.flatMap fun d => writeDatabase compression d.1 d.2) ++
      endOfFile :: List.replicate 8 0)
  rw [← encode_eq] at hheader
  rw [hheader]
  dsimp only [bind, Except.bind]
  rw [hrecords]
  dsimp only [Except.map]
  rw [List.nil_append, List.append_nil]
  refine congrArg Except.ok (congrArg (Snapshot.mk now) (List.map_congr_left ?_))
  intro i _
  exact recordsOf_liveDatabases hlive i

/-- Among databases the first one out of range stands after some in range. -/
theorem exists_first_out_of_range {count : Nat} {ds : List (Nat × List (Bytes × Entry))}
    {d : Nat × List (Bytes × Entry)} (hd : d ∈ ds) (hcount : count ≤ d.1) :
    ∃ before first after, ds = before ++ first :: after ∧ (∀ b ∈ before, b.1 < count)
      ∧ count ≤ first.1 := by
  induction ds with
  | nil => exact absurd hd List.not_mem_nil
  | cons e ds ih =>
    by_cases he : count ≤ e.1
    · exact ⟨[], e, ds, rfl, fun b hb => absurd hb List.not_mem_nil, he⟩
    · have hmem : d ∈ ds := by
        rcases List.mem_cons.1 hd with rfl | hmem
        · exact absurd hcount he
        · exact hmem
      obtain ⟨before, first, after, rfl, hbefore, hfirst⟩ := ih hmem
      refine ⟨e :: before, first, after, rfl, ?_, hfirst⟩
      exact List.forall_mem_cons.2 ⟨Nat.lt_of_not_le he, hbefore⟩

/-- A snapshot with a live entry in a database out of range is refused. -/
theorem decode_encode_of_le (compression : Bool) {s : Snapshot} (hfits : s.Fits) {count : Nat}
    {now : Millis} {d : Nat × List (Bytes × Entry)} (hd : d ∈ s.liveDatabases)
    (hcount : count ≤ d.1) :
    ∃ index, count ≤ index ∧
      decode count now (encode compression s) = .error (.databaseOutOfRange index count) := by
  obtain ⟨before, first, after, hsplit, hbefore, hfirst⟩ := exists_first_out_of_range hd hcount
  have hall := fits_of_mem_liveDatabases hfits
  rw [hsplit] at hall
  obtain ⟨hfitsBefore, hfitsRest⟩ := List.forall_mem_append.1 hall
  obtain ⟨hfitsFirst, -⟩ := List.forall_mem_cons.1 hfitsRest
  obtain ⟨last, hdatabases⟩ := scans_databases (t := ⟨count, now⟩) compression 0
    hbefore hfitsBefore
  have hbody := (scans_infos ⟨count, now⟩ s.takenAt).append hdatabases
  -- nothing behind that database is read any more
  generalize hrest : (after.flatMap fun d => writeDatabase compression d.1 d.2)
    ++ endOfFile :: List.replicate 8 0 = rest
  have hfile : encode compression s = writePreamble s.takenAt ++
      ((before.flatMap fun d => writeDatabase compression d.1 d.2) ++
        (writeDatabase compression first.1 first.2 ++ rest)) := by
    rw [encode_eq, hsplit, List.flatMap_append, List.flatMap_cons, ← hrest]
    simp only [List.append_assoc]
  have hbudget : (writeInfos s.takenAt ++ before.flatMap fun d =>
      writeDatabase compression d.1 d.2).length < (encode compression s).length + 1 := by
    have hlength := length_writeInfos_lt s.takenAt
      ((before.flatMap fun d => writeDatabase compression d.1 d.2) ++
        (writeDatabase compression first.1 first.2 ++ rest))
    rw [← hfile, ← List.append_assoc, List.length_append] at hlength
    omega
  obtain ⟨left, hrecords⟩ := hbody.records hbudget 9 (writeDatabase compression first.1 first.2 ++ rest)
  rw [records_database compression hfitsFirst hfirst, List.append_assoc] at hrecords
  refine ⟨first.1, hfirst, ?_⟩
  have hheader := readHeader_preamble s.takenAt
    ((before.flatMap fun d => writeDatabase compression d.1 d.2) ++
      (writeDatabase compression first.1 first.2 ++ rest))
  rw [← hfile] at hheader
  unfold decode decodeUpTo
  rw [hheader]
  dsimp only [bind, Except.bind]
  rw [hrecords]
  rfl

/-- **A snapshot file reads back.**  If every database with a live entry is in
range, the reader returns for each database, in order, exactly the entries
that are live when it reads; else it refuses a database that is out of range. -/
theorem decode_inverts_encode (compression : Bool) {s : Snapshot} (hfits : s.Fits) (count : Nat)
    {now : Millis} (hnow : s.takenAt ≤ now) :
    ((∀ d ∈ s.liveDatabases, d.1 < count) →
        decode count now (encode compression s) =
          .ok ⟨now, (List.range count).map fun i =>
            (liveAt now (s.databases.getD i [])).map fun p =>
              (p.1, Entry.fresh p.2.value p.2.expiresAt)⟩)
      ∧ ((∃ d ∈ s.liveDatabases, count ≤ d.1) →
        ∃ index, count ≤ index ∧
          decode count now (encode compression s) = .error (.databaseOutOfRange index count)) := by
  refine ⟨fun hcount => decode_encode_of_lt compression hfits
    (fun entries _ => liveAt_liveAt hnow entries) hcount, ?_⟩
  rintro ⟨d, hd, hcount⟩
  exact decode_encode_of_le compression hfits hd hcount

/-- A key with a deadline, read back before it and refused out of range. -/
theorem decode_inverts_encode_single :
    decode 1 7 (encode true ⟨5, [[([107], Entry.fresh (.string [118]) (some 9))]]⟩)
        = .ok ⟨7, [[([107], Entry.fresh (.string [118]) (some 9))]]⟩
      ∧ ∃ index, 0 ≤ index ∧
        decode 0 7 (encode true ⟨5, [[([107], Entry.fresh (.string [118]) (some 9))]]⟩)
          = .error (.databaseOutOfRange index 0) := by
  have hfits : Fits ⟨5, [[([107], Entry.fresh (.string [118]) (some 9))]]⟩ := by
    refine ⟨by decide, by simp, by simp, ?_, ?_⟩
    · simp [Entry.fresh, Value.Sound]
    · simp [Entry.fresh, Value.count]
  exact ⟨(decode_inverts_encode true hfits 1 (by decide)).1 (by decide),
    (decode_inverts_encode true hfits 0 (by decide)).2 (by decide)⟩

end DurableStore.Snapshot
