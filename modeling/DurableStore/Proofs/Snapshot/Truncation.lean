/-
  DurableStore.Proofs.Snapshot.Truncation
  ────────────────────────────────
  **A SNAPSHOT FILE THAT WAS CUT OFF IS REFUSED.**

  A reader is TIGHT if it looks at the bytes that it takes and at nothing
  behind them, and cannot do without any of them:

      bytes = front ++ rest     — what it takes and what it leaves over
      Reads read front value    — the same value, whatever follows the front
      Needs read front          — from a shorter front it ends unexpectedly

  Every reader is made of a few that are plainly tight, by combinations that
  keep them so: one after another, a number of times, on a condition, with a
  look ahead at a byte that is then taken.  So there is one line of proof for
  each form of a length, a string, a score, a value and an item.  The file is
  a row of items up to an end marker: cut before the marker, it breaks off
  inside an item or where one is missing.

  Main result: `truncated_is_refused`.
-/
import DurableStore.Proofs.Results
import DurableStore.Proofs.Snapshot.RoundTrip
import DurableStore.Proofs.Snapshot.Scores

namespace DurableStore.Snapshot


variable {α β : Type}

/-! ## §1. Readers that need what they take. -/

/-- The input ended before what was asked for. -/
def BrokenOff (x : Except Fault α) : Prop :=
  ∃ position needed, x = .error (.unexpectedEnd position needed)

theorem BrokenOff.bind {x : Except Fault α} (h : BrokenOff x) (f : α → Except Fault β) :
    BrokenOff (x >>= f) := by
  obtain ⟨position, needed, rfl⟩ := h
  exact ⟨position, needed, rfl⟩

/-- No byte can be missing at the end. -/
def Needs (read : Reader → Except Fault α) (bytes : Bytes) : Prop :=
  ∀ k < bytes.length, ∀ position, BrokenOff (read ⟨position, bytes.take k⟩)

/-- **A cut is met by the first reader or by what comes behind it.** -/
theorem Needs.bind {first : Reader → Except Fault (α × Reader)} {next : α × Reader → Except Fault β}
    {s t : Bytes} {a : α} (hfirst : Needs first s) (hreads : Reads first s a)
    (hnext : Needs (fun r => next (a, r)) t) : Needs (fun r => first r >>= next) (s ++ t) := by
  intro k hk position
  show BrokenOff (first _ >>= next)
  rcases Nat.lt_or_ge k s.length with hcut | hcut
  · rw [List.take_append_of_le_length (Nat.le_of_lt hcut)]
    exact (hfirst k hcut position).bind next
  · rw [List.length_append] at hk
    rw [List.take_append, List.take_of_length_le hcut, hreads.step]
    exact hnext (k - s.length) (by omega) _

/-- What a reader returns is read from the bytes that it takes, and it needs all of
them. -/
structure Tight (read : Reader → Except Fault (α × Reader)) : Prop where
  front : ∀ {r value r'}, read r = .ok (value, r') →
    ∃ front, r.rest = front ++ r'.rest ∧ Reads read front value ∧ Needs read front

theorem Tight.needs {read : Reader → Except Fault (α × Reader)} {bytes : Bytes} {a : α}
    (h : Tight read) (hreads : Reads read bytes a) : Needs read bytes := by
  obtain ⟨front, hfront, -, hneeds⟩ := h.front (hreads 0 [])
  -- Nothing is left over, so what the reader takes are the bytes.
  simp only [List.append_nil] at hfront
  rw [hfront]
  exact hneeds

theorem Reads.next_eq {read : Reader → Except Fault (α × Reader)} {bytes : Bytes} {value : α}
    {r r' : Reader} (h : Reads read bytes value) (hrest : r.rest = bytes ++ r'.rest)
    (hread : read r = .ok (value, r')) : r' = ⟨r.position + bytes.length, r'.rest⟩ := by
  have hfront := h r.position r'.rest
  rw [← hrest] at hfront
  exact (Prod.mk.inj (Except.ok.inj (hread.symm.trans hfront))).2

theorem tight_pure (value : α) : Tight (fun r => .ok (value, r)) := by
  refine ⟨?_⟩
  intro r value' r' h
  cases h
  exact ⟨[], rfl, reads_pure value, fun k hk => absurd hk (Nat.not_lt_zero k)⟩

theorem tight_error (fault : Fault) :
    Tight (α := α) (fun _ => .error fault) :=
  ⟨fun h => nomatch h⟩

theorem tight_take (n : Nat) : Tight (Reader.take · n) := by
  refine ⟨?_⟩
  intro r value r' h
  unfold Reader.take at h
  dsimp only at h
  split at h
  · cases h
  · rename_i hlength
    cases h
    have hexact : (r.rest.take n).length = n :=
      Nat.le_antisymm (List.length_take_le n r.rest) (Nat.not_lt.1 hlength)
    refine ⟨r.rest.take n, (List.take_append_drop n r.rest).symm, ?_, ?_⟩
    · have hreads := reads_take (r.rest.take n)
      rw [hexact] at hreads
      exact hreads
    · intro k hk position
      rw [hexact] at hk
      have hshort : (((r.rest.take n).take k).take n).length < n := by
        rw [List.length_take, List.length_take]
        omega
      exact ⟨_, _, if_pos hshort⟩

theorem tight_byte : Tight Reader.byte := by
  refine ⟨?_⟩
  intro r value r' h
  unfold Reader.byte at h
  split at h
  · rename_i b rest hrest
    cases h
    refine ⟨[value], hrest, reads_byte value, ?_⟩
    intro k hk position
    obtain rfl : k = 0 := Nat.lt_one_iff.1 hk
    exact ⟨position, 1, rfl⟩
  · cases h

/-- **Readers in a row are tight if each of them is.** -/
theorem Tight.bind {first : Reader → Except Fault (α × Reader)}
    {next : α × Reader → Except Fault (β × Reader)} (hfirst : Tight first)
    (hnext : ∀ a, Tight (fun r => next (a, r))) : Tight (fun r => first r >>= next) := by
  refine ⟨?_⟩
  intro r value r' h
  obtain ⟨⟨a, between⟩, hread, hrest⟩ := exists_of_bind h
  obtain ⟨s, hs, hreads, hneeds⟩ := hfirst.front hread
  obtain ⟨t, ht, hreads', hneeds'⟩ := (hnext a).front hrest
  have hfront : r.rest = s ++ t ++ r'.rest := by rw [hs, ht, List.append_assoc]
  exact ⟨s ++ t, hfront, hreads.bind hreads', hneeds.bind hreads hneeds'⟩

/-- What is computed on the way takes no bytes. -/
theorem Tight.after {next : α → Reader → Except Fault (β × Reader)} (x : Except Fault α)
    (h : ∀ a, Tight (next a)) : Tight (fun r => x >>= fun a => next a r) := by
  cases x with
  | error fault => exact tight_error fault
  | ok a => exact h a

theorem Tight.ite {read read' : Reader → Except Fault (α × Reader)} {c : Prop} [Decidable c]
    (h : Tight read) (h' : Tight read') : Tight (fun r => if c then read r else read' r) := by
  by_cases hc : c
  · simp only [if_pos hc]
    exact h
  · simp only [if_neg hc]
    exact h'

/-- A look at a byte that is taken after it; nothing else is used of the look. -/
theorem Tight.peek {next : UInt8 × Reader → Reader → Except Fault (α × Reader)}
    (hnext : ∀ first after, Tight (next (first, after)))
    (hsame : ∀ first after after', next (first, after) = next (first, after'))
    (hempty : ∀ first after position, BrokenOff (next (first, after) ⟨position, []⟩)) :
    Tight (fun r => r.byte >>= fun p => next p r) := by
  refine ⟨?_⟩
  intro r value r' h
  obtain ⟨position, rest⟩ := r
  cases rest with
  | nil => cases h
  | cons b bs =>
    obtain ⟨front, hfront, hreads, hneeds⟩ := (hnext b ⟨position + 1, bs⟩).front h
    cases front with
    | nil =>
      -- what comes after the look takes the byte itself, so it cannot take nothing
      obtain ⟨_, _, herror⟩ := hempty b ⟨position + 1, bs⟩ 0
      have hread := hreads 0 []
      rw [List.append_nil, herror] at hread
      cases hread
    | cons b' front =>
      obtain rfl : b = b' := (List.cons.inj hfront).1
      refine ⟨b :: front, hfront, ?_, ?_⟩
      · intro position' rest
        have hread := hreads position' rest
        rw [hsame b _ ⟨position' + 1, front ++ rest⟩] at hread
        exact hread
      · intro k hk position'
        -- cut before the byte the look fails, cut behind it what comes after the look
        cases k with
        | zero => exact ⟨position', 1, rfl⟩
        | succ k =>
          have hcut := hneeds (k + 1) hk position'
          rw [hsame b _ ⟨position' + 1, front.take k⟩] at hcut
          exact hcut

theorem Tight.many {item : Reader → Except Fault (α × Reader)} (h : Tight item) (n : Nat) :
    Tight (Reader.many item n) := by
  induction n with
  | zero => exact tight_pure []
  | succ n ih => exact .bind h fun value => .bind ih fun values => tight_pure (value :: values)

/-! ## §2. Lengths and strings. -/

theorem tight_natLE (w : Nat) : Tight (Reader.natLE · w) :=
  .bind (tight_take w) fun _ => tight_pure _

theorem tight_natBE (w : Nat) : Tight (Reader.natBE · w) :=
  .bind (tight_take w) fun _ => tight_pure _

theorem tight_intLE (w : Nat) : Tight (Reader.intLE · w) :=
  .bind (tight_natLE w) fun _ => tight_pure _

theorem tight_readForm : Tight readForm := by
  refine .bind tight_byte fun first => ?_
  dsimp only
  split
  · exact tight_pure _
  · exact .bind tight_byte fun second =>
      tight_pure (StringForm.plain (first.toNat % 64 * 256 + second.toNat))
  · split
    · exact .bind (tight_natBE 4) fun length => tight_pure (StringForm.plain length)
    · exact .bind (tight_natBE 8) fun length => tight_pure (StringForm.plain length)
    · exact tight_error _
  · split
    · exact tight_pure _
    · exact tight_pure _
    · exact tight_pure _
    · exact tight_pure _
    · exact tight_error _

theorem tight_readLength : Tight readLength := by
  refine .peek ?_ (fun _ _ _ => rfl) fun _ _ position => ⟨position, 1, rfl⟩
  intro first after
  refine .bind tight_readForm fun form => ?_
  cases form with
  | plain length => exact tight_pure length
  | integer | compressed => exact tight_error _

theorem tight_readCompressed : Tight readCompressed := by
  refine .bind tight_readLength fun compressed => .bind tight_readLength fun length => ?_
  refine .bind (tight_take compressed) fun bytes => ?_
  dsimp only
  cases Lzf.decompress bytes length with
  | ok value => exact tight_pure value
  | error fault => exact tight_error _

theorem tight_readString : Tight readString := by
  refine .bind tight_readForm fun form => ?_
  cases form with
  | plain length => exact tight_take length
  | integer width => exact .bind (tight_intLE width) fun _ => tight_pure _
  | compressed => exact tight_readCompressed

/-! ## §3. Values. -/

theorem tight_readTextScore : Tight readTextScore := by
  refine .bind tight_byte fun first => .ite (tight_error _) ?_
  refine .ite (tight_pure _) (.ite (tight_pure _) ?_)
  exact .bind (tight_take _) fun text => .after _ fun score => tight_pure score

theorem tight_readBinaryScore : Tight readBinaryScore :=
  .bind (tight_natLE 8) fun _ => .ite (tight_error _) (tight_pure _)

theorem tight_readStrings : Tight readStrings :=
  .bind tight_readLength fun count => tight_readString.many count

theorem tight_readPair : Tight readPair :=
  .bind tight_readString fun _ => .bind tight_readString fun _ => tight_pure _

theorem tight_readPairs : Tight readPairs := by
  refine .peek ?_ (fun _ _ _ => rfl) fun _ _ position => ⟨position, 1, rfl⟩
  intro first after
  refine .bind tight_readLength fun count => ?_
  exact .ite (c := Bytes.u64Bound ≤ count * 2) (tight_error _) (tight_readPair.many count)

theorem tight_readScored {readScore : Reader → Except Fault (Score × Reader)}
    (h : Tight readScore) : Tight (readScored readScore) := by
  refine .bind tight_readLength fun count => .many ?_ count
  exact .bind tight_readString fun member => .bind h fun score => tight_pure _

theorem tight_readZiplistNode : Tight readZiplistNode :=
  .bind tight_readString fun _ => .after _ fun items => tight_pure items

theorem tight_readTaggedNode : Tight readTaggedNode := by
  refine .bind tight_readLength fun kind => .bind tight_readString fun blob => ?_
  exact .ite (tight_pure _) (.ite (.after _ fun items => tight_pure items) (tight_error _))

theorem tight_readNodes {node : Reader → Except Fault (List Bytes × Reader)} (h : Tight node) :
    Tight (readNodes node) :=
  .bind tight_readLength fun count => .bind (h.many count) fun _ => tight_pure _

theorem tight_readPacked (decode : Bytes → Except Fault Value) : Tight (readPacked decode) :=
  .bind tight_readString fun _ => .after _ fun value => tight_pure value

theorem tight_readValue (layout : Layout) : Tight (readValue layout) := by
  cases layout with
  | string => exact .bind tight_readString fun _ => tight_pure _
  | list | set => exact .bind tight_readStrings fun _ => tight_pure _
  | hash => exact .bind tight_readPairs fun _ => tight_pure _
  | sortedSetText => exact .bind (tight_readScored tight_readTextScore) fun _ => tight_pure _
  | sortedSetBinary => exact .bind (tight_readScored tight_readBinaryScore) fun _ => tight_pure _
  | quicklistZiplist => exact .bind (tight_readNodes tight_readZiplistNode) fun _ => tight_pure _
  | quicklistListpack => exact .bind (tight_readNodes tight_readTaggedNode) fun _ => tight_pure _
  | listZiplist => exact tight_readPacked fun blob => Value.list <$> decodeZiplist blob
  | setIntset => exact tight_readPacked fun blob => (.set ∘ ByteSet.ofList) <$> decodeIntset blob
  | setListpack =>
    exact tight_readPacked fun blob => (.set ∘ ByteSet.ofList) <$> decodeListpack blob
  | hashZipmap => exact tight_readPacked (unpackHash .zipmap decodeZipmap)
  | hashZiplist => exact tight_readPacked (unpackHash .ziplist decodeZiplist)
  | hashListpack => exact tight_readPacked (unpackHash .listpack decodeListpack)
  | sortedSetZiplist => exact tight_readPacked (unpackSortedSet .ziplist decodeZiplist)
  | sortedSetListpack => exact tight_readPacked (unpackSortedSet .listpack decodeListpack)

/-! ## §4. Items. -/

/-- **Every item is read from the bytes that it takes, and needs all of them.** -/
theorem tight_readItem : Tight readItem := by
  refine .bind tight_byte fun marker => ?_
  refine .ite (.bind tight_readPair fun _ => tight_pure _) ?_
  refine .ite (.bind tight_readLength fun _ => .bind tight_readLength fun _ => tight_pure _) ?_
  refine .ite (.bind (tight_natLE 8) fun _ => tight_pure _) ?_
  refine .ite (.bind (tight_natLE 4) fun _ => tight_pure _) ?_
  refine .ite (.bind tight_readLength fun _ => tight_pure _) (.ite (tight_pure _) ?_)
  refine .bind tight_readString fun key => ?_
  dsimp only
  cases Layout.ofCode? marker with
  | some layout =>
    exact .bind (tight_readValue layout) fun value => tight_pure (Item.entry key value)
  | none => exact tight_error _

/-- The end of the file is announced by one byte. -/
theorem rest_of_readItem_endOfFile {r next : Reader} (h : readItem r = .ok (.endOfFile, next)) :
    r.rest = endOfFile :: next.rest := by
  have hgives : Gives (fun p => p.1 = Item.endOfFile → r.rest = endOfFile :: p.2.rest)
      (readItem r) := by
    obtain ⟨position, rest⟩ := r
    cases rest with
    | nil => exact .error _
    | cons marker rest =>
      refine .bind (P := fun p => p = (marker, ⟨position + 1, rest⟩)) (.ok rfl) ?_
      rintro _ rfl
      -- every other marker gives an item of another form
      refine .ite (.bind (.any _) fun _ _ => .ok fun h => nomatch h) ?_
      refine .ite (.bind (.any _) fun _ _ => .bind (.any _) fun _ _ =>
        .ok fun h => nomatch h) ?_
      refine .ite (.bind (.any _) fun _ _ => .ok fun h => nomatch h) ?_
      refine .ite (.bind (.any _) fun _ _ => .ok fun h => nomatch h) ?_
      refine .ite (.bind (.any _) fun _ _ => .ok fun h => nomatch h) ?_
      dsimp only
      split
      · rename_i hmarker
        exact .ok fun _ => by rw [hmarker]
      · refine .bind (.any _) fun key _ => ?_
        split
        · exact .bind (.any _) fun _ _ => .ok fun h => nomatch h
        · exact .error _
  exact hgives _ h rfl

/-! ## §5. Rows of items. -/

variable {t : Target} {c c' : Context}

/-- Wherever a part of a file is cut, the reader breaks off. -/
def Target.Breaks (t : Target) (c : Context) (front : Bytes) : Prop :=
  ∀ k ≤ front.length, ∀ budget position,
    BrokenOff (t.records budget c ⟨position, front.take k⟩)

theorem Target.Breaks.nil (t : Target) (c : Context) : t.Breaks c [] := by
  intro k hk budget position
  cases budget <;> exact ⟨position, 1, by rw [List.take_nil]; rfl⟩

/-- A row that begins with an item is cut inside the item or behind it. -/
theorem Target.Breaks.cons {bytes front : Bytes} {found : List Record}
    (hstep : t.Steps c bytes found c') (hneeds : Needs readItem bytes) (h : t.Breaks c' front) :
    t.Breaks c (bytes ++ front) := by
  intro k hk budget position
  cases budget with
  | zero => exact ⟨_, _, rfl⟩
  | succ budget =>
    rcases Nat.lt_or_ge k bytes.length with hcut | hcut
    · rw [List.take_append_of_le_length (Nat.le_of_lt hcut)]
      exact (hneeds k hcut position).bind _
    · rw [List.length_append] at hk
      rw [List.take_append, List.take_of_length_le hcut, hstep.2]
      obtain ⟨_, _, herror⟩ := h (k - bytes.length) (by omega) budget (position + bytes.length)
      exact ⟨_, _, by rw [herror]; rfl⟩

/-- An item is next, which takes the reader a step on, and the records are those of the step
and those that are found behind it. -/
def Target.MeetsItem (t : Target) (budget : Nat) (c : Context) (r : Reader) (records : List Record)
    (stop : Nat) : Prop :=
  ∃ bytes next found c' later, r.rest = bytes ++ next.rest
    ∧ next.position = r.position + bytes.length ∧ t.Steps c bytes found c'
    ∧ Needs readItem bytes ∧ t.records budget c' next = .ok (later, stop)
    ∧ records = found ++ later

/-- What the reader has met when it finds records: the end marker, or an item and then
the rest of them. -/
theorem Target.records_cases {budget stop : Nat} {r : Reader} {records : List Record}
    (h : t.records (budget + 1) c r = .ok (records, stop)) :
    (c.deadline = none ∧ records = [] ∧ stop = r.position
        ∧ ∃ after, r.rest = endOfFile :: after)
      ∨ t.MeetsItem budget c r records stop := by
  rw [Target.records] at h
  obtain ⟨⟨item, next⟩, hitem, h⟩ := exists_of_bind h
  obtain ⟨bytes, hrest, hreads, hneeds⟩ := tight_readItem.front hitem
  have hposition : next.position = r.position + bytes.length := by
    rw [hreads.next_eq hrest hitem]
  have hadvance : (∀ key value, item ≠ .entry key value) → item ≠ .endOfFile →
      (t.advance c item >>= fun c => t.records budget c next) = .ok (records, stop) →
      t.MeetsItem budget c r records stop := by
    intro hkey hend hnext
    obtain ⟨c', hc', hlater⟩ := exists_of_bind hnext
    exact ⟨bytes, next, [], c', records, hrest, hposition, .advance hreads hkey hend hc', hneeds,
      hlater, rfl⟩
  -- all items but entries and the end only move the cursor
  cases item with
  | entry key value =>
    obtain ⟨found, hfound, h⟩ := exists_of_bind h
    obtain ⟨⟨later, stop'⟩, hlater, h⟩ := exists_of_bind h
    cases h
    exact .inr ⟨bytes, next, _, _, later, hrest, hposition, .entry hreads hfound, hneeds, hlater,
      rfl⟩
  | endOfFile =>
    dsimp only at h
    split at h
    · cases h
    · rename_i hnone
      cases h
      exact .inl ⟨Option.not_isSome_iff_eq_none.1 hnone, rfl, rfl, _,
        rest_of_readItem_endOfFile hitem⟩
  | info | sizes | deadline | database => exact .inr (hadvance (by simp) (by simp) h)

/-- **Records that are found stand before an end marker**, the same whatever follows
it, and before that marker the row of items can be cut nowhere. -/
theorem Target.exists_front {budget stop : Nat} {r : Reader} {records : List Record}
    (h : t.records budget c r = .ok (records, stop)) :
    ∃ front after database, r.rest = front ++ endOfFile :: after
      ∧ stop = r.position + front.length ∧ t.Scans c front records ⟨database, none⟩
      ∧ t.Breaks c front := by
  induction budget generalizing c r records with
  | zero => cases h
  | succ budget ih =>
    rcases Target.records_cases h with ⟨hnone, rfl, rfl, after, hrest⟩
      | ⟨bytes, next, found, c', later, hrest, hposition, hstep, hneeds, hlater, rfl⟩
    · obtain ⟨database, deadline⟩ := c
      obtain rfl : deadline = none := hnone
      exact ⟨[], after, database, hrest, rfl, .nil t _, .nil t _⟩
    · obtain ⟨front, after, database, hfront, hstop, hscan, hbreaks⟩ := ih hlater
      refine ⟨bytes ++ front, after, database, ?_, ?_, hstep.scans.append hscan, ?_⟩
      · rw [hrest, hfront, List.append_assoc]
      · rw [hstop, hposition, List.length_append]
        omega
      · exact .cons hstep hneeds hbreaks

/-! ## §6. Whole files. -/

/-- The version that stands in a header, and the reader behind it. -/
def readVersion (r : Reader) : Except Fault (Unit × Reader) := do
  let (text, r) ← r.take 4
  match Bytes.toNat? Bytes.u32Bound text with
  | some version =>
    if 1 ≤ version ∧ version ≤ lastVersion then return ((), r)
    else .error (.unsupportedVersion (Bytes.text text))
  | none => .error (.unsupportedVersion (Bytes.text text))

theorem tight_readVersion : Tight readVersion := by
  refine .bind (tight_take 4) fun text => ?_
  dsimp only
  cases Bytes.toNat? Bytes.u32Bound text with
  | some version => exact .ite (tight_pure ()) (tight_error _)
  | none => exact tight_error _

/-- Behind the magic bytes, the header is its version. -/
theorem readHeader_magic (bytes : Bytes) :
    readHeader (magic ++ bytes) = (readVersion ⟨magic.length, bytes⟩).map Prod.snd := by
  have hskip : (Reader.start (magic ++ bytes)).skip magic.length = ⟨magic.length, bytes⟩ := rfl
  unfold readHeader readVersion
  rw [List.take_left, if_neg (fun hne => hne rfl), hskip]
  cases (Reader.mk magic.length bytes).take 4 with
  | error fault => rfl
  | ok p =>
    dsimp only [bind, Except.bind]
    cases Bytes.toNat? Bytes.u32Bound p.1 with
    | none => rfl
    | some version => dsimp only; split <;> rfl

theorem readHeader_of_ne {bytes : Bytes} (h : bytes.take magic.length ≠ magic) :
    readHeader bytes = .error .invalidMagic :=
  if_pos h

/-- The snapshot of the records that were read, with the position where they end. -/
def ofRecords (databases : Nat) (now : Millis) (found : List Record × Nat) : Snapshot × Nat :=
  (⟨now, (List.range databases).map (recordsOf found.1)⟩, found.2)

theorem decodeUpTo_magic (databases : Nat) (now : Millis) (bytes : Bytes) :
    decodeUpTo databases now (magic ++ bytes)
      = readVersion ⟨magic.length, bytes⟩ >>= fun p =>
          (Target.records ⟨databases, now⟩ ((magic ++ bytes).length + 1) ⟨0, none⟩ p.2).map
            (ofRecords databases now) := by
  unfold decodeUpTo
  rw [readHeader_magic]
  cases readVersion ⟨magic.length, bytes⟩ with
  | error fault => rfl
  | ok p =>
    dsimp only [Except.map, bind, Except.bind]
    cases Target.records ⟨databases, now⟩ ((magic ++ bytes).length + 1) ⟨0, none⟩ p.2 <;> rfl

/-- What stands between the magic bytes and the end marker of a file that is read: with it
the file reads the same, whatever follows the marker, and cut inside of it it breaks
off. -/
theorem exists_body {databases : Nat} {now : Millis} {rest : Bytes} {found : Snapshot × Nat}
    (h : decodeUpTo databases now (magic ++ rest) = .ok found) :
    ∃ body after, rest = body ++ endOfFile :: after ∧ found.2 = magic.length + body.length
      ∧ (∀ other, decodeUpTo databases now (magic ++ (body ++ endOfFile :: other)) = .ok found)
      ∧ ∀ k ≤ body.length, BrokenOff (decodeUpTo databases now (magic ++ body.take k)) := by
  rw [decodeUpTo_magic] at h
  obtain ⟨⟨_, r⟩, hversion, h⟩ := exists_of_bind h
  obtain ⟨version, hrest, hreads, hneeds⟩ := tight_readVersion.front hversion
  have hr : r = ⟨magic.length + version.length, r.rest⟩ := hreads.next_eq hrest hversion
  dsimp only at h
  cases hrecords : Target.records ⟨databases, now⟩ ((magic ++ rest).length + 1) ⟨0, none⟩ r with
  | error fault =>
    rw [hrecords] at h
    cases h
  | ok p =>
    obtain ⟨records, stop⟩ := p
    rw [hrecords] at h
    cases h
    obtain ⟨front, after, database, hfront, hstop, hscan, hbreaks⟩ :=
      Target.exists_front hrecords
    rw [hr] at hstop
    refine ⟨version ++ front, after, ?_, ?_, ?_, ?_⟩
    · rw [List.append_assoc, ← hfront]
      exact hrest
    · show stop = _
      rw [hstop, List.length_append, Nat.add_assoc]
    · -- read with what stands behind the marker, the body is scanned by the same steps
      intro other
      have hbudget : front.length
          < (magic ++ (version ++ (front ++ endOfFile :: other))).length + 1 := by
        rw [List.length_append, List.length_append, List.length_append]
        omega
      obtain ⟨left, hleft⟩ :=
        hscan.records hbudget (magic.length + version.length) (endOfFile :: other)
      rw [List.append_assoc, decodeUpTo_magic, hreads]
      show Except.map _ _ = _
      rw [hleft, records_endOfFile]
      show Except.ok (ofRecords databases now (records ++ [], _)) = _
      rw [List.append_nil, ← hstop]
    · intro k hk
      rw [decodeUpTo_magic]
      rcases Nat.lt_or_ge k version.length with hcut | hcut
      · -- the cut is in the version
        rw [List.take_append_of_le_length (Nat.le_of_lt hcut)]
        exact (hneeds k hcut magic.length).bind _
      · -- or it is in the items, or before the marker
        rw [List.length_append] at hk
        rw [List.take_append, List.take_of_length_le hcut, hreads]
        obtain ⟨position, needed, hbroken⟩ := hbreaks (k - version.length) (by omega)
          ((magic ++ (version ++ front.take (k - version.length))).length + 1)
          (magic.length + version.length)
        exact ⟨position, needed, congrArg (Except.map _) hbroken⟩

theorem exists_magic {databases : Nat} {now : Millis} {bytes : Bytes} {found : Snapshot × Nat}
    (h : decodeUpTo databases now bytes = .ok found) : ∃ rest, bytes = magic ++ rest := by
  refine ⟨bytes.drop magic.length, ?_⟩
  by_contra hne
  have hmagic : bytes.take magic.length ≠ magic := by
    intro heq
    have hsplit := List.take_append_drop magic.length bytes
    rw [heq] at hsplit
    exact hne hsplit.symm
  unfold decodeUpTo at h
  rw [readHeader_of_ne hmagic] at h
  cases h

theorem BrokenOff.decode {databases : Nat} {now : Millis} {bytes : Bytes}
    (h : BrokenOff (decodeUpTo databases now bytes)) : BrokenOff (decode databases now bytes) :=
  h.bind _

/-- **A file that was cut off before its end marker is refused, and what follows the
marker does not matter.**  Before the fifth byte it is not a snapshot; from there on
its end is unexpected. -/
theorem truncated_is_refused {databases : Nat} {now : Millis} {bytes : Bytes} {s : Snapshot}
    (h : decode databases now bytes = .ok s) :
    ∃ stop, decodeUpTo databases now bytes = .ok (s, stop)
      ∧ bytes[stop]? = some endOfFile
      ∧ (∀ k ≤ stop,
          (k < 5 → decode databases now (bytes.take k) = .error .invalidMagic)
            ∧ (5 ≤ k → ∃ position needed,
                decode databases now (bytes.take k) = .error (.unexpectedEnd position needed)))
      ∧ ∀ other, other.take (stop + 1) = bytes.take (stop + 1) →
          decode databases now other = .ok s := by
  obtain ⟨⟨s', stop⟩, hread, h⟩ := exists_of_bind h
  cases h
  obtain ⟨rest, rfl⟩ := exists_magic hread
  obtain ⟨body, after, rfl, hstop, hsame, hcut⟩ := exists_body hread
  obtain rfl : stop = (magic ++ body).length := by
    rw [List.length_append]
    exact hstop
  rw [← List.append_assoc] at hread ⊢
  refine ⟨_, hread, ?_, ?_, ?_⟩
  · rw [List.getElem?_append_right (Nat.le_refl _), Nat.sub_self]
    rfl
  · intro k hk
    rw [List.take_append_of_le_length hk]
    -- the first five bytes are checked as one, so fewer of them are no magic
    refine ⟨fun hshort => ?_, fun hlong => ?_⟩
    · have hne : ((magic ++ body).take k).take magic.length ≠ magic := by
        intro heq
        have hlength := congrArg List.length heq
        rw [List.length_take, List.length_take] at hlength
        have hfive : magic.length = 5 := rfl
        omega
      unfold decode decodeUpTo
      rw [readHeader_of_ne hne]
      rfl
    · have hmagic : magic.length ≤ k := hlong
      rw [List.take_append, List.take_of_length_le hmagic]
      rw [List.length_append] at hk
      exact (hcut (k - magic.length) (by omega)).decode
  · intro other hother
    -- what agrees up to the marker has the same body, and anything behind it
    obtain ⟨later, rfl⟩ : ∃ later, other = magic ++ (body ++ endOfFile :: later) := by
      refine ⟨other.drop ((magic ++ body).length + 1), ?_⟩
      conv_lhs => rw [← List.take_append_drop ((magic ++ body).length + 1) other, hother]
      rw [List.take_length_add_append, List.append_assoc, List.append_assoc]
      rfl
    unfold decode
    rw [hsame later]
    rfl

/-- A file with one key, cut inside the key and read with another checksum. -/
theorem truncated_is_refused_single :
    let items : Bytes := [0xFE, 0, 0, 1, 107, 1, 118]
    let file : Bytes := magic ++ (writtenVersion ++ (items ++ endOfFile :: List.replicate 8 0))
    let found : Snapshot := ⟨7, [[([107], Entry.fresh (.string [118]) none)]]⟩
    decode 1 7 file = .ok found
      ∧ ∃ stop, decodeUpTo 1 7 file = .ok (found, stop)
        ∧ file[stop]? = some endOfFile
        ∧ (∀ k ≤ stop,
            (k < 5 → decode 1 7 (file.take k) = .error .invalidMagic)
              ∧ (5 ≤ k → ∃ position needed,
                  decode 1 7 (file.take k) = .error (.unexpectedEnd position needed)))
        ∧ ∀ other, other.take (stop + 1) = file.take (stop + 1) → decode 1 7 other = .ok found := by
  have hread : decode 1 7 (magic ++ (writtenVersion ++ (([0xFE, 0, 0, 1, 107, 1, 118] : Bytes)
      ++ endOfFile :: List.replicate 8 0)))
      = .ok ⟨7, [[([107], Entry.fresh (.string [118]) none)]]⟩ := by decide
  exact ⟨hread, truncated_is_refused hread⟩

end DurableStore.Snapshot
