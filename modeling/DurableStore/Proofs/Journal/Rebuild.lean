/-
  DurableStore.Proofs.Journal.Rebuild
  ────────────────────────────────
  **A RECONSTRUCTION REBUILDS THE CONTENTS.**

  The commands that rebuild a snapshot build every value up from nothing,
  element by element, and give it its deadline at the end.  Applied to a
  keyspace without keys they leave the live entries of the snapshot, each
  with its value and its deadline.  A collection without elements leaves no
  trace, since there is nothing to build it from, and a deadline alone makes
  no key:

      c.kept   — contents without such collections

  The induction follows the reconstruction: the elements of a value
  (`Builds.changes`), the entries of a database (`Builds.entries`), the
  databases (`Builds.databases`).  The commands may be applied later than the
  snapshot was taken: an entry that has died in between is gone with its
  deadline.

  Main results:
    * `kept_rebuilt` — a fresh session that applies the reconstruction of a
      snapshot holds what the keyspace held, but for such collections;
    * `fits_of_mem_reconstruction` — each of its commands fits in memory.
-/
import DurableStore.Journal.Reconstruction
import DurableStore.Proofs.Command.Storable
import DurableStore.Proofs.Command.Stream
import DurableStore.Proofs.Snapshot.RoundTrip

namespace DurableStore

/-! ## §1. How the commands are read. -/

namespace Command

theorem action_of_verb {text : String} {verb : Verb} {args : List Bytes} (now : Millis)
    (h : Verb.ofName? (Bytes.ofString text) = some verb) :
    action now (Bytes.ofString text :: args)
      = verb.action (nameText (Bytes.ofString text)) now args := by
  unfold action
  dsimp only
  rw [h]

theorem action_set (now : Millis) (key bytes : Bytes) :
    action now [Bytes.ofString "SET", key, bytes]
      = .ok (.set ⟨key, bytes, none, false, false, false⟩) := by
  have hverb : Verb.ofName? (Bytes.ofString "SET") = some .set := by decide +kernel
  exact action_of_verb now hverb

theorem action_pushBack (now : Millis) (key item : Bytes) :
    action now [Bytes.ofString "RPUSH", key, item] = .ok (.change key .list (Value.append [item])) := by
  have hverb : Verb.ofName? (Bytes.ofString "RPUSH") = some .pushBack := by decide +kernel
  exact action_of_verb now hverb

theorem action_setField (now : Millis) (key field value : Bytes) :
    action now [Bytes.ofString "HSET", key, field, value]
      = .ok (.change key .hash (Value.setFields [(field, value)])) := by
  have hverb : Verb.ofName? (Bytes.ofString "HSET") = some .setFields := by decide +kernel
  exact action_of_verb now hverb

theorem action_addMember (now : Millis) (key member : Bytes) :
    action now [Bytes.ofString "SADD", key, member]
      = .ok (.change key .set (Value.addMembers [member])) := by
  have hverb : Verb.ofName? (Bytes.ofString "SADD") = some .addMembers := by decide +kernel
  exact action_of_verb now hverb

theorem action_setScore (now : Millis) (key member : Bytes) {score : Score}
    (h : score.isNaN = false) :
    action now [Bytes.ofString "ZADD", key, score.format, member]
      = .ok (.change key .sortedSet (Value.setScores [(member, score)])) := by
  have hverb : Verb.ofName? (Bytes.ofString "ZADD") = some .setScores := by decide +kernel
  have hitems : ∀ name, scoredArguments name [score.format, member] = .ok [(member, score)] := by
    intro name
    show parseScored [(score.format, member)] = _
    unfold parseScored
    rw [Score.parse?_format h]
    rfl
  rw [action_of_verb now hverb]
  dsimp only [Verb.action]
  rw [hitems]
  rfl

theorem action_deadline (now : Millis) (key : Bytes) (deadline : Millis) :
    action now [Bytes.ofString "PEXPIREAT", key, Bytes.ofNat deadline.toNat]
      = .ok (.expire key (some deadline)) := by
  have hverb : Verb.ofName? (Bytes.ofString "PEXPIREAT") = some (.expire ⟨false, false⟩) := by
    decide +kernel
  have hlast : deadline.toNat ≤ Millis.last := Nat.le_pred_of_lt deadline.toNat_lt
  have hresolve : DeadlineForm.resolve ⟨false, false⟩ now deadline.toNat = deadline := by
    show UInt64.ofNat (min deadline.toNat Millis.last) = deadline
    rw [Nat.min_eq_left hlast, UInt64.ofNat_toNat]
  rw [action_of_verb now hverb]
  dsimp only [Verb.action]
  unfold parseNat
  rw [Bytes.toNat?_ofNat deadline.toNat_lt]
  show Except.ok (Action.expire key (some (DeadlineForm.resolve ⟨false, false⟩ now _))) = _
  rw [hresolve]

end Command

/-! ## §2. Values. -/

theorem Contents.assign_assign (c : Contents) (i : Nat) (key : Bytes) (d d' : Option Datum) :
    (c.assign i key d).assign i key d' = c.assign i key d' := by
  funext j k
  unfold Contents.assign
  split <;> rfl

theorem Contents.assign_here (c : Contents) (i : Nat) (key : Bytes) (d : Option Datum) :
    (c.assign i key d) i key = d := if_pos ⟨rfl, rfl⟩

theorem Command.keptDatum_of_nonempty {d : Datum} (h : d.value.isEmptyCollection = false) :
    keptDatum d = some d := by
  unfold keptDatum
  rw [h, if_neg (by decide)]

/-- Of each kind there is one collection without elements. -/
theorem Value.eq_emptyOf {v : Value} (h : v.isEmptyCollection = true) : v = emptyOf v.kind := by
  cases v with
  | string bytes => cases h
  | list items => rw [List.isEmpty_iff.1 h]; rfl
  | hash fields =>
    obtain ⟨toList, sorted⟩ := fields
    cases List.isEmpty_iff.1 h
    rfl
  | set members =>
    obtain ⟨toList, sorted⟩ := members
    cases List.isEmpty_iff.1 h
    rfl
  | sortedSet members =>
    obtain ⟨toList, sorted, distinct⟩ := members
    cases List.isEmpty_iff.1 h
    rfl

/-- Contents without the collections that have no elements. -/
def Contents.kept (c : Contents) : Contents := fun i key => (c i key).bind Command.keptDatum

/-- Nothing is left out exactly if every collection has an element. -/
theorem Contents.kept_eq_iff {c : Contents} :
    c.kept = c ↔ ∀ i key d, c i key = some d → d.value.isEmptyCollection = false := by
  constructor
  · intro hsame i key d hd
    have hkept : c.kept i key = some d := (congrFun (congrFun hsame i) key).trans hd
    unfold kept at hkept
    rw [hd, Option.bind_some] at hkept
    exact (Command.of_keptDatum hkept).2
  · intro hnonempty
    funext i key
    unfold kept
    cases hd : c i key with
    | none => rfl
    | some d => exact Command.keptDatum_of_nonempty (hnonempty i key d hd)

theorem Contents.kept_of_storable {c : Contents} (h : c.Storable) : c.kept = c :=
  kept_eq_iff.2 fun i key d hd => (h i key d hd).nonempty

/-- A collection without elements stands under a key as nothing. -/
def Contents.building (c : Contents) (i : Nat) (key : Bytes) (v : Value) : Contents :=
  c.assign i key (Command.keptDatum ⟨v, Option.none⟩)

namespace Command.Builds

variable {now : Millis} {count i : Nat} {c : Contents}

/-- A command that changes a collection, which may not be there yet. -/
theorem change {key : Bytes} {kind : Kind} {edit : Value → Value} {v : Value} {command : Command}
    (hkind : v.kind = kind) (haction : command.action now = .ok (.change key kind edit))
    (hnonempty : (edit v).isEmptyCollection = false) :
    Builds now count [command] (c.building i key v) (some i) (c.building i key (edit v)) (some i) := by
  have hfound : (c.building i key v) i key = keptDatum ⟨v, none⟩ := c.assign_here i key _
  have hmeaning : command.meaning now count ((c.building i key v) i)
      = .assign key (some ⟨edit v, none⟩) := by
    unfold meaning
    rw [haction]
    dsimp only [Action.effect]
    rw [hfound]
    -- an empty collection is no key: the command begins a new one of its kind
    cases hempty : v.isEmptyCollection with
    | true =>
      have hnone : keptDatum ⟨v, none⟩ = none := if_pos hempty
      rw [hnone, ← hkind, ← Value.eq_emptyOf hempty]
    | false =>
      rw [keptDatum_of_nonempty hempty]
      dsimp only
      rw [if_pos hkind, keptDatum_of_nonempty hnonempty]
  have hon : (Effect.assign key (some ⟨edit v, none⟩)).on i now (c.building i key v)
      = c.building i key (edit v) := by
    unfold Contents.building
    rw [keptDatum_of_nonempty (d := ⟨edit v, none⟩) hnonempty]
    exact Contents.assign_assign c i key _ _
  rw [← hon]
  exact single hmeaning (fun heq => nomatch heq) (fun _ heq => nomatch heq)

/-- **A collection is built up element by element.** -/
theorem changes {α : Type} {key : Bytes} {kind : Kind} {v : Value} (hv : v.kind = kind)
    (command : α → Command) (edit : α → Value → Value) (xs : List α)
    (haction : ∀ x ∈ xs, (command x).action now = .ok (.change key kind (edit x)))
    (hkind : ∀ x v, (edit x v).kind = v.kind) (hedits : ∀ x ∈ xs, Value.Edits kind (edit x)) :
    Builds now count (xs.map command) (c.building i key v) (some i)
      (c.building i key (xs.foldl (fun v x => edit x v) v)) (some i) := by
  induction xs generalizing v with
  | nil => exact nil
  | cons x xs ih =>
    obtain ⟨hread, haction⟩ := List.forall_mem_cons.1 haction
    obtain ⟨hedit, hedits⟩ := List.forall_mem_cons.1 hedits
    have hfirst : Builds now count [command x] (c.building i key v) (some i)
        (c.building i key (edit x v)) (some i) := change hv hread (hedit.nonempty v hv)
    exact hfirst.append (ih ((hkind x v).trans hv) haction hedits)

end Command.Builds

/-! ### What the elements add up to. -/

namespace Value

theorem kind_append (items : List Bytes) (v : Value) : (append items v).kind = v.kind := by
  cases v <;> rfl

theorem kind_setFields (pairs : List (Bytes × Bytes)) (v : Value) :
    (setFields pairs v).kind = v.kind := by
  cases v <;> rfl

theorem kind_addMembers (added : List Bytes) (v : Value) : (addMembers added v).kind = v.kind := by
  cases v <;> rfl

theorem kind_setScores (items : List (Bytes × Score)) (v : Value) :
    (setScores items v).kind = v.kind := by
  cases v <;> rfl

theorem foldl_append (items old : List Bytes) :
    items.foldl (fun v item => append [item] v) (.list old) = .list (old ++ items) := by
  induction items generalizing old with
  | nil => rw [List.append_nil]; rfl
  | cons item items ih =>
    rw [List.foldl_cons, append, ih, List.append_assoc, List.singleton_append]

theorem foldl_setFields (pairs : List (Bytes × Bytes)) (m : ByteMap Bytes) :
    pairs.foldl (fun v p => setFields [p] v) (.hash m) = .hash (m.insertMany pairs) := by
  induction pairs generalizing m with
  | nil => rfl
  | cons p pairs ih => exact ih (m.insert p.1 p.2)

theorem foldl_addMembers (members : List Bytes) (m : ByteSet) :
    members.foldl (fun v member => addMembers [member] v) (.set m)
      = .set (ByteSet.addMany m members) := by
  induction members generalizing m with
  | nil => rfl
  | cons member members ih => exact ih (ByteSet.add m member)

theorem foldl_setScores (items : List (Bytes × Score)) (z : SortedSet) :
    items.foldl (fun v item => setScores [item] v) (.sortedSet z)
      = .sortedSet (z.insertMany items) := by
  induction items generalizing z with
  | nil => rfl
  | cons item items ih => exact ih (z.insert item.1 item.2)

end Value

/-! ## §3. Entries. -/

namespace Contents

variable {now : Millis} {i : Nat} {c : Contents}

/-- Contents to which the entries of a database were added that are live. -/
def filled (c : Contents) (now : Millis) (i : Nat) (es : List (Bytes × Entry)) :
    Contents := fun j k =>
  if j = i then
    ((((Assoc.find? k es).map Entry.datum).bind Command.keptDatum).filter (Datum.isLive now)).or (c j k)
  else c j k

theorem filled_nil : c.filled now i [] = c := by
  funext j k
  unfold filled
  split <;> rfl

/-- The first entry is put in place, and then the others. -/
theorem filled_cons {p : Bytes × Entry} {es : List (Bytes × Entry)} (hnew : p.1 ∉ es.map Prod.fst)
    (hfree : c i p.1 = Option.none) :
    c.filled now i (p :: es)
      = (c.assign i p.1 ((Command.keptDatum p.2.datum).filter (Datum.isLive now))).filled now i es := by
  funext j k
  unfold filled assign
  by_cases hj : j = i
  · rw [if_pos hj, if_pos hj, Assoc.find?_cons]
    by_cases hk : k = p.1
    · have hlast : ∀ d : Option Datum, d.or (c j p.1) = d := by
        intro d
        rw [hj, hfree, Option.or_none]
      rw [if_pos hk, if_pos ⟨hj, hk⟩, hk, Assoc.find?_eq_none_of_not_mem hnew, hlast]
      rfl
    · rw [if_neg hk, if_neg fun hand => hk hand.2]
  · rw [if_neg hj, if_neg hj, if_neg fun hand => hj hand.1]

end Contents

namespace Command.Builds

variable {now : Millis} {count i : Nat} {c : Contents}

/-- A collection is built up from nothing, if its elements add up to it. -/
theorem collection {α : Type} {key : Bytes} {kind : Kind} {v : Value} (hfree : c i key = none)
    (hkind : kind ≠ .string) (command : α → Command)
    (edit : α → Value → Value) (xs : List α)
    (haction : ∀ x ∈ xs, (command x).action now = .ok (.change key kind (edit x)))
    (hkept : ∀ x v, (edit x v).kind = v.kind) (hedits : ∀ x ∈ xs, Value.Edits kind (edit x))
    (hall : xs.foldl (fun v x => edit x v) (Value.emptyOf kind) = v) :
    Builds now count (xs.map command) c (some i) (c.building i key v) (some i) := by
  -- a collection without elements is already there
  have hstart : c.building i key (Value.emptyOf kind) = c := by
    have hnone : keptDatum ⟨Value.emptyOf kind, none⟩ = none := by
      cases kind with
      | string => exact absurd rfl hkind
      | _ => rfl
    unfold Contents.building
    rw [hnone]
    exact Contents.assign_self hfree
  have hbuilt :
      Builds now count (xs.map command) (c.building i key (Value.emptyOf kind)) (some i) _ _ :=
    changes (Value.kind_emptyOf kind) command edit xs haction hkept hedits
  rw [hall, hstart] at hbuilt
  exact hbuilt

/-- **A value is built up from nothing.** -/
theorem value {key : Bytes} {v : Value} (hfree : c i key = none) (hsound : v.Sound) :
    Builds now count (v.commands key) c (some i) (c.building i key v) (some i) := by
  cases v with
  | string bytes =>
    have hmeaning : meaning now count (c i) [Bytes.ofString "SET", key, bytes]
        = .assign key (some ⟨.string bytes, none⟩) := by
      unfold meaning
      rw [action_set]
      rfl
    exact single hmeaning (fun heq => nomatch heq) (fun _ heq => nomatch heq)
  | list items =>
    -- every other value is built up from an empty one, a command for each of its items
    refine collection hfree (by decide) _ (fun item => Value.append [item]) items
      (fun item _ => action_pushBack now key item)
      (fun item v => Value.kind_append [item] v) ?_ ?_
    · exact fun item hitem => Value.edits_append (List.cons_ne_nil item [])
        (List.forall_mem_singleton.2 (hsound item hitem))
    · exact Value.foldl_append items []
  | hash fields =>
    refine collection hfree (by decide) _ (fun p => Value.setFields [p]) fields.toList
      (fun p _ => action_setField now key p.1 p.2)
      (fun p v => Value.kind_setFields [p] v) ?_ ?_
    · exact fun p hp => Value.edits_setFields (List.cons_ne_nil p [])
        (List.forall_mem_singleton.2 (hsound p hp))
    · have hall : ByteMap.empty.insertMany fields.toList = fields := fields.ofList_toList
      rw [Value.emptyOf, Value.foldl_setFields, hall]
  | set members =>
    refine collection hfree (by decide) _ (fun member => Value.addMembers [member])
      (ByteSet.members members) (fun member _ => action_addMember now key member)
      (fun member v => Value.kind_addMembers [member] v) ?_ ?_
    · exact fun member hmember => Value.edits_addMembers (List.cons_ne_nil member [])
        (List.forall_mem_singleton.2 (hsound member hmember))
    · have hall : ByteSet.addMany ByteMap.empty (ByteSet.members members) = members :=
        ByteSet.ofList_members members
      rw [Value.emptyOf, Value.foldl_addMembers, hall]
  | sortedSet members =>
    refine collection hfree (by decide) _ (fun p => Value.setScores [p]) members.toList
      (fun p hp => action_setScore now key p.1 (hsound p hp).2)
      (fun p v => Value.kind_setScores [p] v) ?_ ?_
    · exact fun p hp => Value.edits_setScores (List.cons_ne_nil p [])
        (List.forall_mem_singleton.2 (hsound p hp))
    · have hall : SortedSet.empty.insertMany members.toList = members := members.ofList_toList
      rw [Value.emptyOf, Value.foldl_setScores, hall]

/-- **A deadline is given at the end**, if there is anything to give it to.  One that has
passed by then takes the key away. -/
theorem deadline (key : Bytes) (e : Entry) :
    Builds now count (e.deadlineCommands key) (c.building i key e.value) (some i)
      (c.assign i key ((keptDatum e.datum).filter (Datum.isLive now))) (some i) := by
  unfold Entry.deadlineCommands
  cases hdeadline : e.expiresAt with
  | none =>
    have hdatum : e.datum = ⟨e.value, none⟩ := by rw [← hdeadline]; rfl
    have hlive : (keptDatum ⟨e.value, none⟩).filter (Datum.isLive now)
        = keptDatum ⟨e.value, none⟩ := by
      unfold keptDatum
      split <;> rfl
    rw [hdatum, hlive]
    exact nil
  | some deadline =>
    have hdatum : e.datum = ⟨e.value, some deadline⟩ := by rw [← hdeadline]; rfl
    have hfound : (c.building i key e.value) i key = keptDatum ⟨e.value, none⟩ :=
      c.assign_here i key _
    cases hempty : e.value.isEmptyCollection with
    | true =>
      -- the key is not there
      have hnone : ∀ expiresAt, keptDatum ⟨e.value, expiresAt⟩ = none :=
        fun _ => if_pos hempty
      have hmeaning : meaning now count ((c.building i key e.value) i)
          [Bytes.ofString "PEXPIREAT", key, Bytes.ofNat deadline.toNat] = .nothing := by
        unfold meaning
        rw [action_deadline]
        dsimp only [Action.effect]
        rw [hfound, hnone]
      have hsame : c.building i key e.value = c.assign i key Option.none := by
        unfold Contents.building
        rw [hnone]
      rw [hdatum, hnone, Option.filter_none, ← hsame]
      exact single hmeaning (fun heq => nomatch heq) (fun _ heq => nomatch heq)
    | false =>
      -- the entry stands there without a deadline, and gets it, or is gone with it
      have hmeaning : meaning now count ((c.building i key e.value) i)
          [Bytes.ofString "PEXPIREAT", key, Bytes.ofNat deadline.toNat]
            = .assign key (some e.datum) := by
        unfold meaning
        rw [action_deadline]
        dsimp only [Action.effect]
        rw [hfound, keptDatum_of_nonempty hempty]
        dsimp only
        rw [hdatum, keptDatum_of_nonempty hempty]
      have hon : (Effect.assign key (some e.datum)).on i now (c.building i key e.value)
          = c.assign i key ((keptDatum e.datum).filter (Datum.isLive now)) := by
        rw [keptDatum_of_nonempty (d := e.datum) hempty]
        exact Contents.assign_assign c i key _ _
      rw [← hon]
      exact single hmeaning (fun heq => nomatch heq) (fun _ heq => nomatch heq)

/-- **An entry is built up from nothing.** -/
theorem entry {key : Bytes} {e : Entry} (hfree : c i key = none) (hsound : e.value.Sound) :
    Builds now count (e.commands key) c (some i)
      (c.assign i key ((keptDatum e.datum).filter (Datum.isLive now))) (some i) :=
  (value hfree hsound).append (deadline key e)

/-- **The entries of a database are built up one by one.** -/
theorem entries {es : List (Bytes × Entry)} (hdistinct : (es.map Prod.fst).Nodup)
    (hfree : ∀ p ∈ es, c i p.1 = none) (hsound : ∀ p ∈ es, p.2.value.Sound) :
    Builds now count (es.flatMap fun p => p.2.commands p.1) c (some i)
      (c.filled now i es) (some i) := by
  induction es generalizing c with
  | nil =>
    rw [Contents.filled_nil]
    exact nil
  | cons p es ih =>
    obtain ⟨hfree₁, hfree₂⟩ := List.forall_mem_cons.1 hfree
    obtain ⟨hsound₁, hsound₂⟩ := List.forall_mem_cons.1 hsound
    rw [List.map_cons, List.nodup_cons] at hdistinct
    have hrest : ∀ q ∈ es,
        (c.assign i p.1 ((keptDatum p.2.datum).filter (Datum.isLive now))) i q.1 = none := by
      intro q hq
      have hne : q.1 ≠ p.1 := fun heq => hdistinct.1 (heq ▸ List.mem_map_of_mem hq)
      exact (if_neg fun hand => hne hand.2).trans (hfree₂ q hq)
    rw [List.flatMap_cons, Contents.filled_cons hdistinct.1 hfree₁]
    exact (entry hfree₁ hsound₁).append (ih hdistinct.2 hrest hsound₂)

end Command.Builds

/-! ## §4. Databases. -/

namespace Snapshot

/-- The databases with a live entry, of which the first has the index `n`. -/
def liveFrom (now : Millis) (n : Nat) (databases : List (List (Bytes × Entry))) :
    List (Nat × List (Bytes × Entry)) :=
  ((databases.zipIdx n).map fun d => (d.2, liveAt now d.1)).filter fun d => !d.2.isEmpty

theorem liveFrom_cons (now : Millis) (n : Nat) (es : List (Bytes × Entry))
    (databases : List (List (Bytes × Entry))) :
    liveFrom now n (es :: databases)
      = (if (liveAt now es).isEmpty then [] else [(n, liveAt now es)])
        ++ liveFrom now (n + 1) databases := by
  unfold liveFrom
  rw [List.zipIdx_cons, List.map_cons, List.filter_cons]
  cases (liveAt now es).isEmpty <;> rfl

/-- The commands that rebuild a database. -/
def databaseCommands (d : Nat × List (Bytes × Entry)) : List Command :=
  Command.selecting d.1 :: d.2.flatMap fun p => p.2.commands p.1

/-- What databases hold, of which the first has the index `n`. -/
def held (now : Millis) (n : Nat) (databases : List (List (Bytes × Entry))) : Contents :=
  fun j k =>
    if n ≤ j then (Assoc.find? k (liveAt now (databases.getD (j - n) []))).map Entry.datum
    else none

theorem held_cons (now : Millis) (n : Nat) (es : List (Bytes × Entry))
    (databases : List (List (Bytes × Entry))) (j : Nat) (k : Bytes) :
    held now n (es :: databases) j k
      = if j = n then (Assoc.find? k (liveAt now es)).map Entry.datum
        else held now (n + 1) databases j k := by
  unfold held
  by_cases hj : j = n
  · rw [if_pos hj, if_pos (Nat.le_of_eq hj.symm), hj, Nat.sub_self]
    rfl
  · rw [if_neg hj]
    by_cases hle : n ≤ j
    · obtain ⟨m, rfl⟩ : ∃ m, j = n + 1 + m := ⟨j - (n + 1), by omega⟩
      rw [if_pos hle, if_pos (Nat.le_add_right _ _), Nat.add_sub_cancel_left,
        show n + 1 + m - n = m + 1 by omega]
      rfl
    · rw [if_neg hle, if_neg (by omega)]

end Snapshot

open Snapshot in
/-- A database is rebuilt from its live entries, whether there are any or not. -/
theorem Command.Builds.database {now taken : Millis} {count n : Nat} {c : Contents}
    {es : List (Bytes × Entry)}
    (hrange : ∀ d ∈ if (liveAt taken es).isEmpty then [] else [(n, liveAt taken es)],
      d.1 < count ∧ d.1 < Bytes.u64Bound)
    (hfree : ∀ k, c n k = none) (hdistinct : (es.map Prod.fst).Nodup)
    (hsound : ∀ p ∈ liveAt taken es, p.2.value.Sound) :
    Builds now count ((if (liveAt taken es).isEmpty then [] else [(n, liveAt taken es)]).flatMap
      databaseCommands) c none (c.filled now n (liveAt taken es)) none := by
  split at hrange
  · rename_i hempty
    rw [if_pos hempty, List.isEmpty_iff.1 hempty, Contents.filled_nil]
    exact nil
  · rename_i hne
    obtain ⟨hcount, hbound⟩ := hrange (n, liveAt taken es) (List.mem_singleton_self _)
    have hlive : ((liveAt taken es).map Prod.fst).Nodup :=
      hdistinct.sublist (List.filter_sublist.map Prod.fst)
    have hentries : Builds now count ((liveAt taken es).flatMap fun p => p.2.commands p.1) c (some n)
        (c.filled now n (liveAt taken es)) (some n) :=
      entries hlive (fun p _ => hfree p.1) hsound
    rw [if_neg hne, List.flatMap_cons, List.flatMap_nil, List.append_nil]
    exact ((select hcount hbound).append hentries).forget

open Snapshot in
/-- **Databases are rebuilt one after the other.** -/
theorem Command.Builds.databases {now taken : Millis} {count n : Nat} {c : Contents}
    {dbs : List (List (Bytes × Entry))}
    (hrange : ∀ d ∈ liveFrom taken n dbs, d.1 < count ∧ d.1 < Bytes.u64Bound)
    (hfree : ∀ j k, n ≤ j → c j k = none) (hdistinct : ∀ es ∈ dbs, (es.map Prod.fst).Nodup)
    (hsound : ∀ es ∈ dbs, ∀ p ∈ liveAt taken es, p.2.value.Sound) :
    Builds now count ((liveFrom taken n dbs).flatMap databaseCommands) c none
      (fun j k => (((held taken n dbs).kept.live now) j k).or (c j k)) none := by
  induction dbs generalizing n c with
  | nil =>
    have hsame : (fun j k => (((held taken n []).kept.live now) j k).or (c j k)) = c := by
      funext j k
      unfold Contents.live Contents.kept held
      split <;> rfl
    rw [hsame]
    exact nil
  | cons es dbs ih =>
    obtain ⟨hdistinct₁, hdistinct₂⟩ := List.forall_mem_cons.1 hdistinct
    obtain ⟨hsound₁, hsound₂⟩ := List.forall_mem_cons.1 hsound
    rw [liveFrom_cons] at hrange ⊢
    rw [List.flatMap_append]
    have hone : Builds now count _ c none (c.filled now n (liveAt taken es)) none :=
      database (fun d hd => hrange d (List.mem_append_left _ hd))
        (fun k => hfree n k (Nat.le_refl n)) hdistinct₁ hsound₁
    -- the databases behind it are as free as they were
    have hlater : ∀ j k, n + 1 ≤ j → c.filled now n (liveAt taken es) j k = none := by
      intro j k hj
      exact (if_neg (by omega)).trans (hfree j k (by omega))
    have hrest := ih (fun d hd => hrange d (List.mem_append_right _ hd)) hlater hdistinct₂ hsound₂
    have hall : (fun j k => (((held taken n (es :: dbs)).kept.live now) j k).or (c j k))
        = fun j k => (((held taken (n + 1) dbs).kept.live now) j k).or
            (c.filled now n (liveAt taken es) j k) := by
      funext j k
      unfold Contents.live Contents.kept Contents.filled
      rw [held_cons]
      by_cases hj : j = n
      · have hnone : held taken (n + 1) dbs j k = none := by
          unfold held
          exact if_neg (by omega)
        rw [if_pos hj, if_pos hj, hnone, Option.bind_none, Option.filter_none, Option.none_or]
      · rw [if_neg hj, if_neg hj]
    rw [hall]
    exact hone.append hrest

/-! ## §5. Keyspaces. -/

namespace Keyspace

theorem stands_start {ks : Keyspace} (h : ks.Regular) (hquiet : ks.Quiet) (hpos : 0 < ks.count)
    (fallback : Option Fallback) :
    (Session.start ks fallback).Stands ks.now ks.count (ks.contents ks.now) none :=
  ⟨h, hquiet, rfl, rfl, hpos, rfl, fun _ hnone => nomatch hnone⟩

theorem each_of_mem_snapshot {ks : Keyspace} {P : Bytes → Datum → Prop}
    (h : (ks.contents ks.now).Each P) {es : List (Bytes × Entry)}
    (hes : es ∈ ks.snapshot.databases) :
    Assoc.Sorted es ∧ ∀ p ∈ Snapshot.liveAt ks.now es, P p.1 p.2.datum := by
  obtain ⟨i, hi⟩ := List.getElem?_of_mem hes
  unfold snapshot at hi
  rw [List.getElem?_map] at hi
  obtain ⟨db, hdb, rfl⟩ := Option.map_eq_some_iff.1 hi
  have hsorted : Assoc.Sorted (Snapshot.liveAt ks.now db.entries.toList) :=
    List.Pairwise.filter _ db.entries.sorted
  refine ⟨hsorted, ?_⟩
  intro p hp
  have hfound := (Assoc.find?_eq_some_iff hsorted).2 (List.mem_filter.1 hp).1
  have hget : ks.databases.getD i Database.empty = db := by
    rw [List.getD_eq_getElem?_getD, hdb]
    rfl
  refine h i p.1 p.2.datum ?_
  rw [contents_eq_find?_liveAt, hget, hfound]
  rfl

/-- The entries of one database in a snapshot. -/
theorem getD_snapshot (ks : Keyspace) (i : Nat) :
    ks.snapshot.databases.getD i []
      = Snapshot.liveAt ks.now (ks.databases.getD i Database.empty).entries.toList := by
  unfold snapshot
  rw [List.getD_eq_getElem?_getD, List.getD_eq_getElem?_getD, List.getElem?_map]
  cases ks.databases[i]? <;> rfl

theorem held_snapshot (ks : Keyspace) :
    Snapshot.held ks.now 0 ks.snapshot.databases = ks.contents ks.now := by
  funext i key
  unfold Snapshot.held
  rw [if_pos (Nat.zero_le i), Nat.sub_zero, getD_snapshot,
    Snapshot.liveAt_liveAt (UInt64.le_refl _),
    contents_eq_find?_liveAt]

/-- What a keyspace holds is live. -/
theorem live_kept (ks : Keyspace) (t : Millis) :
    (ks.contents t).kept.live t = (ks.contents t).kept := by
  funext i key
  unfold Contents.live Contents.kept
  cases hfound : ks.contents t i key with
  | none => rfl
  | some d =>
    show (Command.keptDatum d).filter _ = Command.keptDatum d
    unfold Command.keptDatum
    split
    · rfl
    · rw [Option.filter_some, contents_isLive hfound]
      rfl

/-- **A reconstruction rebuilds the contents.**  A session that holds nothing and
applies the reconstruction of a snapshot holds what the keyspace held, but for
collections without elements. -/
theorem kept_rebuilt {ks : Keyspace} (h : (ks.contents ks.now).Each Datum.Sound) {s : Session}
    (hs : s.Stands ks.now ks.count Contents.none none) :
    (s.applyAll ks.snapshot.reconstruction).1.Stands ks.now ks.count (ks.contents ks.now).kept
      none := by
  have hregular : ks.count < Bytes.u64Bound := hs.count_eq ▸ hs.regular.count
  have hrange : ∀ d ∈ Snapshot.liveFrom ks.now 0 ks.snapshot.databases,
      d.1 < ks.count ∧ d.1 < Bytes.u64Bound := by
    intro d hd
    obtain ⟨es, hes, -⟩ := Snapshot.mem_liveDatabases (s := ks.snapshot) hd
    have hindex := (List.getElem?_eq_some_iff.1 hes).1
    unfold snapshot at hindex
    rw [List.length_map] at hindex
    exact ⟨hindex, Nat.lt_trans hindex hregular⟩
  have hcontents : (fun j k => (((Snapshot.held ks.now 0 ks.snapshot.databases).kept.live ks.now) j k).or
      (Contents.none j k)) = (ks.contents ks.now).kept := by
    rw [held_snapshot, live_kept]
    funext j k
    exact Option.or_none
  rw [← hcontents]
  refine hs.build (Command.Builds.databases hrange (fun _ _ _ => rfl) ?_ ?_)
  · exact fun es hes => (each_of_mem_snapshot h hes).1.nodup
  · exact fun es hes p hp => ((each_of_mem_snapshot h hes).2 p hp).value

end Keyspace

/-! ### The form of the commands. -/

/-- The names of the commands that rebuild an entry. -/
def Entry.commandNames : List String := ["SET", "RPUSH", "HSET", "SADD", "ZADD", "PEXPIREAT"]

/-- **The commands of an entry** are about its key, and have no other arguments than its byte
strings, and scores and a deadline, which are short. -/
theorem Entry.exists_of_mem_commands {key : Bytes} {e : Entry} {command : Command}
    (h : command ∈ e.commands key) :
    ∃ name ∈ commandNames, ∃ args : List Bytes, command = Bytes.ofString name :: key :: args
      ∧ args.length ≤ 2 ∧ ∀ arg ∈ args, arg ∈ e.value.strings ∨ arg.length < lengthBound := by
  rcases List.mem_append.1 h with hvalue | hdeadline
  · -- one command for each element, with the element in it
    cases hv : e.value with
    | string bytes =>
      rw [hv] at hvalue
      exact ⟨"SET", by decide, [bytes], List.mem_singleton.1 hvalue,
        Nat.le_succ 1, by simp [Value.strings]⟩
    | list items =>
      rw [hv] at hvalue
      obtain ⟨item, hitem, rfl⟩ := List.mem_map.1 hvalue
      exact ⟨"RPUSH", by decide, [item], rfl, Nat.le_succ 1, by simp [Value.strings, hitem]⟩
    | hash fields =>
      rw [hv] at hvalue
      obtain ⟨p, hp, rfl⟩ := List.mem_map.1 hvalue
      refine ⟨"HSET", by decide, [p.1, p.2], rfl, Nat.le_refl 2, fun arg harg => .inl ?_⟩
      exact List.mem_flatMap.2 ⟨p, hp, harg⟩
    | set members =>
      rw [hv] at hvalue
      obtain ⟨member, hmember, rfl⟩ := List.mem_map.1 hvalue
      exact ⟨"SADD", by decide, [member], rfl, Nat.le_succ 1, by simp [Value.strings, hmember]⟩
    | sortedSet members =>
      rw [hv] at hvalue
      obtain ⟨p, hp, rfl⟩ := List.mem_map.1 hvalue
      have hformat := Nat.lt_of_le_of_lt (Score.length_format_le p.2)
        (show 400 < lengthBound by decide)
      refine ⟨"ZADD", by decide, [p.2.format, p.1], rfl, Nat.le_refl 2, ?_⟩
      refine List.forall_mem_cons.2 ⟨.inr hformat, List.forall_mem_singleton.2 (.inl ?_)⟩
      exact List.mem_map_of_mem hp
  · unfold Entry.deadlineCommands at hdeadline
    split at hdeadline
    · rename_i deadline _
      exact ⟨"PEXPIREAT", by decide, [Bytes.ofNat deadline.toNat], List.mem_singleton.1 hdeadline,
        Nat.le_succ 1, List.forall_mem_singleton.2 (.inr (Bytes.length_ofNat_lt deadline.toNat_lt))⟩
    · exact absurd hdeadline List.not_mem_nil

/-! ### The size of the commands. -/

namespace Wire

/-- The commands of an entry are no longer than the byte strings in it. -/
theorem fits_of_mem_commands_of_strings {key : Bytes} {e : Entry} (hkey : key.length < lengthBound)
    (hstrings : ∀ bytes ∈ e.value.strings, bytes.length < lengthBound) :
    ∀ command ∈ e.commands key, Fits command := by
  intro command hcommand
  obtain ⟨name, hname, args, rfl, hcount, hargs⟩ := Entry.exists_of_mem_commands hcommand
  have hshort : ∀ name ∈ Entry.commandNames, (Bytes.ofString name).length < lengthBound := by decide
  refine fits_of_short (hshort name hname) (Nat.succ_le_succ hcount) ?_
  refine List.forall_mem_cons.2 ⟨hkey, fun arg harg => ?_⟩
  exact (hargs arg harg).elim (hstrings arg) id

theorem fits_of_mem_commands {key : Bytes} {e : Entry} (h : e.datum.Sound key) :
    ∀ command ∈ e.commands key, Fits command :=
  fits_of_mem_commands_of_strings h.key (Value.Sound.strings h.value)

/-- **The commands of a reconstruction fit in memory.** -/
theorem fits_of_mem_reconstruction {ks : Keyspace} (hregular : ks.Regular)
    (h : (ks.contents ks.now).Each Datum.Sound) :
    ∀ command ∈ ks.snapshot.reconstruction, Fits command := by
  intro command hcommand
  obtain ⟨d, hd, hcommand⟩ := List.mem_flatMap.1 hcommand
  obtain ⟨es, hes, hlive⟩ := Snapshot.mem_liveDatabases hd
  rcases List.mem_cons.1 hcommand with rfl | hentry
  · have hindex := (List.getElem?_eq_some_iff.1 hes).1
    unfold Keyspace.snapshot at hindex
    rw [List.length_map] at hindex
    exact fits_selecting (Nat.lt_trans hindex hregular.count)
  · obtain ⟨p, hp, hmem⟩ := List.mem_flatMap.1 hentry
    rw [hlive] at hp
    exact fits_of_mem_commands
      ((Keyspace.each_of_mem_snapshot h (List.mem_of_getElem? hes)).2 p hp) command hmem

end Wire

end DurableStore
