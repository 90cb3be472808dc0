/-
  DurableStore.Proofs.Command.Storable
  ────────────────────────────────
  **CONTENTS THAT CAN BE WRITTEN OUT.**

  Three things must hold of a datum for it to be written out and made
  again: its byte strings fit in memory, its scores are numbers, and it is
  no collection without elements, which would leave no trace.  Commands
  that fit in memory write only such data: every byte string of a datum is
  an argument of the command that put it there, every score was read from
  one, and an emptied collection is removed.

  Main result:
    * `Contents.Each.meaning` — what a command means keeps them so.
-/
import DurableStore.Proofs.Command.Lockstep
import DurableStore.Proofs.Results
import DurableStore.Proofs.Score.Text
import DurableStore.Proofs.Wire.RoundTrip

namespace DurableStore

/-! ## §1. Changes of values. -/

theorem ByteMap.mem_insertMany {α : Type} {m : ByteMap α} {ps : List (Bytes × α)} {p : Bytes × α}
    (h : p ∈ (m.insertMany ps).toList) : p ∈ ps ∨ p ∈ m.toList := by
  induction ps generalizing m with
  | nil => exact .inr h
  | cons q ps ih =>
    rw [insertMany, List.foldl_cons] at h
    rcases ih h with hlater | hhere
    · exact .inl (List.mem_cons_of_mem q hlater)
    · rcases Assoc.mem_insert hhere with hnew | hold
      · exact .inl (hnew ▸ List.mem_cons_self)
      · exact .inr hold

theorem ByteMap.insertMany_ne_empty {α : Type} (m : ByteMap α) {ps : List (Bytes × α)}
    (h : ps ≠ []) : (m.insertMany ps).isEmpty = false := by
  induction ps generalizing m with
  | nil => exact absurd rfl h
  | cons p ps ih =>
    cases ps with
    | cons q ps => exact ih (m.insert p.1 p.2) (List.cons_ne_nil q ps)
    | nil =>
      have hfound : (m.insert p.1 p.2).find? p.1 = some p.2 := by
        rw [find?_insert, if_pos rfl]
      have hmem := (find?_eq_some_iff _).1 hfound
      show (m.insert p.1 p.2).toList.isEmpty = false
      exact List.isEmpty_eq_false_iff.2 (List.ne_nil_of_mem hmem)

theorem SortedSet.mem_insertMany {z : SortedSet} {items : List (Bytes × Score)}
    {p : Bytes × Score} (h : p ∈ (z.insertMany items).toList) : p ∈ items ∨ p ∈ z.toList := by
  induction items generalizing z with
  | nil => exact .inr h
  | cons item items ih =>
    rw [insertMany, List.foldl_cons] at h
    rcases ih h with hlater | hhere
    · exact .inl (List.mem_cons_of_mem item hlater)
    · rcases Ranking.mem_place.1 hhere with hnew | hold
      · exact .inl (hnew ▸ List.mem_cons_self)
      · exact .inr (List.mem_filter.1 hold).1

theorem SortedSet.insertMany_ne_empty (z : SortedSet) {items : List (Bytes × Score)}
    (h : items ≠ []) : (z.insertMany items).isEmpty = false := by
  induction items generalizing z with
  | nil => exact absurd rfl h
  | cons item items ih =>
    cases items with
    | cons other items => exact ih (z.insert item.1 item.2) (List.cons_ne_nil other items)
    | nil =>
      have hmem : item ∈ (z.insert item.1 item.2).toList := Ranking.mem_place.2 (.inl rfl)
      exact List.isEmpty_eq_false_iff.2 (List.ne_nil_of_mem hmem)

namespace Value

/-- A change of the values of a kind that leaves them fit to be written out. -/
structure Edits (kind : Kind) (edit : Value → Value) : Prop where
  sound : ∀ v, v.Sound → (edit v).Sound
  nonempty : ∀ v, v.kind = kind → (edit v).isEmptyCollection = false

theorem sound_emptyOf (kind : Kind) : (emptyOf kind).Sound := by
  cases kind with
  | string => exact Nat.pow_pos (by decide)
  | list => exact fun item hitem => absurd hitem List.not_mem_nil
  | hash => exact fun p hp => absurd hp List.not_mem_nil
  | set => exact fun member hmember => absurd hmember List.not_mem_nil
  | sortedSet => exact fun p hp => absurd hp List.not_mem_nil

theorem edits_append {items : List Bytes} (hne : items ≠ [])
    (h : ∀ item ∈ items, item.length < lengthBound) : Edits .list (append items) := by
  refine ⟨?_, ?_⟩
  · intro v hv
    cases v with
    | list old => exact List.forall_mem_append.2 ⟨hv, h⟩
    | _ => exact hv
  · intro v hkind
    cases v with
    | list old => exact List.isEmpty_eq_false_iff.2 (List.append_ne_nil_of_right_ne_nil old hne)
    | _ => cases hkind

theorem edits_prepend {items : List Bytes} (hne : items ≠ [])
    (h : ∀ item ∈ items, item.length < lengthBound) : Edits .list (prepend items) := by
  refine ⟨?_, ?_⟩
  · intro v hv
    cases v with
    | list old =>
      refine List.forall_mem_append.2 ⟨?_, hv⟩
      intro item hitem
      exact h item (List.mem_reverse.1 hitem)
    | _ => exact hv
  · intro v hkind
    cases v with
    | list old =>
      have hreverse : items.reverse ≠ [] := mt List.reverse_eq_nil_iff.1 hne
      exact List.isEmpty_eq_false_iff.2 (List.append_ne_nil_of_left_ne_nil hreverse old)
    | _ => cases hkind

theorem edits_setFields {pairs : List (Bytes × Bytes)} (hne : pairs ≠ [])
    (h : ∀ p ∈ pairs, p.1.length < lengthBound ∧ p.2.length < lengthBound) :
    Edits .hash (setFields pairs) := by
  refine ⟨?_, ?_⟩
  · intro v hv
    cases v with
    | hash fields =>
      intro p hp
      rcases ByteMap.mem_insertMany hp with hnew | hold
      · exact h p hnew
      · exact hv p hold
    | _ => exact hv
  · intro v hkind
    cases v with
    | hash fields => exact fields.insertMany_ne_empty hne
    | _ => cases hkind

theorem edits_addMembers {added : List Bytes} (hne : added ≠ [])
    (h : ∀ member ∈ added, member.length < lengthBound) : Edits .set (addMembers added) := by
  refine ⟨?_, ?_⟩
  · intro v hv
    cases v with
    | set members =>
      intro member hmember
      obtain ⟨p, hp, rfl⟩ := List.mem_map.1 hmember
      rw [ByteSet.addMany_eq] at hp
      rcases ByteMap.mem_insertMany hp with hnew | hold
      · obtain ⟨m, hm, rfl⟩ := List.mem_map.1 hnew
        exact h m hm
      · exact hv p.1 (List.mem_map_of_mem hold)
    | _ => exact hv
  · intro v hkind
    cases v with
    | set members =>
      show (ByteSet.addMany members added).isEmpty = false
      rw [ByteSet.addMany_eq]
      exact ByteMap.insertMany_ne_empty members (mt List.map_eq_nil_iff.1 hne)
    | _ => cases hkind

theorem edits_setScores {items : List (Bytes × Score)} (hne : items ≠ [])
    (h : ∀ p ∈ items, p.1.length < lengthBound ∧ p.2.isNaN = false) :
    Edits .sortedSet (setScores items) := by
  refine ⟨?_, ?_⟩
  · intro v hv
    cases v with
    | sortedSet members =>
      intro p hp
      rcases SortedSet.mem_insertMany hp with hnew | hold
      · exact h p hnew
      · exact hv p hold
    | _ => exact hv
  · intro v hkind
    cases v with
    | sortedSet members => exact members.insertMany_ne_empty hne
    | _ => cases hkind

end Value

/-! ## §2. Commands that were read. -/

theorem mem_of_pairUp {args : List Bytes} {pairs : List (Bytes × Bytes)}
    (h : Bytes.pairUp args = some pairs) : ∀ p ∈ pairs, p.1 ∈ args ∧ p.2 ∈ args := by
  induction args using Bytes.pairUp.induct generalizing pairs with
  | case1 =>
    cases h
    exact fun p hp => absurd hp List.not_mem_nil
  | case2 a => cases h
  | case3 a b rest ih =>
    unfold Bytes.pairUp at h
    obtain ⟨pairs, hrest, rfl⟩ := Option.map_eq_some_iff.1 h
    intro p hp
    rcases List.mem_cons.1 hp with rfl | hp
    · exact ⟨List.mem_cons_self, List.mem_cons_of_mem a List.mem_cons_self⟩
    · obtain ⟨hfirst, hsecond⟩ := ih hrest p hp
      exact ⟨List.mem_cons_of_mem a (List.mem_cons_of_mem b hfirst),
        List.mem_cons_of_mem a (List.mem_cons_of_mem b hsecond)⟩

theorem pairUp_ne_nil {arg : Bytes} {args : List Bytes} {pairs : List (Bytes × Bytes)}
    (h : Bytes.pairUp (arg :: args) = some pairs) : pairs ≠ [] := by
  cases args with
  | nil => cases h
  | cons other args =>
    unfold Bytes.pairUp at h
    obtain ⟨rest, -, rfl⟩ := Option.map_eq_some_iff.1 h
    exact List.cons_ne_nil _ rest

namespace Command

theorem of_fieldArguments {name : String} {args : List Bytes} {pairs : List (Bytes × Bytes)}
    (h : fieldArguments name args = .ok pairs) :
    pairs ≠ [] ∧ ∀ p ∈ pairs, p.1 ∈ args ∧ p.2 ∈ args := by
  unfold fieldArguments at h
  split at h
  · rename_i arg rest found hpairs
    cases h
    exact ⟨pairUp_ne_nil hpairs, mem_of_pairUp hpairs⟩
  · cases h

theorem of_parseScored {pairs : List (Bytes × Bytes)} {items : List (Bytes × Score)}
    (h : parseScored pairs = .ok items) :
    items.length = pairs.length
      ∧ ∀ item ∈ items, (∃ p ∈ pairs, item.1 = p.2) ∧ item.2.isNaN = false := by
  induction pairs generalizing items with
  | nil =>
    cases h
    exact ⟨rfl, fun item hitem => absurd hitem List.not_mem_nil⟩
  | cons p pairs ih =>
    unfold parseScored at h
    cases hscore : Score.parse? p.1 with
    | none =>
      rw [hscore] at h
      cases h
    | some score =>
      rw [hscore] at h
      obtain ⟨rest, hrest, h⟩ := exists_of_bind h
      cases h
      obtain ⟨hlength, hitems⟩ := ih hrest
      refine ⟨?_, ?_⟩
      · rw [List.length_cons, List.length_cons, hlength]
      · intro item hitem
        rcases List.mem_cons.1 hitem with rfl | hitem
        · exact ⟨⟨p, List.mem_cons_self, rfl⟩, Score.isNaN_of_parse? hscore⟩
        · obtain ⟨⟨q, hq, hsame⟩, hnum⟩ := hitems item hitem
          exact ⟨⟨q, List.mem_cons_of_mem p hq, hsame⟩, hnum⟩

theorem of_scoredArguments {name : String} {args : List Bytes} {items : List (Bytes × Score)}
    (h : scoredArguments name args = .ok items) :
    items ≠ [] ∧ ∀ item ∈ items, item.1 ∈ args ∧ item.2.isNaN = false := by
  unfold scoredArguments at h
  split at h
  · rename_i arg rest found hpairs
    obtain ⟨hlength, hitems⟩ := of_parseScored h
    refine ⟨?_, ?_⟩
    · rintro rfl
      exact pairUp_ne_nil hpairs (List.eq_nil_of_length_eq_zero hlength.symm)
    · intro item hitem
      obtain ⟨⟨p, hp, hsame⟩, hnum⟩ := hitems item hitem
      exact ⟨hsame ▸ (mem_of_pairUp hpairs p hp).2, hnum⟩
  · cases h

/-- The options of a `SET` change neither the key nor the value. -/
theorem SetRequest.of_withOptions {now : Millis} {options : List Bytes}
    {request request' : SetRequest} (h : withOptions now options request = .ok request') :
    request'.key = request.key ∧ request'.value = request.value := by
  fun_induction withOptions now options request with
  | case1 request =>
    cases h
    exact ⟨rfl, rfl⟩
  | case2 | case7 => cases h
  | case3 name rest request hname ih => exact ih h
  | case4 name rest request hname ih => exact ih h
  | case5 name rest request hname ih => exact ih h
  | case6 name rest request hname ih => exact ih h
  | case8 name request form hname amount rest ih =>
    obtain ⟨n, -, h⟩ := exists_of_bind h
    exact ih n h

/-- What was read from a command can be written out. -/
def Action.Storable : Action → Prop
  | .set request => request.key.length < lengthBound ∧ request.value.length < lengthBound
  | .change key kind edit => key.length < lengthBound ∧ Value.Edits kind edit
  | _ => True

/-- The key and the value of a `SET` are arguments of it. -/
theorem SetRequest.of_parse {now : Millis} {args : List Bytes} {request : SetRequest}
    (h : SetRequest.parse now args = .ok request) : request.key ∈ args ∧ request.value ∈ args := by
  unfold SetRequest.parse at h
  split at h
  · rename_i key value options
    obtain ⟨hkey, hvalue⟩ := SetRequest.of_withOptions h
    rw [hkey, hvalue]
    exact ⟨List.mem_cons_self, List.mem_cons_of_mem key List.mem_cons_self⟩
  · cases h

/-- Arguments that fit in memory are read as what can be written out. -/
theorem Verb.Reads.storable {name : String} {now : Millis} {verb : Verb} {args : List Bytes}
    {action : Action} (h : verb.Reads name now args action)
    (hargs : ∀ arg ∈ args, arg.length < lengthBound) : action.Storable := by
  cases h with
  | select | del | expire | persist | flushDatabase | flushAll | swapDatabases => trivial
  | set hrequest =>
    obtain ⟨hkey, hvalue⟩ := SetRequest.of_parse hrequest
    exact ⟨hargs _ hkey, hargs _ hvalue⟩
  | pushBack key item items =>
    obtain ⟨hkey, hitems⟩ := List.forall_mem_cons.1 hargs
    exact ⟨hkey, Value.edits_append (List.cons_ne_nil item items) hitems⟩
  | pushFront key item items =>
    obtain ⟨hkey, hitems⟩ := List.forall_mem_cons.1 hargs
    exact ⟨hkey, Value.edits_prepend (List.cons_ne_nil item items) hitems⟩
  | setFields key hpairs =>
    obtain ⟨hkey, hrest⟩ := List.forall_mem_cons.1 hargs
    obtain ⟨hne, hmem⟩ := of_fieldArguments hpairs
    exact ⟨hkey, Value.edits_setFields hne fun p hp =>
      ⟨hrest p.1 (hmem p hp).1, hrest p.2 (hmem p hp).2⟩⟩
  | addMembers key member members =>
    obtain ⟨hkey, hmembers⟩ := List.forall_mem_cons.1 hargs
    exact ⟨hkey, Value.edits_addMembers (List.cons_ne_nil member members) hmembers⟩
  | setScores key hitems =>
    obtain ⟨hkey, hrest⟩ := List.forall_mem_cons.1 hargs
    obtain ⟨hne, hmem⟩ := of_scoredArguments hitems
    exact ⟨hkey, Value.edits_setScores hne fun item hitem =>
      ⟨hrest item.1 (hmem item hitem).1, (hmem item hitem).2⟩⟩

/-- **A command that fits in memory writes what can be written out.** -/
theorem storable_action {command : Command} (h : Wire.Fits command) {now : Millis}
    {action : Action} (haction : command.action now = .ok action) : action.Storable := by
  obtain ⟨name, args, verb, rfl, -, hreads⟩ := reads_of_action haction
  exact hreads.storable fun arg harg => h.args arg (List.mem_cons_of_mem name harg)

end Command

/-! ## §3. Contents. -/

/-- A datum of byte strings that fit in memory and scores that are numbers. -/
structure Datum.Sound (key : Bytes) (d : Datum) : Prop where
  key : key.length < lengthBound
  value : d.value.Sound

/-- A datum that can be written out under a key. -/
structure Datum.Storable (key : Bytes) (d : Datum) : Prop extends d.Sound key where
  nonempty : d.value.isEmptyCollection = false

open Command in
/-- A property of data under their keys that no command spoils. -/
structure Datum.Lasting (P : Bytes → Datum → Prop) : Prop where
  /-- A string is written. -/
  set : ∀ {key value : Bytes} {expiresAt : Option Millis}, key.length < lengthBound →
    value.length < lengthBound → P key ⟨.string value, expiresAt⟩
  /-- A collection is begun. -/
  create : ∀ {key : Bytes} {kind : Kind} {edit : Value → Value}, key.length < lengthBound →
    Value.Edits kind edit → P key ⟨edit (Value.emptyOf kind), none⟩
  /-- A value is changed. -/
  edit : ∀ {key : Bytes} {kind : Kind} {edit : Value → Value} {d d' : Datum},
    key.length < lengthBound → Value.Edits kind edit → P key d →
    keptDatum ⟨edit d.value, d.expiresAt⟩ = some d' → P key d'
  /-- A deadline is set or lifted. -/
  expire : ∀ {key : Bytes} {expiresAt : Option Millis} {d d' : Datum}, P key d →
    keptDatum ⟨d.value, expiresAt⟩ = some d' → P key d'

open Command in
theorem Command.of_keptDatum {d d' : Datum} (h : keptDatum d = some d') :
    d' = d ∧ d.value.isEmptyCollection = false := by
  unfold keptDatum at h
  split at h
  · cases h
  · rename_i hnonempty
    cases h
    exact ⟨rfl, Bool.eq_false_iff.2 hnonempty⟩

namespace Datum

theorem lasting_sound : Lasting Sound where
  set := fun hkey hvalue => ⟨hkey, hvalue⟩
  create := fun hkey hedits => ⟨hkey, hedits.sound _ (Value.sound_emptyOf _)⟩
  edit := by
    intro key kind edit d d' hkey hedits hd hkept
    obtain ⟨rfl, -⟩ := Command.of_keptDatum hkept
    exact ⟨hkey, hedits.sound _ hd.value⟩
  expire := by
    intro key expiresAt d d' hd hkept
    obtain ⟨rfl, -⟩ := Command.of_keptDatum hkept
    exact ⟨hd.key, hd.value⟩

theorem lasting_storable : Lasting Storable where
  set := fun hkey hvalue => ⟨lasting_sound.set hkey hvalue, rfl⟩
  create := fun hkey hedits =>
    ⟨lasting_sound.create hkey hedits, hedits.nonempty _ (Value.kind_emptyOf _)⟩
  edit := by
    intro key kind edit d d' hkey hedits hd hkept
    refine ⟨lasting_sound.edit hkey hedits hd.toSound hkept, ?_⟩
    obtain ⟨rfl, hnonempty⟩ := Command.of_keptDatum hkept
    exact hnonempty
  expire := by
    intro key expiresAt d d' hd hkept
    refine ⟨lasting_sound.expire hd.toSound hkept, ?_⟩
    obtain ⟨rfl, hnonempty⟩ := Command.of_keptDatum hkept
    exact hnonempty

end Datum

namespace Contents

variable {P : Bytes → Datum → Prop}

/-- Every datum has a property under its key. -/
def Each (P : Bytes → Datum → Prop) (c : Contents) : Prop := ∀ i key d, c i key = some d → P key d

/-- Every datum can be written out. -/
abbrev Storable (c : Contents) : Prop := c.Each Datum.Storable

theorem each_none : none.Each P := fun _ _ _ h => nomatch h

theorem Each.assign {c : Contents} (h : c.Each P) {i : Nat} {key : Bytes} {d : Option Datum}
    (hd : ∀ d', d = some d' → P key d') : (c.assign i key d).Each P := by
  intro j k d' hfound
  unfold Contents.assign at hfound
  split at hfound
  · rename_i hsame
    rw [hsame.2]
    exact hd d' hfound
  · exact h j k d' hfound

theorem Each.clear {c : Contents} (h : c.Each P) (i : Nat) : (c.clear i).Each P := by
  intro j k d hfound
  unfold Contents.clear at hfound
  split at hfound
  · cases hfound
  · exact h j k d hfound

theorem Each.swap {c : Contents} (h : c.Each P) (a b : Nat) : (c.swap a b).Each P := by
  intro j k d hfound
  unfold Contents.swap at hfound
  split at hfound
  · exact h a k d hfound
  · split at hfound
    · exact h b k d hfound
    · exact h j k d hfound

theorem Each.without {c : Contents} (h : c.Each P) (i : Nat) (keys : List Bytes) :
    (c.without i keys).Each P := by
  intro j k d hfound
  rw [without_apply] at hfound
  split at hfound
  · cases hfound
  · exact h j k d hfound

open Command in
theorem Each.action {c : Contents} (h : c.Each P) (hlasting : Datum.Lasting P) {action : Action}
    (haction : action.Storable) (count i : Nat) (now : Millis) :
    ((action.effect count (c i)).on i now c).Each P := by
  -- what is assigned is live, or nothing is
  have hassign : ∀ {key : Bytes} {d : Option Datum}, (∀ d', d = some d' → P key d') →
      ((Effect.assign key d).on i now c).Each P := by
    intro key d hd
    exact h.assign fun d' hlive => hd d' (Option.filter_eq_some_iff.1 hlive).1
  cases action with
  | select index =>
    dsimp only [Action.effect]
    split <;> exact h
  | set request =>
    dsimp only [Action.effect]
    split
    · refine hassign fun d hd => ?_
      cases hd
      exact hlasting.set haction.1 haction.2
    · exact h
  | remove keys => exact h.without i keys
  | change key kind edit =>
    dsimp only [Action.effect]
    split
    · rename_i d hfound
      split
      · exact hassign fun d' hd => hlasting.edit haction.1 haction.2 (h i key d hfound) hd
      · exact h
    · -- a new key, so nothing is known of the datum but what the edit makes of an empty value
      refine hassign fun d hd => ?_
      cases hd
      exact hlasting.create haction.1 haction.2
  | expire key expiresAt =>
    dsimp only [Action.effect]
    split
    · rename_i d hfound
      exact hassign fun d' hd => hlasting.expire (h i key d hfound) hd
    · exact h
  | clear => exact h.clear i
  | clearAll => exact each_none
  | swap a b =>
    dsimp only [Action.effect]
    split
    · exact h.swap a b
    · exact h

/-- **Commands that fit in memory keep what is true of every datum.** -/
theorem Each.meaning {c : Contents} (h : c.Each P) (hlasting : Datum.Lasting P)
    {command : Command} (hfits : Wire.Fits command) (now : Millis) (count i : Nat) :
    ((command.meaning now count (c i)).on i now c).Each P := by
  unfold Command.meaning
  cases haction : command.action now with
  | ok action => exact h.action hlasting (Command.storable_action hfits haction) count i now
  | error error => exact h

end Contents

end DurableStore
