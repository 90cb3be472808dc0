/-
  DurableStore.Proofs.Replication.Registry
  ────────────────────────────────
  **WHAT BECOMES OF EACH FOLLOWER.**

  Followers are registered and removed, they disconnect, messages are sent
  to all of them and offsets are acknowledged, in any order.  What has become
  of one of them can be read off the steps since its own registration, with
  no look at the others:

      since id steps          — the steps after the registration of `id`
      registeredAfter id      — it was not removed, and no message was sent
                                after the end of its channel was dropped
      connectedAfter id       — the end of its channel was not dropped
      sentAfter id            — the messages, up to its removal
      acknowledgedAfter id    — the greatest offset that it acknowledged

  The registry holds just that of every follower there ever was, in the order
  of their numbers (`Records`).  A disconnection is found out late, at the
  next message; until then the follower counts as registered.

  Main results:
    * `records_after` — one step keeps the registry in line with the steps;
    * `registry_exact` — numbers, messages and counts, after any steps.
-/
import DurableStore.Replication.Followers
import Mathlib.Data.List.Basic
import Mathlib.Data.List.Induction
import Mathlib.Data.List.TakeWhile

namespace DurableStore.Registry

open Followers (isRegistered isConnected)

/-! ## §1. Steps. -/

/-- One thing that happens to the registry. -/
inductive Step where
  | register
  | remove (id : FollowerId)
  | disconnect (id : FollowerId)
  | forward (message : Bytes)
  | acknowledge (id : FollowerId) (offset : Nat)
  deriving DecidableEq, Repr

/-- The message that a step sends. -/
def Step.message? : Step → Option Bytes
  | .forward message => some message
  | _ => none

/-- The offset that a step acknowledges for a follower. -/
def Step.offset? (id : FollowerId) : Step → Option Nat
  | .acknowledge other offset => if other = id then some offset else none
  | _ => none

/-- The registry after a step. -/
def after (f : Followers) : Step → Followers
  | .register => f.register.2
  | .remove id => (f.remove id).2
  | .disconnect id => (f.disconnect id).2
  | .forward message => (f.forward message).2
  | .acknowledge id offset => (f.acknowledge id offset).2

/-- The registry after some steps from the beginning. -/
def run (steps : List Step) : Followers := steps.foldl after Followers.none

theorem run_append (steps : List Step) (step : Step) :
    run (steps ++ [step]) = after (run steps) step := List.foldl_append

/-! ## §2. What the steps say. -/

/-- How many followers were registered. -/
def issued (steps : List Step) : Nat := steps.count .register

/-- The steps after the registration of a follower, the first of which has number 0. -/
def since : FollowerId → List Step → Option (List Step)
  | _, [] => none
  | 0, .register :: rest => some rest
  | id + 1, .register :: rest => since id rest
  | id, _ :: rest => since id rest

section

variable (id : FollowerId) (later : List Step)

/-- Whether a follower is registered still: it was not removed, and no message was sent after
the end of its channel was dropped. -/
def registeredAfter : Bool :=
  decide (Step.remove id ∉ later)
    && (later.dropWhile (· ≠ .disconnect id)).all fun step => step.message?.isNone

/-- Whether the end of a follower's channel is held still. -/
def connectedAfter : Bool := decide (.disconnect id ∉ later)

/-- The messages that were sent to a follower before its removal. -/
def sentAfter : List Bytes := (later.takeWhile (· ≠ .remove id)).filterMap Step.message?

/-- The greatest offset that a follower has acknowledged. -/
def acknowledgedAfter : Nat := (later.filterMap (Step.offset? id)).foldl max 0

end

section

variable (steps : List Step) (id : FollowerId)

/-- Whether a follower is registered, as the steps say. -/
def registered : Bool := (since id steps).any (registeredAfter id)

/-- Whether a follower is connected, as the steps say. -/
def connected : Bool := (since id steps).any (connectedAfter id)

/-- What the receiving end of a follower's channel holds, as the steps say. -/
def held? : Option (List Bytes) :=
  ((since id steps).filter (connectedAfter id)).map (sentAfter id)

/-- The entry of a follower in the registry, as the steps say. -/
def follower? : Option Follower :=
  ((since id steps).filter (registeredAfter id)).map fun later => ⟨id, acknowledgedAfter id later⟩

/-- The channel of a follower, as the steps say. -/
def channel? : Option Channel := (held? steps id).map fun waiting => ⟨id, waiting⟩

end

/-- The registry holds what the steps say of every follower there ever was. -/
structure Records (steps : List Step) (f : Followers) : Prop where
  nextId : f.nextId = issued steps
  registered : f.registered = (List.range (issued steps)).filterMap (follower? steps)
  channels : f.channels = (List.range (issued steps)).filterMap (channel? steps)

/-- A registered follower after a step that registers nobody. -/
def Step.keep (connected : FollowerId → Bool) (step : Step) (follower : Follower) :
    Option Follower :=
  if step ≠ .remove follower.id ∧ (connected follower.id || step.message?.isNone) then
    some { follower with
      acknowledged := max follower.acknowledged ((step.offset? follower.id).getD 0) }
  else none

/-- A channel after a step that registers nobody. -/
def Step.feed (registered : FollowerId → Bool) (step : Step) (channel : Channel) :
    Option Channel :=
  if step ≠ .disconnect channel.id then
    some { channel with
      waiting := channel.waiting
        ++ if registered channel.id then step.message?.toList else [] }
  else none

variable {id : FollowerId} {later steps : List Step} {step : Step} {f : Followers}

/-! ## §3. One more step, for one follower. -/

theorem takeWhile_ne_append {α : Type} [DecidableEq α] (x : α) (l l' : List α) :
    (l ++ l').takeWhile (· ≠ x)
      = l.takeWhile (· ≠ x) ++ if x ∈ l then [] else l'.takeWhile (· ≠ x) := by
  induction l with
  | nil => simp
  | cons y l ih =>
    by_cases h : y = x
    · simp [h]
    · simpa [h, Ne.symm h] using ih

theorem dropWhile_ne_append {α : Type} [DecidableEq α] (x : α) (l l' : List α) :
    (l ++ l').dropWhile (· ≠ x)
      = l.dropWhile (· ≠ x) ++ if x ∈ l then l' else l'.dropWhile (· ≠ x) := by
  induction l with
  | nil => simp
  | cons y l ih =>
    by_cases h : y = x
    · simp [h]
    · simpa [h, Ne.symm h] using ih

/-- One more step removes a follower, or finds out its disconnection, or leaves it registered. -/
theorem registeredAfter_append :
    registeredAfter id (later ++ [step])
      = (registeredAfter id later && decide (step ≠ .remove id)
        && (connectedAfter id later || step.message?.isNone)) := by
  have hremove : decide (Step.remove id ∉ later ++ [step])
      = (decide (Step.remove id ∉ later) && decide (step ≠ .remove id)) := by
    simp [eq_comm]
  unfold registeredAfter connectedAfter
  rw [dropWhile_ne_append, List.all_append, hremove]
  by_cases hgone : Step.disconnect id ∈ later
  · simp [hgone, Bool.and_assoc, Bool.and_comm, Bool.and_left_comm]
  · -- the step is the disconnection itself, which sends nothing, or is left out
    by_cases hdrop : step = .disconnect id
    · simp [hgone, hdrop, Step.message?]
    · simp [hgone, hdrop, Bool.and_right_comm]

/-- While the end of its channel is held, a follower is registered until it is removed. -/
theorem registeredAfter_of_connectedAfter (h : connectedAfter id later = true) :
    registeredAfter id later = decide (Step.remove id ∉ later) := by
  have hall : later.dropWhile (· ≠ .disconnect id) = [] := by
    refine List.dropWhile_eq_nil_iff.2 ?_
    intro step hmem
    exact decide_eq_true fun hstep => of_decide_eq_true h (hstep ▸ hmem)
  unfold registeredAfter
  rw [hall, List.all_nil, Bool.and_true]

theorem connectedAfter_append :
    connectedAfter id (later ++ [step])
      = (connectedAfter id later && decide (step ≠ .disconnect id)) := by
  simp [connectedAfter, eq_comm]

theorem sentAfter_append :
    sentAfter id (later ++ [step])
      = sentAfter id later ++ if .remove id ∈ later then [] else step.message?.toList := by
  unfold sentAfter
  rw [takeWhile_ne_append, List.filterMap_append]
  congr 1
  split
  · rfl
  · cases step <;> simp [Step.message?, List.takeWhile_cons]

theorem acknowledgedAfter_append :
    acknowledgedAfter id (later ++ [step])
      = max (acknowledgedAfter id later) ((step.offset? id).getD 0) := by
  cases h : step.offset? id <;> simp [acknowledgedAfter, List.filterMap_append, h]

theorem since_cons_of_ne (id : FollowerId) (rest : List Step) (h : step ≠ .register) :
    since id (step :: rest) = since id rest := by
  cases step with
  | register => exact absurd rfl h
  | _ => cases id <;> rfl

theorem issued_cons_of_ne (rest : List Step) (h : step ≠ .register) :
    issued (step :: rest) = issued rest := List.count_cons_of_ne h

theorem issued_register_cons (rest : List Step) :
    issued (.register :: rest) = issued rest + 1 := List.count_cons_self

theorem issued_append (steps more : List Step) :
    issued (steps ++ more) = issued steps + issued more := List.count_append

/-- A follower is registered by the step that gives its number. -/
theorem since_issued (steps more : List Step) :
    since (issued steps) (steps ++ .register :: more) = some more := by
  induction steps with
  | nil => rfl
  | cons step rest ih =>
    by_cases h : step = .register
    · rw [h, issued_register_cons]
      exact ih
    · rw [issued_cons_of_ne rest h, List.cons_append, since_cons_of_ne _ _ h, ih]

/-- No follower has a number that was not given. -/
theorem since_eq_none (h : issued steps ≤ id) : since id steps = none := by
  induction steps generalizing id with
  | nil => cases id <;> rfl
  | cons step rest ih =>
    by_cases hregister : step = .register
    · rw [hregister, issued_register_cons] at h
      subst hregister
      cases id with
      | zero => exact absurd h (Nat.not_succ_le_zero _)
      | succ id => exact ih (Nat.le_of_succ_le_succ h)
    · rw [since_cons_of_ne _ _ hregister]
      exact ih (issued_cons_of_ne rest hregister ▸ h)

/-- What comes later comes after the registration of every follower there was. -/
theorem since_append (h : id < issued steps) (more : List Step) :
    since id (steps ++ more) = (since id steps).map (· ++ more) := by
  induction steps generalizing id with
  | nil => exact absurd h (Nat.not_lt_zero _)
  | cons step rest ih =>
    by_cases hregister : step = .register
    · subst hregister
      cases id with
      | zero => rfl
      | succ id =>
        rw [issued_register_cons] at h
        exact ih (Nat.lt_of_succ_lt_succ h)
    · rw [List.cons_append, since_cons_of_ne _ _ hregister, since_cons_of_ne _ _ hregister]
      exact ih (issued_cons_of_ne rest hregister ▸ h)

theorem follower?_of_since (h : since id steps = some later) :
    follower? steps id
      = if registeredAfter id later then some ⟨id, acknowledgedAfter id later⟩ else none := by
  rw [follower?, h, Option.filter_some]
  split <;> rfl

theorem channel?_of_since (h : since id steps = some later) :
    channel? steps id
      = if connectedAfter id later then some ⟨id, sentAfter id later⟩ else none := by
  rw [channel?, held?, h, Option.filter_some]
  split <;> rfl

theorem follower?_append (h : id < issued steps) :
    follower? (steps ++ [step]) id
      = (follower? steps id).bind (step.keep (connected steps)) := by
  have hlater := since_append h [step]
  cases hsince : since id steps with
  | none => simp [follower?, hlater, hsince]
  | some later =>
    rw [hsince] at hlater
    rw [follower?_of_since hlater, follower?_of_since hsince, registeredAfter_append,
      acknowledgedAfter_append]
    cases registeredAfter id later with
    | false => rfl
    | true => simp [Step.keep, connected, hsince]

theorem channel?_append (h : id < issued steps) :
    channel? (steps ++ [step]) id
      = (channel? steps id).bind (step.feed (registered steps)) := by
  have hlater := since_append h [step]
  cases hsince : since id steps with
  | none => simp [channel?, held?, hlater, hsince]
  | some later =>
    rw [hsince] at hlater
    rw [channel?_of_since hlater, channel?_of_since hsince, connectedAfter_append,
      sentAfter_append]
    cases hconnected : connectedAfter id later with
    | false => rfl
    | true =>
      -- who is connected still is left out of a message only if it was removed
      have hregistered := registeredAfter_of_connectedAfter hconnected
      simp [Step.feed, registered, hsince, hregistered]

/-! ## §4. One more step, for the registry. -/

theorem id_of_follower? {follower : Follower} (h : follower? steps id = some follower) :
    follower.id = id := by
  obtain ⟨later, -, rfl⟩ := Option.map_eq_some_iff.1 h
  rfl

theorem id_of_channel? {channel : Channel} (h : channel? steps id = some channel) :
    channel.id = id := by
  obtain ⟨waiting, -, rfl⟩ := Option.map_eq_some_iff.1 h
  rfl

/-- What is listed in the order of its number is found under its number. -/
theorem find?_filterMap_range {α : Type} {number : α → Nat} {listed : Nat → Option α}
    (hnumber : ∀ i x, listed i = some x → number x = i) (n i : Nat) :
    ((List.range n).filterMap listed).find? (fun x => number x = i)
      = if i < n then listed i else none := by
  induction n with
  | zero => rfl
  | succ n ih =>
    have hlast : ((List.filterMap listed [n]).find? fun x => number x = i)
        = if n = i then listed i else none := by
      cases hlisted : listed n with
      | none =>
        by_cases hi : n = i
        · simp [← hi, hlisted]
        · simp [hi, hlisted]
      | some x =>
        have hx := hnumber n x hlisted
        by_cases hi : n = i
        · simp [← hi, hlisted, hx]
        · simp [hi, hlisted, hx]
    rw [List.range_succ, List.filterMap_append, List.find?_append, ih, hlast]
    rcases Nat.lt_trichotomy i n with hi | hi | hi
    · rw [if_pos hi, if_pos (Nat.lt_succ_of_lt hi), if_neg (Nat.ne_of_gt hi), Option.or_none]
    · rw [hi, if_neg (Nat.lt_irrefl n), if_pos rfl, if_pos (Nat.lt_succ_self n), Option.none_or]
    · rw [if_neg (Nat.lt_asymm hi), if_neg (Nat.ne_of_lt hi), if_neg (by omega)]
      rfl

theorem isRegistered_eq (h : Records steps f) (id : FollowerId) :
    f.isRegistered id = registered steps id := by
  unfold Followers.isRegistered
  rw [← List.isSome_find?, h.registered, find?_filterMap_range fun _ _ => id_of_follower?]
  by_cases hid : id < issued steps
  · simp [hid, registered, follower?]
  · simp [hid, registered, since_eq_none (Nat.not_lt.1 hid)]

theorem isConnected_eq (h : Records steps f) (id : FollowerId) :
    f.isConnected id = connected steps id := by
  unfold Followers.isConnected
  rw [← List.isSome_find?, h.channels, find?_filterMap_range fun _ _ => id_of_channel?]
  by_cases hid : id < issued steps
  · simp [hid, connected, channel?, held?]
  · simp [hid, connected, since_eq_none (Nat.not_lt.1 hid)]

/-- Among those whose end is held, a message reaches those that are registered. -/
theorem receive_eq_feed (f : Followers) (message : Bytes) :
    f.channels.map (Followers.Channel.receive
        ((f.registered.filter fun follower => f.isConnected follower.id).map Follower.id) message)
      = f.channels.filterMap ((Step.forward message).feed f.isRegistered) := by
  rw [← List.filterMap_eq_map]
  refine List.filterMap_congr ?_
  intro channel hchannel
  have hconnected : f.isConnected channel.id = true :=
    List.any_eq_true.2 ⟨channel, hchannel, decide_eq_true rfl⟩
  have hreached : channel.id
        ∈ (f.registered.filter fun follower => f.isConnected follower.id).map Follower.id
      ↔ f.isRegistered channel.id = true := by
    simp only [List.mem_map, List.mem_filter, isRegistered, List.any_eq_true, decide_eq_true_iff]
    constructor
    · rintro ⟨follower, ⟨hmem, -⟩, hid⟩
      exact ⟨follower, hmem, hid⟩
    · rintro ⟨follower, hmem, hid⟩
      exact ⟨follower, ⟨hmem, hid ▸ hconnected⟩, hid⟩
  by_cases hregistered : f.isRegistered channel.id = true
  · simp [Followers.Channel.receive, Step.feed, Step.message?, hreached, hregistered]
  · simp [Followers.Channel.receive, Step.feed, hreached, hregistered]

theorem keep_eq_some (connected : FollowerId → Bool) (hstays : ∀ id, step ≠ .remove id)
    (hsilent : step.message? = none) (hoffset : ∀ id, step.offset? id = none) :
    step.keep connected = some := by
  funext follower
  simp [Step.keep, hstays, hsilent, hoffset]

theorem feed_eq_some (registered : FollowerId → Bool) (hheld : ∀ id, step ≠ .disconnect id)
    (hsilent : step.message? = none) : step.feed registered = some := by
  funext channel
  simp [Step.feed, hheld, hsilent]

/-- The registry after a step that registers nobody, one follower after the other. -/
theorem after_eq (f : Followers) (h : step ≠ .register) :
    after f step = { f with
      registered := f.registered.filterMap (step.keep f.isConnected)
      channels := f.channels.filterMap (step.feed f.isRegistered) } := by
  -- each operation is written as a filter or a map; here all of them become `filterMap`s
  cases step with
  | register => exact absurd rfl h
  | remove id =>
    have hkeep : (Step.remove id).keep f.isConnected
        = Option.guard fun follower => follower.id ≠ id := by
      funext follower
      by_cases hid : follower.id = id
      · simp [Step.keep, Step.message?, Option.guard, hid]
      · simp [Step.keep, Step.message?, Step.offset?, Option.guard, hid, Ne.symm hid]
    have hfeed : (Step.remove id).feed f.isRegistered = some := feed_eq_some _ nofun rfl
    simp [after, Followers.remove, hkeep, hfeed]
  | disconnect id =>
    have hkeep : (Step.disconnect id).keep f.isConnected = some :=
      keep_eq_some _ nofun rfl fun _ => rfl
    have hfeed : (Step.disconnect id).feed f.isRegistered
        = Option.guard fun channel => channel.id ≠ id := by
      funext channel
      by_cases hid : channel.id = id
      · simp [Step.feed, Option.guard, hid]
      · simp [Step.feed, Step.message?, Option.guard, hid, Ne.symm hid]
    simp [after, Followers.disconnect, hkeep, hfeed]
  | forward message =>
    have hkeep : (Step.forward message).keep f.isConnected
        = Option.guard fun follower => f.isConnected follower.id := by
      funext follower
      simp [Step.keep, Step.message?, Step.offset?, Option.guard]
    simp [after, Followers.forward, hkeep, receive_eq_feed]
  | acknowledge id offset =>
    have hkeep : (Step.acknowledge id offset).keep f.isConnected
        = some ∘ fun follower => if follower.id = id then
            { follower with acknowledged := max follower.acknowledged offset } else follower := by
      funext follower
      by_cases hid : follower.id = id
      · simp [Step.keep, Step.message?, Step.offset?, hid]
      · simp [Step.keep, Step.message?, Step.offset?, hid, Ne.symm hid]
    have hfeed : (Step.acknowledge id offset).feed f.isRegistered = some :=
      feed_eq_some _ nofun rfl
    simp only [after, Followers.acknowledge, hkeep, hfeed, List.filterMap_eq_map,
      List.filterMap_some]

/-- A new follower was sent nothing and has acknowledged nothing. -/
theorem follower?_issued (steps : List Step) :
    follower? (steps ++ [.register]) (issued steps) = some ⟨issued steps, 0⟩ :=
  follower?_of_since (since_issued steps [])

theorem channel?_issued (steps : List Step) :
    channel? (steps ++ [.register]) (issued steps) = some ⟨issued steps, []⟩ :=
  channel?_of_since (since_issued steps [])

/-- **One step** keeps the registry in line with the steps. -/
theorem records_after (h : Records steps f) (step : Step) :
    Records (steps ++ [step]) (after f step) := by
  have hconnected : f.isConnected = connected steps := funext (isConnected_eq h)
  have hisRegistered : f.isRegistered = registered steps := funext (isRegistered_eq h)
  -- what is held of the followers so far, whether or not there is a new one
  have hregistered : f.registered.filterMap (step.keep f.isConnected)
      = (List.range (issued steps)).filterMap (follower? (steps ++ [step])) := by
    rw [h.registered, hconnected, List.filterMap_filterMap]
    exact List.filterMap_congr fun id hid => (follower?_append (List.mem_range.1 hid)).symm
  have hchannels : f.channels.filterMap (step.feed f.isRegistered)
      = (List.range (issued steps)).filterMap (channel? (steps ++ [step])) := by
    rw [h.channels, hisRegistered, List.filterMap_filterMap]
    exact List.filterMap_congr fun id hid => (channel?_append (List.mem_range.1 hid)).symm
  by_cases hstep : step = .register
  · subst hstep
    have hissued : issued (steps ++ [.register]) = issued steps + 1 := issued_append ..
    -- those that are there already stay as they are
    have hkeep : Step.register.keep f.isConnected = some :=
      keep_eq_some _ nofun rfl fun _ => rfl
    have hfeed : Step.register.feed f.isRegistered = some := feed_eq_some _ nofun rfl
    rw [hkeep, List.filterMap_some] at hregistered
    rw [hfeed, List.filterMap_some] at hchannels
    constructor
    · rw [hissued, ← h.nextId]
      rfl
    · rw [hissued, List.range_succ, List.filterMap_append, ← hregistered]
      simp [after, Followers.register, follower?_issued, h.nextId]
    · rw [hissued, List.range_succ, List.filterMap_append, ← hchannels]
      simp [after, Followers.register, channel?_issued, h.nextId]
  · have hissued : issued (steps ++ [step]) = issued steps := by
      rw [issued_append, issued_cons_of_ne _ hstep]
      rfl
    rw [after_eq f hstep, hregistered, hchannels]
    constructor
    · exact h.nextId.trans hissued.symm
    · rw [hissued]
    · rw [hissued]

theorem records_run (steps : List Step) : Records steps (run steps) := by
  induction steps using List.reverseRecOn with
  | nil => exact ⟨rfl, rfl, rfl⟩
  | append_singleton steps step ih => exact run_append steps step ▸ records_after ih step

/-! ## §5. Any steps. -/

theorem drain_eq (h : Records steps f) (id : FollowerId) : (f.drain id).1 = held? steps id := by
  unfold Followers.drain
  rw [h.channels, find?_filterMap_range fun _ _ => id_of_channel?]
  by_cases hid : id < issued steps
  · simp [hid, channel?, Function.comp_def]
  · simp [hid, held?, since_eq_none (Nat.not_lt.1 hid)]

/-- A message leaves registered who was registered and connected. -/
theorem isRegistered_forward (f : Followers) (message : Bytes) (id : FollowerId) :
    (f.forward message).2.isRegistered id = (f.isRegistered id && f.isConnected id) := by
  unfold Followers.forward isRegistered
  rw [List.any_filter, Bool.eq_iff_iff, Bool.and_eq_true, List.any_eq_true, List.any_eq_true]
  constructor
  · rintro ⟨follower, hmem, hfollower⟩
    obtain ⟨hconnected, hid⟩ := Bool.and_eq_true_iff.1 hfollower
    exact ⟨⟨follower, hmem, hid⟩, of_decide_eq_true hid ▸ hconnected⟩
  · rintro ⟨⟨follower, hmem, hid⟩, hconnected⟩
    have hsame : follower.id = id := of_decide_eq_true hid
    exact ⟨follower, hmem, Bool.and_eq_true_iff.2 ⟨hsame ▸ hconnected, hid⟩⟩

/-- Registered followers are counted by going through all numbers that were given. -/
theorem countP_registered (h : Records steps f) (p : Follower → Bool) :
    f.registered.countP p
      = (List.range (issued steps)).countP fun id => (since id steps).any fun later =>
          registeredAfter id later && p ⟨id, acknowledgedAfter id later⟩ := by
  rw [h.registered, List.countP_filterMap]
  congr 1
  funext id
  cases hsince : since id steps with
  | none => simp [follower?, hsince]
  | some later =>
    rw [follower?_of_since hsince]
    cases hregistered : registeredAfter id later with
    | false => simp [hregistered]
    | true => simp [hregistered]

/-- A message reaches as many followers as are registered and connected. -/
theorem forward_count (h : Records steps f) (message : Bytes) :
    (f.forward message).1
      = (List.range (issued steps)).countP fun id => registered steps id && connected steps id := by
  show (f.registered.filter fun follower => f.isConnected follower.id).length = _
  rw [← List.countP_eq_length_filter, countP_registered h]
  congr 1
  funext id
  simp only [isConnected_eq h]
  unfold registered
  cases since id steps with
  | none => rfl
  | some later => rfl

/-- **The registry delivers and counts exactly**, after any steps. -/
theorem registry_exact (steps : List Step) :
    -- a number is given once: those that are given later are greater
    (∀ more, since (run steps).register.1 (steps ++ .register :: more) = some more
      ∧ (run steps).register.1 < (run (steps ++ .register :: more)).register.1)
    ∧ (∀ id, ((run steps).drain id).1 = held? steps id
      ∧ (run steps).isRegistered id = registered steps id
      ∧ (run steps).isConnected id = connected steps id)
    ∧ (∀ message,
      ((run steps).forward message).1
          = (List.range (issued steps)).countP (fun id => registered steps id && connected steps id)
        ∧ ∀ id, ((run steps).forward message).2.isRegistered id
          = (registered steps id && connected steps id))
    ∧ (∀ id offset, ((run steps).acknowledge id offset).1 = registered steps id)
    ∧ ∀ offset, (run steps).acknowledgedCount offset
      = (List.range (issued steps)).countP fun id => (since id steps).any fun later =>
          registeredAfter id later && decide (offset ≤ acknowledgedAfter id later) := by
  have hrecords := records_run steps
  refine ⟨?_, ?_, ?_, ?_, fun offset => countP_registered hrecords _⟩
  · intro more
    have hlater := (records_run (steps ++ .register :: more)).nextId
    rw [issued_append, issued_register_cons] at hlater
    constructor
    · show since (run steps).nextId _ = _
      rw [hrecords.nextId, since_issued]
    · show (run steps).nextId < (run (steps ++ .register :: more)).nextId
      rw [hrecords.nextId, hlater]
      exact Nat.lt_add_of_pos_right (Nat.succ_pos _)
  · intro id
    exact ⟨drain_eq hrecords id, isRegistered_eq hrecords id, isConnected_eq hrecords id⟩
  · intro message
    refine ⟨forward_count hrecords message, fun id => ?_⟩
    rw [isRegistered_forward, isRegistered_eq hrecords, isConnected_eq hrecords]
  · intro id offset
    exact isRegistered_eq hrecords id

end DurableStore.Registry
