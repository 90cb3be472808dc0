/-
  DurableStore.Proofs.Command.Meaning
  ────────────────────────────────
  **WHAT COMMANDS MEAN.**

  A command is carried out in two steps.  First it is read, which depends
  on its bytes and, for deadlines counted from now, on the clock:

      Command.Action   — a command that has been read

  Then it does something to the contents of a keyspace, which depends on
  what is under the keys that it looks at:

      Effect           — what becomes of the contents and the selection

  A session carries out exactly this (`apply_spec`).  So two sessions that
  agree on what a command looks at do the same, whatever else is in them.

  Under a memory ceiling a command that writes an entry takes keys away
  first, and then has its effect on what is left:

      s.victims command   — the keys that session `s` evicts for a command

  That is the general statement (`apply_evicting`); without a ceiling there
  are no victims.
-/
import DurableStore.Command.Session
import DurableStore.Proofs.Keyspace.Eviction

namespace DurableStore

/-! ## §1. Commands that have been read. -/

namespace Command

/-- What a command asks for. -/
inductive Action where
  | select (index : Nat)
  | set (request : SetRequest)
  | remove (keys : List Bytes)
  /-- Changes the collection of a kind under a key. -/
  | change (key : Bytes) (kind : Kind) (edit : Value → Value)
  | expire (key : Bytes) (expiresAt : Option Millis)
  | clear
  | clearAll
  | swap (a b : Nat)

/-- Reads the arguments of a verb. -/
def Verb.action (name : String) (now : Millis) : Verb → List Bytes → Except CommandError Action
  | .select, [index] => do
    let index ← parseNat index
    return .select index
  | .set, args => do
    let request ← SetRequest.parse now args
    return .set request
  | .del, key :: keys => .ok (.remove (key :: keys))
  | .pushBack, key :: item :: items => .ok (.change key .list (Value.append (item :: items)))
  | .pushFront, key :: item :: items => .ok (.change key .list (Value.prepend (item :: items)))
  | .setFields, key :: args => do
    let pairs ← fieldArguments name args
    return .change key .hash (Value.setFields pairs)
  | .addMembers, key :: member :: members =>
    .ok (.change key .set (Value.addMembers (member :: members)))
  | .setScores, key :: args => do
    let items ← scoredArguments name args
    return .change key .sortedSet (Value.setScores items)
  | .expire form, [key, amount] => do
    let amount ← parseNat amount
    return .expire key (some (form.resolve now amount))
  | .persist, [key] => .ok (.expire key none)
  | .flushDatabase, _ => .ok .clear
  | .flushAll, _ => .ok .clearAll
  | .swapDatabases, [a, b] => do
    let a ← parseNat a
    let b ← parseNat b
    return .swap a b
  | _, _ => .error (.wrongArity name)

/-- Reads a command of the vocabulary. -/
def action (now : Millis) : Command → Except CommandError Action
  | [] => .error .empty
  | name :: args =>
    match Verb.ofName? name with
    | some verb => verb.action (nameText name) now args
    | none => .error (.unknown (nameText name))

/-- What each verb makes of the arguments that it accepts. -/
inductive Verb.Reads (name : String) (now : Millis) : Verb → List Bytes → Action → Prop
  | select {text : Bytes} {index : Nat} (h : parseNat text = .ok index) :
      Reads name now .select [text] (.select index)
  | set {args : List Bytes} {request : SetRequest} (h : SetRequest.parse now args = .ok request) :
      Reads name now .set args (.set request)
  | del (key : Bytes) (keys : List Bytes) :
      Reads name now .del (key :: keys) (.remove (key :: keys))
  | pushBack (key item : Bytes) (items : List Bytes) :
      Reads name now .pushBack (key :: item :: items)
        (.change key .list (Value.append (item :: items)))
  | pushFront (key item : Bytes) (items : List Bytes) :
      Reads name now .pushFront (key :: item :: items)
        (.change key .list (Value.prepend (item :: items)))
  | setFields (key : Bytes) {args : List Bytes} {pairs : List (Bytes × Bytes)}
      (h : fieldArguments name args = .ok pairs) :
      Reads name now .setFields (key :: args) (.change key .hash (Value.setFields pairs))
  | addMembers (key member : Bytes) (members : List Bytes) :
      Reads name now .addMembers (key :: member :: members)
        (.change key .set (Value.addMembers (member :: members)))
  | setScores (key : Bytes) {args : List Bytes} {items : List (Bytes × Score)}
      (h : scoredArguments name args = .ok items) :
      Reads name now .setScores (key :: args) (.change key .sortedSet (Value.setScores items))
  | expire (form : DeadlineForm) (key : Bytes) {text : Bytes} {amount : Nat}
      (h : parseNat text = .ok amount) :
      Reads name now (.expire form) [key, text] (.expire key (some (form.resolve now amount)))
  | persist (key : Bytes) : Reads name now .persist [key] (.expire key none)
  | flushDatabase (args : List Bytes) : Reads name now .flushDatabase args .clear
  | flushAll (args : List Bytes) : Reads name now .flushAll args .clearAll
  | swapDatabases {first second : Bytes} {a b : Nat} (hfirst : parseNat first = .ok a)
      (hsecond : parseNat second = .ok b) :
      Reads name now .swapDatabases [first, second] (.swap a b)

/-- What goes on with an argument has read it. -/
theorem of_bind {α β : Type} {x : Except CommandError α} {f : α → Except CommandError β} {b : β}
    (h : x >>= f = .ok b) : ∃ a, x = .ok a ∧ f a = .ok b := by
  cases x with
  | error error => cases h
  | ok a => exact ⟨a, rfl, h⟩

/-- **How an action was read.** -/
theorem Verb.reads_of_action {verb : Verb} {name : String} {now : Millis} {args : List Bytes}
    {action : Action} (h : verb.action name now args = .ok action) :
    verb.Reads name now args action := by
  unfold Verb.action at h
  split at h
  case h_1 text =>
    obtain ⟨index, hindex, heq⟩ := of_bind h
    cases heq
    exact .select hindex
  case h_2 =>
    obtain ⟨request, hrequest, heq⟩ := of_bind h
    cases heq
    exact .set hrequest
  case h_6 key args =>
    obtain ⟨pairs, hpairs, heq⟩ := of_bind h
    cases heq
    exact .setFields key hpairs
  case h_8 key args =>
    obtain ⟨items, hitems, heq⟩ := of_bind h
    cases heq
    exact .setScores key hitems
  case h_9 form key text =>
    obtain ⟨amount, hamount, heq⟩ := of_bind h
    cases heq
    exact .expire form key hamount
  case h_13 first second =>
    obtain ⟨a, ha, hrest⟩ := of_bind h
    obtain ⟨b, hb, heq⟩ := of_bind hrest
    cases heq
    exact .swapDatabases ha hb
  case h_14 => cases h
  -- the others only look at how many arguments there are
  all_goals
    cases h
    constructor

/-- A command that is read has a name, which is that of a verb. -/
theorem reads_of_action {command : Command} {now : Millis} {action : Action}
    (h : command.action now = .ok action) :
    ∃ name args verb, command = name :: args ∧ Verb.ofName? name = some verb
      ∧ verb.Reads (nameText name) now args action := by
  cases command with
  | nil => cases h
  | cons name args =>
    unfold Command.action at h
    dsimp only at h
    cases hverb : Verb.ofName? name with
    | none =>
      rw [hverb] at h
      cases h
    | some verb =>
      rw [hverb] at h
      exact ⟨name, args, verb, rfl, hverb, Verb.reads_of_action h⟩

/-- Whether the name of a command is one of the vocabulary. -/
def InVocabulary : Command → Prop
  | [] => True
  | name :: _ => (Verb.ofName? name).isSome

instance (command : Command) : Decidable command.InVocabulary :=
  match command with
  | [] => .isTrue trivial
  | name :: _ => inferInstanceAs (Decidable ((Verb.ofName? name).isSome = true))

end Command

namespace Session

open Command

/-- Carries out what a command asks for. -/
def perform (s : Session) : Action → Step
  | .select index => s.select index
  | .set request => s.set request
  | .remove keys => removeAll keys s
  | .change key kind edit => s.upsert key kind edit
  | .expire key expiresAt => s.setExpiry key expiresAt
  | .clear => s.finish (s.keyspace.clear s.selected)
  | .clearAll => s.finish (.ok s.keyspace.clearAll)
  | .swap a b => s.finish (s.keyspace.swap a b)

theorem reading_bind {α β : Type} (s : Session) (argument : Except CommandError α)
    (use : α → Except CommandError β) (next : β → Step) :
    s.reading (argument >>= use) next
      = s.reading argument fun value => s.reading (use value) next := by
  cases argument <;> rfl

/-- **A verb is carried out by reading it first.** -/
theorem run_eq (s : Session) (name : String) (verb : Verb) (args : List Bytes) :
    s.run name verb args = s.reading (verb.action name s.keyspace.now args) s.perform := by
  unfold run Verb.action
  split <;> (try simp only [reading_bind]) <;> rfl

/-- A command of the vocabulary is carried out by reading it first. -/
theorem apply_eq {s : Session} {command : Command} (h : s.fallback = none ∨ command.InVocabulary) :
    s.apply command = s.reading (command.action s.keyspace.now) s.perform := by
  cases command with
  | nil => rfl
  | cons name args =>
    unfold apply action
    dsimp only
    cases hverb : Verb.ofName? name with
    | some verb => exact run_eq s (nameText name) verb args
    | none =>
      have hfallback : s.fallback = none := by
        rcases h with hnone | hknown
        · exact hnone
        · unfold InVocabulary at hknown
          dsimp only at hknown
          rw [hverb] at hknown
          exact absurd hknown (by decide)
      dsimp only
      unfold defer
      rw [hfallback]
      rfl

end Session

/-! ## §2. Effects. -/

/-- What a command does to the contents of a keyspace and to the selection. -/
inductive Effect where
  | refused
  | nothing
  | select (index : Nat)
  /-- Another datum, or none, under a key of the selected database. -/
  | assign (key : Bytes) (d : Option Datum)
  | remove (keys : List Bytes)
  | clear
  | clearAll
  | swap (a b : Nat)

namespace Effect

/-- The contents at a time after an effect in a database. -/
def on (i : Nat) (t : Millis) (c : Contents) : Effect → Contents
  | .refused => c
  | .nothing => c
  | .select _ => c
  | .assign key d => c.assign i key (d.filter (Datum.isLive t))
  | .remove keys => c.without i keys
  | .clear => c.clear i
  | .clearAll => Contents.none
  | .swap a b => c.swap a b

/-- The selection after an effect. -/
def selection (selected : Nat) : Effect → Nat
  | .select index => index
  | _ => selected

end Effect

namespace Command

/-- Whether a `SET` writes, given the datum that is there. -/
def SetRequest.appliesTo (request : SetRequest) (found : Option Datum) : Bool :=
  !(request.ifAbsent && found.isSome) && !(request.ifPresent && found.isNone)

/-- The datum that a `SET` writes, given the one that is there. -/
def SetRequest.datum (request : SetRequest) (found : Option Datum) : Datum :=
  ⟨.string request.value,
    match request.keepDeadline, found with
    | true, some d => d.expiresAt
    | _, _ => request.expiresAt⟩

/-- A datum under a key, or none if it is a collection without elements. -/
def keptDatum (d : Datum) : Option Datum :=
  if d.value.isEmptyCollection then none else some d

/-- What a command that was read does to a keyspace with so many databases;
`found` tells what is under the keys of the selected one. -/
def Action.effect (count : Nat) (found : Bytes → Option Datum) : Action → Effect
  | .select index => if index < count then .select index else .refused
  | .set request =>
    if request.appliesTo (found request.key) then
      .assign request.key (some (request.datum (found request.key)))
    else .nothing
  | .remove keys => .remove keys
  | .change key kind edit =>
    match found key with
    | some d =>
      if d.value.kind = kind then .assign key (keptDatum ⟨edit d.value, d.expiresAt⟩)
      else .refused
    | none => .assign key (some ⟨edit (Value.emptyOf kind), none⟩)
  | .expire key expiresAt =>
    match found key with
    | some d => .assign key (keptDatum ⟨d.value, expiresAt⟩)
    | none => .nothing
  | .clear => .clear
  | .clearAll => .clearAll
  | .swap a b => if a < count ∧ b < count then .swap a b else .refused

theorem SetRequest.appliesTo_some (request : SetRequest) (d : Datum) :
    request.appliesTo (some d) = !request.ifAbsent := by
  simp [appliesTo]

theorem SetRequest.appliesTo_none (request : SetRequest) :
    request.appliesTo none = !request.ifPresent := by
  simp [appliesTo]

/-- What a `SET` leaves where there was nothing: with `XX` it does not write. -/
theorem set_on_of_absent {request : SetRequest} {c : Contents} {i count : Nat} {t : Millis}
    {found : Bytes → Option Datum} (hc : c i request.key = none)
    (hfound : found request.key = none) :
    ((Action.set request).effect count found).on i t c
      = c.assign i request.key (if request.ifPresent then none
          else (some (⟨.string request.value, request.expiresAt⟩ : Datum)).filter (Datum.isLive t)) := by
  have hnothing := Contents.assign_self hc
  have hdatum : request.datum none = ⟨.string request.value, request.expiresAt⟩ := by
    unfold SetRequest.datum
    cases request.keepDeadline <;> rfl
  dsimp only [Action.effect]
  rw [hfound, hdatum, SetRequest.appliesTo_none]
  cases request.ifPresent with
  | true =>
    rw [if_neg (by decide), if_pos rfl, hnothing]
    rfl
  | false =>
    rw [if_pos (by decide), if_neg (by decide)]
    rfl

/-- **What a command does**, given the clock and what it finds. -/
def meaning (now : Millis) (count : Nat) (found : Bytes → Option Datum) (command : Command) :
    Effect :=
  match command.action now with
  | .ok action => action.effect count found
  | .error _ => .refused

/-- Only a `SELECT` of a database in range selects. -/
theorem of_effect_select {action : Action} {count index : Nat} {found : Bytes → Option Datum}
    (h : action.effect count found = .select index) : action = .select index ∧ index < count := by
  cases action with
  | select i =>
    dsimp only [Action.effect] at h
    split at h
    · rename_i hrange
      cases h
      exact ⟨rfl, hrange⟩
    · cases h
  | set request | expire key expiresAt | swap a b =>
    dsimp only [Action.effect] at h
    split at h <;> cases h
  | change key kind edit =>
    dsimp only [Action.effect] at h
    split at h
    · split at h <;> cases h
    · cases h
  | remove keys | clear | clearAll => cases h

theorem of_meaning_select {command : Command} {now : Millis} {count index : Nat}
    {found : Bytes → Option Datum} (h : command.meaning now count found = .select index) :
    command.action now = .ok (.select index) ∧ index < count := by
  unfold meaning at h
  cases haction : command.action now with
  | error error =>
    rw [haction] at h
    cases h
  | ok action =>
    rw [haction] at h
    obtain ⟨rfl, hrange⟩ := of_effect_select h
    exact ⟨rfl, hrange⟩

end Command

/-! ## §3. Victims. -/

namespace Session

open Command Keyspace

/-- The keyspace after a lookup in the selected database. -/
def visited (s : Session) (key : Bytes) : Keyspace :=
  match s.keyspace.visit s.selected key with
  | .ok (keyspace, _) => keyspace
  | .error _ => s.keyspace

/-- The keys that are evicted for a command that has been read: one that
writes an entry checks the memory once it has looked its key up. -/
def victimsFor (s : Session) : Action → List Bytes
  | .set request =>
    if request.appliesTo (s.keyspace.contents s.keyspace.now s.selected request.key) then
      (s.visited request.key).victims s.selected
    else []
  | .change key _ _ =>
    match s.keyspace.contents s.keyspace.now s.selected key with
    | some _ => []
    | none => (s.visited key).victims s.selected
  | _ => []

/-- The keys that are evicted for a command. -/
def victims (s : Session) (command : Command) : List Bytes :=
  match command.action s.keyspace.now with
  | .ok action => s.victimsFor action
  | .error _ => []

theorem victims_of_action {s : Session} {command : Command} {action : Action}
    (h : command.action s.keyspace.now = .ok action) : s.victims command = s.victimsFor action := by
  unfold victims
  rw [h]

/-- Only two kinds of commands evict: a `SET` that writes, and a change that
makes a new collection. -/
theorem of_victimsFor {s : Session} {action : Action} (h : s.victimsFor action ≠ []) :
    (∃ request, action = .set request
        ∧ request.appliesTo (s.keyspace.contents s.keyspace.now s.selected request.key) = true)
      ∨ ∃ key kind edit, action = .change key kind edit
        ∧ s.keyspace.contents s.keyspace.now s.selected key = none := by
  cases action with
  | set request =>
    refine .inl ⟨request, rfl, ?_⟩
    by_contra happlies
    exact h (if_neg happlies)
  | change key kind edit =>
    refine .inr ⟨key, kind, edit, rfl, ?_⟩
    unfold victimsFor at h
    dsimp only at h
    split at h
    · exact absurd rfl h
    · assumption
  | _ => exact absurd rfl h

theorem visited_mayEvict {s : Session} (hselected : s.selected < s.keyspace.count) (key : Bytes) :
    (s.visited key).mayEvict = s.keyspace.mayEvict := by
  obtain ⟨ks, found, hvisit, hkeeps, -⟩ := visit_spec hselected key
  unfold visited
  rw [hvisit]
  exact hkeeps.mayEvict_eq

/-- A command that is refused evicts nothing. -/
theorem victims_of_refused {s : Session} {command : Command}
    (h : command.meaning s.keyspace.now s.keyspace.count
      (s.keyspace.contents s.keyspace.now s.selected) = .refused) : s.victims command = [] := by
  unfold meaning at h
  unfold victims
  cases haction : command.action s.keyspace.now with
  | error error => rfl
  | ok action =>
    rw [haction] at h
    cases action with
    | set request =>
      dsimp only [Action.effect] at h
      split at h <;> cases h
    | change key kind edit =>
      dsimp only [Action.effect, victimsFor] at h ⊢
      split at h
      · rfl
      · cases h
    | _ => rfl

/-- Without a ceiling there are no victims. -/
theorem victims_eq_nil {s : Session} (hselected : s.selected < s.keyspace.count)
    (hevict : s.keyspace.mayEvict = false) (command : Command) : s.victims command = [] := by
  have hnone : ∀ key, (s.visited key).victims s.selected = [] := by
    intro key
    refine victims_of_not_mayEvict ?_ _
    rw [visited_mayEvict hselected, hevict]
  -- the lookup before a write does not set a ceiling
  unfold victims
  split
  · rename_i action _
    cases action with
    | set request => exact (ite_congr rfl (fun _ => hnone _) (fun _ => rfl)).trans (ite_self _)
    | change key kind edit =>
      dsimp only [victimsFor]
      split
      · rfl
      · exact hnone key
    | _ => rfl
  · rfl

/-! ## §4. Sessions carry out what commands mean. -/

/-- A step of a session takes some keys out of the selected database, reports
them, and then has an effect. -/
structure Evicting (s : Session) (step : Step) (victims : List Bytes) (effect : Effect) : Prop where
  evicts : s.keyspace.Evicts step.1.keyspace (s.keyspace.told s.selected victims)
  verdict : step.2 = .ok () ↔ effect ≠ .refused
  selected : step.1.selected = effect.selection s.selected
  fallback : step.1.fallback = s.fallback
  contents : ∀ t, s.keyspace.now ≤ t → step.1.keyspace.contents t
    = effect.on s.selected t ((s.keyspace.contents t).without s.selected victims)

/-- A step of a session has an effect and evicts nothing. -/
structure Performs (s : Session) (step : Step) (effect : Effect) : Prop where
  keeps : s.keyspace.Keeps step.1.keyspace
  verdict : step.2 = .ok () ↔ effect ≠ .refused
  selected : step.1.selected = effect.selection s.selected
  fallback : step.1.fallback = s.fallback
  contents : ∀ t, s.keyspace.now ≤ t →
    step.1.keyspace.contents t = effect.on s.selected t (s.keyspace.contents t)

theorem Performs.evicting {s : Session} {step : Step} {effect : Effect}
    (h : s.Performs step effect) : s.Evicting step [] effect :=
  ⟨h.keeps.evicts _, h.verdict, h.selected, h.fallback, h.contents⟩

theorem Evicting.performs {s : Session} {step : Step} {effect : Effect}
    (h : s.Evicting step [] effect) : s.Performs step effect :=
  ⟨h.evicts.keeps, h.verdict, h.selected, h.fallback, h.contents⟩

theorem performs_refuse (s : Session) (error : CommandError) :
    s.Performs (s.refuse error) .refused :=
  ⟨Keeps.refl _, ⟨(fun h => nomatch h), fun h => absurd rfl h⟩, rfl, rfl, fun _ _ => rfl⟩

/-- A step that ends well, with what it does to the keyspace. -/
theorem performs_done {s : Session} {ks : Keyspace} {effect : Effect}
    (hkeeps : s.keyspace.Keeps ks) (heffect : effect ≠ .refused)
    (hselect : effect.selection s.selected = s.selected)
    (hcontents : ∀ t, s.keyspace.now ≤ t →
      ks.contents t = effect.on s.selected t (s.keyspace.contents t)) :
    s.Performs (done { s with keyspace := ks }) effect :=
  ⟨hkeeps, ⟨fun _ => heffect, fun _ => rfl⟩, hselect.symm, rfl, hcontents⟩

theorem performs_select (s : Session) (index : Nat) :
    s.Performs (s.select index) (if index < s.keyspace.count then .select index else .refused) := by
  unfold select
  split
  · exact ⟨Keeps.refl _, ⟨(fun _ h => nomatch h), fun _ => rfl⟩, rfl, rfl, fun _ _ => rfl⟩
  · exact performs_refuse s _

/-- A lookup and then a write of an entry. -/
theorem evicting_put {s : Session} (hselected : s.selected < s.keyspace.count) {ks : Keyspace}
    {key : Bytes} {found : Option Entry} (hvisit : s.keyspace.visit s.selected key = .ok (ks, found))
    (hkeeps : s.keyspace.Keeps ks)
    (hcontents : ∀ t, s.keyspace.now ≤ t → ks.contents t = s.keyspace.contents t) (entry : Entry) :
    s.Evicting (finish { s with keyspace := ks } (ks.put s.selected key entry))
      ((s.visited key).victims s.selected) (.assign key (some entry.datum)) := by
  have hvisited : s.visited key = ks := by
    unfold visited
    rw [hvisit]
  have hselected' : s.selected < ks.count := by rw [hkeeps.count]; exact hselected
  obtain ⟨ks', hput, hevicts, hleft⟩ := put_spec hselected' key entry
  rw [told_congr hkeeps.listening] at hevicts
  unfold finish
  rw [hput, hvisited]
  refine ⟨hkeeps.thenEvicts hevicts, ⟨(fun _ h => nomatch h), fun _ => rfl⟩, rfl, rfl, ?_⟩
  intro t ht
  show ks'.contents t = _
  rw [hleft, hcontents t ht]
  rfl

theorem evicting_set {s : Session} (hselected : s.selected < s.keyspace.count)
    (request : SetRequest) :
    s.Evicting (s.set request) (s.victimsFor (.set request))
      ((Action.set request).effect s.keyspace.count
        (s.keyspace.contents s.keyspace.now s.selected)) := by
  obtain ⟨ks, found, hvisit, hkeeps, hfound, hcontents⟩ := visit_spec hselected request.key
  -- the entry that was looked up says of the key what the contents say
  have happlies : request.applies found
      = request.appliesTo (s.keyspace.contents s.keyspace.now s.selected request.key) := by
    rw [← hfound]
    cases found <;> rfl
  have hdatum : (request.entry found).datum
      = request.datum (s.keyspace.contents s.keyspace.now s.selected request.key) := by
    rw [← hfound]
    unfold SetRequest.entry SetRequest.datum
    cases request.keepDeadline <;> cases found <;> rfl
  have hget : s.keyspace.get s.selected request.key = .ok (ks, found) := hvisit
  unfold set andThen Action.effect victimsFor
  rw [hget]
  dsimp only
  rw [happlies]
  split
  · -- only now is the memory looked at
    rw [← hdatum]
    exact evicting_put hselected hvisit hkeeps hcontents (request.entry found)
  · refine Performs.evicting ?_
    exact performs_done hkeeps (fun h => nomatch h) rfl hcontents

theorem performs_removeAll {keys : List Bytes} {s : Session}
    (hselected : s.selected < s.keyspace.count) :
    s.Performs (removeAll keys s) (.remove keys) := by
  -- the session goes on from the keyspace without the first key
  induction keys generalizing s with
  | nil =>
    exact performs_done (Keeps.refl _) (fun h => nomatch h) rfl fun _ _ => rfl
  | cons key keys ih =>
    obtain ⟨ks, found, hremove, hkeeps, -, hcontents⟩ := remove_spec hselected key
    have hselected' : s.selected < ks.count := by rw [hkeeps.count]; exact hselected
    have hrest := @ih { s with keyspace := ks } hselected'
    unfold removeAll andThen
    rw [hremove]
    refine ⟨hkeeps.trans hrest.keeps, ?_, hrest.selected, hrest.fallback, ?_⟩
    · exact ⟨(fun _ h => nomatch h), fun _ => hrest.verdict.2 (fun h => nomatch h)⟩
    · intro t ht
      have hnow : ks.now ≤ t := by rw [hkeeps.now]; exact ht
      have hstep := hrest.contents t hnow
      dsimp only at hstep ⊢
      rw [hstep, hcontents]
      rfl

theorem evicting_upsert {s : Session} (hselected : s.selected < s.keyspace.count) (key : Bytes)
    (kind : Kind) (edit : Value → Value) :
    s.Evicting (s.upsert key kind edit) (s.victimsFor (.change key kind edit))
      ((Action.change key kind edit).effect s.keyspace.count
        (s.keyspace.contents s.keyspace.now s.selected)) := by
  obtain ⟨ks, found, hvisit, hkeeps, hfound, hcontents⟩ := visit_spec hselected key
  have hselected' : s.selected < ks.count := by rw [hkeeps.count]; exact hselected
  have hget : s.keyspace.get s.selected key = .ok (ks, found) := hvisit
  unfold upsert andThen Action.effect victimsFor
  rw [hget]
  dsimp only
  cases found with
  | none =>
    -- a new key, which is put and may take room
    rw [Option.map_none] at hfound
    rw [← hfound]
    exact evicting_put hselected hvisit hkeeps hcontents
      (Entry.fresh (edit (Value.emptyOf kind)) none)
  | some entry =>
    rw [Option.map_some] at hfound
    rw [← hfound]
    have hkind : entry.datum.value.kind = entry.value.kind := rfl
    dsimp only
    unfold Entry.expectKind
    by_cases hsame : entry.value.kind = kind
    · -- a change in place makes no room for anything
      rw [if_pos hsame, hkind, if_pos hsame]
      obtain ⟨ks', hupdate, hkeeps', hcontents'⟩ :=
        update_spec hselected' key fun entry => ({ entry with value := edit entry.value }, ())
      dsimp only
      rw [hupdate]
      have hthere : ks.contents ks.now s.selected key = some entry.datum := by
        rw [hkeeps.now, hcontents _ (UInt64.le_refl _), hfound]
      refine Performs.evicting ?_
      refine performs_done (hkeeps.trans hkeeps') (fun h => nomatch h) rfl ?_
      intro t ht
      have hnow : ks.now ≤ t := by rw [hkeeps.now]; exact ht
      rw [hcontents' t hnow, hthere, hcontents t ht]
      show (s.keyspace.contents t).assign s.selected key
          (if (edit entry.value).isEmptyCollection then none
            else (some (⟨edit entry.value, entry.expiresAt⟩ : Datum)).filter (Datum.isLive t))
        = (s.keyspace.contents t).assign s.selected key
          ((if (edit entry.value).isEmptyCollection then none
            else some (⟨edit entry.value, entry.expiresAt⟩ : Datum)).filter (Datum.isLive t))
      split <;> rfl
    · -- another kind: the lookup is all that has happened
      rw [if_neg hsame, hkind, if_neg hsame]
      refine Performs.evicting
        ⟨hkeeps, ⟨(fun h => nomatch h), fun h => absurd rfl h⟩, rfl, rfl, hcontents⟩

theorem performs_setExpiry {s : Session} (hselected : s.selected < s.keyspace.count) (key : Bytes)
    (expiresAt : Option Millis) :
    s.Performs (s.setExpiry key expiresAt)
      ((Action.expire key expiresAt).effect s.keyspace.count
        (s.keyspace.contents s.keyspace.now s.selected)) := by
  obtain ⟨ks, hexpiry, hkeeps, hcontents⟩ := setExpiry_spec hselected key expiresAt
  unfold setExpiry andThen Action.effect
  rw [hexpiry]
  dsimp only
  cases hthere : s.keyspace.contents s.keyspace.now s.selected key with
  | none =>
    refine performs_done hkeeps (fun h => nomatch h) rfl ?_
    intro t ht
    rw [hcontents t ht, hthere]
    rfl
  | some d =>
    refine performs_done hkeeps (fun h => nomatch h) rfl ?_
    intro t ht
    rw [hcontents t ht, hthere]
    dsimp only [Effect.on, keptDatum]
    split <;> rfl

theorem performs_clear {s : Session} (hselected : s.selected < s.keyspace.count) :
    s.Performs (s.finish (s.keyspace.clear s.selected)) .clear := by
  obtain ⟨ks, hclear, hkeeps, hcontents⟩ := clear_spec hselected
  unfold finish
  rw [hclear]
  exact performs_done hkeeps (fun h => nomatch h) rfl fun t _ => hcontents t

theorem performs_clearAll (s : Session) :
    s.Performs (s.finish (.ok s.keyspace.clearAll)) .clearAll := by
  obtain ⟨hkeeps, hcontents⟩ := clearAll_spec s.keyspace
  exact performs_done hkeeps (fun h => nomatch h) rfl fun t _ => hcontents t

theorem performs_swap (s : Session) (a b : Nat) :
    s.Performs (s.finish (s.keyspace.swap a b))
      (if a < s.keyspace.count ∧ b < s.keyspace.count then .swap a b else .refused) := by
  unfold finish
  by_cases hrange : a < s.keyspace.count ∧ b < s.keyspace.count
  · obtain ⟨ks, hswap, hkeeps, hcontents⟩ := swap_spec hrange.1 hrange.2
    rw [if_pos hrange, hswap]
    exact performs_done hkeeps (fun h => nomatch h) rfl fun t _ => hcontents t
  · obtain ⟨error, hswap⟩ := swap_of_le hrange
    rw [if_neg hrange, hswap]
    exact performs_refuse s _

theorem evicting_action {s : Session} (hselected : s.selected < s.keyspace.count)
    (action : Action) :
    s.Evicting (s.perform action) (s.victimsFor action)
      (action.effect s.keyspace.count (s.keyspace.contents s.keyspace.now s.selected)) := by
  cases action with
  | select index => exact (performs_select s index).evicting
  | set request => exact evicting_set hselected request
  | remove keys => exact (performs_removeAll hselected).evicting
  | change key kind edit => exact evicting_upsert hselected key kind edit
  | expire key expiresAt => exact (performs_setExpiry hselected key expiresAt).evicting
  | clear => exact (performs_clear hselected).evicting
  | clearAll => exact (performs_clearAll s).evicting
  | swap a b => exact (performs_swap s a b).evicting

/-- **A session carries out what a command means, on what an eviction leaves.** -/
theorem apply_evicting {s : Session} (command : Command)
    (h : s.fallback = none ∨ command.InVocabulary) (hselected : s.selected < s.keyspace.count) :
    s.Evicting (s.apply command) (s.victims command)
      (command.meaning s.keyspace.now s.keyspace.count
        (s.keyspace.contents s.keyspace.now s.selected)) := by
  rw [apply_eq h]
  unfold reading meaning victims
  cases command.action s.keyspace.now with
  | ok action => exact evicting_action hselected action
  | error error => exact (performs_refuse s error).evicting

/-- **A session carries out what a command means**, where nothing is evicted. -/
theorem apply_spec {s : Session} (command : Command)
    (h : s.fallback = none ∨ command.InVocabulary) (hselected : s.selected < s.keyspace.count)
    (hevict : s.keyspace.mayEvict = false) :
    s.Performs (s.apply command)
      (command.meaning s.keyspace.now s.keyspace.count
        (s.keyspace.contents s.keyspace.now s.selected)) := by
  have hspec := apply_evicting command h hselected
  rw [victims_eq_nil hselected hevict] at hspec
  exact hspec.performs

/-- The selection stays in range. -/
theorem Evicting.selected_lt {s : Session} {step : Step} {victims : List Bytes}
    {command : Command} {now : Millis} {found : Bytes → Option Datum}
    (h : s.Evicting step victims (command.meaning now s.keyspace.count found))
    (hselected : s.selected < s.keyspace.count) :
    step.1.selected < step.1.keyspace.count := by
  rw [h.selected, h.evicts.count]
  cases heffect : command.meaning now s.keyspace.count found with
  | select index => exact (of_meaning_select heffect).2
  | _ => exact hselected

theorem Performs.selected_lt {s : Session} {step : Step} {command : Command} {now : Millis}
    {found : Bytes → Option Datum}
    (h : s.Performs step (command.meaning now s.keyspace.count found))
    (hselected : s.selected < s.keyspace.count) : step.1.selected < step.1.keyspace.count :=
  h.evicting.selected_lt hselected

end Session

end DurableStore
