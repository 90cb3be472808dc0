/-
  DurableStore.Proofs.Command.Operation
  ────────────────────────────────
  **COMMANDS ARE MADE OF OPERATIONS.**

  Whatever command a session applies, the keyspace is changed by its own
  operations only, and so is it by all the commands of a log
  (`operates_applyAll`).  A fallback may do what it likes as long as it
  keeps to them as well.

  A step of a session is put together from a few forms (`done`, `refuse`,
  `andThen`, `finish`, `reading`), and there is one lemma for each of them.
-/
import DurableStore.Proofs.Command.Meaning
import DurableStore.Proofs.Keyspace.Operation

namespace DurableStore

open Keyspace

/-- A fallback that changes a keyspace by operations only, if there is one. -/
def OperatesOnly (fallback : Option Fallback) : Prop :=
  ∀ handle, fallback = some handle → ∀ (ks : Keyspace) (database : Nat) (command : Command),
    ks.Operates (handle ks database command).1

theorem operatesOnly_none : OperatesOnly none := fun _ h => nomatch h

namespace Session

/-- A step that changes the keyspace by operations only, and the fallback not at all. -/
structure Operating (s : Session) (step : Step) : Prop where
  keyspace : s.keyspace.Operates step.1.keyspace
  fallback : step.1.fallback = s.fallback

variable {s : Session} {step : Step}

/-! ## §1. The forms of a step. -/

theorem operating_done (s : Session) : s.Operating s.done := ⟨.refl, rfl⟩

theorem operating_refuse (s : Session) (error : CommandError) : s.Operating (s.refuse error) :=
  ⟨.refl, rfl⟩

/-- A step that is taken after some operations. -/
theorem Operating.behind {ks : Keyspace} (h : s.keyspace.Operates ks)
    (hstep : Operating { s with keyspace := ks } step) : s.Operating step :=
  ⟨h.trans hstep.keyspace, hstep.fallback⟩

theorem operating_andThen {α : Type} {outcome : Except KeyspaceError (Keyspace × α)}
    {next : Session → α → Step}
    (h : ∀ ks result, outcome = .ok (ks, result) → s.keyspace.Operates ks)
    (hnext : ∀ (s : Session) (result : α), s.Operating (next s result)) :
    s.Operating (s.andThen outcome next) := by
  unfold andThen
  cases outcome with
  | error error => exact operating_refuse s _
  | ok found =>
    obtain ⟨ks, result⟩ := found
    exact (hnext _ result).behind (h ks result rfl)

theorem operating_finish {outcome : Except KeyspaceError Keyspace}
    (h : ∀ ks, outcome = .ok ks → s.keyspace.Operates ks) : s.Operating (s.finish outcome) := by
  unfold finish
  cases outcome with
  | error error => exact operating_refuse s _
  | ok ks => exact (operating_done _).behind (h ks rfl)

theorem operating_reading {α : Type} {argument : Except CommandError α} {next : α → Step}
    (h : ∀ value, s.Operating (next value)) : s.Operating (s.reading argument next) := by
  unfold reading
  cases argument with
  | error error => exact operating_refuse s error
  | ok value => exact h value

/-! ## §2. Single commands. -/

theorem operates_get {ks ks' : Keyspace} {i : Nat} {key : Bytes} {found : Option Entry}
    (h : ks.get i key = .ok (ks', found)) : ks.Operates ks' := .single (.visit h)

theorem operates_setExpiry {ks ks' : Keyspace} {i : Nat} {key : Bytes} {expiresAt : Option Millis}
    {found : Bool} (h : ks.setExpiry i key expiresAt = .ok (ks', found)) : ks.Operates ks' := by
  obtain ⟨updated, hupdate, hdone⟩ := exists_of_bind h
  cases hdone
  exact .single (.update hupdate)

theorem operating_select (s : Session) (index : Nat) : s.Operating (s.select index) := by
  unfold select
  split
  · exact ⟨.refl, rfl⟩
  · exact operating_refuse s _

theorem operating_set (s : Session) (request : Command.SetRequest) :
    s.Operating (s.set request) := by
  refine operating_andThen (fun _ _ h => operates_get h) ?_
  intro s existing
  split
  · exact operating_finish fun _ h => .single (.put h)
  · exact operating_done s

/-- Keys are removed one after the other. -/
theorem operating_removeAll (keys : List Bytes) (s : Session) : s.Operating (removeAll keys s) := by
  induction keys generalizing s with
  | nil => exact operating_done s
  | cons key keys ih => exact operating_andThen (fun _ _ h => .single (.remove h)) fun s _ => ih s

theorem operating_upsert (s : Session) (key : Bytes) (kind : Kind) (change : Value → Value) :
    s.Operating (s.upsert key kind change) := by
  refine operating_andThen (fun _ _ h => operates_get h) ?_
  intro s found
  cases found with
  | none => exact operating_finish fun _ h => .single (.put h)
  | some entry =>
    dsimp only
    split
    · exact operating_refuse s _
    · exact operating_andThen (fun _ _ h => .single (.update h)) fun s _ => operating_done s

/-- **Whatever a command asks for**, by cases on that. -/
theorem operating_perform (s : Session) (action : Command.Action) :
    s.Operating (s.perform action) := by
  cases action with
  | select index => exact operating_select s index
  | set request => exact operating_set s request
  | remove keys => exact operating_removeAll keys s
  | change key kind edit => exact operating_upsert s key kind edit
  | expire key expiresAt =>
    exact operating_andThen (fun _ _ h => operates_setExpiry h) fun s _ => operating_done s
  | clear => exact operating_finish fun _ h => .single (.clear h)
  | clearAll =>
    show s.Operating (s.finish (.ok s.keyspace.clearAll))
    refine operating_finish ?_
    intro ks h
    cases h
    exact .single (.clearAll s.keyspace)
  | swap a b => exact operating_finish fun _ h => .single (.swap h)

/-! ## §3. Any commands. -/

theorem operating_defer (h : OperatesOnly s.fallback) (name : Bytes) (args : List Bytes) :
    s.Operating (s.defer name args) := by
  unfold defer
  split
  · rename_i handle hfallback
    exact ⟨h handle hfallback _ _ _, rfl⟩
  · exact operating_refuse s _

/-- **Every command is made of operations.** -/
theorem operating_apply (h : OperatesOnly s.fallback) (command : Command) :
    s.Operating (s.apply command) := by
  cases command with
  | nil => exact operating_refuse s .empty
  | cons name args =>
    unfold apply
    dsimp only
    cases Command.Verb.ofName? name with
    | none => exact operating_defer h name args
    | some verb =>
      dsimp only
      rw [run_eq]
      exact operating_reading fun action => operating_perform s action

/-- **So are all the commands of a log**, by induction on them. -/
theorem operates_applyAll (h : OperatesOnly s.fallback) (commands : List Command) :
    s.keyspace.Operates (s.applyAll commands).1.keyspace := by
  induction commands generalizing s with
  | nil => exact .refl
  | cons command commands ih =>
    have hstep := operating_apply h command
    rw [← hstep.fallback] at h
    exact hstep.keyspace.trans (ih h)

end Session

/-- What one command does to a database is made of operations. -/
theorem Command.operates_effect (command : Command) (database : Nat) (ks : Keyspace) :
    ks.Operates (command.effect database ks).1 := by
  have hselect : (Session.start ks none).Operating
      ((Session.start ks none).apply (selecting database)) :=
    Session.operating_apply operatesOnly_none _
  unfold effect
  split
  · rename_i s hdone
    rw [hdone] at hselect
    have hcommand : s.Operating (s.apply command) := by
      refine Session.operating_apply ?_ command
      rw [hselect.fallback]
      exact operatesOnly_none
    exact hselect.keyspace.trans hcommand.keyspace
  · rename_i s error hrefused
    rw [hrefused] at hselect
    exact hselect.keyspace

end DurableStore
