/-
  DurableStore.Proofs.Storage.Replacement
  ────────────────────────────────
  **A FILE THAT IS REPLACED AS A WHOLE.**

  New content is prepared beside a file and then takes its name.  That may
  fail, since a directory may stand in either place.  What the path leads
  to is then what it led to before:

      d.Guards path file   — the path leads to a file with some bytes, or,
                             if there is none, to nothing or a directory
      d.Obstructs path d'  — a directory is made at the path or beside it,
                             or one is removed there

  A file that is guarded would be found even if nothing stood beside it.
  So no directory on the way to it is ever one of those that come and go.
  A path that leads nowhere leads nowhere still when some directory is gone
  (`find_of_thins`), and the directory that is made beside it does not stand
  on its way (`Path.temporary_cases`).

  Main results:
    * `Guards.obstructs`, `Guards.replace_error` — what obstructs a
      replacement, and one that fails, leave the file alone.
    * `guards_replace` — one that succeeds leaves the new content.
-/
import DurableStore.Proofs.Storage.LogFile

namespace DurableStore

/-! ## §1. The way to a path and to the place beside it. -/

namespace Path

/-- A part that leads nowhere else. -/
def Stays (part : Bytes) : Prop := part = [] ∨ part = dot

/-- What is trimmed from the end of a path, which is read from there, are parts that
stay where they are. -/
theorem parts_trimEnd (bs : List UInt8) (h : trimEnd bs ≠ []) :
    ∃ stays, (∀ part ∈ stays, Stays part) ∧
      parts bs.reverse = parts (trimEnd bs).reverse ++ stays := by
  induction bs using trimEnd.induct with
  | case1 rest ih =>
    rw [trimEnd] at h ⊢
    obtain ⟨stays, hstays, hparts⟩ := ih h
    refine ⟨stays ++ [[]], List.forall_mem_append.2
      ⟨hstays, List.forall_mem_singleton.2 (.inl rfl)⟩, ?_⟩
    rw [List.reverse_cons, ← List.append_assoc, ← hparts]
    exact parts_append_slash rest.reverse []
  | case2 => exact absurd rfl h
  | case3 rest ih =>
    rw [trimEnd] at h ⊢
    obtain ⟨stays, hstays, hparts⟩ := ih h
    refine ⟨stays ++ [dot], List.forall_mem_append.2
      ⟨hstays, List.forall_mem_singleton.2 (.inr rfl)⟩, ?_⟩
    rw [List.reverse_cons, List.reverse_cons, List.append_assoc, ← List.append_assoc _ stays,
      ← hparts]
    exact parts_append_slash rest.reverse dot
  | case4 bs hslash hdot hdotSlash =>
    rw [trimEnd] at h ⊢
    · exact ⟨[], List.forall_mem_nil _, (List.append_nil _).symm⟩
    all_goals assumption

theorem trimEnd_ne_slash (bs rest : List UInt8) : trimEnd bs ≠ slash :: rest := by
  induction bs using trimEnd.induct with
  | case1 bs ih => exact ih
  | case2 => exact List.cons_ne_nil _ _ ∘ Eq.symm
  | case3 bs ih => exact ih
  | case4 bs hslash hdot hdotSlash =>
    rw [trimEnd]
    · exact fun heq => hslash rest heq
    all_goals assumption

/-- A path that is trimmed to one that names an entry has the name as its last part
but for those that stay. -/
theorem parts_of_namesEntry {path : Path} (h : namesEntry (trimEnd path.reverse) = true) :
    ∃ front last stays, last ≠ [] ∧ (∀ part ∈ stays, Stays part)
      ∧ path.parts = front ++ last :: stays
      ∧ path.temporary.parts = front ++ [last ++ temporaryEnding] := by
  have hne : trimEnd path.reverse ≠ [] := by
    intro hnil
    rw [hnil] at h
    cases h
  obtain ⟨stays, hstays, hparts⟩ := parts_trimEnd path.reverse hne
  obtain ⟨lead, last, htrimmed, hslash, hlead⟩ := exists_last (trimEnd path.reverse).reverse
  obtain ⟨front, hlast⟩ := parts_of_last hslash hlead
  -- were the name empty, the trimmed path would end in a slash
  have hname : last ≠ [] := by
    rintro rfl
    rw [List.append_nil, List.reverse_eq_iff] at htrimmed
    rcases hlead with rfl | ⟨p, rfl⟩
    · exact hne htrimmed
    · rw [List.reverse_append] at htrimmed
      exact trimEnd_ne_slash _ _ htrimmed
  refine ⟨front, last, stays, hname, hstays, ?_, ?_⟩
  · have hwhole := hlast [] List.not_mem_nil
    rw [List.append_nil] at hwhole
    rw [List.reverse_reverse] at hparts
    rw [hparts, htrimmed, hwhole, List.append_assoc, List.singleton_append]
  · unfold temporary
    dsimp only
    rw [if_pos h, htrimmed, List.append_assoc]
    exact hlast temporaryEnding (by decide +kernel)

/-- A path that names no entry is on the way to what is prepared. -/
theorem parts_of_not_namesEntry {path : Path} (hpath : path ≠ [])
    (h : namesEntry (trimEnd path.reverse) = false) :
    ∃ front, path.partsFromEnd <:+ front.reverse
      ∧ path.temporary.parts = front ++ [temporaryEnding] := by
  have hending : parts temporaryEnding = [temporaryEnding] :=
    parts_of_not_mem (by decide +kernel)
  have htemporary : path.temporary = path.entry temporaryEnding := by
    unfold temporary
    dsimp only
    rw [h, if_neg (by decide)]
  rw [htemporary]
  unfold entry
  by_cases hslash : path.endsInSlash = true
  · -- the ending follows the last slash
    obtain ⟨q, rfl⟩ := List.getLast?_eq_some_iff.1 (of_decide_eq_true hslash)
    refine ⟨parts q, ?_, ?_⟩
    · unfold partsFromEnd
      rw [parts_append_slash q [], List.reverse_append]
      show (parts q).reverse.dropWhile List.isEmpty <:+ (parts q).reverse
      exact List.dropWhile_suffix _
    · rw [if_pos (.inr hslash), List.append_assoc, List.singleton_append, parts_append_slash, hending]
  · refine ⟨path.parts, List.dropWhile_suffix _, ?_⟩
    rw [if_neg (not_or.2 ⟨hpath, hslash⟩), parts_append_slash, hending]

/-- **The way to a path, and the way to the place beside it.**  The former is part of
the latter, or it goes on from there through another name. -/
theorem temporary_cases {path : Path} {name : Bytes} {before : List Bytes}
    (h : path.partsFromEnd = name :: before) :
    ∃ name' before', path.temporary.partsFromEnd = name' :: before'
      ∧ (before <:+ before'
        ∨ ∃ last stays, name' ≠ last ∧ before = stays ++ last :: before'
          ∧ ∀ part ∈ stays, Stays part) := by
  cases hentry : namesEntry (trimEnd path.reverse) with
  | false =>
    -- a path that names no entry is gone on from; one that does has its last name replaced
    have hpath : path ≠ [] := by
      rintro rfl
      cases h
    obtain ⟨front, hsuffix, hparts⟩ := parts_of_not_namesEntry hpath hentry
    refine ⟨temporaryEnding, front.reverse, ?_, .inl ?_⟩
    · unfold partsFromEnd
      rw [hparts, List.reverse_append, List.reverse_singleton, List.singleton_append,
        List.dropWhile_cons_of_neg (by decide +kernel)]
    · rw [h] at hsuffix
      exact (List.suffix_cons name before).trans hsuffix
  | true =>
    obtain ⟨front, last, stays, hlast, hstays, hparts, htemporary⟩ := parts_of_namesEntry hentry
    have hlonger : last ++ temporaryEnding ≠ last :=
      fun heq => absurd (List.append_right_eq_self.1 heq) (by decide +kernel)
    refine ⟨last ++ temporaryEnding, front.reverse, ?_, ?_⟩
    · unfold partsFromEnd
      rw [htemporary, List.reverse_append, List.reverse_singleton, List.singleton_append,
        List.dropWhile_cons_of_neg (by simp [hlast])]
    · -- what is left of the path ends in the name, or in a part that stays
      unfold partsFromEnd at h
      rw [hparts, List.reverse_append, List.reverse_cons, List.append_assoc, List.singleton_append,
        List.dropWhile_append] at h
      split at h
      · rw [List.dropWhile_cons_of_neg (by simp [hlast])] at h
        exact .inl ((List.cons.inj h).2 ▸ List.suffix_refl _)
      · rename_i hleft
        obtain ⟨part, more, hmore⟩ := List.exists_cons_of_ne_nil (mt List.isEmpty_iff.2 hleft)
        have hsuffix : part :: more <:+ stays.reverse := hmore ▸ List.dropWhile_suffix _
        rw [hmore, List.cons_append] at h
        refine .inr ⟨last, more, hlonger, (List.cons.inj h).2.symm, ?_⟩
        intro p hp
        exact hstays p (List.mem_reverse.1 (hsuffix.subset (List.mem_cons_of_mem part hp)))

end Path

/-! ## §2. What is found when directories come and go. -/

namespace Disk

variable {d d' : Disk} {path : Path} {l : Location}

/-- What stands on the one disk stands on the other, or nothing stands there. -/
def Thins (d d' : Disk) : Prop := ∀ l, d'.node? l = d.node? l ∨ d'.node? l = none

theorem thins_erase (d : Disk) (l : Location) : Thins d (d.erase l) := by
  intro k
  by_cases hk : k = []
  · rw [hk, node?_root, node?_root]
    exact .inl rfl
  · rw [node?_erase d l k hk]
    split
    · exact .inr rfl
    · exact .inl rfl

theorem step_of_thins (h : Thins d d') (here : Location) (part : Bytes) :
    d'.step here part = d.step here part ∨ d'.step here part = .error .absent := by
  unfold step
  split
  · exact .inl rfl
  split
  · exact .inl rfl
  split
  · exact .inl rfl
  rcases h (part :: here) with hsame | hnone
  · rw [hsame]
    exact .inl rfl
  · rw [hnone]
    exact .inr rfl

theorem foldlM_step_of_thins (h : Thins d d') (parts : List Bytes) (here : Location) :
    parts.foldlM d'.step here = parts.foldlM d.step here
      ∨ parts.foldlM d'.step here = .error .absent := by
  induction parts generalizing here with
  | nil => exact .inl rfl
  | cons part parts ih =>
    rw [List.foldlM_cons, List.foldlM_cons]
    rcases step_of_thins h here part with hsame | habsent
    · rw [hsame]
      cases d.step here part with
      | error error => exact .inl rfl
      | ok next => exact ih next
    · rw [habsent]
      exact .inr rfl

theorem locate_of_thins (h : Thins d d') (path : Path) :
    d'.locate path = d.locate path ∨ d'.locate path = .error .absent := by
  unfold locate
  split
  · exact .inl rfl
  split
  · exact .inl rfl
  split
  · exact .inl rfl
  split
  · exact .inl rfl
  · rename_i name before _
    rcases foldlM_step_of_thins h before.reverse [] with hsame | habsent
    · unfold walk
      rw [hsame]
      exact .inl rfl
    · unfold walk
      rw [habsent]
      exact .inr rfl

/-- **Where something is gone a path leads to what it led to, or to nothing.** -/
theorem find_of_thins (h : Thins d d') (path : Path) :
    d'.find path = d.find path ∨ d'.find path = .error .absent := by
  unfold find
  rcases locate_of_thins h path with hsame | habsent
  · rw [hsame]
    cases d.locate path with
    | error error => exact .inl rfl
    | ok spot =>
      cases spot with
      | unnamed => exact .inl rfl
      | entry l slashed =>
        dsimp only [bind, Except.bind]
        unfold present
        rcases h l with hnode | hnone
        · rw [hnode]
          exact .inl rfl
        · rw [hnone]
          exact .inr rfl
  · rw [habsent]
    exact .inr rfl

/-! ### A directory beside a path that leads nowhere. -/

/-- A path is walked to its last name, unless it is refused as it is written. -/
theorem locate_of_parts {name : Bytes} {before : List Bytes}
    (hparts : path.partsFromEnd = name :: before) :
    (∃ error, error ≠ DiskError.absent ∧ ∀ d : Disk, d.locate path = .error error)
      ∨ ∀ d : Disk, d.locate path
          = d.walk before.reverse >>= fun here => spot here name path.endsInSlash := by
  unfold locate
  split
  · exact .inl ⟨.zeroByte, by decide, fun d => rfl⟩
  split
  · rename_i hnil
    rw [hnil] at hparts
    cases hparts
  split
  · exact .inl ⟨.tooLong, by decide, fun d => rfl⟩
  rw [hparts]
  exact .inr fun d => rfl

/-- What the walk to an entry ends in. -/
theorem walk_of_locate {name : Bytes} {before : List Bytes} {slashed : Bool}
    (hparts : path.partsFromEnd = name :: before) (h : d.locate path = .ok (.entry l slashed)) :
    ∃ here, d.walk before.reverse = .ok here ∧ l = name :: here := by
  rcases locate_of_parts hparts with ⟨error, -, hlocate⟩ | hlocate
  · rw [hlocate] at h
    cases h
  rw [hlocate] at h
  obtain ⟨here, hwalk, h⟩ := exists_of_bind h
  unfold spot at h
  split at h
  · cases h
  split at h
  · cases h
  cases h
  exact ⟨here, hwalk, rfl⟩

/-- A path leads nowhere exactly if a directory on its way is absent. -/
theorem walk_of_absent {name : Bytes} {before : List Bytes}
    (hparts : path.partsFromEnd = name :: before) (h : d.locate path = .error .absent) :
    d.walk before.reverse = .error .absent
      ∧ ∀ d' : Disk, d'.walk before.reverse = .error .absent →
        d'.locate path = .error .absent := by
  rcases locate_of_parts hparts with ⟨error, hne, hlocate⟩ | hlocate
  · exact absurd (Except.error.inj ((hlocate d).symm.trans h)) hne
  refine ⟨?_, ?_⟩
  · rw [hlocate] at h
    cases hwalk : d.walk before.reverse with
    | error error =>
      rw [hwalk] at h
      cases h
      rfl
    | ok here =>
      rw [hwalk] at h
      dsimp only [bind, Except.bind] at h
      unfold spot at h
      split at h
      · cases h
      split at h
      · cases h
      cases h
  · intro d' hwalk
    rw [hlocate, hwalk]
    rfl

theorem foldlM_step_of_stays {parts : List Bytes} (h : ∀ part ∈ parts, Path.Stays part)
    (here : Location) : parts.foldlM d.step here = .ok here := by
  induction parts with
  | nil => rfl
  | cons part parts ih =>
    obtain ⟨hpart, hparts⟩ := List.forall_mem_cons.1 h
    have hstep : d.step here part = .ok here := if_pos hpart
    rw [List.foldlM_cons, hstep]
    exact ih hparts

theorem step_congr {here : Location} {part : Bytes}
    (h : d'.node? (part :: here) = d.node? (part :: here)) :
    d'.step here part = d.step here part := by
  unfold step
  rw [h]

theorem keepsDirectories_place (habsent : d.node? l = none) :
    KeepsDirectories d (d.place l .directory) := by
  intro k hk
  have hne : k ≠ l := by
    rintro rfl
    rw [habsent] at hk
    cases hk
  rw [node?_place_ne hne]
  exact hk

/-- **A directory that is made beside a path does not open the way to it.** -/
theorem locate_place_beside {slashed : Bool} (hnode : d.node? l = none)
    (hbeside : d.locate path.temporary = .ok (.entry l slashed))
    (h : d.locate path = .error .absent) :
    (d.place l .directory).locate path = .error .absent := by
  cases hparts : path.partsFromEnd with
  | nil =>
    -- nothing on the disk decides about such a path
    unfold locate at h ⊢
    rw [hparts] at h ⊢
    exact h
  | cons name before =>
    obtain ⟨hwalk, hgoal⟩ := walk_of_absent hparts h
    refine hgoal _ ?_
    obtain ⟨name', before', hparts', hway⟩ := Path.temporary_cases hparts
    obtain ⟨here, hwalk', rfl⟩ := walk_of_locate hparts' hbeside
    unfold walk at hwalk hwalk' ⊢
    rcases hway with ⟨more, rfl⟩ | ⟨last, stays, hne, rfl, hstays⟩
    · -- the way beside the path leads over the way to it
      rw [List.reverse_append, List.foldlM_append, hwalk] at hwalk'
      cases hwalk'
    · have hafter : before'.reverse.foldlM (d.place (name' :: here) .directory).step []
          = .ok here := foldlM_step_of_keeps (keepsDirectories_place hnode) hwalk'
      have hstep : (d.place (name' :: here) .directory).step here last = d.step here last :=
        step_congr (node?_place_ne fun heq => hne (List.cons.inj heq).1.symm)
      rw [List.reverse_append, List.reverse_cons, List.append_assoc, List.singleton_append,
        List.foldlM_append] at hwalk ⊢
      rw [hwalk'] at hwalk
      rw [hafter]
      dsimp only [bind, Except.bind] at hwalk ⊢
      rw [List.foldlM_cons] at hwalk ⊢
      rw [hstep]
      cases hlast : d.step here last with
      | error error =>
        rw [hlast] at hwalk
        exact hwalk
      | ok next =>
        have hthere : stays.reverse.foldlM d.step next = .ok next :=
          foldlM_step_of_stays (fun part hpart => hstays part (List.mem_reverse.1 hpart)) next
        rw [hlast] at hwalk
        cases hthere.symm.trans hwalk

end Disk

/-! ## §3. What a path leads to. -/

/-- The place beside a place, where its new content is prepared. -/
def Location.beside : Location → Location
  | [] => []
  | name :: here => (name ++ Path.temporaryEnding) :: here

theorem Location.beside_ne {l : Location} (h : l ≠ []) : l.beside ≠ l := by
  cases l with
  | nil => exact absurd rfl h
  | cons name here =>
    intro heq
    have hname : name ++ Path.temporaryEnding = name := (List.cons.inj heq).1
    exact absurd (List.append_right_eq_self.1 hname) (by decide +kernel)

namespace Disk

variable {d d' : Disk} {path : Path} {l : Location}

/-- **The path of the temporary file leads to the place beside the file.** -/
theorem eq_beside {k : Location} {slashed : Bool} (h : d.place? path = .ok l)
    (hbeside : d.locate path.temporary = .ok (.entry k slashed)) : k = l.beside := by
  obtain ⟨name, before, here, hnames, hwalk, rfl⟩ := names_of_place? h
  obtain ⟨here', hwalk', rfl⟩ := walk_of_locate hnames.temporary hbeside
  rw [hwalk] at hwalk'
  cases hwalk'
  rfl

/-- A directory is made at a path, or at that of its temporary file, or one is removed there. -/
inductive Obstructs (d : Disk) (path : Path) : Disk → Prop
  | make {p : Path} {d' : Disk} (hp : p = path ∨ p = path.temporary)
      (h : d.makeDirectory p = .ok d') : Obstructs d path d'
  | remove {p : Path} {d' : Disk} (hp : p = path ∨ p = path.temporary)
      (h : d.removeDirectory p = .ok d') : Obstructs d path d'

theorem makeDirectory_spec (h : d.makeDirectory path = .ok d') :
    ∃ l slashed, d.locate path = .ok (.entry l slashed) ∧ d.node? l = none
      ∧ d' = d.place l .directory := by
  unfold makeDirectory at h
  obtain ⟨spot, hlocate, h⟩ := exists_of_bind h
  cases spot with
  | unnamed => cases h
  | entry l slashed =>
    dsimp only at h
    split at h
    · cases h
    · rename_i hnone
      cases h
      exact ⟨l, slashed, hlocate, Option.not_isSome_iff_eq_none.1 hnone, rfl⟩

theorem removeDirectory_spec (h : d.removeDirectory path = .ok d') :
    ∃ l slashed, d.locate path = .ok (.entry l slashed) ∧ d.node? l = some .directory
      ∧ d' = d.erase l := by
  unfold removeDirectory at h
  obtain ⟨spot, hlocate, h⟩ := exists_of_bind h
  cases spot with
  | unnamed => cases h
  | entry l slashed =>
    dsimp only [bind, Except.bind] at h
    unfold present at h
    cases hnode : d.node? l with
    | none =>
      rw [hnode] at h
      cases h
    | some node =>
      rw [hnode] at h
      cases node with
      | file id bytes => cases h
      | directory =>
        dsimp only at h
        split at h
        · cases h
        · cases h
          exact ⟨l, slashed, hlocate, hnode, rfl⟩

/-- Nothing is found at a path, or a directory. -/
def Vacant (d : Disk) (path : Path) : Prop :=
  d.find path = .error .absent ∨ d.find path = .ok .directory

/-- A file with some bytes is found at a path, and would be if nothing stood beside it. -/
def Secures (d : Disk) (path : Path) (bytes : Bytes) : Prop :=
  ∃ l id, (d.erase l.beside).Holds path l id bytes

/-- What a path leads to: a file with some bytes, or none. -/
def Guards (d : Disk) (path : Path) : Option Bytes → Prop
  | none => d.Vacant path
  | some bytes => d.Secures path bytes

theorem Vacant.thins (h : d.Vacant path) (hthins : Thins d d') : d'.Vacant path := by
  rcases find_of_thins hthins path with hsame | habsent
  · unfold Vacant
    rw [hsame]
    exact h
  · exact .inl habsent

theorem Secures.holds {bytes : Bytes} (h : d.Secures path bytes) :
    ∃ l id, d.Holds path l id bytes ∧ (d.erase l.beside).Holds path l id bytes := by
  obtain ⟨l, id, hholds⟩ := h
  have hne : l ≠ l.beside := (Location.beside_ne hholds.ne_nil).symm
  have hkeeps : KeepsDirectories (d.erase l.beside) d := by
    intro k hk
    rcases thins_erase d l.beside k with hsame | hnone
    · exact hsame.symm.trans hk
    · rw [hnone] at hk
      cases hk
  exact ⟨l, id, ⟨place?_of_keeps hkeeps hholds.place, (node?_erase_ne hne).symm.trans hholds.node⟩,
    hholds⟩

/-- What stands beside a file may change. -/
theorem secures_of_elsewhere {id : Nat} {bytes : Bytes}
    (h : (d.erase l.beside).Holds path l id bytes)
    (helsewhere : ∀ k, k ≠ l.beside → d'.node? k = d.node? k) : d'.Secures path bytes := by
  have hsame : ∀ k, (d'.erase l.beside).node? k = (d.erase l.beside).node? k := by
    intro k
    by_cases hroot : k = []
    · rw [hroot, node?_root, node?_root]
    · rw [node?_erase _ _ _ hroot, node?_erase _ _ _ hroot]
      split
      · rfl
      · rename_i hk
        exact helsewhere k hk
  refine ⟨l, id, place?_of_keeps (fun k hk => (hsame k).trans hk) h.place, (hsame l).trans h.node⟩

/-! ### What obstructs a path. -/

theorem Vacant.obstructs (h : d.Vacant path) (hobstructs : d.Obstructs path d') :
    d'.Vacant path := by
  cases hobstructs with
  | remove hp hremove =>
    obtain ⟨k, slashed, -, -, rfl⟩ := removeDirectory_spec hremove
    exact h.thins (thins_erase d k)
  | make hp hmake =>
    obtain ⟨k, slashed, hlocate, hnode, rfl⟩ := makeDirectory_spec hmake
    have hkeeps := keepsDirectories_place hnode
    cases hpath : d.locate path with
    | ok spot =>
      -- the path leads to the same place, where only a directory can have been made
      unfold Vacant find at h ⊢
      rw [locate_of_keeps hkeeps hpath]
      rw [hpath] at h
      cases spot with
      | unnamed => exact .inr rfl
      | entry l slashed' =>
        dsimp only [bind, Except.bind] at h ⊢
        unfold present at h ⊢
        by_cases hl : l = k
        · have hroot : k ≠ [] := by
            rintro rfl
            rw [node?_root] at hnode
            cases hnode
          rw [hl, node?_place_self hroot]
          exact .inr rfl
        · rw [node?_place_ne hl]
          exact h
    | error error =>
      -- the path leads nowhere, and a directory beside it does not change that
      have habsent : d.locate path = .error .absent := by
        rw [hpath]
        unfold Vacant find at h
        rw [hpath] at h
        rcases h with h | h
        · exact congrArg _ (Except.error.inj h)
        · cases h
      have hstill : (d.place k .directory).locate path = .error .absent := by
        rcases hp with rfl | rfl
        · cases hlocate.symm.trans habsent
        · exact locate_place_beside hnode hlocate habsent
      unfold Vacant find
      rw [hstill]
      exact .inl rfl

theorem Secures.obstructs {bytes : Bytes} (h : d.Secures path bytes)
    (hobstructs : d.Obstructs path d') : d'.Secures path bytes := by
  obtain ⟨l, id, hholds, hfirm⟩ := h.holds
  have hlocate := place?_eq_ok_iff.1 hholds.place
  -- where the file stands no directory is made or removed
  have hk : ∀ {p : Path} {k : Location} {slashed : Bool}, p = path ∨ p = path.temporary →
      d.locate p = .ok (.entry k slashed) → k = l ∨ k = l.beside := by
    rintro p k slashed (rfl | rfl) hp
    · rw [hlocate] at hp
      cases hp
      exact .inl rfl
    · exact .inr (eq_beside hholds.place hp)
  cases hobstructs with
  | make hp hmake =>
    obtain ⟨k, slashed, hplace, hnode, rfl⟩ := makeDirectory_spec hmake
    rcases hk hp hplace with rfl | rfl
    · rw [hholds.node] at hnode
      cases hnode
    · exact secures_of_elsewhere hfirm fun j hj => node?_place_ne hj
  | remove hp hremove =>
    obtain ⟨k, slashed, hplace, hnode, rfl⟩ := removeDirectory_spec hremove
    rcases hk hp hplace with rfl | rfl
    · rw [hholds.node] at hnode
      cases hnode
    · exact secures_of_elsewhere hfirm fun j hj => node?_erase_ne hj

/-- **What obstructs a file leaves it alone.** -/
theorem Guards.obstructs {file : Option Bytes} (h : d.Guards path file)
    (hobstructs : d.Obstructs path d') : d'.Guards path file := by
  cases file with
  | none => exact Vacant.obstructs h hobstructs
  | some bytes => exact Secures.obstructs h hobstructs

/-! ## §4. Replacing. -/

theorem remove_of_holds {id : Nat} {bytes : Bytes} (h : d.Holds path l id bytes) :
    d.remove path = .ok (d.erase l) := by
  unfold remove
  rw [place?_eq_ok_iff.1 h.place]
  dsimp only [bind, Except.bind]
  unfold present
  rw [h.node]
  rfl

/-- A file that was given a name stands under it, where no directory was. -/
theorem rename_cases {source target : Path} {k : Location} {id : Nat} {bytes : Bytes}
    (hsource : d.Holds source k id bytes) (h : d.rename source target = .ok d') :
    ∃ l, d.place? target = .ok l ∧ d.node? l ≠ some .directory
      ∧ d' = (d.erase k).place l (.file id bytes) := by
  unfold rename renameTarget at h
  rw [hsource.place] at h
  dsimp only [bind, Except.bind] at h
  rw [hsource.node] at h
  cases hlocate : d.locate target with
  | error error =>
    rw [hlocate] at h
    cases h
  | ok spot =>
    rw [hlocate] at h
    cases spot with
    | unnamed => cases h
    | entry l slashed =>
      cases slashed with
      | true => cases h
      | false =>
        dsimp only at h
        by_cases hnode : d.node? l = some .directory
        · rw [if_pos hnode] at h
          cases h
        · rw [if_neg hnode] at h
          cases h
          exact ⟨l, place?_eq_ok_iff.2 hlocate, hnode, rfl⟩

/-- **What a replacement does.**  It succeeds, and the path leads to the new content;
or it fails, and at most a file beside the path is gone. -/
theorem replace_cases (d : Disk) (path : Path) (bytes : Bytes) :
    ((d.replace path bytes).2 = .ok () ∧ (d.replace path bytes).1.Secures path bytes)
      ∨ ∃ error, (d.replace path bytes).2 = .error error
        ∧ ((d.replace path bytes).1 = d
          ∨ ∃ k, d.place? path.temporary = .ok k
            ∧ ∀ j, (d.replace path bytes).1.node? j = (d.erase k).node? j) := by
  unfold replace
  cases hwrite : d.write path.temporary bytes with
  | error error => exact .inr ⟨error, rfl, .inl (discard_of_write_error hwrite)⟩
  | ok written =>
    obtain ⟨k, id, hplace, hchange, hholds⟩ := write_spec hwrite
    dsimp only
    cases hrename : written.rename path.temporary path with
    | error error =>
      -- what was written is taken away again
      refine .inr ⟨error, rfl, .inr ⟨k, hplace, ?_⟩⟩
      intro j
      unfold discard
      rw [remove_of_holds hholds]
      by_cases hj : j = k
      · rw [hj, node?_erase _ _ _ hholds.ne_nil, node?_erase _ _ _ hholds.ne_nil, if_pos rfl,
          if_pos rfl]
      · exact (node?_erase_ne hj).trans ((hchange.elsewhere j hj).trans (node?_erase_ne hj).symm)
    | ok renamed =>
      obtain ⟨l, hl, hnode, rfl⟩ := rename_cases hholds hrename
      obtain rfl : k = l.beside := eq_beside hl (place?_eq_ok_iff.1 hholds.place)
      have hne : l ≠ l.beside := (Location.beside_ne (ne_nil_of_place? hl)).symm
      -- neither of the two places is on the way to the file
      have hkeeps : KeepsDirectories written
          (((written.erase l.beside).place l (.file id bytes)).erase l.beside) := by
        intro j hj
        have hjk : j ≠ l.beside := by
          rintro rfl
          rw [hholds.node] at hj
          cases hj
        have hjl : j ≠ l := by
          rintro rfl
          exact hnode hj
        rw [node?_erase_ne hjk, node?_place_ne hjl, node?_erase_ne hjk]
        exact hj
      refine .inl ⟨rfl, l, id, place?_of_keeps hkeeps hl, ?_⟩
      rw [node?_erase_ne hne]
      exact node?_place_self (ne_nil_of_place? hl)

/-- **A replacement that succeeds leaves the new content.** -/
theorem guards_replace {bytes : Bytes} (h : d.replace path bytes = (d', .ok ())) :
    d'.Guards path (some bytes) := by
  have hcases := replace_cases d path bytes
  rw [h] at hcases
  rcases hcases with ⟨-, hsecures⟩ | ⟨error, hresult, -⟩
  · exact hsecures
  · cases hresult

/-- **One that fails leaves the old content.** -/
theorem Guards.replace_error {file : Option Bytes} {bytes : Bytes} {error : DiskError}
    (h : d.Guards path file) (herror : d.replace path bytes = (d', .error error)) :
    d'.Guards path file := by
  have hcases := replace_cases d path bytes
  rw [herror] at hcases
  rcases hcases with ⟨hresult, -⟩ | ⟨-, -, rfl | ⟨k, hplace, hnode⟩⟩
  · cases hresult
  · exact h
  · cases file with
    | none =>
      refine Vacant.thins h ?_
      intro j
      rw [hnode]
      exact thins_erase d k j
    | some old =>
      obtain ⟨l, id, hholds, hfirm⟩ := Secures.holds h
      obtain rfl : k = l.beside := eq_beside hholds.place (place?_eq_ok_iff.1 hplace)
      exact secures_of_elsewhere hfirm fun j hj => (hnode j).trans (node?_erase_ne hj)

/-! ## §5. Reading. -/

/-- Where a path leads nowhere there is no file. -/
theorem guards_of_read (h : d.read path = .ok none) : d.Guards path none := by
  refine .inl ?_
  unfold read at h
  split at h
  · cases h
  · cases h
  · assumption
  · cases h

/-- **The file that a path leads to is read**; if there is none, that is noticed unless a
directory stands there. -/
theorem Guards.read {file : Option Bytes} (h : d.Guards path file)
    (hdirectory : file = none → d.find path ≠ .ok .directory) : d.read path = .ok file := by
  cases file with
  | none =>
    have habsent : d.find path = .error .absent := Or.resolve_right h (hdirectory rfl)
    unfold Disk.read
    rw [habsent]
  | some bytes =>
    obtain ⟨l, id, hholds, -⟩ := Secures.holds h
    exact read_of_holds hholds

end Disk

end DurableStore
