/-
  DurableStore.Proofs.Storage.LogFile
  ────────────────────────────────
  **A FILE AND THE ONE BESIDE IT.**

  The log is a file at a path, kept open by its identity.  Its new content
  is prepared in a file beside it, which then takes its name.  Followed
  through all this is one fact:

      d.Holds path l id bytes   — the path leads to location `l`, where the
                                  file of identity `id` has these bytes

  A change of files leaves the directories as they are, so it changes
  nothing in how a path is located (`place?_of_same`).  The path of the
  temporary file leads elsewhere (`ne_of_place?_temporary`), so whatever is
  done there leaves the log alone; and the two files have different
  identities, since no identity is used twice (`WellFormed`).
-/
import DurableStore.Proofs.Results
import DurableStore.Storage.Disk

namespace DurableStore

/-! ## §1. Paths with an ending. -/

namespace Path

theorem parts_of_not_mem {part : Bytes} (h : slash ∉ part) : parts part = [part] := by
  induction part with
  | nil => rfl
  | cons b part ih =>
    obtain ⟨hb, hpart⟩ := not_or.1 (mt List.mem_cons.2 h)
    rw [parts, if_neg (Ne.symm hb), ih hpart]

theorem parts_append_slash (p q : Path) : parts (p ++ slash :: q) = parts p ++ parts q := by
  induction p with
  | nil =>
    show parts (slash :: q) = [] :: parts q
    rw [parts, if_pos rfl]
  | cons b p ih =>
    rw [List.cons_append, parts, parts, ih]
    by_cases hb : b = slash
    · rw [if_pos hb, if_pos hb]
      rfl
    · rw [if_neg hb, if_neg hb]
      cases hparts : parts p with
      | nil => exact absurd hparts (parts_ne_nil p)
      | cons part others => rfl

/-- A path up to its last slash, and what follows. -/
theorem exists_last (path : Path) :
    ∃ before name, path = before ++ name ∧ slash ∉ name
      ∧ (before = [] ∨ ∃ p, before = p ++ [slash]) := by
  by_cases h : slash ∈ path
  · obtain ⟨as, bs, hreverse, hnot⟩ := List.eq_append_cons_of_mem (List.mem_reverse.2 h)
    refine ⟨bs.reverse ++ [slash], as.reverse, ?_, mt List.mem_reverse.1 hnot, .inr ⟨_, rfl⟩⟩
    rw [← List.reverse_reverse path, hreverse, List.reverse_append, List.reverse_cons]
  · exact ⟨[], path, rfl, h, .inl rfl⟩

/-- An ending without slashes becomes part of the last name. -/
theorem parts_of_last {before name : Bytes} (hname : slash ∉ name)
    (hbefore : before = [] ∨ ∃ p, before = p ++ [slash]) :
    ∃ front, ∀ ending, slash ∉ ending →
      parts (before ++ (name ++ ending)) = front ++ [name ++ ending] := by
  have hlast : ∀ ending, slash ∉ ending → slash ∉ name ++ ending := by
    intro ending hending hmem
    rcases List.mem_append.1 hmem with hmem | hmem
    · exact hname hmem
    · exact hending hmem
  rcases hbefore with rfl | ⟨p, rfl⟩
  · exact ⟨[], fun ending hending => parts_of_not_mem (hlast ending hending)⟩
  · refine ⟨parts p, ?_⟩
    intro ending hending
    rw [List.append_assoc, List.singleton_append, parts_append_slash,
      parts_of_not_mem (hlast ending hending)]

/-- A path that names an entry of a directory, and no slash follows the name. -/
structure Names (path : Path) (name : Bytes) (before : List Bytes) : Prop where
  fromEnd : path.partsFromEnd = name :: before
  unslashed : path.endsInSlash = false
  ne_dot : name ≠ dot
  ne_dotDot : name ≠ dotDot

/-- The bytes of a name, from its end. -/
theorem exists_reverse {name : Bytes} (h : name ≠ []) : ∃ c cs, name.reverse = c :: cs :=
  List.exists_cons_of_ne_nil (mt List.reverse_eq_nil_iff.1 h)

theorem ne_slash_of_mem_reverse {name : Bytes} (h : slash ∉ name) : ∀ b ∈ name.reverse, b ≠ 47 := by
  rintro b hb rfl
  exact h (List.mem_reverse.1 hb)

/-- Nothing is trimmed from a path that ends in a name. -/
theorem trimEnd_of_last {name : Bytes} (hslash : slash ∉ name) (hne : name ≠ [])
    (hdot : name ≠ dot) (lead : List UInt8) :
    trimEnd (name.reverse ++ lead) = name.reverse ++ lead := by
  obtain ⟨c, cs, hname⟩ := exists_reverse hne
  have hmem := ne_slash_of_mem_reverse hslash
  have hlone : name.reverse ≠ [46] := fun heq => hdot (List.reverse_eq_iff.1 heq)
  rw [hname] at hmem hlone ⊢
  obtain ⟨hc, hcs⟩ := List.forall_mem_cons.1 hmem
  -- the path backwards begins with the name backwards: no slash, and no lone dot before one
  unfold trimEnd
  split
  · rename_i heq
    exact absurd (List.cons.inj heq).1 hc
  · rename_i heq
    obtain ⟨rfl, htail⟩ := List.cons.inj heq
    rw [(List.append_eq_nil_iff.1 htail).1] at hlone
    exact absurd rfl hlone
  · rename_i rest heq
    obtain ⟨rfl, htail⟩ := List.cons.inj heq
    cases cs with
    | nil => exact absurd rfl hlone
    | cons d cs => exact absurd (List.cons.inj htail).1 (hcs d List.mem_cons_self)
  · rfl

/-- A path that ends in a name names an entry. -/
theorem namesEntry_of_last {name : Bytes} (hslash : slash ∉ name) (hne : name ≠ [])
    (hdot : name ≠ dot) (hdotDot : name ≠ dotDot) (lead : List UInt8) :
    namesEntry (name.reverse ++ lead) = true := by
  obtain ⟨c, cs, hname⟩ := exists_reverse hne
  have hmem := ne_slash_of_mem_reverse hslash
  have hlone : name.reverse ≠ [46] := fun heq => hdot (List.reverse_eq_iff.1 heq)
  have htwo : name.reverse ≠ [46, 46] := fun heq => hdotDot (List.reverse_eq_iff.1 heq)
  rw [hname] at hmem hlone htwo ⊢
  obtain ⟨hc, hcs⟩ := List.forall_mem_cons.1 hmem
  unfold namesEntry
  -- what follows one dot or two would be the end of the path, or a slash
  split
  · rename_i heq
    cases heq
  · rename_i heq
    obtain ⟨rfl, htail⟩ := List.cons.inj heq
    cases cs with
    | nil => exact absurd rfl hlone
    | cons d cs =>
      obtain ⟨rfl, hnil⟩ := List.cons.inj htail
      rw [(List.append_eq_nil_iff.1 hnil).1] at htwo
      exact absurd rfl htwo
  · rename_i rest heq
    obtain ⟨rfl, htail⟩ := List.cons.inj heq
    rcases cs with _ | ⟨d, _ | ⟨e, cs⟩⟩
    · exact absurd rfl hlone
    · obtain ⟨rfl, -⟩ := List.cons.inj htail
      exact absurd rfl htwo
    · obtain ⟨-, hthird⟩ := List.cons.inj htail
      exact absurd (List.cons.inj hthird).1
        (hcs e (List.mem_cons_of_mem d List.mem_cons_self))
  · rfl

/-- **The temporary file has its own name in the same directory.** -/
theorem Names.temporary {path : Path} {name : Bytes} {before : List Bytes}
    (h : path.Names name before) :
    path.temporary.partsFromEnd = (name ++ temporaryEnding) :: before := by
  obtain ⟨lead, last, hpath, hslash, hlead⟩ := exists_last path
  obtain ⟨front, hparts⟩ := parts_of_last hslash hlead
  have hwhole : path.parts = front ++ [last] := by
    have hnone := hparts [] List.not_mem_nil
    rw [List.append_nil, ← hpath] at hnone
    exact hnone
  have hne : last ≠ [] := by
    -- a path with an empty last part ends in a slash, or is empty
    rintro rfl
    have hends := h.unslashed
    rw [List.append_nil] at hpath
    rcases hlead with rfl | ⟨p, rfl⟩
    · have hfromEnd := h.fromEnd
      rw [hpath] at hfromEnd
      cases hfromEnd
    · unfold endsInSlash at hends
      rw [hpath, List.getLast?_concat] at hends
      exact absurd hends (by decide)
  have hfrom : path.partsFromEnd = last :: front.reverse := by
    unfold partsFromEnd
    rw [hwhole, List.reverse_append, List.reverse_singleton, List.singleton_append,
      List.dropWhile_cons_of_neg (by simpa using hne)]
  obtain ⟨rfl, rfl⟩ := List.cons.inj (hfrom.symm.trans h.fromEnd)
  have hreverse : path.reverse = last.reverse ++ lead.reverse := by
    rw [hpath, List.reverse_append]
  have htrim : trimEnd path.reverse = path.reverse :=
    hreverse ▸ trimEnd_of_last hslash hne h.ne_dot lead.reverse
  have hentry : namesEntry path.reverse = true :=
    hreverse ▸ namesEntry_of_last hslash hne h.ne_dot h.ne_dotDot lead.reverse
  unfold Path.temporary
  dsimp only
  rw [htrim, if_pos hentry, List.reverse_reverse]
  have hending : slash ∉ temporaryEnding := by decide +kernel
  have htemporary := hparts temporaryEnding hending
  unfold partsFromEnd
  rw [hpath, List.append_assoc, htemporary, List.reverse_append, List.reverse_singleton,
    List.singleton_append, List.dropWhile_cons_of_neg (by simp [hne])]

end Path

/-! ## §2. Locating a path. -/

namespace Disk

variable {d d' : Disk} {path : Path} {l : Location}

/-- Directories stand at the same locations. -/
def SameDirectories (d d' : Disk) : Prop :=
  ∀ l, d.node? l = some .directory ↔ d'.node? l = some .directory

theorem SameDirectories.trans {d'' : Disk} (h : SameDirectories d d')
    (h' : SameDirectories d' d'') : SameDirectories d d'' :=
  fun l => (h l).trans (h' l)

/-- Every directory of the one stands in the other too. -/
def KeepsDirectories (d d' : Disk) : Prop :=
  ∀ l, d.node? l = some .directory → d'.node? l = some .directory

theorem SameDirectories.keeps (h : SameDirectories d d') : KeepsDirectories d d' :=
  fun l => (h l).1

theorem step_of_keeps (h : KeepsDirectories d d') {here there : Location} {part : Bytes}
    (hstep : d.step here part = .ok there) : d'.step here part = .ok there := by
  unfold step at hstep ⊢
  split at hstep
  · rename_i hstay
    rw [if_pos hstay]
    exact hstep
  · rename_i hstay
    rw [if_neg hstay]
    split at hstep
    · rename_i hup
      rw [if_pos hup]
      exact hstep
    · rename_i hup
      rw [if_neg hup]
      split at hstep
      · cases hstep
      · rename_i hlength
        rw [if_neg hlength]
        split at hstep
        · rename_i hnode
          rw [h _ hnode]
          exact hstep
        · cases hstep
        · cases hstep

theorem foldlM_step_of_keeps (h : KeepsDirectories d d') {parts : List Bytes}
    {here there : Location}
    (hwalk : parts.foldlM d.step here = .ok there) : parts.foldlM d'.step here = .ok there := by
  induction parts generalizing here with
  | nil => exact hwalk
  | cons part parts ih =>
    rw [List.foldlM_cons] at hwalk ⊢
    obtain ⟨next, hstep, hwalk⟩ := exists_of_bind hwalk
    rw [step_of_keeps h hstep]
    exact ih hwalk

/-- **Where a path leads depends on the directories only.** -/
theorem locate_of_keeps (h : KeepsDirectories d d') {spot : Spot}
    (hlocate : d.locate path = .ok spot) :
    d'.locate path = .ok spot := by
  unfold locate at hlocate ⊢
  split at hlocate
  · cases hlocate
  · rename_i hzero
    rw [if_neg hzero]
    split at hlocate
    · cases hlocate
    · rename_i hnil
      rw [if_neg hnil]
      split at hlocate
      · cases hlocate
      · rename_i hlength
        rw [if_neg hlength]
        split at hlocate
        · exact hlocate
        · rename_i name before _
          obtain ⟨here, hwalk, hlocate⟩ := exists_of_bind hlocate
          have hwalk' : d'.walk before.reverse = .ok here := foldlM_step_of_keeps h hwalk
          rw [hwalk']
          exact hlocate

theorem place?_eq_ok_iff : d.place? path = .ok l ↔ d.locate path = .ok (.entry l false) := by
  unfold place?
  cases hlocate : d.locate path with
  | error error =>
    exact ⟨(fun h => nomatch h), fun h => nomatch h⟩
  | ok spot =>
    cases spot with
    | unnamed => exact ⟨(fun h => nomatch h), fun h => nomatch h⟩
    | entry k slashed =>
      cases slashed with
      | false =>
        constructor
        · intro h
          cases h
          rfl
        · intro h
          cases h
          rfl
      | true => exact ⟨(fun h => nomatch h), fun h => nomatch h⟩

theorem place?_of_keeps (h : KeepsDirectories d d') (hplace : d.place? path = .ok l) :
    d'.place? path = .ok l :=
  place?_eq_ok_iff.2 (locate_of_keeps h (place?_eq_ok_iff.1 hplace))

theorem place?_of_same (h : SameDirectories d d') (hplace : d.place? path = .ok l) :
    d'.place? path = .ok l :=
  place?_of_keeps h.keeps hplace

/-- A place for a file has the last name of its path. -/
theorem names_of_place? (h : d.place? path = .ok l) :
    ∃ name before here, path.Names name before ∧ d.walk before.reverse = .ok here
      ∧ l = name :: here := by
  have hlocate := place?_eq_ok_iff.1 h
  unfold locate at hlocate
  -- three checks of the text, and a path of slashes only
  split at hlocate
  · cases hlocate
  split at hlocate
  · cases hlocate
  split at hlocate
  · cases hlocate
  split at hlocate
  · cases hlocate
  rename_i name before hfromEnd
  obtain ⟨here, hwalk, hspot⟩ := exists_of_bind hlocate
  unfold spot at hspot
  split at hspot
  · cases hspot
  rename_i hdots
  obtain ⟨hdot, hdotDot⟩ := not_or.1 hdots
  split at hspot
  · cases hspot
  obtain ⟨hl, hslashed⟩ := Spot.entry.inj (Except.ok.inj hspot)
  exact ⟨name, before, here, ⟨hfromEnd, hslashed, hdot, hdotDot⟩, hwalk, hl.symm⟩

theorem ne_nil_of_place? (h : d.place? path = .ok l) : l ≠ [] := by
  obtain ⟨name, before, here, -, -, rfl⟩ := names_of_place? h
  exact List.cons_ne_nil name here

/-- **The temporary file stands elsewhere.** -/
theorem ne_of_place?_temporary {k : Location} (h : d.place? path = .ok l)
    (htemporary : d'.place? path.temporary = .ok k) : k ≠ l := by
  obtain ⟨name, before, here, hnames, -, rfl⟩ := names_of_place? h
  obtain ⟨name', before', here', hnames', -, rfl⟩ := names_of_place? htemporary
  have hname : name' = name ++ Path.temporaryEnding :=
    (List.cons.inj (hnames'.fromEnd.symm.trans hnames.temporary)).1
  intro heq
  have hsame : name ++ Path.temporaryEnding = name := hname ▸ (List.cons.inj heq).1
  have hempty := List.append_right_eq_self.1 hsame
  exact absurd hempty (by decide +kernel)

/-! ## §3. Files at their paths. -/

/-- No file stands in two places, and no identity in use will be given again. -/
structure WellFormed (d : Disk) : Prop where
  unique : ∀ {k l : Location} {id : Nat} {as bs : Bytes},
    d.node? k = some (.file id as) → d.node? l = some (.file id bs) → k = l
  used : ∀ {l : Location} {id : Nat} {bs : Bytes}, d.node? l = some (.file id bs) → id < d.fresh

theorem wellFormed_empty : Disk.empty.WellFormed := by
  have hnone : ∀ {l : Location} {id : Nat} {bs : Bytes},
      Disk.empty.node? l ≠ some (.file id bs) := by
    intro l id bs
    unfold node?
    split <;> exact fun h => nomatch h
  exact ⟨fun h => absurd h hnone, fun h => absurd h hnone⟩

/-- A path leads to a location where the file of an identity has some bytes. -/
structure Holds (d : Disk) (path : Path) (l : Location) (id : Nat) (bytes : Bytes) : Prop where
  place : d.place? path = .ok l
  node : d.node? l = some (.file id bytes)

/-- Nothing changes but the file at one location, or whether there is one. -/
structure ChangesAt (d d' : Disk) (l : Location) : Prop where
  same : SameDirectories d d'
  elsewhere : ∀ k, k ≠ l → d'.node? k = d.node? k
  wellFormed : d.WellFormed → d'.WellFormed

theorem Holds.ne_nil {id : Nat} {bytes : Bytes} (h : d.Holds path l id bytes) : l ≠ [] :=
  ne_nil_of_place? h.place

/-- **What stands elsewhere stays.** -/
theorem Holds.elsewhere {id : Nat} {bytes : Bytes} {k : Location} (h : d.Holds path l id bytes)
    (hchange : ChangesAt d d' k) (hne : k ≠ l) : d'.Holds path l id bytes where
  place := place?_of_same hchange.same h.place
  node := (hchange.elsewhere l hne.symm).trans h.node

theorem find_of_holds {id : Nat} {bytes : Bytes} (h : d.Holds path l id bytes) :
    d.find path = .ok (.file id bytes) := by
  unfold find
  rw [place?_eq_ok_iff.1 h.place]
  dsimp only [bind, Except.bind]
  unfold present
  rw [h.node]

theorem bytes?_of_holds {id : Nat} {bytes : Bytes} (h : d.Holds path l id bytes) :
    d.bytes? path = some bytes := by
  unfold bytes?
  rw [find_of_holds h]

theorem read_of_holds {id : Nat} {bytes : Bytes} (h : d.Holds path l id bytes) :
    d.read path = .ok (some bytes) := by
  unfold read
  rw [find_of_holds h]

theorem exists?_of_holds {id : Nat} {bytes : Bytes} (h : d.Holds path l id bytes) :
    d.exists? path = true := by
  unfold exists?
  rw [find_of_holds h]

/-- A file is found only at the place that its path names. -/
theorem holds_of_find {id : Nat} {bytes : Bytes} (h : d.find path = .ok (.file id bytes)) :
    ∃ l, d.Holds path l id bytes := by
  unfold find at h
  obtain ⟨spot, hlocate, h⟩ := exists_of_bind h
  cases spot with
  | unnamed => cases h
  | entry k slashed =>
    have hpresent : d.present k slashed = .ok (.file id bytes) := h
    unfold present at hpresent
    cases hnode : d.node? k with
    | none =>
      rw [hnode] at hpresent
      cases hpresent
    | some node =>
      rw [hnode] at hpresent
      cases node with
      | directory => cases slashed <;> cases hpresent
      | file i bs =>
        cases slashed with
        | true => cases hpresent
        | false =>
          cases hpresent
          exact ⟨k, place?_eq_ok_iff.2 hlocate, hnode⟩

/-- What was read whole is a file. -/
theorem holds_of_read {bytes : Bytes} (h : d.read path = .ok (some bytes)) :
    ∃ l id, d.Holds path l id bytes := by
  unfold read at h
  split at h
  · rename_i id found hfind
    cases h
    obtain ⟨l, hholds⟩ := holds_of_find hfind
    exact ⟨l, id, hholds⟩
  all_goals cases h

/-- What can be read under a path is a file. -/
theorem holds_of_bytes? {bytes : Bytes} (h : d.bytes? path = some bytes) :
    ∃ l id, d.Holds path l id bytes := by
  unfold bytes? at h
  split at h
  · rename_i id found hfind
    cases h
    obtain ⟨l, hholds⟩ := holds_of_find hfind
    exact ⟨l, id, hholds⟩
  · cases h

/-! ### What changes of nodes change. -/

theorem sameDirectories_of_node? (h : ∀ k, k ≠ l → d'.node? k = d.node? k)
    (hbefore : d.node? l ≠ some .directory) (hafter : d'.node? l ≠ some .directory) :
    SameDirectories d d' := by
  intro k
  by_cases hk : k = l
  · rw [hk]
    exact ⟨fun hd => absurd hd hbefore, fun hd => absurd hd hafter⟩
  · rw [h k hk]

theorem node?_place_ne {k : Location} {node : Node} (h : k ≠ l) :
    (d.place l node).node? k = d.node? k := by
  by_cases hk : k = []
  · rw [hk, node?_root, node?_root]
  · rw [node?_place d l k node hk, if_neg h]

theorem node?_place_self {node : Node} (h : l ≠ []) : (d.place l node).node? l = some node := by
  rw [node?_place d l l node h, if_pos rfl]

theorem node?_erase_ne {k : Location} (h : k ≠ l) : (d.erase l).node? k = d.node? k := by
  by_cases hk : k = []
  · rw [hk, node?_root, node?_root]
  · rw [node?_erase d l k hk, if_neg h]

/-- An identity that no other place has may be put at one. -/
theorem WellFormed.place {id : Nat} {bytes : Bytes} (hwf : d.WellFormed) (hl : l ≠ [])
    (hid : id < d.fresh) (hfree : ∀ k bs, d.node? k = some (.file id bs) → k = l) :
    (d.place l (.file id bytes)).WellFormed := by
  -- a file of the new disk is the one that was put there, or one of the old disk elsewhere
  have hcases : ∀ {k : Location} {i : Nat} {bs : Bytes},
      (d.place l (.file id bytes)).node? k = some (.file i bs) →
        (k = l ∧ i = id) ∨ (k ≠ l ∧ d.node? k = some (.file i bs)) := by
    intro k i bs hnode
    by_cases hk : k = l
    · rw [hk, node?_place_self hl] at hnode
      cases hnode
      exact .inl ⟨hk, rfl⟩
    · rw [node?_place_ne hk] at hnode
      exact .inr ⟨hk, hnode⟩
  refine ⟨?_, ?_⟩
  · intro k k' i as bs hk hk'
    rcases hcases hk with ⟨rfl, rfl⟩ | ⟨hne, hnode⟩
    · rcases hcases hk' with ⟨rfl, -⟩ | ⟨hne', hnode'⟩
      · rfl
      · exact absurd (hfree k' bs hnode') hne'
    · rcases hcases hk' with ⟨rfl, rfl⟩ | ⟨hne', hnode'⟩
      · exact absurd (hfree k as hnode) hne
      · exact hwf.unique hnode hnode'
  · intro k i bs hk
    rcases hcases hk with ⟨-, rfl⟩ | ⟨-, hnode⟩
    · exact hid
    · exact hwf.used hnode

theorem WellFormed.erase (hwf : d.WellFormed) (hl : l ≠ []) : (d.erase l).WellFormed := by
  have hkept : ∀ {k : Location} {i : Nat} {bs : Bytes},
      (d.erase l).node? k = some (.file i bs) → d.node? k = some (.file i bs) := by
    intro k i bs hnode
    by_cases hk : k = l
    · rw [hk, node?_erase d l l hl, if_pos rfl] at hnode
      cases hnode
    · rw [node?_erase_ne hk] at hnode
      exact hnode
  exact ⟨fun hk hk' => hwf.unique (hkept hk) (hkept hk'), fun hk => hwf.used (hkept hk)⟩

/-! ## §4. Operations. -/

theorem changesAt_create {bytes : Bytes} (hl : l ≠ []) (habsent : d.node? l = none) :
    ChangesAt d (d.create l bytes).1 l := by
  have helsewhere : ∀ k, k ≠ l → (d.create l bytes).1.node? k = d.node? k :=
    fun k hk => node?_place_ne hk
  have hself : (d.create l bytes).1.node? l = some (.file d.fresh bytes) := node?_place_self hl
  refine ⟨sameDirectories_of_node? helsewhere ?_ ?_, helsewhere, ?_⟩
  · rw [habsent]
    exact fun h => nomatch h
  · rw [hself]
    exact fun h => nomatch h
  · intro hwf
    -- the identity that is given is one that nothing had
    have hnew : ∀ {k : Location} {i : Nat} {bs : Bytes},
        (d.create l bytes).1.node? k = some (.file i bs) →
          (k = l ∧ i = d.fresh) ∨ d.node? k = some (.file i bs) := by
      intro k i bs hnode
      by_cases hk : k = l
      · rw [hk, hself] at hnode
        cases hnode
        exact .inl ⟨hk, rfl⟩
      · rw [helsewhere k hk] at hnode
        exact .inr hnode
    refine ⟨?_, ?_⟩
    · intro k k' i as bs hk hk'
      rcases hnew hk with ⟨rfl, rfl⟩ | hold
      · rcases hnew hk' with ⟨rfl, -⟩ | hold'
        · rfl
        · exact absurd (hwf.used hold') (Nat.lt_irrefl _)
      · rcases hnew hk' with ⟨rfl, rfl⟩ | hold'
        · exact absurd (hwf.used hold) (Nat.lt_irrefl _)
        · exact hwf.unique hold hold'
    · intro k i bs hk
      rcases hnew hk with ⟨-, rfl⟩ | hold
      · exact Nat.lt_succ_self d.fresh
      · exact Nat.lt_succ_of_lt (hwf.used hold)

theorem changesAt_place {id : Nat} {before bytes : Bytes} (hl : l ≠ [])
    (hnode : d.node? l = some (.file id before)) : ChangesAt d (d.place l (.file id bytes)) l := by
  have helsewhere : ∀ k, k ≠ l → (d.place l (.file id bytes)).node? k = d.node? k :=
    fun k hk => node?_place_ne hk
  refine ⟨sameDirectories_of_node? helsewhere ?_ ?_, helsewhere, ?_⟩
  · rw [hnode]
    exact fun h => nomatch h
  · rw [node?_place_self hl]
    exact fun h => nomatch h
  · intro hwf
    exact hwf.place hl (hwf.used hnode) fun k bs hk => hwf.unique hk hnode

theorem changesAt_erase {id : Nat} {bytes : Bytes} (hl : l ≠ [])
    (hnode : d.node? l = some (.file id bytes)) : ChangesAt d (d.erase l) l := by
  have helsewhere : ∀ k, k ≠ l → (d.erase l).node? k = d.node? k := fun k hk => node?_erase_ne hk
  refine ⟨sameDirectories_of_node? helsewhere ?_ ?_, helsewhere, fun hwf => hwf.erase hl⟩
  · rw [hnode]
    exact fun h => nomatch h
  · rw [node?_erase d l l hl, if_pos rfl]
    exact fun h => nomatch h

/-- **Writing a file** changes that file only. -/
theorem write_spec {bytes : Bytes} (h : d.write path bytes = .ok d') :
    ∃ l id, d.place? path = .ok l ∧ ChangesAt d d' l ∧ d'.Holds path l id bytes := by
  unfold write at h
  obtain ⟨l, hplace, h⟩ := exists_of_bind h
  have hl := ne_nil_of_place? hplace
  split at h
  · rename_i habsent
    cases h
    have hchange : ChangesAt d (d.create l bytes).1 l := changesAt_create hl habsent
    exact ⟨l, d.fresh, hplace, hchange, place?_of_same hchange.same hplace, node?_place_self hl⟩
  · rename_i id before hnode
    cases h
    have hchange : ChangesAt d (d.place l (.file id bytes)) l := changesAt_place hl hnode
    exact ⟨l, id, hplace, hchange, place?_of_same hchange.same hplace, node?_place_self hl⟩
  · cases h

/-- **Opening a file for appending** creates it if it is absent. -/
theorem openAppend_spec {handle : Handle} (h : d.openAppend path = .ok (d', handle)) :
    ∃ l, d.place? path = .ok l ∧ d'.Holds path l handle.id ((d.bytes? path).getD [])
      ∧ ChangesAt d d' l := by
  unfold openAppend at h
  obtain ⟨l, hplace, h⟩ := exists_of_bind h
  have hl := ne_nil_of_place? hplace
  split at h
  · rename_i habsent
    have hbytes : d.bytes? path = none := by
      unfold bytes? find
      rw [place?_eq_ok_iff.1 hplace]
      dsimp only [bind, Except.bind]
      unfold present
      rw [habsent]
    cases h
    have hchange : ChangesAt d (d.create l []).1 l := changesAt_create hl habsent
    rw [hbytes]
    exact ⟨l, hplace, ⟨place?_of_same hchange.same hplace, node?_place_self hl⟩, hchange⟩
  · rename_i id before hnode
    cases h
    have hholds : d.Holds path l id before := ⟨hplace, hnode⟩
    rw [bytes?_of_holds hholds]
    exact ⟨l, hplace, hholds, fun k => Iff.rfl, fun k _ => rfl, fun hwf => hwf⟩
  · cases h

theorem openAppend_of_holds {id : Nat} {bytes : Bytes} (h : d.Holds path l id bytes) :
    d.openAppend path = .ok (d, ⟨id⟩) := by
  unfold openAppend
  rw [h.place]
  dsimp only [bind, Except.bind]
  rw [h.node]
  rfl

/-- Appending nothing changes nothing. -/
theorem append_nil (d : Disk) (handle : Handle) : d.append handle [] = d := by
  have hsame : ∀ node : Node, node.append handle.id [] = node := by
    intro node
    cases node with
    | directory => rfl
    | file id bytes =>
      unfold Node.append
      dsimp only
      rw [List.append_nil, ite_self]
  unfold append
  simp only [hsame, List.map_id']

/-- **Appending to an open file** changes that file only. -/
theorem append_spec {id : Nat} {bytes : Bytes} (hwf : d.WellFormed) (h : d.Holds path l id bytes)
    (more : Bytes) :
    ChangesAt d (d.append ⟨id⟩ more) l ∧ (d.append ⟨id⟩ more).Holds path l id (bytes ++ more) := by
  have hself : (d.append ⟨id⟩ more).node? l = some (.file id (bytes ++ more)) := by
    rw [node?_append, h.node]
    show some (if id = id then Node.file id (bytes ++ more) else _) = _
    rw [if_pos rfl]
  have helsewhere : ∀ k, k ≠ l → (d.append ⟨id⟩ more).node? k = d.node? k := by
    intro k hk
    rw [node?_append]
    cases hnode : d.node? k with
    | none => rfl
    | some node =>
      cases node with
      | directory => rfl
      | file i bs =>
        -- no other name leads to the file that is open
        have hne : i ≠ id := by
          rintro rfl
          exact hk (hwf.unique hnode h.node)
        show some (if i = id then Node.file i (bs ++ more) else Node.file i bs) = _
        rw [if_neg hne]
  have hsame : SameDirectories d (d.append ⟨id⟩ more) := by
    refine sameDirectories_of_node? helsewhere ?_ ?_
    · rw [h.node]
      exact fun hd => nomatch hd
    · rw [hself]
      exact fun hd => nomatch hd
  -- appending gives no name to a file, so files are under the names that they had
  have hkept : ∀ {k : Location} {i : Nat} {bs : Bytes},
      (d.append ⟨id⟩ more).node? k = some (.file i bs) → ∃ cs, d.node? k = some (.file i cs) := by
    intro k i bs hk
    by_cases hkl : k = l
    · rw [hkl, hself] at hk
      cases hk
      exact ⟨bytes, hkl ▸ h.node⟩
    · rw [helsewhere k hkl] at hk
      exact ⟨bs, hk⟩
  refine ⟨⟨hsame, helsewhere, fun _ => ⟨?_, ?_⟩⟩, place?_of_same hsame h.place, hself⟩
  · intro k k' i as bs hk hk'
    obtain ⟨_, hk⟩ := hkept hk
    obtain ⟨_, hk'⟩ := hkept hk'
    exact hwf.unique hk hk'
  · intro k i bs hk
    obtain ⟨_, hk⟩ := hkept hk
    exact hwf.used hk

/-- Only a file is removed. -/
theorem remove_spec (h : d.remove path = .ok d') :
    ∃ l id bytes, d.Holds path l id bytes ∧ d' = d.erase l := by
  unfold remove at h
  obtain ⟨spot, hlocate, h⟩ := exists_of_bind h
  cases spot with
  | unnamed => cases h
  | entry l slashed =>
    obtain ⟨node, hpresent, h⟩ := exists_of_bind h
    cases node with
    | directory => cases h
    | file id bytes =>
      have hfind : d.find path = .ok (.file id bytes) := by
        unfold find
        rw [hlocate]
        exact hpresent
      obtain ⟨k, hholds⟩ := holds_of_find hfind
      -- a path leads to one place
      have hk : k = l := by
        have hplace := place?_eq_ok_iff.1 hholds.place
        rw [hlocate] at hplace
        cases hplace
        rfl
      subst hk
      cases h
      exact ⟨k, id, bytes, hholds, rfl⟩

/-- **Removing a file if there is one** changes that file at most. -/
theorem discard_spec (d : Disk) (path : Path) :
    d.discard path = d ∨ ∃ l, d.place? path = .ok l ∧ ChangesAt d (d.discard path) l := by
  unfold discard
  cases hremove : d.remove path with
  | error error => exact .inl rfl
  | ok d' =>
    obtain ⟨l, id, bytes, hholds, rfl⟩ := remove_spec hremove
    exact .inr ⟨l, hholds.place, changesAt_erase hholds.ne_nil hholds.node⟩

/-- **Removing one file leaves another one where it is.** -/
theorem Holds.discard {id : Nat} {bytes : Bytes} (h : d.Holds path l id bytes) {other : Path}
    (hother : ∀ k, d.place? other = .ok k → k ≠ l) :
    (d.WellFormed → (d.discard other).WellFormed) ∧ (d.discard other).Holds path l id bytes := by
  rcases d.discard_spec other with hsame | ⟨k, hplace, hchange⟩
  · rw [hsame]
    exact ⟨fun hwf => hwf, h⟩
  · exact ⟨hchange.wellFormed, h.elsewhere hchange (hother k hplace)⟩

/-- Where a file could not be written, there is none to remove. -/
theorem discard_of_write_error {bytes : Bytes} {error : DiskError}
    (h : d.write path bytes = .error error) : d.discard path = d := by
  unfold discard
  cases hremove : d.remove path with
  | error error => rfl
  | ok d' =>
    obtain ⟨l, id, before, hholds, -⟩ := remove_spec hremove
    unfold write at h
    rw [hholds.place] at h
    dsimp only [bind, Except.bind] at h
    rw [hholds.node] at h
    cases h

/-- **Giving a file the name of another** leaves it under that name. -/
theorem rename_spec {source target : Path} {k : Location} {id old : Nat} {bytes before : Bytes}
    (hsource : d.Holds source k id bytes) (htarget : d.Holds target l old before) (hne : k ≠ l) :
    ∃ d', d.rename source target = .ok d' ∧ d'.Holds target l id bytes ∧ SameDirectories d d'
      ∧ (d.WellFormed → d'.WellFormed) := by
  have hlocate := place?_eq_ok_iff.1 htarget.place
  have hrename : d.rename source target = .ok ((d.erase k).place l (.file id bytes)) := by
    unfold rename renameTarget
    rw [hsource.place]
    dsimp only [bind, Except.bind]
    rw [hsource.node]
    dsimp only
    rw [hlocate]
    dsimp only
    rw [htarget.node, if_neg (fun h => nomatch h)]
    rfl
  -- the old name goes first, and then the other one leads to the file
  have herased := changesAt_erase hsource.ne_nil hsource.node
  have hthere : (d.erase k).node? l = some (.file old before) :=
    (node?_erase_ne hne.symm).trans htarget.node
  have hplaced : SameDirectories (d.erase k) ((d.erase k).place l (.file id bytes)) := by
    refine sameDirectories_of_node? (fun j hj => node?_place_ne hj) ?_ ?_
    · rw [hthere]
      exact fun h => nomatch h
    · rw [node?_place_self htarget.ne_nil]
      exact fun h => nomatch h
  have hsame := herased.same.trans hplaced
  refine ⟨_, hrename, ⟨?_, node?_place_self htarget.ne_nil⟩, hsame, ?_⟩
  · exact place?_of_same hsame htarget.place
  · intro hwf
    refine (herased.wellFormed hwf).place htarget.ne_nil (hwf.used hsource.node) ?_
    intro j bs hj
    -- the file had no other place than the one it left
    by_cases hjk : j = k
    · rw [hjk, node?_erase d k k hsource.ne_nil, if_pos rfl] at hj
      cases hj
    · rw [node?_erase_ne hjk] at hj
      exact absurd (hwf.unique hj hsource.node) hjk

end Disk

end DurableStore
