/-
  DurableStore.Proofs.Config.Spellings
  ────────────────────────────────
  **TWO SPELLINGS OF ONE CONFIGURATION.**

  A directive is a line of a file, or two arguments of a command line:

      maxmemory 2mb              --maxmemory 2mb

  The line is trimmed, told from a comment, cut at a blank and unquoted
  before anything is applied; the arguments are taken as they are.  For a
  directive that survives this (`Plain`) both mean the same, in a row as well
  as alone: the directives are applied in order, up to the first one that is
  refused.

  Main results:
    * `applyLine_line`, `applyFlags_flags` — what one spelling of each means;
    * `file_spells_flags` — a file says what flags in its place would say.
-/
import DurableStore.Config.Sources

namespace DurableStore

/-! ## §1. Text that is left alone. -/

namespace Text

/-- Characters that stay at both ends keep all that is between them. -/
theorem trimBy_of_ends {isGone : Char → Bool} {cs : List Char}
    (hfirst : ∀ c, cs.head? = some c → isGone c = false)
    (hlast : ∀ c, cs.getLast? = some c → isGone c = false) : trimBy isGone cs = cs := by
  have hkeep : ∀ ds : List Char, (∀ c, ds.head? = some c → isGone c = false) →
      ds.dropWhile isGone = ds := by
    intro ds hds
    cases ds with
    | nil => rfl
    | cons d ds => rw [List.dropWhile_cons_of_neg (by rw [hds d rfl]; decide)]
  unfold trimBy
  rw [hkeep cs hfirst, hkeep cs.reverse, List.reverse_reverse]
  intro c hc
  rw [List.head?_reverse] at hc
  exact hlast c hc

/-- The first blank is the one behind the name. -/
theorem cutAtBlank?_append {name rest : List Char} (hname : ∀ c ∈ name, isBlank c = false) :
    cutAtBlank? (name ++ ' ' :: rest) = some (name, rest) := by
  have hstay : ∀ c ∈ name, (!isBlank c) = true := fun c hc => by rw [hname c hc]; rfl
  unfold cutAtBlank?
  rw [List.dropWhile_append_of_pos hstay, List.takeWhile_append_of_pos hstay]
  have hdrop : (' ' :: rest).dropWhile (fun c => !isBlank c) = ' ' :: rest := rfl
  have htake : (' ' :: rest).takeWhile (fun c => !isBlank c) = [] := rfl
  rw [hdrop, htake, List.append_nil]

theorem lines_of_not_mem {line : List Char} (h : '\n' ∉ line) : lines line = [line] := by
  induction line with
  | nil => rfl
  | cons c line ih =>
    rw [List.mem_cons, not_or] at h
    rw [lines, if_neg (Ne.symm h.1), ih h.2]

theorem lines_append {line rest : List Char} (h : '\n' ∉ line) :
    lines (line ++ '\n' :: rest) = line :: lines rest := by
  induction line with
  | nil => rfl
  | cons c line ih =>
    rw [List.mem_cons, not_or] at h
    rw [List.cons_append, lines, if_neg (Ne.symm h.1), ih h.2]

theorem lines_ne_nil (cs : List Char) : lines cs ≠ [] := by
  cases cs with
  | nil => exact List.cons_ne_nil _ _
  | cons c cs =>
    unfold lines
    split
    · exact List.cons_ne_nil _ _
    · split <;> exact List.cons_ne_nil _ _

/-- What ends a text begins another line. -/
theorem lines_append_end (cs : List Char) : lines (cs ++ ['\n']) = lines cs ++ [[]] := by
  induction cs with
  | nil => rfl
  | cons c cs ih =>
    rw [List.cons_append, lines, lines, ih]
    split
    · rfl
    · cases hlines : lines cs with
      | nil => exact absurd hlines (lines_ne_nil cs)
      | cons line rest => rfl

/-- Lines that are written with a line end between any two of them are read again. -/
theorem lines_intercalate {ls : List (List Char)} (hne : ls ≠ []) (h : ∀ line ∈ ls, '\n' ∉ line) :
    lines (['\n'].intercalate ls) = ls := by
  induction ls with
  | nil => exact absurd rfl hne
  | cons line ls ih =>
    obtain ⟨hline, hls⟩ := List.forall_mem_cons.1 h
    cases ls with
    | nil =>
      rw [List.intercalate_singleton]
      exact lines_of_not_mem hline
    | cons next ls =>
      rw [List.intercalate_cons_cons, List.append_assoc]
      exact (lines_append hline).trans (congrArg (line :: ·) (ih (List.cons_ne_nil _ _) hls))

end Text

namespace Config

/-! ## §2. The two spellings. -/

/-- A directive as a line of a file. -/
def line (d : String × String) : String := d.1 ++ " " ++ d.2

/-- A directive as two arguments of a command line. -/
def flag (d : String × String) : List String := ["--" ++ d.1, d.2]

/-- A file of directives, with or without an end to its last line. -/
def file (ended : Bool) (ds : List (String × String)) : String :=
  "\n".intercalate (ds.map line) ++ if ended then "\n" else ""

/-- A directive that a line of a file does not change: the name is a word that begins no
comment, and the value stays on the line and has nothing at its ends that is taken off. -/
structure Plain (d : String × String) : Prop where
  named : d.1 ≠ ""
  word : ∀ c ∈ d.1.toList, Text.isBlank c = false
  noComment : d.1.toList.head? ≠ some '#'
  valued : d.2 ≠ ""
  oneLine : '\n' ∉ d.2.toList
  ends : ∀ c, d.2.toList.head? = some c ∨ d.2.toList.getLast? = some c →
    Text.isBlank c = false ∧ c ≠ '"'

/-- Applies directives up to the first that is refused. -/
def applyAll (c : Config) (ds : List (String × String)) : Except Error Config :=
  ds.foldlM (fun c d => c.apply d.1 d.2) c

variable {c : Config} {d : String × String} {ds : List (String × String)}

theorem toList_line (d : String × String) : (line d).toList = d.1.toList ++ ' ' :: d.2.toList := by
  unfold line
  rw [String.toList_append, String.toList_append, List.append_assoc]
  rfl

namespace Plain

theorem exists_first (h : Plain d) :
    ∃ first rest, d.1.toList = first :: rest ∧ Text.isBlank first = false ∧ first ≠ '#' := by
  obtain ⟨first, rest, hname⟩ :=
    List.exists_cons_of_ne_nil (mt String.toList_eq_nil_iff.1 h.named)
  have hword := h.word
  have hcomment := h.noComment
  rw [hname] at hword hcomment
  exact ⟨first, rest, hname, hword first List.mem_cons_self,
    fun hsharp => hcomment (congrArg some hsharp)⟩

/-- Nothing is taken off a plain line. -/
theorem trim_line (h : Plain d) : Text.trim (line d).toList = (line d).toList := by
  rw [toList_line]
  refine Text.trimBy_of_ends (fun c hc => ?_) fun c hc => ?_
  · obtain ⟨first, rest, hname, hblank, -⟩ := h.exists_first
    rw [hname] at hc
    cases hc
    exact hblank
  · obtain ⟨first, rest, hvalue⟩ :=
      List.exists_cons_of_ne_nil (mt String.toList_eq_nil_iff.1 h.valued)
    refine (h.ends c (.inr ?_)).1
    rw [hvalue] at hc ⊢
    rw [List.getLast?_append, List.getLast?_cons_cons] at hc
    rw [← hc]
    rfl

/-- Nothing is taken off a plain value. -/
theorem unquote_value (h : Plain d) : Text.unquote (Text.trim d.2.toList) = d.2.toList := by
  have htrim : Text.trim d.2.toList = d.2.toList :=
    Text.trimBy_of_ends (fun c hc => (h.ends c (.inl hc)).1) fun c hc => (h.ends c (.inr hc)).1
  rw [htrim]
  refine Text.trimBy_of_ends (fun c hc => ?_) fun c hc => ?_
  · exact beq_eq_false_iff_ne.2 (h.ends c (.inl hc)).2
  · exact beq_eq_false_iff_ne.2 (h.ends c (.inr hc)).2

theorem not_mem_line (h : Plain d) : '\n' ∉ (line d).toList := by
  rw [toList_line, List.mem_append, List.mem_cons]
  rintro (hname | hblank | hvalue)
  · exact absurd (h.word _ hname) (by decide)
  · exact absurd hblank (by decide)
  · exact h.oneLine hvalue

/-- **A plain line means its directive.** -/
theorem applyLine_line (h : Plain d) (c : Config) :
    c.applyLine (line d).toList = c.apply d.1 d.2 := by
  obtain ⟨first, rest, hname, -, hsharp⟩ := h.exists_first
  have hcut : Text.cutAtBlank? (first :: (rest ++ ' ' :: d.2.toList))
      = some (d.1.toList, d.2.toList) := by
    rw [← List.cons_append, ← hname]
    exact Text.cutAtBlank?_append h.word
  unfold applyLine
  rw [h.trim_line, toList_line, hname, List.cons_append]
  dsimp only
  split
  · rename_i hnil
    cases hnil
  · rename_i hcomment
    exact absurd (List.cons.inj hcomment).1 hsharp
  · rw [hcut]
    dsimp only
    rw [h.unquote_value, String.ofList_toList, String.ofList_toList]

end Plain

/-! ## §3. Directives in a row. -/

/-- Plain lines in a row mean their directives, by induction on these; what comes after them is
read if none of them is refused. -/
theorem applyLines_lines (hplain : ∀ d ∈ ds, Plain d) (c : Config) (rest : List (List Char)) :
    c.applyLines (ds.map (fun d => (line d).toList) ++ rest)
      = c.applyAll ds >>= fun c => c.applyLines rest := by
  induction ds generalizing c with
  | nil => rfl
  | cons d ds ih =>
    obtain ⟨hd, hds⟩ := List.forall_mem_cons.1 hplain
    rw [List.map_cons, List.cons_append, applyLines, hd.applyLine_line]
    unfold applyAll
    rw [List.foldlM_cons, bind_assoc]
    exact bind_congr fun c => ih hds c

theorem flagName?_flag (name : String) : flagName? ("--" ++ name) = some name := by
  unfold flagName?
  rw [String.toList_append]
  exact congrArg some String.ofList_toList

/-- Flags in a row mean their directives, whatever these are. -/
theorem applyFlags_flags (c : Config) (ds : List (String × String)) :
    c.applyFlags (ds.flatMap flag) = c.applyAll ds := by
  induction ds generalizing c with
  | nil => rfl
  | cons d ds ih =>
    show c.applyFlags (("--" ++ d.1) :: d.2 :: ds.flatMap flag) = _
    rw [applyFlags, flagName?_flag]
    unfold applyAll
    rw [List.foldlM_cons]
    exact bind_congr fun c => ih c

theorem ofArgs_flags (readFile : String → Except String String) (ds : List (String × String)) :
    ofArgs readFile (ds.flatMap flag) = default.applyAll ds := by
  rw [← applyFlags_flags]
  cases ds with
  | nil => rfl
  | cons d ds =>
    show ofArgs readFile (("--" ++ d.1) :: d.2 :: ds.flatMap flag) = _
    unfold ofArgs
    dsimp only
    rw [flagName?_flag]
    rfl

/-- Empty lines mean nothing. -/
theorem applyLines_empty {rest : List (List Char)} (h : ∀ line ∈ rest, line = []) (c : Config) :
    c.applyLines rest = .ok c := by
  induction rest with
  | nil => rfl
  | cons line rest ih =>
    obtain ⟨rfl, hrest⟩ := List.forall_mem_cons.1 h
    exact ih hrest

/-- The lines of a file are those that were written, and perhaps empty ones behind them. -/
theorem lines_file (hplain : ∀ d ∈ ds, Plain d) (ended : Bool) :
    ∃ rest, (∀ line ∈ rest, line = []) ∧
      Text.lines (file ended ds).toList = ds.map (fun d => (line d).toList) ++ rest := by
  have hwritten : ∃ rest, (∀ line ∈ rest, line = []) ∧
      Text.lines ("\n".intercalate (ds.map line)).toList
        = ds.map (fun d => (line d).toList) ++ rest := by
    rw [String.toList_intercalate, List.map_map]
    cases ds with
    -- no directives are one empty line
    | nil => exact ⟨[[]], by simp, rfl⟩
    | cons d ds =>
      refine ⟨[], nofun, ?_⟩
      rw [List.append_nil]
      refine Text.lines_intercalate (List.cons_ne_nil _ _) fun l hl => ?_
      obtain ⟨d', hd', rfl⟩ := List.mem_map.1 hl
      exact (hplain d' hd').not_mem_line
  obtain ⟨rest, hrest, hlines⟩ := hwritten
  unfold file
  rw [String.toList_append]
  cases ended with
  | false => exact ⟨rest, hrest, by rw [← hlines]; exact congrArg Text.lines (List.append_nil _)⟩
  | true =>
    -- a line end at the end begins one more empty line
    refine ⟨rest ++ [[]], ?_, ?_⟩
    · intro l hl
      rcases List.mem_append.1 hl with hl | hl
      · exact hrest l hl
      · exact List.mem_singleton.1 hl
    · rw [← List.append_assoc, ← hlines]
      exact Text.lines_append_end _

theorem applyText_file (hplain : ∀ d ∈ ds, Plain d) (ended : Bool) (c : Config) :
    c.applyText (file ended ds) = c.applyAll ds := by
  obtain ⟨rest, hempty, hlines⟩ := lines_file hplain ended
  unfold applyText
  rw [hlines, applyLines_lines hplain]
  have hrest : (fun c : Config => c.applyLines rest) = pure := funext (applyLines_empty hempty)
  rw [hrest, bind_pure]

/-- **A file says what flags in its place would say.**  The lines of plain directives make the
configuration, or the first error, that the same directives make on a command line; and a file
that is named before flags counts as flags before these. -/
theorem file_spells_flags (hplain : ∀ d ∈ ds, Plain d) (ended : Bool)
    (readFile : String → Except String String) :
    ofText (file ended ds) = ofArgs readFile (ds.flatMap flag)
      ∧ ∀ path more, flagName? path = none → readFile path = .ok (file ended ds) →
        ofArgs readFile (path :: more.flatMap flag) = ofArgs readFile ((ds ++ more).flatMap flag) := by
  constructor
  · rw [ofArgs_flags]
    exact applyText_file hplain ended default
  · intro path more hpath hread
    have hall : ∀ c : Config,
        c.applyAll (ds ++ more) = c.applyAll ds >>= fun c => c.applyAll more :=
      fun c => List.foldlM_append
    rw [ofArgs_flags, hall]
    unfold ofArgs
    dsimp only
    rw [hpath, hread]
    dsimp only
    rw [applyText_file hplain]
    exact bind_congr fun c => applyFlags_flags c more

/-- Two directives for a file, the value of the second with a blank inside. -/
def twoDirectives : List (String × String) := [("maxmemory", "1mb"), ("DIR", "my data")]

/-- A flag after the file replaces what the file says. -/
theorem file_spells_flags_two :
    (∀ d ∈ twoDirectives, Plain d)
      ∧ ofText (file false twoDirectives)
        = ofArgs (fun _ => .error "absent") ["--maxmemory", "1mb", "--DIR", "my data"]
      ∧ ofArgs (fun _ => .ok (file true twoDirectives)) ["engine.conf", "--maxmemory", "2k"]
        = ofArgs (fun _ => .ok (file true twoDirectives))
          ["--maxmemory", "1mb", "--DIR", "my data", "--maxmemory", "2k"]
      ∧ ofArgs (fun _ => .ok (file true twoDirectives)) ["engine.conf", "--maxmemory", "2k"]
        = .ok { default with maxMemory := 2000, directory := "my data" } := by
  -- a name is a word if a look at its characters finds no blank
  have hword : ∀ name : String, (name.toList.any Text.isBlank) = false →
      ∀ c ∈ name.toList, Text.isBlank c = false := fun name hname c hc =>
    Bool.eq_false_iff.2 (List.any_eq_false.1 hname c hc)
  have hplain : ∀ d ∈ twoDirectives, Plain d := by
    intro d hd
    rcases List.mem_cons.1 hd with rfl | hd
    · refine ⟨by decide, hword _ (by decide), by decide, by decide, by decide, ?_⟩
      rintro c (hc | hc) <;> cases hc <;> decide
    · rw [List.mem_singleton.1 hd]
      refine ⟨by decide, hword _ (by decide), by decide, by decide, by decide, ?_⟩
      rintro c (hc | hc) <;> cases hc <;> decide
  obtain ⟨hfile, -⟩ := file_spells_flags hplain false fun _ => .error "absent"
  obtain ⟨-, hflags⟩ := file_spells_flags hplain true fun _ => .ok (file true twoDirectives)
  refine ⟨hplain, hfile, hflags "engine.conf" [("maxmemory", "2k")] (by decide) rfl, ?_⟩
  rfl

end Config

end DurableStore
