/-
  DurableStore.Config.Sources
  ────────────────────────────────
  **WHERE DIRECTIVES COME FROM.**

  A configuration file holds one directive per line: a name, a blank and
  the value, which may stand in double quotes.  Empty lines and lines that
  begin with `#` are passed over.

  On the command line a directive is `--name value`.  The first argument
  may instead name a configuration file, which is applied before the
  directives after it.

  So whatever the default has and every directive keeps, every configuration
  has that is read (`holds_of_ofArgs`).
-/
import DurableStore.Config.Basic

namespace DurableStore.Config

/-! ## §1. Files. -/

/-- Applies a line of a configuration file. -/
def applyLine (c : Config) (line : List Char) : Except Error Config :=
  let line := Text.trim line
  match line with
  | [] => .ok c
  | '#' :: _ => .ok c
  | _ =>
    match Text.cutAtBlank? line with
    | some (name, value) =>
      c.apply (String.ofList name) (String.ofList (Text.unquote (Text.trim value)))
    | none => .error (.missingValue (String.ofList line))

/-- Applies lines up to the first that is refused. -/
def applyLines (c : Config) : List (List Char) → Except Error Config
  | [] => .ok c
  | line :: rest => do
    let c ← c.applyLine line
    c.applyLines rest

/-- Applies the text of a configuration file. -/
def applyText (c : Config) (text : String) : Except Error Config :=
  c.applyLines (Text.lines text.toList)

/-- The configuration of a text. -/
def ofText (text : String) : Except Error Config := default.applyText text

/-! ## §2. Command lines. -/

/-- The name of a directive on the command line. -/
def flagName? (argument : String) : Option String :=
  match argument.toList with
  | '-' :: '-' :: name => some (String.ofList name)
  | _ => none

/-- Applies the directives of a command line. -/
def applyFlags (c : Config) : List String → Except Error Config
  | [] => .ok c
  | argument :: rest =>
    match flagName? argument with
    | none => .error (.invalidFlag argument)
    | some name =>
      match rest with
      | [] => .error (.missingValue name)
      | value :: rest => do
        let c ← c.apply name value
        c.applyFlags rest

/-- The configuration of a command line, without the name of the program.
`readFile` gives the text of a file, or the reason why it cannot be read. -/
def ofArgs (readFile : String → Except String String) (args : List String) :
    Except Error Config :=
  match args with
  | path :: rest =>
    match flagName? path with
    | some _ => default.applyFlags args
    | none =>
      match readFile path with
      | .error reason => .error (.unreadableFile path reason)
      | .ok text => do
        let c ← default.applyText text
        c.applyFlags rest
  | [] => .ok default

/-! ## §3. What every configuration has. -/

section Sources

variable {P : Config → Prop} {c c' : Config}
  (hkeeps : ∀ {c c' name value}, P c → apply c name value = .ok c' → P c')

include hkeeps

/-- What every directive keeps, a line keeps. -/
theorem holds_of_applyLine {line : List Char} (hc : P c) (h : c.applyLine line = .ok c') :
    P c' := by
  unfold applyLine at h
  dsimp only at h
  split at h
  · cases h
    exact hc
  · cases h
    exact hc
  · split at h
    · exact hkeeps hc h
    · cases h

/-- So does a text, by induction on its lines. -/
theorem holds_of_applyLines {lines : List (List Char)} (hc : P c)
    (h : c.applyLines lines = .ok c') : P c' := by
  induction lines generalizing c with
  | nil =>
    cases h
    exact hc
  | cons line lines ih =>
    rw [applyLines] at h
    cases hline : c.applyLine line with
    | error error =>
      rw [hline] at h
      cases h
    | ok next =>
      rw [hline] at h
      exact ih (holds_of_applyLine hkeeps hc hline) h

/-- And so does a command line, by induction on its directives. -/
theorem holds_of_applyFlags {args : List String} (hc : P c) (h : c.applyFlags args = .ok c') :
    P c' := by
  induction c, args using applyFlags.induct with
  | case1 c =>
    cases h
    exact hc
  | case2 c argument rest hname =>
    rw [applyFlags, hname] at h
    cases h
  | case3 c argument name hname =>
    rw [applyFlags, hname] at h
    cases h
  | case4 c argument name hname value rest ih =>
    rw [applyFlags, hname] at h
    dsimp only at h
    cases hnext : c.apply name value with
    | error error =>
      rw [hnext] at h
      cases h
    | ok next =>
      rw [hnext] at h
      exact ih next (hkeeps hc hnext) h

/-- **Every configuration that is read has what the default has and every directive keeps.** -/
theorem holds_of_ofArgs (hdefault : P default) {readFile : String → Except String String}
    {args : List String} (h : ofArgs readFile args = .ok c) : P c := by
  unfold ofArgs at h
  split at h
  · split at h
    · exact holds_of_applyFlags hkeeps hdefault h
    · -- the first argument names a file, and the flags after it change what the file says
      split at h
      · cases h
      · rename_i text _
        cases htext : default.applyText text with
        | error error =>
          rw [htext] at h
          cases h
        | ok next =>
          rw [htext] at h
          exact holds_of_applyFlags hkeeps (holds_of_applyLines hkeeps hdefault htext) h
  · cases h
    exact hdefault

end Sources

/-- **Every configuration that is read has a database.** -/
theorem databases_pos_of_ofArgs {c : Config} {readFile : String → Except String String}
    {args : List String} (h : ofArgs readFile args = .ok c) : 0 < c.databases :=
  holds_of_ofArgs (P := fun c => 0 < c.databases) databases_pos_of_apply (by decide) h

end DurableStore.Config
