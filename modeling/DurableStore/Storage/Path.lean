/-
  DurableStore.Storage.Path
  ────────────────────────────────
  **PATHS.**

  A path is a byte string.  Slashes cut it into parts, which are taken one
  after another from the root on: an empty part and `.` stay where they
  are, `..` goes up, and every other part is the name of an entry.  Empty
  parts at the end say that the entry is to be a directory.

      parts                — the parts of a path
      temporary            — the path beside a file where its new content
                             is prepared

  A directory is known by its LOCATION: the names that lead to it from the
  root, the last one first, so that going up drops the head.
-/
import DurableStore.Bytes.Basic

namespace DurableStore

/-- The way to a node on disk, as it is written. -/
abbrev Path := Bytes

/-- The names that lead from the root to a node, the last one first. -/
abbrev Location := List Bytes

namespace Path

/-! ## §1. Parts. -/

/-- The byte between the parts of a path. -/
def slash : UInt8 := 47

/-- The part that stays in a directory. -/
def dot : Bytes := [46]

/-- The part that goes up from a directory. -/
def dotDot : Bytes := [46, 46]

/-- The parts between the slashes of a path, empty ones included. -/
def parts : Path → List Bytes
  | [] => [[]]
  | b :: rest =>
    if b = slash then [] :: parts rest
    else
      match parts rest with
      | [] => [[b]]
      | part :: others => (b :: part) :: others

theorem parts_ne_nil (path : Path) : path.parts ≠ [] := by
  cases path with
  | nil => simp [parts]
  | cons b rest =>
    simp only [parts]
    split
    · simp
    · split <;> simp

/-- The parts of a path from the last one back, without the empty parts at
its end. -/
def partsFromEnd (path : Path) : List Bytes := path.parts.reverse.dropWhile List.isEmpty

/-- Whether a path ends in a slash. -/
def endsInSlash (path : Path) : Bool := path.getLast? = some slash

/-! ## §2. Temporary files. -/

/-- What is left of a path, read from its end, when slashes and `.` parts at
the end are dropped. -/
def trimEnd : List UInt8 → List UInt8
  | 47 :: rest => trimEnd rest
  | [46] => []
  | 46 :: 47 :: rest => trimEnd rest
  | bs => bs

/-- Whether a path, read from its end, ends in the name of an entry. -/
def namesEntry : List UInt8 → Bool
  | [] => false
  | [46, 46] => false
  | 46 :: 46 :: 47 :: _ => false
  | _ => true

/-- The path of an entry of a directory. -/
def entry (directory : Path) (name : Bytes) : Path :=
  if directory = [] ∨ directory.endsInSlash then directory ++ name
  else directory ++ slash :: name

/-- The ending of the names of temporary files. -/
def temporaryEnding : Bytes := Bytes.ofString ".tmp"

/-- Where the new content of a file is prepared before it takes its name:
beside the file, under its name with an ending.  A path that names no entry
is taken for a directory, in which the ending itself is the name. -/
def temporary (path : Path) : Path :=
  let trimmed := trimEnd path.reverse
  if namesEntry trimmed then trimmed.reverse ++ temporaryEnding
  else path.entry temporaryEnding

end Path

end DurableStore
