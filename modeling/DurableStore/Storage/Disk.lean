/-
  DurableStore.Storage.Disk
  ────────────────────────────────
  **THE DISK.**

  What the store keeps on disk is a tree of directories and files, seen as a
  finite map from location to node.  A file has an identity besides its
  bytes, so that an open file stays the same file when it is renamed, and
  nobody sees it any more when its name is removed or given to another file.

  A path is LOCATED by walking its parts from the root: every part but the
  last has to lead into a directory.  What it comes to is an entry, present
  or not, or a directory reached without naming it (the root, `.`, `..`).

  Every operation either succeeds or is obstructed by what stands in its
  way: a file cannot be written, read or put where a directory is, nor
  anything where its directory is missing.

  Main results:
    * `node?_place`, `node?_erase`, `node?_append` — what each change of the
      tree does to a lookup.
-/
import DurableStore.Storage.Path

namespace DurableStore

/-- What stands at a location. -/
inductive Node where
  | directory
  /-- A file, by its identity and its bytes. -/
  | file (id : Nat) (bytes : Bytes)
  deriving DecidableEq, Repr

/-- What obstructs an operation on the disk. -/
inductive DiskError where
  /-- A directory stands where a file should be. -/
  | isDirectory
  /-- A file stands where a directory should be. -/
  | notDirectory
  /-- Nothing stands where a file or directory should be. -/
  | absent
  /-- Something stands where nothing should be. -/
  | occupied
  /-- A directory that should be empty is not. -/
  | notEmpty
  /-- A name or a whole path is too long. -/
  | tooLong
  /-- A path holds a zero byte. -/
  | zeroByte
  /-- A directory is reached without its name. -/
  | unnamed
  deriving DecidableEq, Repr

/-- The wording of an obstruction. -/
def DiskError.message : DiskError → String
  | .isDirectory => "is a directory"
  | .notDirectory => "not a directory"
  | .absent => "no such file or directory"
  | .occupied => "file exists"
  | .notEmpty => "directory not empty"
  | .tooLong => "file name too long"
  | .zeroByte => "file name contains a zero byte"
  | .unnamed => "device or resource busy"

/-- A node with more bytes at its end if it is the file of an identity. -/
def Node.append (id : Nat) (bytes : Bytes) : Node → Node
  | .file i old => if i = id then .file i (old ++ bytes) else .file i old
  | .directory => .directory

/-- Directories and files by their location. -/
structure Disk where
  nodes : List (Location × Node)
  /-- No file has this identity or a greater one. -/
  fresh : Nat
  deriving DecidableEq

/-- A file opened for appending, by its identity. -/
structure Handle where
  id : Nat
  deriving DecidableEq, Repr

/-- What a path comes to. -/
inductive Spot where
  /-- A directory that the path reaches without naming it. -/
  | unnamed
  /-- An entry of a directory; `slashed` if slashes follow its name. -/
  | entry (location : Location) (slashed : Bool)
  deriving DecidableEq, Repr

namespace Disk

/-! ## §1. The tree. -/

/-- A disk with nothing in its root. -/
def empty : Disk := ⟨[], 0⟩

/-- The node that a list of places has for a location. -/
def nodeIn? (l : Location) : List (Location × Node) → Option Node
  | [] => none
  | (k, node) :: rest => if l = k then some node else nodeIn? l rest

/-- What stands at a location; the root is always there. -/
def node? (d : Disk) (l : Location) : Option Node :=
  if l = [] then some .directory else nodeIn? l d.nodes

/-- The disk without what stands at a location. -/
def erase (d : Disk) (l : Location) : Disk :=
  { d with nodes := d.nodes.filter fun p => p.1 ≠ l }

/-- The disk with another node at a location. -/
def place (d : Disk) (l : Location) (node : Node) : Disk :=
  { d with nodes := (l, node) :: (d.erase l).nodes }

/-- The disk with a new file at a location, and its identity. -/
def create (d : Disk) (l : Location) (bytes : Bytes) : Disk × Nat :=
  ({ d.place l (.file d.fresh bytes) with fresh := d.fresh + 1 }, d.fresh)

/-- Appends to an open file.  If its name is gone, nobody sees what is
written. -/
def append (d : Disk) (h : Handle) (bytes : Bytes) : Disk :=
  { d with nodes := d.nodes.map fun p => (p.1, p.2.append h.id bytes) }

/-- Whether a directory has an entry. -/
def hasEntry (d : Disk) (l : Location) : Bool :=
  d.nodes.any fun p => p.1 ≠ [] && p.1.tail = l

theorem nodeIn?_erased (l k : Location) (ps : List (Location × Node)) :
    nodeIn? k (ps.filter fun p => p.1 ≠ l) = if k = l then none else nodeIn? k ps := by
  induction ps with
  | nil => simp [nodeIn?]
  | cons p rest ih =>
    obtain ⟨m, node⟩ := p
    by_cases hm : m = l
    · subst hm
      rw [List.filter_cons_of_neg (by simp), ih]
      by_cases hk : k = m <;> simp [nodeIn?, hk]
    · rw [List.filter_cons_of_pos (by simp [hm])]
      by_cases hk : k = m
      · simp [nodeIn?, hk, hm]
      · simp only [nodeIn?, hk, if_false, ih]

theorem nodeIn?_appended (id : Nat) (bytes : Bytes) (k : Location)
    (ps : List (Location × Node)) :
    nodeIn? k (ps.map fun p => (p.1, p.2.append id bytes)) =
      (nodeIn? k ps).map (Node.append id bytes) := by
  induction ps with
  | nil => rfl
  | cons p rest ih =>
    by_cases hk : k = p.1 <;> simp [nodeIn?, hk, ← ih]

@[simp] theorem node?_root (d : Disk) : d.node? [] = some .directory := by simp [node?]

theorem node?_erase (d : Disk) (l k : Location) (h : k ≠ []) :
    (d.erase l).node? k = if k = l then none else d.node? k := by
  simpa only [node?, erase, h, if_false] using nodeIn?_erased l k d.nodes

theorem node?_place (d : Disk) (l k : Location) (node : Node) (h : k ≠ []) :
    (d.place l node).node? k = if k = l then some node else d.node? k := by
  by_cases hk : k = l
  · simp [node?, place, nodeIn?, hk, hk ▸ h]
  · simpa [node?, place, erase, nodeIn?, h, hk] using nodeIn?_erased l k d.nodes

theorem node?_create (d : Disk) (l k : Location) (bytes : Bytes) (h : k ≠ []) :
    (d.create l bytes).1.node? k =
      if k = l then some (.file d.fresh bytes) else d.node? k :=
  node?_place d l k (.file d.fresh bytes) h

@[simp] theorem node?_append (d : Disk) (handle : Handle) (bytes : Bytes) (k : Location) :
    (d.append handle bytes).node? k = (d.node? k).map (Node.append handle.id bytes) := by
  by_cases hk : k = []
  · simp [hk, Node.append]
  · simpa only [node?, append, hk, if_false] using nodeIn?_appended handle.id bytes k d.nodes

/-! ## §2. Locating. -/

/-- The greatest length of a name. -/
def nameLimit : Nat := 255

/-- The length that a whole path does not reach. -/
def pathLimit : Nat := 4096

/-- Takes one part of a path in a directory; what it comes to has to be a
directory. -/
def step (d : Disk) (here : Location) (part : Bytes) : Except DiskError Location :=
  if part = [] ∨ part = Path.dot then .ok here
  else if part = Path.dotDot then .ok here.tail
  else if nameLimit < part.length then .error .tooLong
  else
    match d.node? (part :: here) with
    | some .directory => .ok (part :: here)
    | some (.file _ _) => .error .notDirectory
    | none => .error .absent

/-- Takes parts of a path one after another from the root on. -/
def walk (d : Disk) (parts : List Bytes) : Except DiskError Location :=
  parts.foldlM d.step []

/-- What a path comes to when all its parts but the last lead to a directory. -/
def spot (here : Location) (name : Bytes) (slashed : Bool) : Except DiskError Spot :=
  if name = Path.dot ∨ name = Path.dotDot then .ok .unnamed
  else if nameLimit < name.length then .error .tooLong
  else .ok (.entry (name :: here) slashed)

/-- Finds what a path comes to. -/
def locate (d : Disk) (path : Path) : Except DiskError Spot :=
  if 0 ∈ path then .error .zeroByte
  else if path = [] then .error .absent
  else if pathLimit ≤ path.length then .error .tooLong
  else
    match path.partsFromEnd with
    | [] => .ok .unnamed
    | name :: before => do
      let here ← d.walk before.reverse
      spot here name path.endsInSlash

/-- What stands at an entry; only a directory stands where slashes follow
the name. -/
def present (d : Disk) (l : Location) (slashed : Bool) : Except DiskError Node :=
  match d.node? l, slashed with
  | some (.file _ _), true => .error .notDirectory
  | some node, _ => .ok node
  | none, _ => .error .absent

/-- What stands where a path leads. -/
def find (d : Disk) (path : Path) : Except DiskError Node := do
  match ← d.locate path with
  | .unnamed => return .directory
  | .entry l slashed => d.present l slashed

/-- Whether anything stands where a path leads. -/
def exists? (d : Disk) (path : Path) : Bool :=
  match d.find path with
  | .ok _ => true
  | .error _ => false

/-- The bytes of the file where a path leads, if there is a file. -/
def bytes? (d : Disk) (path : Path) : Option Bytes :=
  match d.find path with
  | .ok (.file _ bytes) => some bytes
  | _ => none

/-- The location where a path names a file or the place for one. -/
def place? (d : Disk) (path : Path) : Except DiskError Location := do
  match ← d.locate path with
  | .entry l false => return l
  | _ => throw .isDirectory

/-! ## §3. Files. -/

/-- Reads a whole file; none if nothing stands there. -/
def read (d : Disk) (path : Path) : Except DiskError (Option Bytes) :=
  match d.find path with
  | .ok (.file _ bytes) => .ok (some bytes)
  | .ok .directory => .error .isDirectory
  | .error .absent => .ok none
  | .error error => .error error

/-- Makes a file have exactly the given bytes; an existing file stays the
same file. -/
def write (d : Disk) (path : Path) (bytes : Bytes) : Except DiskError Disk := do
  let l ← d.place? path
  match d.node? l with
  | none => return (d.create l bytes).1
  | some (.file id _) => return d.place l (.file id bytes)
  | some .directory => throw .isDirectory

/-- Opens a file for appending; an absent one is created. -/
def openAppend (d : Disk) (path : Path) : Except DiskError (Disk × Handle) := do
  let l ← d.place? path
  match d.node? l with
  | none =>
    let (d, id) := d.create l []
    return (d, ⟨id⟩)
  | some (.file id _) => return (d, ⟨id⟩)
  | some .directory => throw .isDirectory

/-- Cuts a file to a length. -/
def truncate (d : Disk) (path : Path) (length : Nat) : Except DiskError Disk := do
  match ← d.locate path with
  | .unnamed => throw .isDirectory
  | .entry l slashed =>
    match ← d.present l slashed with
    | .file id bytes => return d.place l (.file id (bytes.take length))
    | .directory => throw .isDirectory

/-- Removes a file. -/
def remove (d : Disk) (path : Path) : Except DiskError Disk := do
  match ← d.locate path with
  | .unnamed => throw .isDirectory
  | .entry l slashed =>
    match ← d.present l slashed with
    | .file _ _ => return d.erase l
    | .directory => throw .isDirectory

/-- Removes a file if there is one. -/
def discard (d : Disk) (path : Path) : Disk :=
  match d.remove path with
  | .ok d => d
  | .error _ => d

/-- The location that a file may be renamed to: there is no directory, and
the path does not ask for one. -/
def renameTarget (d : Disk) (path : Path) : Except DiskError Location := do
  match ← d.locate path with
  | .unnamed => throw .unnamed
  | .entry _ true => throw .notDirectory
  | .entry l false => if d.node? l = some .directory then throw .isDirectory else return l

/-- Gives a file another name, replacing the file that had it. -/
def rename (d : Disk) (source target : Path) : Except DiskError Disk := do
  let old ← d.place? source
  match d.node? old with
  | some (.file id bytes) =>
    let new ← d.renameTarget target
    return (d.erase old).place new (.file id bytes)
  | some .directory => throw .isDirectory
  | none => throw .absent

/-! ## §4. Directories. -/

/-- Makes a directory where nothing stands. -/
def makeDirectory (d : Disk) (path : Path) : Except DiskError Disk := do
  match ← d.locate path with
  | .unnamed => throw .occupied
  | .entry l _ => if (d.node? l).isSome then throw .occupied else return d.place l .directory

/-- Makes a directory unless something obstructs that. -/
def withDirectory (d : Disk) (path : Path) : Disk :=
  match d.makeDirectory path with
  | .ok d => d
  | .error _ => d

/-- Removes a directory without entries. -/
def removeDirectory (d : Disk) (path : Path) : Except DiskError Disk := do
  match ← d.locate path with
  | .unnamed => throw .unnamed
  | .entry l _ =>
    match ← d.present l false with
    | .file _ _ => throw .notDirectory
    | .directory => if d.hasEntry l then throw .notEmpty else return d.erase l

end Disk

/-! ## Replacing a file as a whole. -/

/-- Prepares the new content of a file beside it and then gives it the name,
so that the old content is there until the new one is complete.  If that is
obstructed, what was prepared is removed. -/
def Disk.replace (d : Disk) (path : Path) (bytes : Bytes) : Disk × Except DiskError Unit :=
  match d.write path.temporary bytes with
  | .error error => (d.discard path.temporary, .error error)
  | .ok d =>
    match d.rename path.temporary path with
    | .ok d => (d, .ok ())
    | .error error => (d.discard path.temporary, .error error)

end DurableStore
