/-
  DurableStore.Value.Basic
  ────────────────────────────────
  **STORED VALUES.**

  A value is a string or one of four collections of byte strings.  The size
  charged for a value is what its parts hold plus a fixed cost per element:

      string       its bytes
      list, set    16 per element, plus its bytes
      hash         16 per field, plus the bytes of field and value
      sorted set   8 for the score and 32 per member, plus its bytes

  A collection without elements is EMPTY and is never kept in a store; the
  empty string is a value like any other.
-/
import DurableStore.Value.SortedSet

namespace DurableStore

/-- The kinds of values. -/
inductive Kind where
  | string
  | list
  | hash
  | set
  | sortedSet
  deriving DecidableEq, Repr

/-- The name by which a kind is reported. -/
def Kind.name : Kind → String
  | .string => "string"
  | .list => "list"
  | .hash => "hash"
  | .set => "set"
  | .sortedSet => "zset"

/-- A stored value. -/
inductive Value where
  | string (bytes : Bytes)
  | list (items : List Bytes)
  | hash (fields : ByteMap Bytes)
  | set (members : ByteSet)
  | sortedSet (members : SortedSet)
  deriving DecidableEq

instance : Inhabited Value := ⟨.string []⟩

/-- The costs of all items together. -/
def totalCost {α : Type} (cost : α → Nat) (items : List α) : Nat :=
  items.foldr (fun item rest => cost item + rest) 0

namespace Value

/-- The fixed cost of an element of a collection. -/
def elementCost : Nat := 16

/-- The kind of a value. -/
def kind : Value → Kind
  | .string _ => .string
  | .list _ => .list
  | .hash _ => .hash
  | .set _ => .set
  | .sortedSet _ => .sortedSet

/-- The collection of a kind without elements; for strings the empty string. -/
def emptyOf : Kind → Value
  | .string => .string []
  | .list => .list []
  | .hash => .hash ByteMap.empty
  | .set => .set ByteMap.empty
  | .sortedSet => .sortedSet SortedSet.empty

/-- The size charged for a value. -/
def size : Value → Nat
  | .string bytes => bytes.length
  | .list items => totalCost (fun item => item.length + elementCost) items
  | .hash fields =>
    totalCost (fun field => field.1.length + field.2.length + elementCost) fields.toList
  | .set members => totalCost (fun member => member.length + elementCost) members.members
  | .sortedSet members =>
    totalCost (fun item => item.1.length + 8 + 2 * elementCost) members.toList

/-- Whether a value is a collection without elements. -/
def isEmptyCollection : Value → Bool
  | .string _ => false
  | .list items => items.isEmpty
  | .hash fields => fields.isEmpty
  | .set members => members.isEmpty
  | .sortedSet members => members.isEmpty

/-! ## Changes.  A change meant for another kind of value does nothing. -/

/-- Appends items to a list. -/
def append (items : List Bytes) : Value → Value
  | .list old => .list (old ++ items)
  | value => value

/-- Puts items before a list, one after the other, so that the last of them
comes first. -/
def prepend (items : List Bytes) : Value → Value
  | .list old => .list (items.reverse ++ old)
  | value => value

/-- Sets fields of a hash. -/
def setFields (pairs : List (Bytes × Bytes)) : Value → Value
  | .hash fields => .hash (fields.insertMany pairs)
  | value => value

/-- Adds members to a set. -/
def addMembers (added : List Bytes) : Value → Value
  | .set members => .set (ByteSet.addMany members added)
  | value => value

/-- Gives members of a sorted set their scores. -/
def setScores (items : List (Bytes × Score)) : Value → Value
  | .sortedSet members => .sortedSet (members.insertMany items)
  | value => value

@[simp] theorem kind_emptyOf (k : Kind) : (emptyOf k).kind = k := by
  cases k <;> rfl

end Value

end DurableStore
