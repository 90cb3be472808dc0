/-
  DurableStore.Keyspace.Policy
  ────────────────────────────────
  **EVICTION POLICIES.**

  A policy says which entries may be dropped when memory runs short, and in
  what order they are looked for: the least recently used of a sample, or
  whatever a cursor lands on.  The volatile policies drop only entries that
  have a deadline.
-/
import DurableStore.Value.Entry

namespace DurableStore

/-- What to drop when the memory ceiling is reached. -/
inductive EvictionPolicy where
  /-- Never drop anything. -/
  | noEviction
  /-- The least recently used of a sample of all keys. -/
  | allKeysLru
  /-- Any key, as the cursor meets it. -/
  | allKeysRandom
  /-- The least recently used of the sampled keys with a deadline. -/
  | volatileLru
  /-- Any key with a deadline, as the cursor meets it. -/
  | volatileRandom
  deriving DecidableEq, Repr

namespace EvictionPolicy

/-- All policies. -/
def all : List EvictionPolicy :=
  [.noEviction, .allKeysLru, .allKeysRandom, .volatileLru, .volatileRandom]

/-- The name by which a policy is reported. -/
def name : EvictionPolicy → String
  | .noEviction => "noeviction"
  | .allKeysLru => "allkeys-lru"
  | .allKeysRandom => "allkeys-random"
  | .volatileLru => "volatile-lru"
  | .volatileRandom => "volatile-random"

/-- The letters of a policy name: case, hyphens and underscores do not count. -/
def letters (name : String) : List Char :=
  (name.toList.map Char.toLower).filter fun c => c ≠ '-' ∧ c ≠ '_'

/-- The policy of a name. -/
def ofName? (name : String) : Option EvictionPolicy :=
  all.find? fun policy => letters policy.name = letters name

/-- Whether the policy drops anything at all. -/
def canEvict (policy : EvictionPolicy) : Bool := policy ≠ .noEviction

/-- Whether the policy looks for the least recently used key. -/
def isLru (policy : EvictionPolicy) : Bool :=
  policy = .allKeysLru ∨ policy = .volatileLru

/-- Whether the policy drops only entries with a deadline. -/
def isVolatile (policy : EvictionPolicy) : Bool :=
  policy = .volatileLru ∨ policy = .volatileRandom

/-- Whether the policy may drop an entry. -/
def isEligible (policy : EvictionPolicy) (entry : Entry) : Bool :=
  policy.canEvict && (!policy.isVolatile || entry.expiresAt.isSome)

/-- How many keys one attempt looks at. -/
def sampleSize (policy : EvictionPolicy) : Nat := if policy.isLru then 5 else 1

end EvictionPolicy

end DurableStore
