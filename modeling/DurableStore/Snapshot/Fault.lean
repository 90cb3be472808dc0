/-
  DurableStore.Snapshot.Fault
  ────────────────────────────────
  **WHAT CAN BE WRONG WITH A SNAPSHOT FILE.**

  One cause per way in which bytes fail to be a snapshot, with its wording.
  A fault inside one of the packed containers names the container and what
  is wrong in it.
-/
import DurableStore.Snapshot.Lzf

namespace DurableStore.Snapshot

/-- Collections stored as one packed string. -/
inductive Container where
  | ziplist
  | listpack
  | zipmap
  | intset
  | quicklist
  deriving DecidableEq, Repr

/-- The name by which a container is reported. -/
def Container.name : Container → String
  | .ziplist => "ziplist"
  | .listpack => "listpack"
  | .zipmap => "zipmap"
  | .intset => "intset"
  | .quicklist => "quicklist"

/-- What is wrong inside a packed container. -/
inductive ContainerFault where
  /-- The container ends before its end marker. -/
  | truncated (position : Nat)
  | miscounted (declared found : Nat)
  | unknownEntry (header : UInt8)
  | invalidWidth (width : Nat)
  | missingValue
  | oddEntries
  | unknownNode (kind : Nat)
  deriving DecidableEq, Repr

/-- The wording of a fault inside a container. -/
def ContainerFault.message : ContainerFault → String
  | .truncated position => s!"truncated at byte {position}"
  | .miscounted declared found => s!"declares {declared} entries but holds {found}"
  | .unknownEntry header => s!"unknown entry encoding 0x{Bytes.hex header}"
  | .invalidWidth width => s!"invalid integer width {width}"
  | .missingValue => "field without a value"
  | .oddEntries => "odd number of entries"
  | .unknownNode kind => s!"unknown node container {kind}"

/-- Why bytes are not a snapshot. -/
inductive Fault where
  | invalidMagic
  | unsupportedVersion (text : String)
  /-- The bytes end, and at least so many more are needed. -/
  | unexpectedEnd (position needed : Nat)
  | invalidLength (first : UInt8)
  | unknownStringForm (form : Nat)
  | unsupportedType (code : UInt8)
  | invalidLzf (fault : Lzf.Fault)
  | invalidContainer (container : Container) (fault : ContainerFault)
  | invalidScore
  | databaseOutOfRange (index count : Nat)
  /-- A deadline stands where no key follows it. -/
  | danglingDeadline
  deriving DecidableEq, Repr

/-- The wording of a fault. -/
def Fault.message : Fault → String
  | .invalidMagic => "invalid magic string"
  | .unsupportedVersion text => s!"unsupported RDB version: {text}"
  | .unexpectedEnd position needed =>
    s!"unexpected end of snapshot at byte {position} (needed {needed} more)"
  | .invalidLength first => s!"invalid length encoding 0x{Bytes.hex first}"
  | .unknownStringForm form => s!"unknown string encoding {form}"
  | .unsupportedType code => s!"unsupported value type {code.toNat}"
  | .invalidLzf fault => s!"invalid LZF data: {fault.message}"
  | .invalidContainer container fault =>
    s!"invalid {container.name} encoding: {fault.message}"
  | .invalidScore => "invalid sorted set score"
  | .databaseOutOfRange index count => s!"database index {index} out of range (0..{count})"
  | .danglingDeadline => "expiration not followed by a key"

end DurableStore.Snapshot
