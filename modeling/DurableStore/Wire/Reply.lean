/-
  DurableStore.Wire.Reply
  ────────────────────────────────
  **REPLIES.**

  What is sent to a peer other than commands: status lines, errors,
  integers, byte strings and arrays of these, each with its own marker.
-/
import DurableStore.Wire.Command

namespace DurableStore

/-- A value sent to a peer. -/
inductive Reply where
  | status (text : Bytes)
  | error (text : Bytes)
  | integer (value : Int)
  | bulk (bytes : Bytes)
  /-- The absence of a byte string. -/
  | null
  | array (items : List Reply)
  deriving Inhabited

namespace Reply

/-- A marker, a text and the end of the line. -/
def line (marker : UInt8) (text : Bytes) : Bytes := marker :: (text ++ Wire.crlf)

mutual

/-- The wire form of a reply. -/
def encode : Reply → Bytes
  | .status text => line 43 text
  | .error text => line 45 text
  | .integer value => line 58 (Bytes.ofInt value)
  | .bulk bytes => Wire.bulk bytes
  | .null => line Wire.bulkMarker (Bytes.ofInt (-1))
  | .array items => Wire.header Wire.arrayMarker items.length ++ encodeAll items

/-- The wire forms of replies, one after the other. -/
def encodeAll : List Reply → Bytes
  | [] => []
  | reply :: replies => reply.encode ++ encodeAll replies

end

end Reply

end DurableStore
