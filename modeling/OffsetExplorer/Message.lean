import Mathlib.Data.Int.Notation
import Mathlib.Data.Nat.Notation

/-!
# Messages and filters

The wire types of a Data tab fetch: the filter it sends, one row of its grid, and its result.
Partitions and offsets are `i32` and `i64` in the source and integers here.
-/

namespace OffsetExplorer

/-- The filters of the topic Data tab; an absent field filters nothing. -/
structure MessageFilter where
  partitions : Option (List ℤ) := none
  maxMessagesPerPartition : Option UInt32 := none
  maxTotalMessages : Option UInt32 := none
  fromTimestampMs : Option ℤ := none
  toTimestampMs : Option ℤ := none
  offset : Option ℤ := none
  includePayload : Bool := false
  maxPayloadPreviewBytes : Option UInt32 := none
  deriving DecidableEq

/-- A message header; its value is an arbitrary byte string, in base64. -/
structure MessageHeader where
  key : String
  valueBase64 : Option String
  deriving DecidableEq

/-- One row of the Data tab. -/
structure TopicMessage where
  partition : ℤ
  offset : ℤ
  timestampMs : Option ℤ := none
  keyBase64 : Option String := none
  payloadBase64 : Option String := none
  payloadSizeBytes : Option ℕ := none
  headers : List MessageHeader := []
  deriving DecidableEq

/-- The result of a fetch: its rows, how many messages match the filter, and how it ended. -/
structure MessageFetchResult where
  messages : List TopicMessage := []
  totalMatching : ℕ := 0
  pollError : Option String := none
  stoppedAtByteBudget : Bool := false
  payloadBytesRead : ℕ := 0
  deriving DecidableEq

end OffsetExplorer
