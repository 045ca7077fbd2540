import OffsetExplorer.DataTab.Filters
import OffsetExplorer.Message

/-!
# The request of a fetch

The numbers of the form and of the general settings on their way to the back end, as JSON, and what its
parameter types take.

* `GeneralSettings`, `Setter`: the store of the settings and its setters; `heldSettings`: what it can hold.
* `FetchRequest`, `fetchMessages`: the arguments of `connection_fetch_messages`.
* `readInteger`, `deserialize`: the arguments as the parameters, where every one is of its type.
-/

namespace OffsetExplorer.DataTab

open Binary64

/-! ## The general settings -/

/-- The settings of all connections. -/
structure GeneralSettings where
  zookeeperTimeoutMs : JsNumber
  brokerReadTimeoutMs : JsNumber
  maxMessageSizeBytes : JsNumber
  maxTotalFetchBytes : JsNumber
  deriving DecidableEq

/-- The settings of a new installation. -/
def GeneralSettings.defaults : GeneralSettings where
  zookeeperTimeoutMs := .ofRat 10000
  brokerReadTimeoutMs := .ofRat 10000
  maxMessageSizeBytes := .ofRat 1048576
  maxTotalFetchBytes := .ofRat 536870912

/-- What a setter keeps of its argument: a whole number from one on. -/
def clampPositiveInt (value : JsNumber) : JsNumber :=
  let truncated := value.trunc
  if JsNumber.lt 0 truncated then truncated else 1

/-- A call of one of the setters. -/
inductive Setter where
  | zookeeperTimeoutMs (ms : JsNumber)
  | brokerReadTimeoutMs (ms : JsNumber)
  | maxMessageSizeBytes (bytes : JsNumber)
  | maxTotalFetchBytes (bytes : JsNumber)

/-- Every setter clamps its argument. -/
def GeneralSettings.set (s : GeneralSettings) : Setter → GeneralSettings
  | .zookeeperTimeoutMs ms => { s with zookeeperTimeoutMs := clampPositiveInt ms }
  | .brokerReadTimeoutMs ms => { s with brokerReadTimeoutMs := clampPositiveInt ms }
  | .maxMessageSizeBytes bytes => { s with maxMessageSizeBytes := clampPositiveInt bytes }
  | .maxTotalFetchBytes bytes => { s with maxTotalFetchBytes := clampPositiveInt bytes }

/-- What the store holds after some calls. -/
def heldSettings (calls : List Setter) : GeneralSettings := calls.foldl GeneralSettings.set .defaults

/-! ## The request -/

/-- The arguments of a fetch that are numbers or hold some. -/
structure FetchRequest where
  filter : WireFilter
  readTimeoutMs : JsNumber
  maxMessageSizeBytes : JsNumber
  maxTotalPayloadBytes : JsNumber

/-- The arguments of the command: the filter, and three of the settings. -/
def fetchMessages (filter : WireFilter) (settings : GeneralSettings) : FetchRequest where
  filter := filter
  readTimeoutMs := settings.brokerReadTimeoutMs
  maxMessageSizeBytes := settings.maxMessageSizeBytes
  maxTotalPayloadBytes := settings.maxTotalFetchBytes

/-- The parameters of `connection_fetch_messages` that come from them. -/
structure FetchParameters where
  filter : MessageFilter
  readTimeoutMs : UInt64
  maxMessageSizeBytes : UInt32
  maxTotalPayloadBytes : Option UInt64

/-! ## Deserialization -/

/-- An integer of a range; a number that is written with a point or an exponent is none. -/
def readInteger (low high : ℤ) (v : Double) : Option ℤ :=
  (JsNumber.integerLiteral v).filter fun k => low ≤ k ∧ k ≤ high

/-- serde reads a JSON number as an integer within the bounds of its type. -/
def readI32 (v : Double) : Option ℤ := readInteger (-2 ^ 31) (2 ^ 31 - 1) v

/-- The same with 64 bits. -/
def readI64 (v : Double) : Option ℤ := readInteger (-2 ^ 63) (2 ^ 63 - 1) v

/-- The same with 32 bits and no sign. -/
def readU32 (v : Double) : Option UInt32 :=
  (readInteger 0 (2 ^ 32 - 1) v).map fun k => UInt32.ofNat k.toNat

/-- The same with 64 bits and no sign. -/
def readU64 (v : Double) : Option UInt64 :=
  (readInteger 0 (2 ^ 64 - 1) v).map fun k => UInt64.ofNat k.toNat

/-- An optional parameter takes `null`, and what its type takes. -/
def readOption {α β : Type} (read : α → Option β) : Option α → Option (Option β)
  | none => some none
  | some a => (read a).map some

/-- A time value is a number of its own: it is far below `2 ^ 53`. -/
def TimeValue.toDouble (t : TimeValue) : Double where
  value := t.ms
  nearest_value := nearest_intCast (t.inRange.trans_lt (by norm_num))
  abs_lt := by
    have h : |(t.ms : ℚ)| ≤ 8640000000000000 := by exact_mod_cast t.inRange
    refine h.trans_lt ?_
    calc (8640000000000000 : ℚ) < 2 ^ 53 := by norm_num
      _ ≤ 2 ^ 1024 := pow_le_pow_right₀ one_le_two (by norm_num)

/-- The filter as the back end reads it. One bad number refuses the whole call. -/
def deserializeFilter (filter : WireFilter) : Option MessageFilter := do
  let partitions ← readOption (List.mapM readI32) filter.partitions
  let maxMessagesPerPartition ← readOption readU32 filter.maxMessagesPerPartition
  let maxTotalMessages ← readOption readU32 filter.maxTotalMessages
  let fromTimestampMs ← readOption readI64 (filter.fromTimestampMs.map TimeValue.toDouble)
  let toTimestampMs ← readOption readI64 (filter.toTimestampMs.map TimeValue.toDouble)
  let offset ← readOption readI64 filter.offset
  let maxPayloadPreviewBytes ← readOption readU32 filter.maxPayloadPreviewBytes.toFinite
  return { partitions, maxMessagesPerPartition, maxTotalMessages, fromTimestampMs, toTimestampMs, offset
           includePayload := filter.includePayload, maxPayloadPreviewBytes }

/-- What is infinite or no number is written as `null`. -/
def deserialize (request : FetchRequest) : Option FetchParameters := do
  let filter ← deserializeFilter request.filter
  let readTimeoutMs ← request.readTimeoutMs.toFinite.bind readU64
  let maxMessageSizeBytes ← request.maxMessageSizeBytes.toFinite.bind readU32
  let maxTotalPayloadBytes ← readOption readU64 request.maxTotalPayloadBytes.toFinite
  return { filter, readTimeoutMs, maxMessageSizeBytes, maxTotalPayloadBytes }

end OffsetExplorer.DataTab
