import OffsetExplorer.Error
import OffsetExplorer.Lib.TreeTable
import OffsetExplorer.Message
import Mathlib.Algebra.Ring.Int.Defs
import Mathlib.Algebra.Ring.Nat
import Mathlib.Data.List.Sort

/-!
# The plan of a fetch

What `fetch_messages` decides before it polls: how many messages match the filter, and which range
of offsets it reads from each partition.

* `partitionLimits`, `clampOffset`, `newestFirstStartOffset`, `combinedStartOffset`: the offset
  arithmetic, with the 64-bit subtractions of the source (`i64Sub`).
* `distributeTotalBudget`: the total budget over the windows, in its two passes `shareOut` and
  `handOut`.
* `resolveOffsetsByTimestamp`: the answer of `offsets_for_times` with its fallback.
* `planFetch`: the plan; the answers of the broker are a `Broker`.
-/

namespace OffsetExplorer.Fetch

open Std

/-- The map of a value to each partition. -/
abbrev PartitionMap (α : Type) := TreeMap ℤ α

/-- `i64::MAX`. -/
def i64Max : ℤ := 2 ^ 63 - 1

/-- `a - b` on `i64`, which wraps in a release build. -/
def i64Sub (a b : ℤ) : ℤ := (a - b).bmod (2 ^ 64)

/-- The cap of a filter that names none. -/
def defaultMessageCap : UInt32 := 100

/-- The cap that counts. -/
def effectiveMaxMessagesPerPartition (maxMessagesPerPartition : Option UInt32) : UInt32 :=
  maxMessagesPerPartition.getD defaultMessageCap

/-- How many messages to pull from each partition: what is available, up to the cap. -/
def partitionLimits (startOffsets endOffsets : PartitionMap ℤ) (maxPerPartition : Option UInt32) :
    PartitionMap ℤ :=
  let cap := maxPerPartition.elim i64Max fun cap => cap.toNat
  startOffsets.map fun partition start =>
    let «end» := endOffsets[partition]?.getD start
    let available := max (i64Sub «end» start) 0
    min available cap

/-- `offset.clamp(low, high)`. -/
def clampOffset (offset low high : ℤ) : ℤ :=
  if offset < low then low else if high < offset then high else offset

/-- Where the newest messages begin, but not before the first that is kept. -/
def newestFirstStartOffset (low high cap : ℤ) : ℤ := max (i64Sub high cap) low

/-- The later of an explicit start and one resolved from a time. -/
def combinedStartOffset : Option ℤ → Option ℤ → Option ℤ
  | some a, some b => some (max a b)
  | some a, none => some a
  | none, some b => some b
  | none, none => none

/-! ## The total budget -/

/-- Where the distribution of a budget stands: what each partition has, and what is left. -/
structure Allocation where
  allocated : PartitionMap ℤ
  remaining : ℤ

/-- The first pass: an even share of what remains to each partition, smallest window first. -/
def shareOut : List (ℤ × ℤ) → ℤ → Allocation → Allocation
  | [], _, a => a
  | (partition, window) :: rest, sharers, a =>
    if a.remaining ≤ 0 then a
    else
      let share := a.remaining.tdiv sharers
      let take := min window share
      shareOut rest (sharers - 1)
        { allocated := a.allocated.insert partition take, remaining := a.remaining - take }

/-- The second pass: what integer division left over, one message a partition. -/
def handOut : List (ℤ × ℤ) → Allocation → Allocation
  | [], a => a
  | (partition, window) :: rest, a =>
    if a.remaining ≤ 0 then a
    else
      -- every partition was seeded, so the entry is there
      let taken := a.allocated[partition]?.getD 0
      if taken < window then
        handOut rest
          { allocated := a.allocated.insert partition (taken + 1), remaining := a.remaining - 1 }
      else handOut rest a

/-- The order of `sort_by_key` with the key `(window, partition)`. -/
def windowLe (a b : ℤ × ℤ) : Prop := a.2 < b.2 ∨ a.2 = b.2 ∧ a.1 ≤ b.1

instance (a b : ℤ × ℤ) : Decidable (windowLe a b) := inferInstanceAs (Decidable (_ ∨ _))

/-- The partitions by their windows, the smallest first. -/
def byWindow (windows : PartitionMap ℤ) : List (ℤ × ℤ) :=
  (windows.toList.map fun e => (e.1, max e.2 0)).insertionSort windowLe

/-- How many messages to read from each partition, so that all stay within `maxTotal`. -/
def distributeTotalBudget (windows : PartitionMap ℤ) : Option UInt32 → PartitionMap ℤ
  | none => windows
  | some maxTotal =>
    let seeded : Allocation :=
      { allocated := windows.map fun _ _ => 0, remaining := maxTotal.toNat }
    let byWindow := byWindow windows
    (handOut byWindow (shareOut byWindow byWindow.length seeded)).allocated

/-! ## The plan -/

/-- The answer to an `offsets_for_times` request: its elements, with the raw form of each offset. -/
abbrev OffsetsForTimes := List (ℤ × Option ℤ)

/-- The raw offset the answer gives a partition. -/
def OffsetsForTimes.rawOffset (answer : OffsetsForTimes) (partition : ℤ) : Option ℤ :=
  (answer.find? fun elem => elem.1 = partition).bind Prod.snd

/-- `.map(|&p| …).collect::<Result<BTreeMap<_, _>, _>>()` over the target partitions. -/
def collectOffsets {α : Type} (partitions : List ℤ) (f : ℤ → Except Report α) :
    Except Report (PartitionMap α) := do
  let entries ← partitions.mapM fun p => return (p, ← f p)
  return .ofList entries

/-- Each partition's offset at a time, and the fallback where it has none. -/
def resolveOffsetsByTimestamp (answer : OffsetsForTimes) (partitions : List ℤ)
    (fallback : ℤ → Except Report ℤ) : Except Report (PartitionMap ℤ) :=
  collectOffsets partitions fun p =>
    match (answer.rawOffset p).filter fun offset => 0 ≤ offset with
    | some offset => return offset
    | none => fallback p

/-- What a fetch has decided when it starts to poll. -/
structure FetchPlan where
  totalMatching : ℕ
  limits : PartitionMap ℤ
  startOffsets : PartitionMap ℤ
  endOffsets : PartitionMap ℤ

/-- The broker's side of a plan: the partitions of the topic's metadata, the watermark lookup of a
partition, and the answer to `offsets_for_times` at a time. -/
structure Broker where
  topic : String
  partitionIds : List ℤ
  fetchWatermarks : ℤ → Except String (ℤ × ℤ)
  offsetsForTimes : ℤ → Except Report OffsetsForTimes

namespace Broker

variable (b : Broker)

/-- The partitions of the filter, or else all of the topic. -/
def targetPartitions (filter : MessageFilter) : List ℤ := filter.partitions.getD b.partitionIds

/-- The watermark lookup of one partition. -/
def lookupWatermarks (partition : ℤ) : Except Report (ℤ × ℤ) :=
  match b.fetchWatermarks partition with
  | .ok w => .ok w
  | .error reason =>
    .error ⟨.kafka, [s!"failed to fetch watermarks for {b.topic}:{partition}: {reason}"]⟩

/-- Both watermarks of every target. The lookups run in chunks on threads of their own, which are
joined in order, so the error reported is the first one in the order of the targets. -/
def watermarksForPartitions (partitions : List ℤ) : Except Report (PartitionMap (ℤ × ℤ)) :=
  collectOffsets partitions b.lookupWatermarks

/-- The closure `watermarks` over the pairs looked up. -/
def watermarks (found : PartitionMap (ℤ × ℤ)) (partition : ℤ) : Except Report (ℤ × ℤ) :=
  match found[partition]? with
  | some w => .ok w
  | none => .error ⟨.notFound, [s!"no such partition: {b.topic}:{partition}"]⟩

end Broker

section Starts

variable (filter : MessageFilter) (targets : List ℤ) (watermarks : ℤ → Except Report (ℤ × ℤ))
  (offsetsForTimes : ℤ → Except Report OffsetsForTimes)

/-- An explicit offset, clamped into a partition. -/
def explicitStart (offset p : ℤ) : Except Report ℤ := do
  let (low, high) ← watermarks p
  return clampOffset offset low high

/-- The starts of a filter that names an offset. -/
def explicitStartOffsets : Except Report (Option (PartitionMap ℤ)) :=
  match filter.offset with
  | none => return none
  | some offset => do return some (← collectOffsets targets (explicitStart watermarks offset))

/-- The offsets at a time; an unresolved partition falls back to its high watermark. -/
def offsetsAt (ms : ℤ) : Except Report (PartitionMap ℤ) := do
  let answer ← offsetsForTimes ms
  resolveOffsetsByTimestamp answer targets fun p => return (← watermarks p).2

/-- The starts of a filter that names a time. -/
def fromTimestampStartOffsets : Except Report (Option (PartitionMap ℤ)) :=
  match filter.fromTimestampMs with
  | none => return none
  | some ms => do return some (← offsetsAt targets watermarks offsetsForTimes ms)

/-- Where the filter puts the starts, before a count cap narrows them. -/
def filterStartOffsets (explicit fromTimestamp : Option (PartitionMap ℤ)) :
    Except Report (PartitionMap ℤ) :=
  if explicit.isSome || fromTimestamp.isSome then
    return .ofList (targets.map fun p =>
      -- both maps have every target, so the default is never taken
      (p, (combinedStartOffset (explicit.bind (·[p]?)) (fromTimestamp.bind (·[p]?))).getD 0))
  else collectOffsets targets fun p => return (← watermarks p).1

/-- Where the partitions end, by a time or by their watermarks. -/
def filterEndOffsets : Except Report (PartitionMap ℤ) :=
  match filter.toTimestampMs with
  | some ms => offsetsAt targets watermarks offsetsForTimes ms
  | none => collectOffsets targets fun p => return (← watermarks p).2

/-- The starts of a newest-first fetch: each partition begins its allocation back from its end. -/
def newestFirstStartOffsets (endOffsets limits : PartitionMap ℤ) :
    Except Report (PartitionMap ℤ) :=
  collectOffsets targets fun p => do
    let (low, high) ← watermarks p
    return newestFirstStartOffset low (endOffsets[p]?.getD high) (limits[p]?.getD 0)

end Starts

/-- `.values().map(|&available| available.max(0) as u64).sum()`, which wraps in a release build. -/
def sumAvailable (available : PartitionMap ℤ) : ℕ :=
  (available.toList.map fun e => (max e.2 0).toNat).sum % 2 ^ 64

/-- The plan of a fetch, up to the assignment of the partitions. -/
def planFetch (b : Broker) (filter : MessageFilter) : Except Report FetchPlan := do
  let targets := b.targetPartitions filter
  let watermarks := b.watermarks (← b.watermarksForPartitions targets)
  let explicit ← explicitStartOffsets filter targets watermarks
  let fromTimestamp ← fromTimestampStartOffsets filter targets watermarks b.offsetsForTimes
  let filterStarts ← filterStartOffsets targets watermarks explicit fromTimestamp
  let endOffsets ← filterEndOffsets filter targets watermarks b.offsetsForTimes
  let windows := partitionLimits filterStarts endOffsets
    (some (effectiveMaxMessagesPerPartition filter.maxMessagesPerPartition))
  let limits := distributeTotalBudget windows filter.maxTotalMessages
  let startOffsets ←
    if explicit.isSome || fromTimestamp.isSome then pure filterStarts
    else newestFirstStartOffsets targets watermarks endOffsets limits
  return {
    totalMatching := sumAvailable (partitionLimits filterStarts endOffsets none)
    limits, startOffsets, endOffsets }

end OffsetExplorer.Fetch
