import OffsetExplorer.Client.Pools
import OffsetExplorer.Fetch.Poll
import OffsetExplorer.Lib.RoundRobin
import Mathlib.Algebra.BigOperators.Group.List.Basic
import Std.Data.String.ToNat

/-!
# The consumers of a fetch

`fetch_messages` spreads its partitions over consumers, and each has a queue of its own that it fetches
ahead into. How many there may be is reckoned in bytes, and the queue is set in kilobytes.

* `fetchConsumerConfig`, `consumerConfigs`: what the consumers are created from; `queueBytes`: the queue
  of such a one.
* `dealPartitions`, `Loop.assignments`: the partitions go to the consumers in turn; `Loop.Deals`: what
  is asked of that.
* `queueBytes_fetchConsumerConfig`: the queue that is set; `queue_le`, `le_queue`: it is within the
  reckoning, and has room for a message.
* **`shards_cover`**: the queues keep to the ceiling, and every partition is with one consumer.
-/

namespace OffsetExplorer.Fetch

open Std ClientPools

/-! ## Creating the consumers -/

/-- The queue of one consumer: two messages of the largest size, and 8 MiB at least. -/
def prefetchKbytes (maxMessageSizeBytes : UInt32) : ℕ := max (maxMessageSizeBytes.toNat * 2 / 1024) 8192

/-- What the consumers of a fetch are created from. -/
def fetchConsumerConfig (env : Environment) (connection : Core.Connection)
    (maxMessageSizeBytes : UInt32) : ClientConfig :=
  let config := clientConfig env connection
  let config := config.set "group.id" "salty-message-browser"
  let config := config.set "enable.auto.commit" "false"
  let config := config.set "max.partition.fetch.bytes" (Nat.repr maxMessageSizeBytes.toNat)
  let config := config.set "queued.max.messages.kbytes" (Nat.repr (prefetchKbytes maxMessageSizeBytes))
  let config := config.set "fetch.queue.backoff.ms" "10"
  let config := config.set "fetch.wait.max.ms" "50"
  config.set "enable.partition.eof" "true"

/-- The fetch's own consumer, and one more for each further shard. -/
def consumerConfigs (config : ClientConfig) (shardCount : ℕ) : List ClientConfig :=
  config :: if 1 < shardCount then (List.range' 1 (shardCount - 1)).map fun _ => config else []

/-- How far the consumer with these settings fetches ahead, in bytes. -/
def queueBytes (config : ClientConfig) : Option ℕ :=
  ((config.get? "queued.max.messages.kbytes").bind String.toNat?).map (· * 1024)

/-! ## Dealing the partitions -/

/-- Partitions of the topic, and the offsets to read them from. -/
abbrev TopicPartitionList := List (ℤ × ℤ)

/-- The error of an assignment that librdkafka refuses. -/
def assignmentError : Report :=
  { error := .kafka, attachments := ["failed to build partition assignment"] }

/-- The loop over the partitions with work. `takes` tells whether a list takes a partition at an
offset. -/
def dealPartitions (takes : ℤ → ℤ → Bool) (startOffsets : PartitionMap ℤ) (consumers : ℕ) :
    List TopicPartitionList → ℕ → List ℤ → Except Report (List TopicPartitionList)
  | assignments, _, [] => .ok assignments
  | assignments, position, partition :: working =>
    let start := startOffsets[partition]?.getD 0
    if takes partition start then
      dealPartitions takes startOffsets consumers
        (assignments.modify (position % consumers) (· ++ [(partition, start)])) (position + 1) working
    else .error assignmentError

namespace Loop

variable (c : Loop) (takes : ℤ → ℤ → Bool)

/-- Where the consumer of the partition is put. -/
def startOffset (partition : ℤ) : ℤ := c.plan.startOffsets[partition]?.getD 0

/-- How many consumers this fetch has. -/
def shardCount : ℕ := fetchShardCount c.working.length c.maxMessageSizeBytes

/-- Their configurations. -/
def consumers (env : Environment) (connection : Core.Connection) : List ClientConfig :=
  consumerConfigs (fetchConsumerConfig env connection c.maxMessageSizeBytes) c.shardCount

/-- What each of so many consumers is assigned. -/
def assignments (consumers : ℕ) : Except Report (List TopicPartitionList) :=
  dealPartitions takes c.plan.startOffsets consumers (List.replicate consumers []) 0 c.working

/-- Every partition with work is with one consumer, once and at its start, and no consumer is idle while
there is work. -/
structure Deals (assignments : List TopicPartitionList) : Prop where
  one : ∀ partition ∈ c.working,
    ∃! shard : ℕ, ∃ assignment : TopicPartitionList,
      assignments[shard]? = some assignment ∧ partition ∈ assignment.map Prod.fst
  once : ∀ assignment ∈ assignments, (assignment.map Prod.fst).Nodup
  only : ∀ assignment ∈ assignments, ∀ entry ∈ assignment,
    entry.1 ∈ c.working ∧ entry.2 = c.startOffset entry.1
  busy : c.working ≠ [] → ∀ assignment ∈ assignments, assignment ≠ []

end Loop

/-! ## The number of shards -/

variable {partitions : ℕ} {size : UInt32} {c : Loop}

theorem fetchShardCount_pos (partitions : ℕ) (size : UInt32) : 1 ≤ fetchShardCount partitions size := by
  rw [fetchShardCount]
  split_ifs with hnone
  · exact le_rfl
  · exact le_min (le_min (Nat.one_le_iff_ne_zero.mpr hnone) (by decide)) (le_max_right _ _)

theorem fetchShardCount_le (partitions : ℕ) (size : UInt32) :
    fetchShardCount partitions size ≤ min 8 (max partitions 1) := by
  rw [fetchShardCount]
  split_ifs with hnone
  · rw [hnone]
    decide
  · refine (min_le_left _ _).trans (le_min (min_le_right _ _) ?_)
    exact (min_le_left _ _).trans (le_max_left _ _)

theorem fetchShardCount_mul_le (hmany : fetchShardCount partitions size ≠ 1) :
    fetchShardCount partitions size * max (size.toNat * 2) (8 * 1024 * 1024) ≤
      shardPrefetchCeilingBytes := by
  have hpos := fetchShardCount_pos partitions size
  have hafford : fetchShardCount partitions size ≤
      max (shardPrefetchCeilingBytes / max (size.toNat * 2) (8 * 1024 * 1024)) 1 := by
    rw [fetchShardCount]
    split_ifs
    · exact le_max_right _ _
    · exact min_le_right _ _
  have hroom := (le_max_iff.mp hafford).resolve_right (by omega)
  exact Nat.mul_le_of_le_div _ _ _ hroom

/-! ## The queues -/

theorem queue_le (size : UInt32) :
    prefetchKbytes size * 1024 ≤ max (size.toNat * 2) (8 * 1024 * 1024) := by
  rw [prefetchKbytes, ← Nat.mul_max_mul_right]
  exact max_le_max (Nat.div_mul_le_self _ _) le_rfl

/-- What is rounded off is less than a kilobyte, and the queue has room for two messages. -/
theorem le_queue (size : UInt32) : size.toNat ≤ prefetchKbytes size * 1024 := by
  have hfloor : 8192 ≤ prefetchKbytes size := le_max_right _ _
  have htwice : size.toNat * 2 / 1024 ≤ prefetchKbytes size := le_max_left _ _
  omega

theorem queueBytes_fetchConsumerConfig (env : Environment) (connection : Core.Connection) (size : UInt32) :
    queueBytes (fetchConsumerConfig env connection size) = some (prefetchKbytes size * 1024) := by
  rw [queueBytes, fetchConsumerConfig, Record.get?_set_ne _ (by decide),
    Record.get?_set_ne _ (by decide), Record.get?_set_ne _ (by decide), Record.get?_set_self,
    Option.bind_some, Nat.toNat?_repr, Option.map_some]

theorem consumerConfigs_eq {config : ClientConfig} {shardCount : ℕ} (hpos : 1 ≤ shardCount) :
    consumerConfigs config shardCount = List.replicate shardCount config := by
  obtain ⟨further, rfl⟩ := Nat.exists_eq_add_of_le' hpos
  rw [consumerConfigs, List.replicate_succ, Nat.add_sub_cancel]
  split_ifs with hmany
  · rw [List.map_const', List.length_range']
  · rw [show further = 0 by omega, List.replicate_zero]

theorem Loop.consumers_eq (env : Environment) (connection : Core.Connection) :
    c.consumers env connection =
      List.replicate c.shardCount (fetchConsumerConfig env connection c.maxMessageSizeBytes) :=
  consumerConfigs_eq (fetchShardCount_pos _ _)

theorem sum_queueBytes_le (env : Environment) (connection : Core.Connection)
    (hmany : c.shardCount ≠ 1) :
    ((c.consumers env connection).filterMap queueBytes).sum ≤ 128 * 1024 * 1024 := by
  have hqueue := queueBytes_fetchConsumerConfig env connection c.maxMessageSizeBytes
  calc ((c.consumers env connection).filterMap queueBytes).sum
      = c.shardCount * (prefetchKbytes c.maxMessageSizeBytes * 1024) := by
        rw [Loop.consumers_eq, List.filterMap_replicate_of_some hqueue, List.sum_replicate,
          Nat.nsmul_eq_mul]
    _ ≤ c.shardCount * max (c.maxMessageSizeBytes.toNat * 2) (8 * 1024 * 1024) :=
        Nat.mul_le_mul_left _ (queue_le _)
    _ ≤ 128 * 1024 * 1024 := fetchShardCount_mul_le hmany

/-! ## The assignments -/

theorem Loop.nodup_working : c.working.Nodup := by
  have hkeys : (c.plan.limits.toList.map Prod.fst).Nodup := by
    rw [TreeMap.map_fst_toList_eq_keys]
    exact TreeMap.nodup_keys
  exact hkeys.sublist (List.filter_sublist.map Prod.fst)

variable {takes : ℤ → ℤ → Bool} {starts : PartitionMap ℤ} {consumers position : ℕ}
  {lists : List TopicPartitionList} {working : List ℤ}

theorem dealPartitions_of_takes
    (h : ∀ partition ∈ working, takes partition (starts[partition]?.getD 0) = true) :
    dealPartitions takes starts consumers lists position working =
      .ok (RoundRobin.deal consumers lists position
        (working.map fun partition => (partition, starts[partition]?.getD 0))) := by
  induction working generalizing lists position with
  | nil => rfl
  | cons partition working ih =>
    obtain ⟨htaken, hrest⟩ := List.forall_mem_cons.mp h
    rw [dealPartitions, if_pos htaken, ih hrest, List.map_cons, RoundRobin.deal]

theorem dealPartitions_of_not_takes
    (h : ∃ partition ∈ working, takes partition (starts[partition]?.getD 0) = false) :
    dealPartitions takes starts consumers lists position working = .error assignmentError := by
  induction working generalizing lists position with
  | nil => simp at h
  | cons partition working ih =>
    rw [dealPartitions]
    split_ifs with htaken
    · obtain ⟨refused, hmem, hrefused⟩ := h
      refine ih ⟨refused, (List.mem_cons.mp hmem).resolve_left ?_, hrefused⟩
      rintro rfl
      exact Bool.false_ne_true (hrefused.symm.trans htaken)
    · rfl

/-- The partitions with work, and where each starts. -/
def Loop.entries (c : Loop) : List (ℤ × ℤ) :=
  c.working.map fun partition => (partition, c.startOffset partition)

/-- The entries of a shard. -/
def Loop.shard (c : Loop) (shard : ℕ) : TopicPartitionList :=
  RoundRobin.hand c.shardCount shard 0 c.entries

/-- The lists of all the shards. -/
def Loop.dealt (c : Loop) : List TopicPartitionList :=
  RoundRobin.deal c.shardCount (List.replicate c.shardCount []) 0 c.entries

theorem Loop.map_fst_entries : c.entries.map Prod.fst = c.working := by
  rw [Loop.entries, List.map_map]
  exact List.map_id' _

theorem Loop.length_dealt : c.dealt.length = c.shardCount := by
  rw [Loop.dealt, RoundRobin.length_deal, List.length_replicate]

theorem Loop.getElem?_dealt_iff {shard : ℕ} {assignment : TopicPartitionList} :
    c.dealt[shard]? = some assignment ↔ shard < c.shardCount ∧ c.shard shard = assignment := by
  rw [Loop.dealt, RoundRobin.getElem?_deal_replicate, Option.ite_none_right_eq_some,
    Option.some.injEq, Loop.shard]

theorem Loop.exists_of_mem_dealt {assignment : TopicPartitionList} (h : assignment ∈ c.dealt) :
    ∃ shard < c.shardCount, c.shard shard = assignment := by
  obtain ⟨shard, hshard⟩ := List.mem_iff_getElem?.mp h
  exact ⟨shard, Loop.getElem?_dealt_iff.mp hshard⟩

theorem Loop.map_fst_shard (shard : ℕ) :
    (c.shard shard).map Prod.fst = RoundRobin.hand c.shardCount shard 0 c.working := by
  rw [Loop.shard, RoundRobin.map_hand, Loop.map_fst_entries]

theorem Loop.shardCount_le (h : c.working ≠ []) : c.shardCount ≤ c.working.length := by
  have hpos := List.length_pos_iff.mpr h
  have hcount := fetchShardCount_le c.working.length c.maxMessageSizeBytes
  rw [Loop.shardCount]
  omega

theorem Loop.deals_dealt : c.Deals c.dealt := by
  constructor
  case one =>
    intro partition hpartition
    have hseat : ∃! shard, shard < c.shardCount ∧
        partition ∈ RoundRobin.hand c.shardCount shard 0 c.working :=
      RoundRobin.existsUnique_seat (fetchShardCount_pos _ _) c.nodup_working hpartition
    simpa only [Loop.getElem?_dealt_iff, and_assoc, exists_and_left, exists_eq_left',
      Loop.map_fst_shard] using hseat
  case once =>
    intro assignment hassignment
    obtain ⟨shard, -, rfl⟩ := Loop.exists_of_mem_dealt hassignment
    rw [Loop.map_fst_shard]
    exact RoundRobin.nodup_hand c.nodup_working
  case only =>
    intro assignment hassignment entry hentry
    obtain ⟨shard, -, rfl⟩ := Loop.exists_of_mem_dealt hassignment
    obtain ⟨partition, hpartition, rfl⟩ := List.mem_map.mp (RoundRobin.mem_of_mem_hand hentry)
    exact ⟨hpartition, rfl⟩
  case busy =>
    intro hwork assignment hassignment
    obtain ⟨shard, hshard, rfl⟩ := Loop.exists_of_mem_dealt hassignment
    refine RoundRobin.hand_ne_nil hshard ?_
    rw [Loop.entries, List.length_map]
    exact Loop.shardCount_le hwork

/-- The loop deals all of it, unless a list does not take a partition at its offset. -/
theorem Loop.assignments_cases (c : Loop) (takes : ℤ → ℤ → Bool) :
    ((∃ partition ∈ c.working, takes partition (c.startOffset partition) = false) ∧
      c.assignments takes c.shardCount = .error assignmentError) ∨
    c.assignments takes c.shardCount = .ok c.dealt := by
  by_cases h : ∀ partition ∈ c.working, takes partition (c.startOffset partition) = true
  · exact .inr (dealPartitions_of_takes h)
  · push Not at h
    obtain ⟨partition, hpartition, hrefused⟩ := h
    have hnot : ∃ partition ∈ c.working, takes partition (c.startOffset partition) = false :=
      ⟨partition, hpartition, Bool.eq_false_of_not_eq_true hrefused⟩
    exact .inl ⟨hnot, dealPartitions_of_not_takes hnot⟩

/-! ## All of it -/

/-- **`fetch_messages`** creates 1 to 8 consumers and no more than there are partitions, each with a
queue for a message of the maximum size, and all of them within the ceiling, unless it is one; and
unless librdkafka refuses an offset, every partition with work is with one consumer and no consumer is
idle while there is work. -/
theorem shards_cover :
    (∀ partitions size, 1 ≤ fetchShardCount partitions size ∧
      fetchShardCount partitions size ≤ min 8 (max partitions 1)) ∧
    ∀ (env : Environment) (connection : Core.Connection) (c : Loop),
      (c.consumers env connection).length = fetchShardCount c.working.length c.maxMessageSizeBytes ∧
      (∀ config ∈ c.consumers env connection,
        ∃ queue ∈ queueBytes config, c.maxMessageSizeBytes.toNat ≤ queue) ∧
      ((c.consumers env connection).length = 1 ∨
        ((c.consumers env connection).filterMap queueBytes).sum ≤ 128 * 1024 * 1024) ∧
      ∀ takes,
        ((∃ partition ∈ c.working, takes partition (c.startOffset partition) = false) ∧
          c.assignments takes (c.consumers env connection).length = .error assignmentError) ∨
        ∃ assignments,
          c.assignments takes (c.consumers env connection).length = .ok assignments ∧
          assignments.length = (c.consumers env connection).length ∧ c.Deals assignments := by
  refine ⟨fun partitions size => ⟨fetchShardCount_pos _ _, fetchShardCount_le _ _⟩,
    fun env connection c => ?_⟩
  have hlength : (c.consumers env connection).length = c.shardCount := by
    rw [Loop.consumers_eq, List.length_replicate]
  refine ⟨hlength, fun config hconfig => ?_, ?_, fun takes => ?_⟩
  · rw [Loop.consumers_eq] at hconfig
    rw [List.eq_of_mem_replicate hconfig]
    exact ⟨_, queueBytes_fetchConsumerConfig env connection _, le_queue _⟩
  · rw [hlength]
    exact or_iff_not_imp_left.mpr (sum_queueBytes_le env connection)
  · rw [hlength]
    refine (c.assignments_cases takes).imp_right fun hdealt => ?_
    exact ⟨c.dealt, hdealt, Loop.length_dealt, Loop.deals_dealt⟩

end OffsetExplorer.Fetch
