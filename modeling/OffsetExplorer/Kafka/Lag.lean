import OffsetExplorer.Client.Observed
import OffsetExplorer.Kafka.Assignment
import OffsetExplorer.Lib.Chunks
import OffsetExplorer.Lib.Record
import OffsetExplorer.Lib.TreeTable

/-!
# The lag of a consumer group

`fetch_consumer_group_lag`: the assignments of the members are merged, the committed offsets of what they
claim are asked for, and joined with the watermarks of each partition.

* `watermarksForPartitions`: the watermarks of a topic, in chunks on threads of their own.
* `Cluster`: the answers of librdkafka and the broker; `fetchConsumerGroupLag`: the code over them.
* `Assigned`, `LagRow`, `LagTable`: what the rows should be; `LagFailure`: why there are none.
* **`lag_table_complete`**: one row for each assigned partition, with its own offsets and a member that
  claims it.
-/

namespace OffsetExplorer.Kafka

open Std

/-! ## Watermarks -/

/-- `WATERMARK_LOOKUP_CONCURRENCY`. -/
def watermarkLookupConcurrency : ℕ := 16

/-- The low and the high watermark of a partition. -/
abbrev Watermarks := Int64 × Int64

/-- One thread: the partitions it asks for, and the watermarks or the first failure. -/
def lookUpChunk (fetch : Int32 → Except String Watermarks) :
    List Int32 → List Int32 × Except (Int32 × String) (List (Int32 × Watermarks))
  | [] => ([], .ok [])
  | partition :: rest =>
    match fetch partition with
    | .error reason => ([partition], .error (partition, reason))
    | .ok watermarks =>
      let (asked, found) := lookUpChunk fetch rest
      (partition :: asked, found.map ((partition, watermarks) :: ·))

/-- The threads are joined in their order. -/
def joinLookups (topic : String) : List (Except (Int32 × String) (List (Int32 × Watermarks))) →
    TreeMap Int32 Watermarks → Except Report (TreeMap Int32 Watermarks)
  | [], watermarks => .ok watermarks
  | .ok found :: handles, watermarks => joinLookups topic handles (watermarks.insertMany found)
  | .error (partition, reason) :: _, _ =>
    .error ⟨.kafka, [s!"failed to fetch watermarks for {topic}:{partition.toInt}: {reason}"]⟩

/-- What each thread was asked, and the watermarks. -/
structure Lookups where
  asked : List (List Int32)
  result : Except Report (TreeMap Int32 Watermarks)

/-- The partitions are dealt to chunks, each of which stops at a lookup that fails. -/
def watermarksForPartitions (fetch : Int32 → Except String Watermarks) (topic : String)
    (partitions : List Int32) : Lookups :=
  if partitions.isEmpty then { asked := [], result := .ok ∅ }
  else
    let perThread := max ((partitions.length + (watermarkLookupConcurrency - 1)) /
      watermarkLookupConcurrency) 1
    let handles := (Chunks.chunks perThread partitions).map (lookUpChunk fetch)
    { asked := handles.map Prod.fst, result := joinLookups topic (handles.map Prod.snd) ∅ }

/-! ## The group -/

/-- A member of a group, as librdkafka lists it. -/
structure GroupMemberInfo where
  clientId : String
  clientHost : String
  assignment : Option (List UInt8)

/-- A group as the broker lists it; an empty or a dead one has no members. -/
structure GroupInfo where
  name : String
  state : String
  protocolType : String
  members : List GroupMemberInfo
  idle : state = "Empty" ∨ state = "Dead" → members = []

/-- A group that is empty or dead has no members, whatever is listed. -/
def groupMembers (group : GroupInfo) : List GroupMemberInfo :=
  if group.state = "Empty" ∨ group.state = "Dead" then [] else group.members

/-- A partition of a topic. -/
abbrev TopicPartition := String × Int32

/-- What the members claim: the owner of each partition, and how many assignments were tried. -/
structure Claims where
  owners : Record TopicPartition (String × String) := ∅
  decodeFailures : ℕ := 0
  decodeAttempts : ℕ := 0

/-- The loop over the members. A partition that two members claim is the later one's. -/
def claim (protocolType : String) (claims : Claims) (member : GroupMemberInfo) : Claims :=
  if protocolType ≠ "consumer" then claims
  else
    match member.assignment with
    | none => claims
    | some bytes =>
      match decodeConsumerProtocolAssignment bytes with
      | .ok partitions =>
        { claims with
          owners := partitions.foldl
            (fun owners pair => owners.set pair (member.clientId, member.clientHost)) claims.owners
          decodeAttempts := claims.decodeAttempts + 1 }
      | .error _ =>
        { claims with
          decodeFailures := claims.decodeFailures + 1
          decodeAttempts := claims.decodeAttempts + 1 }

/-- What the members claim, a later one over an earlier one. -/
def groupClaims (group : GroupInfo) : Claims :=
  (groupMembers group).foldl (claim group.protocolType) {}

/-! ## The table -/

/-- A row of the answer. -/
structure PartitionLag where
  topic : String
  partition : Int32
  currentOffset : Option Int64
  logEndOffset : Int64
  lag : Option Int64
  clientId : Option String
  clientHost : Option String
  deriving DecidableEq

/-- The answer of the command. -/
structure ConsumerGroupLag where
  state : String
  partitions : List PartitionLag
  deriving DecidableEq

/-- A failed call of the Kafka client, with the reason found for it. -/
structure CallFailure where
  error : KafkaError
  reason : String

/-- A committed offset, raw if it has a raw form. -/
abbrev CommittedOffset := TopicPartition × Option Int64

/-- What comes from outside: the clients, the answers of the broker, the order in which a hash map gives its
keys, and whether the blocking task panics. -/
structure Cluster where
  metadataClient : Except Report Unit
  groupList : Except CallFailure (List GroupInfo)
  groupClient : Except KafkaError Unit
  keyOrder : List TopicPartition → List TopicPartition
  keyOrder_perm : ∀ keys, (keyOrder keys).Perm keys
  committedOffsets : List TopicPartition → Except CallFailure (List CommittedOffset)
  fetchWatermarks : String → Int32 → Except String Watermarks
  panics : Bool := false

/-- The failure of a call, by what the client has to say about it. -/
def CallFailure.report (failure : CallFailure) (what : String) : Report :=
  ObservedClient.failureReport failure.error failure.reason what

/-- `ObservedClient::create` has only the error itself for a reason. -/
def creationReport (error : KafkaError) : Report :=
  ObservedClient.failureReport error error.text "failed to create kafka consumer"

/-- The committed partitions of each topic. -/
def partitionsByTopic (committed : List CommittedOffset) : TreeMap String (List Int32) :=
  committed.foldl (fun byTopic element =>
    byTopic.insert element.1.1 (byTopic[element.1.1]?.getD [] ++ [element.1.2])) ∅

/-- The watermarks of all topics, in the order of the topics. -/
def groupWatermarks (cluster : Cluster) : List (String × List Int32) →
    (TopicPartition → Option Watermarks) → Except Report (TopicPartition → Option Watermarks)
  | [], watermarks => .ok watermarks
  | (topic, partitions) :: rest, watermarks => do
    let found ← (watermarksForPartitions (cluster.fetchWatermarks topic) topic partitions).result
    groupWatermarks cluster rest
      (found.toList.foldl (fun watermarks entry =>
        Function.update watermarks (topic, entry.1) (some entry.2)) watermarks)

/-- One row of the table. -/
def partitionLag (owners : Record TopicPartition (String × String))
    (watermarks : TopicPartition → Option Watermarks) (element : CommittedOffset) : PartitionLag :=
  let currentOffset := element.2.filter (0 ≤ ·)
  let high := ((watermarks element.1).getD (0, 0)).2
  { topic := element.1.1
    partition := element.1.2
    currentOffset
    logEndOffset := high
    lag := currentOffset.map fun current => max (high - current) 0
    clientId := (owners.get? element.1).map Prod.fst
    clientHost := (owners.get? element.1).map Prod.snd }

/-- The table of a group that was found. -/
def groupLag (cluster : Cluster) (groupId : String) (group : GroupInfo) :
    Except Report ConsumerGroupLag :=
  let claims := groupClaims group
  if 0 < claims.decodeAttempts ∧ claims.decodeFailures = claims.decodeAttempts then
    .error ⟨.kafka, [s!"could not determine partition assignment for group {groupId}"]⟩
  else if claims.owners.keys.isEmpty then .ok { state := group.state, partitions := [] }
  else
    match cluster.groupClient with
    | .error error => .error (creationReport error)
    | .ok () =>
      match cluster.committedOffsets (cluster.keyOrder claims.owners.keys) with
      | .error failure => .error (failure.report s!"failed to fetch committed offsets for {groupId}")
      | .ok committed => do
        let watermarks ← groupWatermarks cluster (partitionsByTopic committed).toList fun _ => none
        return { state := group.state, partitions := committed.map (partitionLag claims.owners watermarks) }

/-- The group, its claims, and the offsets of what it claims. -/
def fetchConsumerGroupLag (cluster : Cluster) (groupId : String) : Except Report ConsumerGroupLag :=
  match cluster.metadataClient with
  | .error report => .error report
  | .ok () =>
    if cluster.panics then .error ⟨.kafka, ["fetch_consumer_group_lag task panicked"]⟩
    else
      match cluster.groupList with
      | .error failure => .error (failure.report s!"failed to fetch group list for {groupId}")
      | .ok groups =>
        match groups.find? (·.name = groupId) with
        | none => .error ⟨.notFound, [s!"group {groupId} not found"]⟩
        | some group => groupLag cluster groupId group

/-! ## One lookup for each partition -/

/-- The watermarks that the broker answers, where it does. -/
def marks (fetch : Int32 → Except String Watermarks) (partition : Int32) : Watermarks :=
  ((fetch partition).toOption).getD (0, 0)

variable {fetch : Int32 → Except String Watermarks} {topic : String} {partitions : List Int32}

theorem marks_of_ok {partition : Int32} {w : Watermarks} (h : fetch partition = .ok w) :
    marks fetch partition = w := by
  rw [marks, h]
  rfl

theorem lookUpChunk_ok {found : List (Int32 × Watermarks)}
    (h : (lookUpChunk fetch partitions).2 = .ok found) :
    (lookUpChunk fetch partitions).1 = partitions ∧
      found = partitions.map (fun partition => (partition, marks fetch partition)) ∧
        ∀ partition ∈ partitions, fetch partition = .ok (marks fetch partition) := by
  induction partitions generalizing found with
  | nil =>
    cases h
    exact ⟨rfl, rfl, fun _ hmem => absurd hmem List.not_mem_nil⟩
  | cons partition rest ih =>
    rw [lookUpChunk] at h ⊢
    cases hfetch : fetch partition with
    | error reason =>
      rw [hfetch] at h
      cases h
    | ok w =>
      simp only [hfetch] at h ⊢
      cases hrest : (lookUpChunk fetch rest).2 with
      | error failure =>
        rw [hrest] at h
        cases h
      | ok found =>
        rw [hrest] at h
        cases h
        obtain ⟨hasked, rfl, hall⟩ := ih hrest
        rw [hasked, List.map_cons, marks_of_ok hfetch]
        refine ⟨rfl, rfl, List.forall_mem_cons.mpr ⟨?_, hall⟩⟩
        rw [hfetch, marks_of_ok hfetch]

theorem lookUpChunk_error {failure : Int32 × String}
    (h : (lookUpChunk fetch partitions).2 = .error failure) :
    fetch failure.1 = .error failure.2 := by
  induction partitions with
  | nil => cases h
  | cons partition rest ih =>
    rw [lookUpChunk] at h
    cases hfetch : fetch partition with
    | error reason =>
      rw [hfetch] at h
      cases h
      exact hfetch
    | ok w =>
      simp only [hfetch] at h
      cases hrest : (lookUpChunk fetch rest).2 with
      | error failure =>
        rw [hrest] at h
        cases h
        exact ih hrest
      | ok found =>
        rw [hrest] at h
        cases h

theorem joinLookups_ok {pieces : List (List Int32)} {before after : TreeMap Int32 Watermarks}
    {S : Finset Int32} (hbefore : TreeTable.Tabulates before S (marks fetch))
    (h : joinLookups topic ((pieces.map (lookUpChunk fetch)).map Prod.snd) before = .ok after) :
    (pieces.map (lookUpChunk fetch)).map Prod.fst = pieces ∧
      TreeTable.Tabulates after (S ∪ pieces.flatten.toFinset) (marks fetch) ∧
        ∀ partition ∈ pieces.flatten, fetch partition = .ok (marks fetch partition) := by
  induction pieces generalizing before S with
  | nil =>
    cases h
    refine ⟨rfl, ?_, fun _ hmem => absurd hmem List.not_mem_nil⟩
    rwa [List.flatten_nil, List.toFinset_nil, Finset.union_empty]
  | cons piece pieces ih =>
    rw [List.map_cons, List.map_cons] at h
    cases hpiece : (lookUpChunk fetch piece).2 with
    | error failure =>
      rw [hpiece] at h
      cases h
    | ok found =>
      rw [hpiece, joinLookups] at h
      obtain ⟨hasked, rfl, hall⟩ := lookUpChunk_ok hpiece
      obtain ⟨hrest, htable, hflatten⟩ := ih (hbefore.insertMany piece) h
      rw [List.map_cons, List.map_cons, hasked, hrest, List.flatten_cons, List.toFinset_append,
        ← Finset.union_assoc]
      refine ⟨rfl, htable, fun partition hmem => ?_⟩
      exact (List.mem_append.mp hmem).elim (hall partition) (hflatten partition)

theorem joinLookups_error {pieces : List (List Int32)} {before : TreeMap Int32 Watermarks}
    {report : Report}
    (h : joinLookups topic ((pieces.map (lookUpChunk fetch)).map Prod.snd) before = .error report) :
    ∃ partition reason, fetch partition = .error reason ∧ report =
      ⟨.kafka, [s!"failed to fetch watermarks for {topic}:{partition.toInt}: {reason}"]⟩ := by
  induction pieces generalizing before with
  | nil => cases h
  | cons piece pieces ih =>
    rw [List.map_cons, List.map_cons] at h
    cases hpiece : (lookUpChunk fetch piece).2 with
    | error failure =>
      rw [hpiece] at h
      cases h
      exact ⟨failure.1, failure.2, lookUpChunk_error hpiece, rfl⟩
    | ok found =>
      rw [hpiece, joinLookups] at h
      exact ih h

/-- A thread asks for the partitions of its piece in their order: for all of them if every lookup goes well, and
else up to the first that fails. -/
def UpToFailure (fetch : Int32 → Except String Watermarks) (asked piece : List Int32) : Prop :=
  (asked = piece ∧ ∀ partition ∈ piece, (fetch partition).isOk) ∨
    ∃ front partition rest, piece = front ++ partition :: rest ∧ asked = front ++ [partition] ∧
      (∀ earlier ∈ front, (fetch earlier).isOk) ∧ ¬ (fetch partition).isOk

/-- No partition is asked for twice, each thread stops at its first failure, and each partition is asked for once
if all goes well. -/
structure AskedOnce (fetch : Int32 → Except String Watermarks) (partitions : List Int32) (lookups : Lookups) :
    Prop where
  threads : lookups.asked.length ≤ watermarkLookupConcurrency
  once : ∃ pieces : List (List Int32), pieces.flatten = partitions ∧
    List.Forall₂ (UpToFailure fetch) lookups.asked pieces
  all : ∀ watermarks, lookups.result = .ok watermarks → lookups.asked.flatten = partitions

theorem upToFailure_lookUpChunk (piece : List Int32) : UpToFailure fetch (lookUpChunk fetch piece).1 piece := by
  induction piece with
  | nil => exact Or.inl ⟨rfl, fun _ h => absurd h List.not_mem_nil⟩
  | cons partition rest ih =>
    rw [lookUpChunk]
    cases hfetch : fetch partition with
    | error reason =>
      refine Or.inr ⟨[], partition, rest, rfl, rfl, fun _ h => absurd h List.not_mem_nil, ?_⟩
      rw [hfetch]
      exact Bool.false_ne_true
    | ok w =>
      have hok : (fetch partition).isOk = true := by rw [hfetch]; rfl
      rcases ih with ⟨hasked, hall⟩ | ⟨front, failed, behind, hpiece, hasked, hfront, hfailed⟩
      · refine Or.inl ⟨?_, List.forall_mem_cons.mpr ⟨hok, hall⟩⟩
        exact congrArg (partition :: ·) hasked
      · refine Or.inr ⟨partition :: front, failed, behind, ?_, ?_, List.forall_mem_cons.mpr ⟨hok, hfront⟩, hfailed⟩
        · rw [hpiece, List.cons_append]
        · exact congrArg (partition :: ·) hasked

/-- **Sixteen threads at most, and each partition on one of them.** -/
theorem askedOnce_watermarksForPartitions (fetch : Int32 → Except String Watermarks) (topic : String)
    (partitions : List Int32) :
    AskedOnce fetch partitions (watermarksForPartitions fetch topic partitions) := by
  unfold watermarksForPartitions
  split_ifs with hempty
  · rw [List.isEmpty_iff.mp hempty]
    exact ⟨Nat.zero_le _, ⟨[], rfl, List.Forall₂.nil⟩, fun _ _ => rfl⟩
  · have hpieces := Chunks.flatten_chunks (max ((partitions.length +
      (watermarkLookupConcurrency - 1)) / watermarkLookupConcurrency) 1) partitions
    refine ⟨?_, ⟨_, hpieces, ?_⟩, fun watermarks hok => ?_⟩ <;> dsimp only
    · rw [List.length_map, List.length_map]
      refine Chunks.length_chunks_le (by omega) ?_
      rw [watermarkLookupConcurrency]
      omega
    · rw [List.map_map, List.forall₂_map_left_iff]
      exact List.forall₂_same.mpr fun piece _ => upToFailure_lookUpChunk piece
    · rw [(joinLookups_ok TreeTable.Tabulates.empty hok).1, hpieces]

theorem watermarksForPartitions_ok {watermarks : TreeMap Int32 Watermarks}
    (h : (watermarksForPartitions fetch topic partitions).result = .ok watermarks) :
    TreeTable.Tabulates watermarks partitions.toFinset (marks fetch) ∧
      ∀ partition ∈ partitions, fetch partition = .ok (marks fetch partition) := by
  unfold watermarksForPartitions at h
  split_ifs at h with hempty
  · cases h
    rw [List.isEmpty_iff.mp hempty]
    exact ⟨TreeTable.Tabulates.empty, fun _ hmem => absurd hmem List.not_mem_nil⟩
  · have hjoined := joinLookups_ok TreeTable.Tabulates.empty h
    rw [Chunks.flatten_chunks, Finset.empty_union] at hjoined
    exact hjoined.2

theorem watermarksForPartitions_error {report : Report}
    (h : (watermarksForPartitions fetch topic partitions).result = .error report) :
    ∃ partition reason, fetch partition = .error reason ∧ report =
      ⟨.kafka, [s!"failed to fetch watermarks for {topic}:{partition.toInt}: {reason}"]⟩ := by
  unfold watermarksForPartitions at h
  split_ifs at h
  exact joinLookups_error h

/-! ## What the members claim -/

/-- A partition of an assignment that the member has and that decodes, in a group of consumers. -/
def Assigned (protocolType : String) (member : GroupMemberInfo) (pair : TopicPartition) : Prop :=
  protocolType = "consumer" ∧ ∃ bytes pairs, member.assignment = some bytes ∧
    decodeConsumerProtocolAssignment bytes = .ok pairs ∧ pair ∈ pairs

/-- The assignment of a member was tried, and it did not decode. -/
def Undecodable (protocolType : String) (member : GroupMemberInfo) : Prop :=
  protocolType = "consumer" ∧ ∃ bytes report, member.assignment = some bytes ∧
    decodeConsumerProtocolAssignment bytes = .error report

theorem groupMembers_eq (group : GroupInfo) : groupMembers group = group.members := by
  unfold groupMembers
  split_ifs with hidle
  · exact (group.idle hidle).symm
  · rfl

theorem get?_foldl_set {owners : Record TopicPartition (String × String)} {pairs : List TopicPartition}
    {owner : String × String} (pair : TopicPartition) :
    (pairs.foldl (fun owners pair => owners.set pair owner) owners).get? pair =
      if pair ∈ pairs then some owner else owners.get? pair := by
  induction pairs generalizing owners with
  | nil => rw [List.foldl_nil, if_neg List.not_mem_nil]
  | cons first rest ih =>
    rw [List.foldl_cons, ih, Record.get?_set]
    by_cases hrest : pair ∈ rest
    · rw [if_pos hrest, if_pos (List.mem_cons_of_mem _ hrest)]
    · simp only [hrest, if_false, List.mem_cons, or_false]

/-- What is claimed after some of the members: each owner is one of them, every assigned partition has an
owner, and the assignments that were tried are counted. -/
structure ClaimsOf (protocolType : String) (members : List GroupMemberInfo) (claims : Claims) : Prop where
  owner : ∀ pair owner, claims.owners.get? pair = some owner →
    ∃ member ∈ members, Assigned protocolType member pair ∧ owner = (member.clientId, member.clientHost)
  covered : ∀ member ∈ members, ∀ pair, Assigned protocolType member pair →
    (claims.owners.get? pair).isSome = true
  failures : claims.decodeFailures ≤ claims.decodeAttempts
  undecodable : claims.decodeFailures = claims.decodeAttempts → ∀ member ∈ members,
    protocolType = "consumer" → member.assignment.isSome = true → Undecodable protocolType member
  tried : 0 < claims.decodeAttempts → ∃ member ∈ members,
    protocolType = "consumer" ∧ member.assignment.isSome = true

theorem claimsOf_nil (protocolType : String) : ClaimsOf protocolType [] {} where
  owner := fun _ _ h => by cases h
  covered := fun _ hmem => absurd hmem List.not_mem_nil
  failures := Nat.le_refl _
  undecodable := fun _ _ hmem => absurd hmem List.not_mem_nil
  tried := fun h => absurd h (Nat.lt_irrefl _)

section OneMember

variable {protocolType : String} {members : List GroupMemberInfo} {claims : Claims}
  {member : GroupMemberInfo}

theorem ClaimsOf.snoc {later : Claims} (h : ClaimsOf protocolType members claims)
    (howner : ∀ pair owner, later.owners.get? pair = some owner →
      claims.owners.get? pair = some owner ∨
        Assigned protocolType member pair ∧ owner = (member.clientId, member.clientHost))
    (hcovered : ∀ pair, (claims.owners.get? pair).isSome = true ∨ Assigned protocolType member pair →
      (later.owners.get? pair).isSome = true)
    (hfailures : later.decodeFailures ≤ later.decodeAttempts)
    (hundecodable : later.decodeFailures = later.decodeAttempts →
      claims.decodeFailures = claims.decodeAttempts ∧
        (protocolType = "consumer" → member.assignment.isSome = true → Undecodable protocolType member))
    (htried : 0 < later.decodeAttempts → 0 < claims.decodeAttempts ∨
      protocolType = "consumer" ∧ member.assignment.isSome = true) :
    ClaimsOf protocolType (members ++ [member]) later where
  owner := fun pair owner hget => by
    rcases howner pair owner hget with hold | hnew
    · obtain ⟨m, hm, hassigned⟩ := h.owner pair owner hold
      exact ⟨m, List.mem_append_left _ hm, hassigned⟩
    · exact ⟨member, List.mem_append_right _ (List.mem_singleton_self _), hnew⟩
  covered := fun m hm pair hassigned => by
    refine hcovered pair ?_
    rcases List.mem_append.mp hm with hm | hm
    · exact Or.inl (h.covered m hm pair hassigned)
    · exact Or.inr (List.mem_singleton.mp hm ▸ hassigned)
  failures := hfailures
  undecodable := fun heq m hm htype hsome => by
    obtain ⟨hbefore, hmember⟩ := hundecodable heq
    rcases List.mem_append.mp hm with hm | hm
    · exact h.undecodable hbefore m hm htype hsome
    · cases List.mem_singleton.mp hm
      exact hmember htype hsome
  tried := fun hpos => by
    rcases htried hpos with hbefore | hmember
    · obtain ⟨m, hm, hassigned⟩ := h.tried hbefore
      exact ⟨m, List.mem_append_left _ hm, hassigned⟩
    · exact ⟨member, List.mem_append_right _ (List.mem_singleton_self _), hmember⟩

theorem ClaimsOf.skip (h : ClaimsOf protocolType members claims)
    (hskip : protocolType = "consumer" → member.assignment = none) :
    ClaimsOf protocolType (members ++ [member]) claims := by
  refine h.snoc (fun _ _ => Or.inl) (fun pair hpair => hpair.resolve_right ?_) h.failures
    (fun heq => ⟨heq, fun htype hsome => ?_⟩) Or.inl
  · rintro ⟨htype, bytes, pairs, hbytes, -⟩
    rw [hskip htype] at hbytes
    cases hbytes
  · rw [hskip htype] at hsome
    cases hsome

theorem ClaimsOf.undecoded (h : ClaimsOf protocolType members claims)
    (hmember : Undecodable protocolType member) :
    ClaimsOf protocolType (members ++ [member])
      { claims with
        decodeFailures := claims.decodeFailures + 1
        decodeAttempts := claims.decodeAttempts + 1 } := by
  have hmember' := hmember
  obtain ⟨htype, bytes, report, hbytes, hdecode⟩ := hmember'
  refine h.snoc (fun _ _ => Or.inl) (fun pair hpair => hpair.resolve_right ?_)
    (Nat.succ_le_succ h.failures) (fun heq => ⟨Nat.succ.inj heq, fun _ _ => hmember⟩)
    (fun _ => Or.inr ⟨htype, by rw [hbytes]; rfl⟩)
  rintro ⟨-, bytes', pairs, hbytes', hpairs, -⟩
  rw [hbytes] at hbytes'
  cases hbytes'
  rw [hdecode] at hpairs
  cases hpairs

theorem ClaimsOf.decoded {bytes : List UInt8} {pairs : List TopicPartition}
    (h : ClaimsOf protocolType members claims) (htype : protocolType = "consumer")
    (hbytes : member.assignment = some bytes)
    (hdecode : decodeConsumerProtocolAssignment bytes = .ok pairs) :
    ClaimsOf protocolType (members ++ [member])
      { claims with
        owners := pairs.foldl
          (fun owners pair => owners.set pair (member.clientId, member.clientHost)) claims.owners
        decodeAttempts := claims.decodeAttempts + 1 } := by
  refine h.snoc (fun pair owner hget => ?_) (fun pair hpair => ?_) (Nat.le_succ_of_le h.failures)
    (fun heq => ?_) fun _ => Or.inr ⟨htype, by rw [hbytes]; rfl⟩
  · rw [get?_foldl_set] at hget
    split_ifs at hget with hmem
    · cases hget
      exact Or.inr ⟨⟨htype, bytes, pairs, hbytes, hdecode, hmem⟩, rfl⟩
    · exact Or.inl hget
  · rw [get?_foldl_set]
    split_ifs with hmem
    · rfl
    · refine hpair.resolve_right ?_
      rintro ⟨-, bytes', pairs', hbytes', hpairs, hmem'⟩
      rw [hbytes] at hbytes'
      cases hbytes'
      rw [hdecode] at hpairs
      cases hpairs
      exact hmem hmem'
  · -- this one did decode
    have hle := h.failures
    have heq : claims.decodeFailures = claims.decodeAttempts + 1 := heq
    omega

/-- **One member.** -/
theorem ClaimsOf.claim (h : ClaimsOf protocolType members claims) (member : GroupMemberInfo) :
    ClaimsOf protocolType (members ++ [member]) (claim protocolType claims member) := by
  unfold Kafka.claim
  split_ifs with htype
  · exact h.skip fun heq => absurd heq htype
  · have htype : protocolType = "consumer" := not_not.mp htype
    cases hbytes : member.assignment with
    | none => exact h.skip fun _ => hbytes
    | some bytes =>
      cases hdecode : decodeConsumerProtocolAssignment bytes with
      | error report =>
        simp only [hdecode]
        exact h.undecoded ⟨htype, bytes, report, hbytes, hdecode⟩
      | ok pairs =>
        simp only [hdecode]
        exact h.decoded htype hbytes hdecode

end OneMember

/-- **All members.** -/
theorem claimsOf_groupClaims (group : GroupInfo) :
    ClaimsOf group.protocolType group.members (groupClaims group) := by
  have hrun : ∀ (rest members : List GroupMemberInfo) (claims : Claims),
      ClaimsOf group.protocolType members claims →
        ClaimsOf group.protocolType (members ++ rest) (rest.foldl (claim group.protocolType) claims) := by
    intro rest
    induction rest with
    | nil =>
      intro members claims h
      rwa [List.append_nil]
    | cons member rest ih =>
      intro members claims h
      rw [List.append_cons]
      exact ih _ _ (h.claim member)
  rw [groupClaims, groupMembers_eq]
  exact hrun group.members [] {} (claimsOf_nil _)

/-! ## The watermarks of all topics -/

/-- The partition is listed under its topic. -/
def Listed (byTopic : TreeMap String (List Int32)) (pair : TopicPartition) : Prop :=
  pair.2 ∈ byTopic[pair.1]?.getD []

theorem listed_partitionsByTopic {committed : List CommittedOffset} {element : CommittedOffset}
    (hmem : element ∈ committed) : Listed (partitionsByTopic committed) element.1 := by
  have hinsert : ∀ (byTopic : TreeMap String (List Int32)) (element : CommittedOffset)
      (pair : TopicPartition), pair = element.1 ∨ Listed byTopic pair →
        Listed (byTopic.insert element.1.1 (byTopic[element.1.1]?.getD [] ++ [element.1.2])) pair := by
    intro byTopic element pair h
    unfold Listed at h ⊢
    rw [TreeMap.getElem?_insert]
    split_ifs with htopic
    · have htopic : element.1.1 = pair.1 := by simpa using htopic
      rw [Option.getD_some, htopic]
      rcases h with rfl | h
      · exact List.mem_append_right _ (List.mem_singleton_self _)
      · exact List.mem_append_left _ h
    · refine h.resolve_left ?_
      rintro rfl
      exact htopic compare_self
  have hrun : ∀ (committed : List CommittedOffset) (byTopic : TreeMap String (List Int32))
      (pair : TopicPartition), pair ∈ committed.map Prod.fst ∨ Listed byTopic pair →
        Listed (committed.foldl (fun byTopic element =>
          byTopic.insert element.1.1 (byTopic[element.1.1]?.getD [] ++ [element.1.2])) byTopic) pair := by
    intro committed
    induction committed with
    | nil => exact fun byTopic pair h => h.resolve_left List.not_mem_nil
    | cons element rest ih =>
      intro byTopic pair h
      rw [List.foldl_cons]
      refine ih _ pair ?_
      rw [List.map_cons, List.mem_cons] at h
      rcases h with (h | h) | h
      · exact Or.inr (hinsert byTopic element pair (Or.inl h))
      · exact Or.inl h
      · exact Or.inr (hinsert byTopic element pair (Or.inr h))
  exact hrun committed ∅ element.1 (Or.inl (List.mem_map_of_mem hmem))

/-- The watermarks are those that the broker answers for each partition. -/
def Sound (cluster : Cluster) (watermarks : TopicPartition → Option Watermarks) : Prop :=
  ∀ pair w, watermarks pair = some w → cluster.fetchWatermarks pair.1 pair.2 = .ok w

variable {cluster : Cluster} {watermarks after : TopicPartition → Option Watermarks}

theorem sound_foldl {found : List (Int32 × Watermarks)}
    (hfound : ∀ entry ∈ found, cluster.fetchWatermarks topic entry.1 = .ok entry.2)
    (hsound : Sound cluster watermarks)
    (hafter : found.foldl (fun watermarks entry =>
      Function.update watermarks (topic, entry.1) (some entry.2)) watermarks = after) :
    Sound cluster after ∧ ∀ pair, (watermarks pair).isSome = true ∨
      pair.1 = topic ∧ pair.2 ∈ found.map Prod.fst → (after pair).isSome = true := by
  induction found generalizing watermarks with
  | nil =>
    cases hafter
    exact ⟨hsound, fun pair h => h.resolve_right fun h => List.not_mem_nil h.2⟩
  | cons entry rest ih =>
    have hupdate : Sound cluster (Function.update watermarks (topic, entry.1) (some entry.2)) := by
      intro pair w hget
      rw [Function.update_apply] at hget
      split_ifs at hget with hpair
      · cases hget
        rw [hpair]
        exact hfound entry List.mem_cons_self
      · exact hsound pair w hget
    obtain ⟨hsound', hcovered⟩ :=
      ih (fun e he => hfound e (List.mem_cons_of_mem _ he)) hupdate hafter
    refine ⟨hsound', fun pair h => hcovered pair ?_⟩
    rw [Function.update_apply]
    split_ifs with hpair
    · exact Or.inl rfl
    · refine h.imp_right fun h => ⟨h.1, (List.mem_cons.mp h.2).resolve_left fun heq => ?_⟩
      exact hpair (Prod.ext h.1 heq)

theorem groupWatermarks_ok {entries : List (String × List Int32)} (hsound : Sound cluster watermarks)
    (h : groupWatermarks cluster entries watermarks = .ok after) :
    Sound cluster after ∧ ∀ pair, (watermarks pair).isSome = true ∨
      (∃ entry ∈ entries, entry.1 = pair.1 ∧ pair.2 ∈ entry.2) → (after pair).isSome = true := by
  induction entries generalizing watermarks with
  | nil =>
    cases h
    exact ⟨hsound, fun pair h => h.resolve_right fun ⟨_, hmem, _⟩ => List.not_mem_nil hmem⟩
  | cons entry rest ih =>
    obtain ⟨topic, partitions⟩ := entry
    obtain ⟨found, hfound, hrest⟩ := bind_eq_ok.mp h
    obtain ⟨htable, hall⟩ := watermarksForPartitions_ok hfound
    have hentries : ∀ e ∈ found.toList, cluster.fetchWatermarks topic e.1 = .ok e.2 := by
      intro e he
      have hget := TreeMap.mem_toList_iff_getElem?_eq_some.mp he
      rw [htable e.1] at hget
      split_ifs at hget with hmem
      rw [hall e.1 (List.mem_toFinset.mp hmem), Option.some.inj hget]
    obtain ⟨hsound', hcovered'⟩ := sound_foldl hentries hsound rfl
    obtain ⟨hsound'', hcovered⟩ := ih hsound' hrest
    refine ⟨hsound'', fun pair hpair => hcovered pair ?_⟩
    rcases hpair with hpair | ⟨e, he, htopic, hmem⟩
    · exact Or.inl (hcovered' pair (Or.inl hpair))
    · rcases List.mem_cons.mp he with rfl | he
      · refine Or.inl (hcovered' pair (Or.inr ⟨htopic.symm, ?_⟩))
        rw [TreeMap.map_fst_toList_eq_keys, TreeMap.mem_keys, htable.mem_iff]
        exact List.mem_toFinset.mpr hmem
      · exact Or.inr ⟨e, he, htopic, hmem⟩

theorem groupWatermarks_error {entries : List (String × List Int32)} {report : Report}
    (h : groupWatermarks cluster entries watermarks = .error report) :
    ∃ topic partition reason, cluster.fetchWatermarks topic partition = .error reason ∧ report =
      ⟨.kafka, [s!"failed to fetch watermarks for {topic}:{partition.toInt}: {reason}"]⟩ := by
  induction entries generalizing watermarks with
  | nil => cases h
  | cons entry rest ih =>
    obtain ⟨topic, partitions⟩ := entry
    rw [groupWatermarks] at h
    cases hfound : (watermarksForPartitions (cluster.fetchWatermarks topic) topic partitions).result with
    | error failure =>
      rw [hfound] at h
      cases h
      obtain ⟨partition, reason, hreason⟩ := watermarksForPartitions_error hfound
      exact ⟨topic, partition, reason, hreason⟩
    | ok found =>
      rw [hfound] at h
      exact ih h

theorem marked_of_mem {committed : List CommittedOffset}
    (h : groupWatermarks cluster (partitionsByTopic committed).toList (fun _ => none) = .ok watermarks)
    {element : CommittedOffset} (hmem : element ∈ committed) :
    ∃ low high, watermarks element.1 = some (low, high) ∧
      cluster.fetchWatermarks element.1.1 element.1.2 = .ok (low, high) := by
  obtain ⟨hsound, hcovered⟩ := groupWatermarks_ok (fun _ _ hnone => by cases hnone) h
  have hlisted := listed_partitionsByTopic hmem
  unfold Listed at hlisted
  cases hget : (partitionsByTopic committed)[element.1.1]? with
  | none =>
    rw [hget] at hlisted
    cases hlisted
  | some partitions =>
    rw [hget] at hlisted
    have hsome := hcovered element.1 (Or.inr ⟨(element.1.1, partitions),
      TreeMap.mem_toList_iff_getElem?_eq_some.mpr hget, rfl, hlisted⟩)
    obtain ⟨⟨low, high⟩, hw⟩ := Option.isSome_iff_exists.mp hsome
    exact ⟨low, high, hw, hsound element.1 (low, high) hw⟩

/-! ## The table is complete -/

/-- What the row is about. -/
def PartitionLag.pair (row : PartitionLag) : TopicPartition := (row.topic, row.partition)

/-- A member of the group is assigned the partition. -/
def Claimed (group : GroupInfo) (pair : TopicPartition) : Prop :=
  ∃ member ∈ group.members, Assigned group.protocolType member pair

/-- A row has a member that claims the partition, the partition's own high watermark and its committed
offset, and the difference of the two for a lag. -/
structure LagRow (cluster : Cluster) (group : GroupInfo) (committed : List CommittedOffset)
    (row : PartitionLag) : Prop where
  owner : ∃ member ∈ group.members, Assigned group.protocolType member row.pair ∧
    row.clientId = some member.clientId ∧ row.clientHost = some member.clientHost
  logEnd : ∃ low, cluster.fetchWatermarks row.topic row.partition = .ok (low, row.logEndOffset)
  offset : ∃ raw, (row.pair, raw) ∈ committed ∧ row.currentOffset = raw.filter (0 ≤ ·)
  noLag : row.currentOffset = none → row.lag = none
  lag : 0 ≤ row.logEndOffset → row.lag.map Int64.toInt =
    row.currentOffset.map fun current => max (row.logEndOffset.toInt - current.toInt) 0

/-- One row for each claimed partition, from the answer to a request for these partitions. -/
structure LagTable (cluster : Cluster) (group : GroupInfo) (rows : List PartitionLag) : Prop where
  distinct : (rows.map PartitionLag.pair).Nodup
  complete : ∀ pair, pair ∈ rows.map PartitionLag.pair ↔ Claimed group pair
  row : ∀ row ∈ rows, ∃ asked committed, (∀ pair, pair ∈ asked ↔ Claimed group pair) ∧
    cluster.committedOffsets asked = .ok committed ∧ LagRow cluster group committed row

/-- Why there is no table for a group that was found. -/
inductive LagFailure (cluster : Cluster) (groupId : String) (group : GroupInfo) : Report → Prop where
  | undecodable
    (tried : ∃ member ∈ group.members, Undecodable group.protocolType member)
    (failed : ∀ member ∈ group.members, member.assignment.isSome = true →
      Undecodable group.protocolType member) :
    LagFailure cluster groupId group
      ⟨.kafka, [s!"could not determine partition assignment for group {groupId}"]⟩
  | client {error : KafkaError} (h : cluster.groupClient = .error error) :
    LagFailure cluster groupId group (creationReport error)
  | committed {asked : List TopicPartition} {failure : CallFailure}
    (h : cluster.committedOffsets asked = .error failure) :
    LagFailure cluster groupId group
      (failure.report s!"failed to fetch committed offsets for {groupId}")
  | watermarks {topic : String} {partition : Int32} {reason : String}
    (h : cluster.fetchWatermarks topic partition = .error reason) :
    LagFailure cluster groupId group
      ⟨.kafka, [s!"failed to fetch watermarks for {topic}:{partition.toInt}: {reason}"]⟩
  | panicked (h : cluster.panics = true) :
    LagFailure cluster groupId group ⟨.kafka, ["fetch_consumer_group_lag task panicked"]⟩

/-- The group is there and listed. -/
def Found (cluster : Cluster) (groupId : String) (group : GroupInfo) : Prop :=
  cluster.metadataClient = .ok () ∧
    ∃ groups, cluster.groupList = .ok groups ∧ groups.find? (·.name = groupId) = some group

variable {groupId : String} {group : GroupInfo}

theorem mem_owners : ∀ pair, pair ∈ (groupClaims group).owners.keys ↔ Claimed group pair := by
  have hclaims := claimsOf_groupClaims group
  intro pair
  constructor
  · intro hmem
    obtain ⟨⟨pair, owner⟩, hentry, rfl⟩ := List.mem_map.mp hmem
    obtain ⟨member, hmember, hassigned, -⟩ :=
      hclaims.owner pair owner (Record.get?_of_mem_entries hentry)
    exact ⟨member, hmember, hassigned⟩
  · rintro ⟨member, hmember, hassigned⟩
    obtain ⟨owner, hget⟩ := Option.isSome_iff_exists.mp (hclaims.covered member hmember pair hassigned)
    exact List.mem_map_of_mem (f := Prod.fst) (Record.mem_entries_of_get? hget)

theorem lag_toInt {high current : Int64} (hhigh : 0 ≤ high) (hcurrent : 0 ≤ current) :
    (max (high - current) 0).toInt = max (high.toInt - current.toInt) 0 := by
  have hwrap : (high - current).toInt = high.toInt - current.toInt := by
    rw [Int64.le_iff_toInt_le, Int64.toInt_zero] at hhigh hcurrent
    have hhigh' := high.toInt_lt
    have hcurrent' := current.toInt_lt
    rw [Int64.toInt_sub]
    exact Int.bmod_eq_of_le (by omega) (by omega)
  have hmax : max (high - current) 0 = if high - current ≤ 0 then 0 else high - current := rfl
  rw [hmax]
  split_ifs with h <;> rw [Int64.le_iff_toInt_le, hwrap, Int64.toInt_zero] at h
  · rw [Int64.toInt_zero]
    omega
  · rw [hwrap]
    omega

/-- **One row.** -/
theorem lagRow_of_mem {committed : List CommittedOffset} {watermarks : TopicPartition → Option Watermarks}
    (hmarks : groupWatermarks cluster (partitionsByTopic committed).toList (fun _ => none) =
      .ok watermarks) {element : CommittedOffset} (hmem : element ∈ committed)
    (hclaimed : Claimed group element.1) :
    LagRow cluster group committed (partitionLag (groupClaims group).owners watermarks element) := by
  have hclaims := claimsOf_groupClaims group
  obtain ⟨member, hmember, hassigned⟩ := hclaimed
  obtain ⟨owner, hget⟩ := Option.isSome_iff_exists.mp (hclaims.covered member hmember _ hassigned)
  obtain ⟨m, hm, hm', rfl⟩ := hclaims.owner element.1 owner hget
  obtain ⟨low, high, hw, hfetch⟩ := marked_of_mem hmarks hmem
  have hhigh : (partitionLag (groupClaims group).owners watermarks element).logEndOffset = high := by
    rw [partitionLag, hw]
    rfl
  refine ⟨⟨m, hm, hm', ?_, ?_⟩, ⟨low, ?_⟩, ⟨element.2, hmem, rfl⟩, fun hnone => ?_, fun hpos => ?_⟩
  · rw [partitionLag, hget]
    rfl
  · rw [partitionLag, hget]
    rfl
  · rw [hhigh]
    exact hfetch
  · have hnone : element.2.filter (0 ≤ ·) = none := hnone
    rw [partitionLag, hnone]
    rfl
  · rw [hhigh] at hpos ⊢
    show ((element.2.filter (0 ≤ ·)).map fun current =>
        max (((watermarks element.1).getD (0, 0)).2 - current) 0).map Int64.toInt =
      (element.2.filter (0 ≤ ·)).map fun current => max (high.toInt - current.toInt) 0
    rw [hw, Option.map_map]
    cases hoffset : element.2.filter (0 ≤ ·) with
    | none => rfl
    | some current =>
      have hcurrent : 0 ≤ current := of_decide_eq_true (Option.filter_eq_some_iff.mp hoffset).2
      exact congrArg some (lag_toInt hpos hcurrent)

/-- **The table of a group.** -/
theorem lagTable_groupLag {table : ConsumerGroupLag}
    (hcommitted : ∀ asked committed, cluster.committedOffsets asked = .ok committed →
      (committed.map Prod.fst).Perm asked)
    (h : groupLag cluster groupId group = .ok table) :
    table.state = group.state ∧ LagTable cluster group table.partitions := by
  have howners : ∀ pair, pair ∈ (groupClaims group).owners.keys ↔ Claimed group pair := mem_owners
  rw [groupLag] at h
  split_ifs at h with hfailed hnone
  · cases h
    rw [List.isEmpty_iff] at hnone
    rw [hnone] at howners
    exact ⟨rfl, List.nodup_nil, howners, fun _ hmem => absurd hmem List.not_mem_nil⟩
  · cases hgroup : cluster.groupClient with
    | error error =>
      rw [hgroup] at h
      cases h
    | ok _ =>
      simp only [hgroup] at h
      cases hanswer : cluster.committedOffsets (cluster.keyOrder (groupClaims group).owners.keys) with
      | error failure =>
        simp only [hanswer] at h
        cases h
      | ok committed =>
        simp only [hanswer] at h
        obtain ⟨watermarks, hmarks, htable⟩ := bind_eq_ok.mp h
        cases htable
        have hkeys : (committed.map Prod.fst).Perm (groupClaims group).owners.keys :=
          (hcommitted _ _ hanswer).trans (cluster.keyOrder_perm _)
        have hpairs : (committed.map (partitionLag (groupClaims group).owners watermarks)).map
            PartitionLag.pair = committed.map Prod.fst := by
          rw [List.map_map]
          rfl
        refine ⟨rfl, ?_, fun pair => ?_, fun row hrow => ?_⟩
        · rw [hpairs]
          exact hkeys.nodup_iff.mpr (groupClaims group).owners.nodup
        · rw [hpairs, hkeys.mem_iff, howners]
        · obtain ⟨element, hmem, rfl⟩ := List.mem_map.mp hrow
          refine ⟨_, committed, fun pair => ?_, hanswer, lagRow_of_mem hmarks hmem ?_⟩
          · rw [(cluster.keyOrder_perm _).mem_iff, howners]
          · rw [← howners, ← hkeys.mem_iff]
            exact List.mem_map_of_mem hmem

/-- **Why there is no table.** -/
theorem lagFailure_groupLag {report : Report} (h : groupLag cluster groupId group = .error report) :
    LagFailure cluster groupId group report := by
  have hclaims := claimsOf_groupClaims group
  rw [groupLag] at h
  split_ifs at h with hfailed
  · cases h
    obtain ⟨hpos, heq⟩ := hfailed
    obtain ⟨member, hmember, htype, htried⟩ := hclaims.tried hpos
    refine .undecodable ⟨member, hmember, ?_⟩ fun m hm hsome => ?_
    · exact hclaims.undecodable heq member hmember htype htried
    · exact hclaims.undecodable heq m hm htype hsome
  · cases hgroup : cluster.groupClient with
    | error error =>
      rw [hgroup] at h
      cases h
      exact .client hgroup
    | ok _ =>
      simp only [hgroup] at h
      cases hanswer : cluster.committedOffsets (cluster.keyOrder (groupClaims group).owners.keys) with
      | error failure =>
        simp only [hanswer] at h
        cases h
        exact .committed hanswer
      | ok committed =>
        simp only [hanswer] at h
        cases hmarks : groupWatermarks cluster (partitionsByTopic committed).toList fun _ => none with
        | error failure =>
          rw [hmarks] at h
          cases h
          obtain ⟨topic, partition, reason, hreason, rfl⟩ := groupWatermarks_error hmarks
          exact .watermarks hreason
        | ok watermarks =>
          rw [hmarks] at h
          cases h

/-- **The lag table is complete.** The broker answers a request for committed offsets with the partitions
that were asked for, in any order. -/
theorem lag_table_complete (cluster : Cluster) (groupId : String)
    (hcommitted : ∀ asked committed, cluster.committedOffsets asked = .ok committed →
      (committed.map Prod.fst).Perm asked) :
    (∀ table, fetchConsumerGroupLag cluster groupId = .ok table → ∃ group,
        Found cluster groupId group ∧ table.state = group.state ∧
          LagTable cluster group table.partitions) ∧
      (∀ group report, Found cluster groupId group →
        fetchConsumerGroupLag cluster groupId = .error report →
          LagFailure cluster groupId group report) ∧
        ∀ topic partitions, AskedOnce (cluster.fetchWatermarks topic) partitions
          (watermarksForPartitions (cluster.fetchWatermarks topic) topic partitions) := by
  refine ⟨fun table h => ?_, ?_, fun topic partitions => askedOnce_watermarksForPartitions _ _ _⟩
  · unfold fetchConsumerGroupLag at h
    cases hclient : cluster.metadataClient with
    | error report =>
      rw [hclient] at h
      cases h
    | ok _ =>
      simp only [hclient] at h
      split_ifs at h
      cases hlist : cluster.groupList with
      | error failure =>
        rw [hlist] at h
        cases h
      | ok groups =>
        simp only [hlist] at h
        cases hfind : groups.find? (·.name = groupId) with
        | none =>
          rw [hfind] at h
          cases h
        | some group =>
          rw [hfind] at h
          exact ⟨group, ⟨hclient, groups, hlist, hfind⟩, lagTable_groupLag hcommitted h⟩
  · rintro group report ⟨hclient, groups, hlist, hfind⟩ h
    unfold fetchConsumerGroupLag at h
    simp only [hclient, hlist, hfind] at h
    split_ifs at h with hpanics
    · cases h
      exact .panicked hpanics
    · exact lagFailure_groupLag h

/-! ## A group of two -/

/-- Partitions 0 and 1 of topic `t`. -/
def ordersAssignment : List UInt8 :=
  [0, 0, 0, 0, 0, 1, 0, 1, 0x74, 0, 0, 0, 2, 0, 0, 0, 0, 0, 0, 0, 1]

/-- A member with an assignment, and one whose assignment does not decode. -/
def ordersGroup (protocolType : String) : GroupInfo where
  name := "g"
  state := "Stable"
  protocolType := protocolType
  members := [⟨"a", "/10.0.0.1", some ordersAssignment⟩, ⟨"b", "/10.0.0.2", some []⟩]
  idle := fun h => absurd h (by decide)

/-- A cluster that answers everything; 5 is committed for each partition. -/
def ordersCluster (protocolType : String) (high : Int64) : Cluster where
  metadataClient := .ok ()
  groupList := .ok [ordersGroup protocolType]
  groupClient := .ok ()
  keyOrder := id
  keyOrder_perm := fun _ => List.Perm.refl _
  committedOffsets := fun asked => .ok (asked.reverse.map fun pair => (pair, some 5))
  fetchWatermarks := fun _ _ => .ok (0, high)

example : (fetchConsumerGroupLag (ordersCluster "consumer" 7) "g").toOption = some ⟨"Stable",
    [⟨"t", 1, some 5, 7, some 2, some "a", some "/10.0.0.1"⟩,
      ⟨"t", 0, some 5, 7, some 2, some "a", some "/10.0.0.1"⟩]⟩ := by
  decide +kernel

theorem lag_table_complete_orders :
    let cluster := ordersCluster "consumer" 7
    (∀ table, fetchConsumerGroupLag cluster "g" = .ok table → ∃ group,
        Found cluster "g" group ∧ table.state = group.state ∧
          LagTable cluster group table.partitions) ∧
      (∀ group report, Found cluster "g" group → fetchConsumerGroupLag cluster "g" = .error report →
        LagFailure cluster "g" group report) ∧
        ∀ topic partitions, AskedOnce (cluster.fetchWatermarks topic) partitions
          (watermarksForPartitions (cluster.fetchWatermarks topic) topic partitions) := by
  intro cluster
  refine lag_table_complete cluster "g" fun asked committed h => ?_
  cases h
  rw [List.map_map]
  exact (List.reverse_perm asked).map _ |>.trans (by rw [Function.comp_def, List.map_id'])

/-- librdkafka does not find the certificates of the settings. -/
def certificateError : KafkaError where
  rdkafkaErrorCode := none
  text := "Client creation error: ssl.ca.location failed: No such file or directory"

/-- **Where the table is not what the assignments say.** The group's own client cannot be built, while the
broker answers all that is asked of it; a group of another type has an assignment that decodes; a negative
watermark makes the subtraction wrap around; and a chunk ends with its first failed lookup. -/
theorem lag_table_exceptions :
    (let cluster := { ordersCluster "consumer" 7 with groupClient := .error certificateError };
      Found cluster "g" (ordersGroup "consumer") ∧
        (∀ asked, cluster.committedOffsets asked = .ok (asked.reverse.map fun pair => (pair, some 5))) ∧
          (∀ topic partition, cluster.fetchWatermarks topic partition = .ok (0, 7)) ∧
            fetchConsumerGroupLag cluster "g" = .error (creationReport certificateError)) ∧
      (decodeConsumerProtocolAssignment ordersAssignment = .ok [("t", 0), ("t", 1)] ∧
        fetchConsumerGroupLag (ordersCluster "connect" 7) "g" = .ok ⟨"Stable", []⟩) ∧
      (fetchConsumerGroupLag (ordersCluster "consumer" Int64.minValue) "g" = .ok ⟨"Stable",
        [⟨"t", 1, some 5, Int64.minValue, some 9223372036854775803, some "a", some "/10.0.0.1"⟩,
          ⟨"t", 0, some 5, Int64.minValue, some 9223372036854775803, some "a", some "/10.0.0.1"⟩]⟩) ∧
      (1 ∉ (watermarksForPartitions (fun partition => if partition = 0 then .error "Local: Timed out"
        else .ok (0, 7)) "t" ((List.range 17).map Int32.ofNat)).asked.flatten) := by
  refine ⟨⟨⟨rfl, _, rfl, rfl⟩, fun _ => rfl, fun _ _ => rfl, ?_⟩, ⟨?_, ?_⟩, ?_, ?_⟩ <;> decide +kernel

end OffsetExplorer.Kafka
