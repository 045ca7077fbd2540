import OffsetExplorer.Error
import OffsetExplorer.Lib.Bytes
import OffsetExplorer.Lib.Cursor
import OffsetExplorer.Lib.Utf8

/-!
# What a member of a consumer group is assigned

`assignment.rs` of the kafka crate: the topics and partitions of a member come from the broker in the
wire format of the consumer protocol, arrays with their lengths in front.

* `readI16`, `readI32`, `readString`, `decodeConsumerProtocolAssignment`: the code.
* `Assignment`: what is written, with arrays that may be null; `Assignment.pairs`: what it says.
* **`decode_assignment`**: what was written is decoded, nothing less is, and what comes from the broker
  takes no more reads than it has bytes.
-/

namespace OffsetExplorer.Kafka

open Reader

/-- An error of the broker's bytes. -/
def assignmentError (text : String) : Report := { error := .kafka, attachments := [text] }

/-- Two bytes in network order. -/
def readI16 : Reader UInt8 Report Int16 := do
  let slice ← take 2 (assignmentError "truncated assignment: expected i16")
  pure (UInt16.ofNat (Bytes.fromBe slice)).toInt16

/-- Four bytes in network order. -/
def readI32 : Reader UInt8 Report Int32 := do
  let slice ← take 4 (assignmentError "truncated assignment: expected i32")
  pure (UInt32.ofNat (Bytes.fromBe slice)).toInt32

/-- The name behind its length. -/
def readName (len : Int16) : Reader UInt8 Report String :=
  if len < 0 then fail (assignmentError "truncated assignment: null topic name")
  else do
    let slice ← take len.toInt.toNat
      (assignmentError "truncated assignment: expected topic name bytes")
    match Utf8.decode slice with
    | none => fail (assignmentError "assignment topic name is not valid UTF-8")
    | some text => pure (String.ofList text)

/-- A length, and so many bytes of text. -/
def readString : Reader UInt8 Report String := do
  let len ← readI16
  readName len

/-- The loop over the partitions of a topic, with so many left. -/
def readPartitions (topic : String) :
    ℕ → List (String × Int32) → Reader UInt8 Report (List (String × Int32))
  | 0, result => pure result
  | left + 1, result => do
    let partition ← readI32
    readPartitions topic left (result ++ [(topic, partition)])

/-- The partitions of a topic behind their number; a null array has none. -/
def readPartitionArray (topic : String) (partitionCount : Int32) (result : List (String × Int32)) :
    Reader UInt8 Report (List (String × Int32)) :=
  if partitionCount < 0 then pure result
  else readPartitions topic partitionCount.toInt.toNat result

/-- The loop over the topics, with so many left. -/
def readTopics : ℕ → List (String × Int32) → Reader UInt8 Report (List (String × Int32))
  | 0, result => pure result
  | left + 1, result => do
    let topic ← readString
    let partitionCount ← readI32
    let result ← readPartitionArray topic partitionCount result
    readTopics left result

/-- The topics behind their number; a null array has none. -/
def readTopicArray (topicCount : Int32) : Reader UInt8 Report (List (String × Int32)) :=
  if topicCount < 0 then pure [] else readTopics topicCount.toInt.toNat []

/-- A version that nothing depends on, and the topics. What follows them is not read. -/
def readAssignment : Reader UInt8 Report (List (String × Int32)) := do
  let _version ← readI16
  let topicCount ← readI32
  readTopicArray topicCount

/-- The assignment of a member, as pairs of a topic and a partition. -/
def decodeConsumerProtocolAssignment (bytes : List UInt8) : Except Report (List (String × Int32)) :=
  (readAssignment ⟨bytes, 0, 0⟩).2

/-! ## What is written -/

/-- An integer of 16 bits on the wire. -/
def i16Bytes (n : Int16) : List UInt8 := Bytes.toBe 2 n.toUInt16.toNat

/-- An integer of 32 bits on the wire. -/
def i32Bytes (n : Int32) : List UInt8 := Bytes.toBe 4 n.toUInt32.toNat

/-- An array behind its length; a negative length is that of a null array. -/
inductive WireArray (α : Type) where
  | null (length : Int32) (negative : length < 0)
  | items (elements : List α) (fits : elements.length < 2 ^ 31)

/-- A null array has none. -/
def WireArray.elements {α : Type} : WireArray α → List α
  | .null _ _ => []
  | .items elements _ => elements

/-- The length, and the elements one after another. -/
def WireArray.encode {α : Type} (encodeElement : α → List UInt8) : WireArray α → List UInt8
  | .null length _ => i32Bytes length
  | .items elements _ => i32Bytes (.ofNat elements.length) ++ elements.flatMap encodeElement

/-- A topic of an assignment. Its name fits into a length of 16 bits. -/
structure Topic where
  name : String
  fits : (Utf8.encode name.toList).length ≤ 32767
  partitions : WireArray Int32

/-- The name and the partitions on the wire. -/
def Topic.encode (topic : Topic) : List UInt8 :=
  i16Bytes (.ofNat (Utf8.encode topic.name.toList).length) ++ Utf8.encode topic.name.toList ++
    topic.partitions.encode i32Bytes

/-- The partitions of the topic. -/
def Topic.pairs (topic : Topic) : List (String × Int32) :=
  topic.partitions.elements.map fun partition => (topic.name, partition)

/-- What the leader of a group gives to a member. -/
structure Assignment where
  version : Int16
  topics : WireArray Topic

/-- The version and the assigned partitions; user data follow. -/
def Assignment.encode (assignment : Assignment) : List UInt8 :=
  i16Bytes assignment.version ++ assignment.topics.encode Topic.encode

/-- The partitions of all topics, in their order. -/
def Assignment.pairs (assignment : Assignment) : List (String × Int32) :=
  assignment.topics.elements.flatMap Topic.pairs

/-! ## What was written is read -/

theorem reads_readI16 (n : Int16) : Reads readI16 (i16Bytes n) n := by
  have hvalue : (UInt16.ofNat (Bytes.fromBe (i16Bytes n))).toInt16 = n := by
    rw [i16Bytes, Bytes.fromBe_toBe (by exact n.toUInt16.toNat_lt), UInt16.ofNat_toNat,
      Int16.toInt16_toUInt16]
  have hslice := reads_take (i16Bytes n) (assignmentError "truncated assignment: expected i16")
  rw [i16Bytes, Bytes.length_toBe, ← i16Bytes] at hslice
  exact hslice.bind_pure (by rw [hvalue])

theorem reads_readI32 (n : Int32) : Reads readI32 (i32Bytes n) n := by
  have hvalue : (UInt32.ofNat (Bytes.fromBe (i32Bytes n))).toInt32 = n := by
    rw [i32Bytes, Bytes.fromBe_toBe (by exact n.toUInt32.toNat_lt), UInt32.ofNat_toNat,
      Int32.toInt32_toUInt32]
  have hslice := reads_take (i32Bytes n) (assignmentError "truncated assignment: expected i32")
  rw [i32Bytes, Bytes.length_toBe, ← i32Bytes] at hslice
  exact hslice.bind_pure (by rw [hvalue])

theorem reads_readString {name : String} (hfits : (Utf8.encode name.toList).length ≤ 32767) :
    Reads readString
      (i16Bytes (.ofNat (Utf8.encode name.toList).length) ++ Utf8.encode name.toList) name := by
  have hlen : (Int16.ofNat (Utf8.encode name.toList).length).toInt =
      (Utf8.encode name.toList).length := Int16.toInt_ofNat_of_lt (by omega)
  have hsign : ¬ Int16.ofNat (Utf8.encode name.toList).length < 0 := by
    rw [Int16.lt_iff_toInt_lt, hlen]
    exact Int.not_lt.mpr (Int.natCast_nonneg _)
  refine (reads_readI16 _).bind ?_
  rw [readName, if_neg hsign, hlen, Int.toNat_natCast]
  exact (reads_take _ _).bind_pure (by simp only [Utf8.decode_encode, String.ofList_toList])

theorem reads_readPartitions (topic : String) (partitions : List Int32)
    (result : List (String × Int32)) :
    Reads (readPartitions topic partitions.length result) (partitions.flatMap i32Bytes)
      (result ++ partitions.map fun partition => (topic, partition)) := by
  induction partitions generalizing result with
  | nil =>
    rw [List.map_nil, List.append_nil]
    exact reads_pure result
  | cons partition partitions ih =>
    have hrest := ih (result ++ [(topic, partition)])
    rw [List.append_assoc, List.singleton_append] at hrest
    exact (reads_readI32 partition).bind hrest

theorem count_of_fits {count : ℕ} (hfits : count < 2 ^ 31) :
    ¬ Int32.ofNat count < 0 ∧ (Int32.ofNat count).toInt.toNat = count := by
  have hcount : (Int32.ofNat count).toInt = count := Int32.toInt_ofNat_of_lt hfits
  refine ⟨?_, by rw [hcount, Int.toNat_natCast]⟩
  rw [Int32.lt_iff_toInt_lt, hcount]
  exact Int.not_lt.mpr (Int.natCast_nonneg _)

theorem reads_readPartitionArray (topic : String) (array : WireArray Int32)
    (result : List (String × Int32)) :
    ∃ count tail, array.encode i32Bytes = i32Bytes count ++ tail ∧
      Reads (readPartitionArray topic count result) tail
        (result ++ array.elements.map fun partition => (topic, partition)) := by
  cases array with
  | null length negative =>
    refine ⟨length, [], (List.append_nil _).symm, ?_⟩
    rw [readPartitionArray, if_pos negative, WireArray.elements, List.map_nil, List.append_nil]
    exact reads_pure result
  | items elements fits =>
    obtain ⟨hsign, hcount⟩ := count_of_fits fits
    refine ⟨.ofNat elements.length, elements.flatMap i32Bytes, rfl, ?_⟩
    rw [readPartitionArray, if_neg hsign, hcount]
    exact reads_readPartitions topic elements result

theorem reads_readTopics (topics : List Topic) (result : List (String × Int32)) :
    Reads (readTopics topics.length result) (topics.flatMap Topic.encode)
      (result ++ topics.flatMap Topic.pairs) := by
  induction topics generalizing result with
  | nil =>
    rw [List.flatMap_nil, List.flatMap_nil, List.append_nil]
    exact reads_pure result
  | cons topic topics ih =>
    obtain ⟨count, tail, hsplit, harray⟩ :=
      reads_readPartitionArray topic.name topic.partitions result
    have hrest := ih (result ++ topic.pairs)
    rw [List.append_assoc, ← List.flatMap_cons] at hrest
    rw [List.flatMap_cons (f := Topic.encode), Topic.encode, hsplit, List.append_assoc,
      List.append_assoc (i32Bytes count)]
    exact (reads_readString topic.fits).bind ((reads_readI32 count).bind (harray.bind hrest))

theorem reads_readAssignment (assignment : Assignment) :
    Reads readAssignment assignment.encode assignment.pairs := by
  refine (reads_readI16 assignment.version).bind ?_
  rw [Assignment.pairs]
  cases assignment.topics with
  | null length negative =>
    refine (reads_readI32 length).bind_pure ?_
    rw [readTopicArray, if_pos negative]
    rfl
  | items elements fits =>
    obtain ⟨hsign, hcount⟩ := count_of_fits fits
    refine (reads_readI32 (.ofNat elements.length)).bind ?_
    rw [readTopicArray, if_neg hsign, hcount]
    exact reads_readTopics elements []

/-! ## Less input, more input -/

theorem stable_readI16 : Stable readI16 := (stable_take _ _).bind fun _ => stable_pure _

theorem stable_readI32 : Stable readI32 := (stable_take _ _).bind fun _ => stable_pure _

theorem stable_readString : Stable readString := by
  refine stable_readI16.bind fun len => ?_
  rw [readName]
  split_ifs
  · exact stable_fail _
  · refine (stable_take _ _).bind fun slice => ?_
    cases Utf8.decode slice with
    | none => exact stable_fail _
    | some text => exact stable_pure _

theorem stable_readPartitions (topic : String) (count : ℕ) (result : List (String × Int32)) :
    Stable (readPartitions topic count result) := by
  induction count generalizing result with
  | zero => exact stable_pure result
  | succ count ih => exact stable_readI32.bind fun _ => ih _

theorem stable_readPartitionArray (topic : String) (count : Int32) (result : List (String × Int32)) :
    Stable (readPartitionArray topic count result) := by
  rw [readPartitionArray]
  split_ifs
  · exact stable_pure result
  · exact stable_readPartitions _ _ _

theorem stable_readTopics (count : ℕ) (result : List (String × Int32)) :
    Stable (readTopics count result) := by
  induction count generalizing result with
  | zero => exact stable_pure result
  | succ count ih =>
    exact stable_readString.bind fun topic => stable_readI32.bind fun partitionCount =>
      (stable_readPartitionArray topic partitionCount result).bind ih

theorem stable_readAssignment : Stable readAssignment := by
  refine stable_readI16.bind fun _ => stable_readI32.bind fun topicCount => ?_
  rw [readTopicArray]
  split_ifs
  · exact stable_pure _
  · exact stable_readTopics _ _

/-! ## The number of reads -/

theorem frugal_readI16 : Frugal (-1) readI16 :=
  (frugal_take 2 _).bind (by omega) fun _ => frugal_pure _

theorem frugal_readI32 : Frugal (-3) readI32 :=
  (frugal_take 4 _).bind (by omega) fun _ => frugal_pure _

theorem frugal_readName (len : Int16) : Frugal 1 (readName len) := by
  rw [readName]
  split_ifs
  · exact (frugal_fail _).mono (by omega)
  · have htake : ∀ e : Report, Frugal 1 (take len.toInt.toNat e : Reader UInt8 Report (List UInt8)) :=
      fun e => (frugal_take len.toInt.toNat e).mono (by omega)
    refine (htake _).bind_free (Int.le_refl 1) fun slice c => ?_
    cases Utf8.decode slice with
    | none => rfl
    | some text => rfl

theorem frugal_readString : Frugal 0 readString :=
  frugal_readI16.bind (by omega) frugal_readName

theorem frugal_readPartitions (topic : String) (count : ℕ) (result : List (String × Int32)) :
    Frugal 0 (readPartitions topic count result) := by
  induction count generalizing result with
  | zero => exact frugal_pure result
  | succ count ih => exact (frugal_readI32.bind (by omega) fun _ => ih _).mono (by omega)

theorem frugal_readPartitionArray (topic : String) (count : Int32) (result : List (String × Int32)) :
    Frugal 0 (readPartitionArray topic count result) := by
  rw [readPartitionArray]
  split_ifs
  · exact frugal_pure result
  · exact frugal_readPartitions _ _ _

theorem frugal_readTopics (count : ℕ) (result : List (String × Int32)) :
    Frugal 0 (readTopics count result) := by
  induction count generalizing result with
  | zero => exact frugal_pure result
  | succ count ih =>
    have hround : ∀ topic, Frugal (-3 + (0 + 0)) (readI32 >>= fun partitionCount =>
        readPartitionArray topic partitionCount result >>= readTopics count) := fun topic =>
      frugal_readI32.bind (by omega) fun partitionCount =>
        (frugal_readPartitionArray topic partitionCount result).bind (Int.le_refl 0) ih
    exact (frugal_readString.bind (Int.le_refl 0) hround).mono (by omega)

theorem frugal_readAssignment : Frugal 0 readAssignment := by
  have htopics : ∀ topicCount, Frugal 0 (readTopicArray topicCount) := by
    intro topicCount
    rw [readTopicArray]
    split_ifs
    · exact frugal_pure _
    · exact frugal_readTopics _ _
  exact (frugal_readI16.bind (by omega) fun _ => frugal_readI32.bind (by omega) htopics).mono (by omega)

/-- **Main result.** An assignment that was written is decoded into its pairs in order, whatever user
data follow it, a null array being an empty one; what ends before the assignment does is an error; and
no bytes are read from more often than there are bytes, and once more. Every round of a loop reads. -/
theorem decode_assignment :
    (∀ (assignment : Assignment) (userData : List UInt8),
      decodeConsumerProtocolAssignment (assignment.encode ++ userData) = .ok assignment.pairs) ∧
    (∀ (assignment : Assignment) (n : ℕ), n < assignment.encode.length →
      ∃ error, decodeConsumerProtocolAssignment (assignment.encode.take n) = .error error) ∧
    ∀ bytes : List UInt8, (readAssignment ⟨bytes, 0, 0⟩).1.reads ≤ bytes.length + 1 := by
  refine ⟨fun assignment userData => ?_, fun assignment n hn => ?_, frugal_readAssignment.reads_le⟩
  · obtain ⟨reads, hread⟩ := reads_readAssignment assignment ⟨assignment.encode ++ userData, 0, 0⟩
      userData (Nat.zero_le _) rfl
    rw [decodeConsumerProtocolAssignment, hread]
  · exact (reads_readAssignment assignment).error_of_short stable_readAssignment hn

end OffsetExplorer.Kafka
