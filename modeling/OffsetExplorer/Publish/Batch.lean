import OffsetExplorer.Publish
import Mathlib.Algebra.Ring.Nat
import Mathlib.Data.List.Forall2
import Mathlib.Tactic.SplitIfs

/-!
# The batches that validation accepts

Where a message stands in its batch matters for the texts of the errors only.

* `FieldBytes`, `HeaderBytes`, `Encodes`: what a field, a header and a message become.
* `ValidBatch`: every message becomes a record, and the records are within the limits.
* **`encodeMessages_eq_ok`**: validation accepts the valid batches, and no others.
-/

namespace OffsetExplorer

variable (decoders : Decoders)

/-- The bytes of a field that can be decoded. -/
def FieldBytes (field : PublishField) (bytes : Option (List UInt8)) : Prop :=
  ∀ what, encodeField decoders field what = .ok bytes

/-- The name and the bytes of a header. -/
def HeaderBytes (header : PublishHeaderInput) (encoded : String × Option (List UInt8)) : Prop :=
  (rustTrim header.key).isEmpty = false ∧ encoded.1 = header.key ∧
    FieldBytes decoders header.value encoded.2

/-- The record of a message. -/
structure Encodes (message : NewPublishMessage) (record : EncodedRecord) : Prop where
  key : FieldBytes decoders message.key record.key
  value : FieldBytes decoders message.value record.value
  headers : List.Forall₂ (HeaderBytes decoders) message.headers record.headers

/-- The bytes of all records. -/
def batchBytes : List EncodedRecord → ℕ
  | [] => 0
  | record :: rest => record.sizeBytes + batchBytes rest

/-- The records of a batch that is within the limits for a Max Message Size. -/
structure ValidBatch (maxMessageSizeBytes : ℕ) (messages : List NewPublishMessage)
    (records : List EncodedRecord) : Prop where
  nonempty : messages ≠ []
  count : messages.length ≤ maxPublishBatchMessages
  encodes : List.Forall₂ (Encodes decoders) messages records
  size : ∀ record ∈ records, record.sizeBytes ≤ maxMessageSizeBytes
  total : batchBytes records ≤ maxPublishBatchBytes

variable {decoders}

/-! ## Bytes -/

theorem length_toList_loop (bs : ByteArray) (i : ℕ) (r : List UInt8) :
    (ByteArray.toList.loop bs i r).length = r.length + (bs.size - i) := by
  fun_induction ByteArray.toList.loop bs i r with
  | case1 i r h ih => rw [ih, List.length_cons]; omega
  | case2 i r h => rw [List.length_reverse]; omega

theorem length_toUTF8 (text : String) : text.toUTF8.toList.length = text.utf8ByteSize := by
  rw [ByteArray.toList, length_toList_loop, List.length_nil, Nat.zero_add, Nat.sub_zero]
  rfl

/-! ## One message -/

theorem fieldBytes_iff {field : PublishField} {bytes : Option (List UInt8)} (what : String) :
    encodeField decoders field what = .ok bytes ↔ FieldBytes decoders field bytes := by
  refine ⟨fun h other => ?_, fun h => h what⟩
  unfold encodeField at h ⊢
  cases hencoding : field.encoding with
  | null | text =>
    rw [hencoding] at h
    exact h
  | json =>
    simp only [hencoding] at h ⊢
    cases hjson : decoders.json field.text with
    | error err => simp [hjson] at h
    | ok u => simpa [hjson] using h
  | base64 =>
    simp only [hencoding] at h ⊢
    cases hbase64 : decoders.base64 (rustTrim field.text) with
    | error err => simp [hbase64] at h
    | ok b => simpa [hbase64] using h

theorem encodeHeaders_cons {position : ℕ} {header : PublishHeaderInput}
    {rest : List PublishHeaderInput} {encoded : List (String × Option (List UInt8))} :
    encodeHeaders decoders position (header :: rest) = .ok encoded ↔
      (rustTrim header.key).isEmpty = false ∧ ∃ bytes, FieldBytes decoders header.value bytes ∧
        ∃ tail, encodeHeaders decoders position rest = .ok tail ∧
          (header.key, bytes) :: tail = encoded := by
  rw [encodeHeaders]
  cases (rustTrim header.key).isEmpty with
  | true => exact ⟨(nomatch ·), fun h => nomatch h.1⟩
  | false =>
    simp only [Bool.false_eq_true, if_false, true_and]
    refine bind_eq_ok.trans (exists_congr fun bytes => ?_)
    rw [fieldBytes_iff, bind_eq_ok]
    simp only [pure, Except.pure, Except.ok.injEq]

theorem encodeHeaders_eq_ok {position : ℕ} {headers : List PublishHeaderInput}
    {encoded : List (String × Option (List UInt8))} :
    encodeHeaders decoders position headers = .ok encoded ↔
      List.Forall₂ (HeaderBytes decoders) headers encoded := by
  induction headers generalizing encoded with
  | nil =>
    rw [List.forall₂_nil_left_iff, encodeHeaders, Except.ok.injEq, eq_comm]
  | cons header rest ih =>
    rw [encodeHeaders_cons, List.forall₂_cons_left_iff]
    constructor
    · rintro ⟨hname, bytes, hbytes, tail, htail, rfl⟩
      exact ⟨_, tail, ⟨hname, rfl, hbytes⟩, ih.mp htail, rfl⟩
    · rintro ⟨⟨name, bytes⟩, tail, ⟨hname, rfl, hbytes⟩, htail, rfl⟩
      exact ⟨hname, bytes, hbytes, tail, ih.mpr htail, rfl⟩

theorem encodeMessage_eq_ok {position : ℕ} {message : NewPublishMessage} {record : EncodedRecord} :
    encodeMessage decoders position message = .ok record ↔ Encodes decoders message record := by
  rw [encodeMessage]
  simp only [bind_eq_ok, fieldBytes_iff, encodeHeaders_eq_ok, pure, Except.pure, Except.ok.injEq]
  constructor
  · rintro ⟨key, hkey, value, hvalue, headers, hheaders, rfl⟩
    exact ⟨hkey, hvalue, hheaders⟩
  · rintro ⟨hkey, hvalue, hheaders⟩
    exact ⟨_, hkey, _, hvalue, _, hheaders, rfl⟩

/-! ## A batch -/

/-- One round of the loop: a record within its limit, and a total within the limit of the batch. -/
theorem encodeFrom_cons {limits : PublishLimits} {position total : ℕ} {message : NewPublishMessage}
    {rest : List NewPublishMessage} {records : List EncodedRecord} :
    encodeFrom decoders limits position total (message :: rest) = .ok records ↔
      ∃ record, Encodes decoders message record ∧ record.sizeBytes ≤ limits.maxMessageSizeBytes ∧
        min (total + record.sizeBytes) (2 ^ 64 - 1) ≤ limits.maxBatchBytes ∧ ∃ tail,
          encodeFrom decoders limits (position + 1) (min (total + record.sizeBytes) (2 ^ 64 - 1)) rest =
            .ok tail ∧ record :: tail = records := by
  rw [encodeFrom, bind_eq_ok]
  refine exists_congr fun record => ?_
  rw [encodeMessage_eq_ok]
  refine and_congr_right fun _ => ?_
  by_cases hsize : limits.maxMessageSizeBytes < record.sizeBytes
  · rw [if_pos hsize]
    exact ⟨(nomatch ·), fun h => absurd h.1 (Nat.not_le.mpr hsize)⟩
  · rw [if_neg hsize]
    by_cases htotal : limits.maxBatchBytes < min (total + record.sizeBytes) (2 ^ 64 - 1)
    · rw [if_pos htotal]
      exact ⟨(nomatch ·), fun h => absurd h.2.1 (Nat.not_le.mpr htotal)⟩
    · simp only [htotal, if_false, bind_eq_ok, pure, Except.pure, Except.ok.injEq,
        Nat.not_lt.mp hsize, Nat.not_lt.mp htotal, true_and]

/-- The loop accepts messages that become records, each within its limit and all within theirs. The total
is that of the bytes until it saturates. -/
theorem encodeFrom_eq_ok {limits : PublishLimits} {position total : ℕ}
    {messages : List NewPublishMessage} {records : List EncodedRecord}
    (htotal : min total (2 ^ 64 - 1) ≤ limits.maxBatchBytes) :
    encodeFrom decoders limits position (min total (2 ^ 64 - 1)) messages = .ok records ↔
      List.Forall₂ (Encodes decoders) messages records ∧
        (∀ record ∈ records, record.sizeBytes ≤ limits.maxMessageSizeBytes) ∧
          min (total + batchBytes records) (2 ^ 64 - 1) ≤ limits.maxBatchBytes := by
  induction messages generalizing position total records with
  | nil =>
    rw [List.forall₂_nil_left_iff, encodeFrom, Except.ok.injEq]
    constructor
    · rintro rfl
      exact ⟨rfl, fun record h => absurd h List.not_mem_nil, htotal⟩
    · exact fun h => h.1.symm
  | cons message rest ih =>
    have hsaturates : ∀ n, min (min total (2 ^ 64 - 1) + n) (2 ^ 64 - 1) =
        min (total + n) (2 ^ 64 - 1) := by omega
    rw [encodeFrom_cons, List.forall₂_cons_left_iff]
    simp only [hsaturates]
    constructor
    · rintro ⟨record, hrecord, hsize, hsum, tail, htail, rfl⟩
      obtain ⟨hencodes, hsizes, hbytes⟩ := (ih hsum).mp htail
      refine ⟨⟨record, tail, hrecord, hencodes, rfl⟩, List.forall_mem_cons.mpr ⟨hsize, hsizes⟩, ?_⟩
      rwa [batchBytes, ← Nat.add_assoc]
    · rintro ⟨⟨record, tail, hrecord, hencodes, rfl⟩, hsizes, hbytes⟩
      obtain ⟨hsize, hsizes⟩ := List.forall_mem_cons.mp hsizes
      rw [batchBytes, ← Nat.add_assoc] at hbytes
      have hsum : min (total + record.sizeBytes) (2 ^ 64 - 1) ≤ limits.maxBatchBytes := by omega
      exact ⟨record, hrecord, hsize, hsum, tail, (ih hsum).mpr ⟨hencodes, hsizes, hbytes⟩, rfl⟩

theorem encodeMessages_eq_ok_limits {limits : PublishLimits} {messages : List NewPublishMessage}
    {records : List EncodedRecord} :
    encodeMessages decoders messages limits = .ok records ↔
      messages ≠ [] ∧ messages.length ≤ limits.maxBatchMessages ∧
        List.Forall₂ (Encodes decoders) messages records ∧
          (∀ record ∈ records, record.sizeBytes ≤ limits.maxMessageSizeBytes) ∧
            min (batchBytes records) (2 ^ 64 - 1) ≤ limits.maxBatchBytes := by
  rw [encodeMessages]
  by_cases hempty : messages.isEmpty = true
  · rw [if_pos hempty]
    exact ⟨(nomatch ·), fun h => absurd (List.isEmpty_iff.mp hempty) h.1⟩
  · rw [if_neg hempty]
    have hne : messages ≠ [] := fun h => hempty (List.isEmpty_iff.mpr h)
    by_cases hcount : limits.maxBatchMessages < messages.length
    · rw [if_pos hcount]
      exact ⟨(nomatch ·), fun h => absurd h.2.1 (Nat.not_le.mpr hcount)⟩
    · have hzero : min 0 (2 ^ 64 - 1) ≤ limits.maxBatchBytes := Nat.zero_le _
      have hstart := @encodeFrom_eq_ok decoders limits 1 0 messages records hzero
      rw [Nat.zero_min, Nat.zero_add] at hstart
      rw [if_neg hcount, hstart]
      exact ⟨fun h => ⟨hne, Nat.not_lt.mp hcount, h⟩, fun h => h.2.2⟩

/-- **Validation accepts the valid batches.** -/
theorem encodeMessages_eq_ok {maxMessageSizeBytes : ℕ} {messages : List NewPublishMessage}
    {records : List EncodedRecord} :
    encodeMessages decoders messages (.forMaxMessageSize maxMessageSizeBytes) = .ok records ↔
      ValidBatch decoders maxMessageSizeBytes messages records := by
  have htotal : min (batchBytes records) (2 ^ 64 - 1) ≤ maxPublishBatchBytes ↔
      batchBytes records ≤ maxPublishBatchBytes := by
    unfold maxPublishBatchBytes
    omega
  rw [encodeMessages_eq_ok_limits]
  constructor
  · rintro ⟨hne, hcount, hencodes, hsizes, hbytes⟩
    exact ⟨hne, hcount, hencodes, hsizes, htotal.mp hbytes⟩
  · exact fun h => ⟨h.nonempty, h.count, h.encodes, h.size, htotal.mpr h.total⟩

end OffsetExplorer
