import OffsetExplorer.Publish.Batch

/-!
# What validation accepts, and what it makes of it

* `FieldEncodes`: the bytes of a field, one rule for each encoding; `HeaderEncodes`, `MessageEncodes`.
* `AcceptedBatch`: the batches within any limits, and their records.
* **`encodeMessages_exact`**: validation accepts these batches, whole, for these records.
-/

namespace OffsetExplorer

/-- What a field stands for: nothing, its text as it is, its text if it is JSON, or what its text decodes
to in base64 without the blanks around it. -/
inductive FieldEncodes (decoders : Decoders) : PublishField → Option (List UInt8) → Prop where
  | null (text : String) : FieldEncodes decoders ⟨.null, text⟩ none
  | text (text : String) : FieldEncodes decoders ⟨.text, text⟩ (some text.toUTF8.toList)
  | json {text : String} (h : decoders.json text = .ok ()) :
    FieldEncodes decoders ⟨.json, text⟩ (some text.toUTF8.toList)
  | base64 {text : String} {bytes : List UInt8} (h : decoders.base64 (rustTrim text) = .ok bytes) :
    FieldEncodes decoders ⟨.base64, text⟩ (some bytes)

/-- A header has a name that is not blank. -/
structure HeaderEncodes (decoders : Decoders) (header : PublishHeaderInput)
    (encoded : String × Option (List UInt8)) : Prop where
  named : rustTrim header.key ≠ ""
  name : encoded.1 = header.key
  value : FieldEncodes decoders header.value encoded.2

/-- The record has the key, the value and the headers that were typed. -/
structure MessageEncodes (decoders : Decoders) (message : NewPublishMessage) (record : EncodedRecord) :
    Prop where
  key : FieldEncodes decoders message.key record.key
  value : FieldEncodes decoders message.value record.value
  headers : List.Forall₂ (HeaderEncodes decoders) message.headers record.headers

/-- A batch within the limits, with one record for each message in its place. -/
structure AcceptedBatch (decoders : Decoders) (limits : PublishLimits)
    (messages : List NewPublishMessage) (records : List EncodedRecord) : Prop where
  nonempty : messages ≠ []
  count : messages.length ≤ limits.maxBatchMessages
  encodes : List.Forall₂ (MessageEncodes decoders) messages records
  size : ∀ record ∈ records, record.sizeBytes ≤ limits.maxMessageSizeBytes
  total : batchBytes records ≤ limits.maxBatchBytes

variable {decoders : Decoders}

theorem fieldEncodes_iff {field : PublishField} {bytes : Option (List UInt8)} :
    FieldEncodes decoders field bytes ↔ FieldBytes decoders field bytes := by
  rw [← fieldBytes_iff ""]
  constructor
  · intro h
    cases h with
    | null | text => rfl
    | json h => simp only [encodeField, h]
    | base64 h => simp only [encodeField, h]
  · rcases field with ⟨encoding, text⟩
    intro h
    cases encoding with
    | null =>
      cases h
      exact .null text
    | text =>
      cases h
      exact .text text
    | json =>
      simp only [encodeField] at h
      split at h
      · cases h
      · rename_i hjson
        cases h
        exact .json hjson
    | base64 =>
      simp only [encodeField] at h
      split at h
      · cases h
      · rename_i bytes hbase64
        cases h
        exact .base64 hbase64

theorem headerEncodes_eq : HeaderEncodes decoders = HeaderBytes decoders := by
  funext header encoded
  have hname : rustTrim header.key ≠ "" ↔ (rustTrim header.key).isEmpty = false := by
    rw [← Bool.not_eq_true, String.isEmpty_iff]
  refine propext ⟨fun h => ?_, fun h => ?_⟩
  · exact ⟨hname.mp h.named, h.name, fieldEncodes_iff.mp h.value⟩
  · exact ⟨hname.mpr h.1, h.2.1, fieldEncodes_iff.mpr h.2.2⟩

theorem messageEncodes_eq : MessageEncodes decoders = Encodes decoders := by
  funext message record
  refine propext ⟨fun h => ?_, fun h => ?_⟩
  · exact ⟨fieldEncodes_iff.mp h.key, fieldEncodes_iff.mp h.value, headerEncodes_eq ▸ h.headers⟩
  · exact ⟨fieldEncodes_iff.mpr h.key, fieldEncodes_iff.mpr h.value, headerEncodes_eq ▸ h.headers⟩

/-- **Validation is exact.** It answers records if and only if the batch is accepted, and then those of the
messages. The sum of the sizes saturates at the largest `u64`, which it reaches only for records that no
memory of so many bytes holds. -/
theorem encodeMessages_exact (decoders : Decoders) (messages : List NewPublishMessage)
    (limits : PublishLimits)
    (hmemory : limits.maxBatchBytes < 2 ^ 64 - 1 ∨
      ∀ records, List.Forall₂ (MessageEncodes decoders) messages records → batchBytes records < 2 ^ 64)
    (records : List EncodedRecord) :
    encodeMessages decoders messages limits = .ok records ↔
      AcceptedBatch decoders limits messages records := by
  have htotal : List.Forall₂ (MessageEncodes decoders) messages records →
      (min (batchBytes records) (2 ^ 64 - 1) ≤ limits.maxBatchBytes ↔
        batchBytes records ≤ limits.maxBatchBytes) := by
    intro h
    have hfits := hmemory.imp_right fun hbytes => hbytes records h
    omega
  rw [encodeMessages_eq_ok_limits, ← messageEncodes_eq]
  constructor
  · rintro ⟨hne, hcount, hencodes, hsizes, hbytes⟩
    exact ⟨hne, hcount, hencodes, hsizes, (htotal hencodes).mp hbytes⟩
  · exact fun h => ⟨h.nonempty, h.count, h.encodes, h.size, (htotal h.encodes).mpr h.total⟩

/-- Two messages, of which the second has a header. -/
def twoMessages : List NewPublishMessage :=
  [{ key := ⟨.null, ""⟩, value := ⟨.text, "é"⟩ },
    { key := ⟨.text, ""⟩, value := ⟨.null, ""⟩, headers := [⟨"trace", ⟨.text, "1"⟩⟩] }]

/-- What becomes of them. -/
def twoRecords : List EncodedRecord :=
  [{ key := none, value := some [0xC3, 0xA9], headers := [] },
    { key := some [], value := none, headers := [("trace", some [0x31])] }]

/-- Decoders that take nothing: the two messages hold neither JSON nor base64. -/
def noDecoders : Decoders where
  json := fun _ => .error "expected value at line 1 column 1"
  base64 := fun _ => .error "Invalid input length: 0"

theorem encodeMessages_exact_two :
    encodeMessages noDecoders twoMessages (.forMaxMessageSize 6) = .ok twoRecords ↔
      AcceptedBatch noDecoders (.forMaxMessageSize 6) twoMessages twoRecords :=
  encodeMessages_exact noDecoders twoMessages (.forMaxMessageSize 6) (Or.inl (by decide)) twoRecords

example : encodeMessages noDecoders twoMessages (.forMaxMessageSize 6) = .ok twoRecords := by
  decide +kernel

end OffsetExplorer
