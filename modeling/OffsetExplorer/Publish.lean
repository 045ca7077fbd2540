import OffsetExplorer.Error
import OffsetExplorer.Text
import Mathlib.Algebra.Ring.Nat
import Mathlib.Data.Int.Notation
import Mathlib.Data.Nat.Notation

/-!
# Publishing: wire types, validation and the gate

* `NewPublishMessage`, `PublishOutcome` and what they are made of: what the Publish tab sends and
  what it is told.
* `encodeMessages`: entered text into records, all or nothing; the JSON and base64 decoders are a
  parameter.
* `publishRefusal`: why a publish does not reach the broker.
-/

namespace OffsetExplorer

/-- How entered text becomes bytes. -/
inductive PayloadEncoding where
  | null
  | text
  | json
  | base64
  deriving DecidableEq

/-- An entered field; its text is ignored for `null`. -/
structure PublishField where
  encoding : PayloadEncoding
  text : String := ""
  deriving DecidableEq

/-- A header as it was typed. -/
structure PublishHeaderInput where
  key : String
  value : PublishField
  deriving DecidableEq

/-- A message to publish, before validation. -/
structure NewPublishMessage where
  key : PublishField
  value : PublishField
  headers : List PublishHeaderInput := []
  deriving DecidableEq

/-- A validated message. -/
structure EncodedRecord where
  key : Option (List UInt8)
  value : Option (List UInt8)
  headers : List (String × Option (List UInt8))
  deriving DecidableEq

/-- The bytes of the key, the value and the headers. -/
def EncodedRecord.sizeBytes (r : EncodedRecord) : ℕ :=
  let length (bytes : Option (List UInt8)) : ℕ := (bytes.map List.length).getD 0
  length r.key + length r.value +
    r.headers.foldl (fun total (name, value) => total + (name.utf8ByteSize + length value)) 0

/-- The ceilings of a batch. -/
structure PublishLimits where
  maxMessageSizeBytes : ℕ
  maxBatchMessages : ℕ
  maxBatchBytes : ℕ

/-- `MAX_PUBLISH_BATCH_MESSAGES`. -/
def maxPublishBatchMessages : ℕ := 100

/-- `MAX_PUBLISH_BATCH_BYTES`. -/
def maxPublishBatchBytes : ℕ := 64 * 1024 * 1024

/-- The limits that come with a largest message size. -/
def PublishLimits.forMaxMessageSize (maxMessageSizeBytes : ℕ) : PublishLimits where
  maxMessageSizeBytes := maxMessageSizeBytes
  maxBatchMessages := maxPublishBatchMessages
  maxBatchBytes := maxPublishBatchBytes

/-- The two decoders that validation calls, with the texts of their errors. -/
structure Decoders where
  json : String → Except String Unit
  base64 : String → Except String (List UInt8)

section Encode

variable (decoders : Decoders)

/-- The error of a batch that is refused. -/
def invalid (text : String) : Report := ⟨.validation, [text]⟩

/-- The bytes of a field, or what is wrong with it. -/
def encodeField (field : PublishField) (what : String) : Except Report (Option (List UInt8)) :=
  match field.encoding with
  | .null => .ok none
  | .text => .ok (some field.text.toUTF8.toList)
  | .json =>
    match decoders.json field.text with
    | .error err => .error (invalid s!"the {what} is not valid JSON: {err}")
    | .ok () => .ok (some field.text.toUTF8.toList)
  | .base64 =>
    match decoders.base64 (rustTrim field.text) with
    | .error err => .error (invalid s!"the {what} is not valid base64: {err}")
    | .ok bytes => .ok (some bytes)

/-- The headers in their order; each has to have a name. -/
def encodeHeaders (position : ℕ) :
    List PublishHeaderInput → Except Report (List (String × Option (List UInt8)))
  | [] => .ok []
  | header :: rest => do
    if (rustTrim header.key).isEmpty then
      .error (invalid s!"message {position} has a header with no name")
    let bytes ← encodeField decoders header.value
      s!"value of header \"{header.key}\" on message {position}"
    let rest ← encodeHeaders position rest
    return (header.key, bytes) :: rest

/-- A message, or what is wrong with it and where it stands in the batch. -/
def encodeMessage (position : ℕ) (message : NewPublishMessage) : Except Report EncodedRecord := do
  let key ← encodeField decoders message.key s!"key of message {position}"
  let value ← encodeField decoders message.value s!"value of message {position}"
  let headers ← encodeHeaders decoders position message.headers
  return { key, value, headers }

/-- The records of the messages from `position` on, `totalBytes` being taken already. The sum
saturates at the largest `u64`. -/
def encodeFrom (limits : PublishLimits) (position totalBytes : ℕ) :
    List NewPublishMessage → Except Report (List EncodedRecord)
  | [] => .ok []
  | message :: rest => do
    let record ← encodeMessage decoders position message
    if limits.maxMessageSizeBytes < record.sizeBytes then
      .error (invalid (s!"message {position} is {record.sizeBytes} bytes, over the " ++
        s!"{limits.maxMessageSizeBytes} byte Max Message Size"))
    let totalBytes := min (totalBytes + record.sizeBytes) (2 ^ 64 - 1)
    if limits.maxBatchBytes < totalBytes then
      .error (invalid
        s!"these messages total more than the {limits.maxBatchBytes} byte publish limit")
    let rest ← encodeFrom limits (position + 1) totalBytes rest
    return record :: rest

/-- The records of a batch. One bad message refuses all of them. -/
def encodeMessages (messages : List NewPublishMessage) (limits : PublishLimits) :
    Except Report (List EncodedRecord) :=
  if messages.isEmpty then .error (invalid "there are no messages to publish")
  else if limits.maxBatchMessages < messages.length then
    .error (invalid (s!"one publish carries at most {limits.maxBatchMessages} messages, but " ++
      s!"{messages.length} were given"))
  else encodeFrom decoders limits 1 0 messages

end Encode

/-- A message that the broker acknowledged, by its position in the batch. -/
structure DeliveredRecord where
  index : ℕ
  partition : ℤ
  offset : ℤ
  deriving DecidableEq

/-- What the front end has to tell apart. -/
inductive PublishFailureKind where
  | authorization
  | authentication
  | validation
  | transient
  deriving DecidableEq

/-- Whatever is no matter of rights or of the messages may go away by itself. -/
def PublishFailureKind.fromError : AppError → PublishFailureKind
  | .authorization => .authorization
  | .authentication => .authentication
  | .validation => .validation
  | _ => .transient

/-- The one message that failed. -/
structure PublishFailure where
  index : ℕ
  kind : PublishFailureKind
  reason : String
  deriving DecidableEq

/-- What a publish did: what landed, what failed, and how many messages were not tried. -/
structure PublishOutcome where
  delivered : List DeliveredRecord := []
  failure : Option PublishFailure := none
  notAttempted : ℕ := 0
  deriving DecidableEq

/-- Why a publish is refused without contacting the broker. -/
inductive PublishRefusal where
  | notConnected
  | notAllowed
  | brokerDenied (reason : String)
  deriving DecidableEq

/-- The refusal in words. -/
def PublishRefusal.message (topic : String) : PublishRefusal → String
  | .notConnected => "this cluster is not connected — use Connect before publishing"
  | .notAllowed =>
    "publishing is disabled for this connection — enable \"Allow publishing\" in the " ++
      "connection's Properties tab if you intend to write to this cluster"
  | .brokerDenied reason =>
    s!"the broker refused an earlier publish to \"{topic}\": {reason}. " ++
      "Publishing to it is blocked until you reconnect."

/-- The kind of error that it is reported as. -/
def PublishRefusal.error : PublishRefusal → AppError
  | .notConnected | .notAllowed => .validation
  | .brokerDenied _ => .authorization

/-- The gate: disconnected first, then switched off, then denied. -/
def publishRefusal (connected allowPublishing : Bool) (brokerDenial : Option String) :
    Option PublishRefusal :=
  if !connected then some .notConnected
  else if !allowPublishing then some .notAllowed
  else brokerDenial.map .brokerDenied

theorem publishRefusal_eq_none {connected allowPublishing : Bool} {brokerDenial : Option String} :
    publishRefusal connected allowPublishing brokerDenial = none ↔
      connected = true ∧ allowPublishing = true ∧ brokerDenial = none := by
  cases connected <;> cases allowPublishing <;> simp [publishRefusal]

end OffsetExplorer
