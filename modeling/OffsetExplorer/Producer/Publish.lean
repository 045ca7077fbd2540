import OffsetExplorer.Auth
import OffsetExplorer.Publish

/-!
# The producer of one publish

One record is sent at a time, and the first failure ends the publish. The client reports reasons of its
own in between.

* `ProducerErrorContext`: what is kept of the reasons, the last one and the first about the credentials.
* `classifyProduceError`, `describeProduceError`: the kind and the text of a failure.
* `publishMessages`: the loop over the records.
-/

namespace OffsetExplorer

/-- What the client has said since the slot was emptied. -/
structure ProducerErrorContext where
  lastError : Option String := none
  authError : Option String := none

namespace ProducerErrorContext

variable (context : ProducerErrorContext)

/-- The callback of the client. -/
def error (reason : String) : ProducerErrorContext where
  lastError := some reason
  authError :=
    if isAuthFailureReason reason && context.authError.isNone then some reason else context.authError

/-- A reason about authentication is the better one. -/
def failureReason : Option String := context.authError.or context.lastError

end ProducerErrorContext

/-- Authentication first, by the code, the reason and the text of the error; then by the code. -/
def classifyProduceError (error : KafkaError) (reason : Option String) : AppError :=
  if isAuthFailure (some error) reason || isAuthFailure (some error) (some error.text) then
    .authentication
  else
    match error.rdkafkaErrorCode with
    | some .topicAuthorizationFailed | some .clusterAuthorizationFailed
    | some .groupAuthorizationFailed | some .transactionalIdAuthorizationFailed => .authorization
    | some .messageSizeTooLarge | some .unknownTopicOrPartition | some .unknownTopic
    | some .unknownPartition | some .invalidPartitions | some .messageBatchTooLarge
    | some .invalidRecord | some .invalidMessage | some .invalidMessageSize => .validation
    | _ => .kafka

/-- The failure in words. -/
def describeProduceError (error : KafkaError) (kind : AppError) (topic : String) : String :=
  match kind with
  | .authorization =>
    s!"you do not have write access to \"{topic}\" — the broker refused the message " ++
      s!"({error.text}). Nothing was published."
  | .authentication => s!"the broker rejected this connection's credentials ({error.text})"
  | _ => error.text

/-- What happens to one record: the reasons that the client reports until its result is looked at, and
the result, a partition and an offset where it was delivered. -/
structure Sending where
  reported : List String := []
  result : Except KafkaError (ℤ × ℤ)

/-- The loop from the record `index` on, with one sending for each record that is left. -/
def publishFrom (topic : String) (index : ℕ) (errors : ProducerErrorContext)
    (delivered : List DeliveredRecord) : List Sending → PublishOutcome
  | [] => { delivered }
  | sending :: rest =>
    let errors := sending.reported.foldl ProducerErrorContext.error errors
    match sending.result with
    | .ok (partition, offset) =>
      publishFrom topic (index + 1) errors (delivered ++ [{ index, partition, offset }]) rest
    | .error error =>
      let kind := classifyProduceError error errors.failureReason
      { delivered
        failure := some
          { index, kind := .fromError kind, reason := describeProduceError error kind topic }
        notAttempted := rest.length }

/-- A publish of one record for each sending; `created` is the answer to the building of its producer. -/
def publishMessages (topic : String) (created : Except String Unit) (sendings : List Sending) :
    Except Report PublishOutcome :=
  match created with
  | .error err => .error ⟨.kafka, [s!"failed to create a producer for publishing: {err}"]⟩
  | .ok () => .ok (publishFrom topic 0 {} [] sendings)

end OffsetExplorer
