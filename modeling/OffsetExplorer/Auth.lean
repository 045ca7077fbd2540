import OffsetExplorer.Error
import Mathlib.Data.Int.Notation
import Mathlib.Data.List.Infix

/-!
# Which failures are about the credentials

* `KafkaError`: an error of the Kafka client, with its code and its text.
* `isAuthFailureReason`: a reason is recognised by its words, in any case.
* `isAuthFailure`: the code of an error and a reason, either of which is enough.
-/

namespace OffsetExplorer

/-- The error codes that the app tells apart. -/
inductive RDKafkaErrorCode where
  | authentication
  | saslAuthenticationFailed
  | topicAuthorizationFailed
  | clusterAuthorizationFailed
  | groupAuthorizationFailed
  | transactionalIdAuthorizationFailed
  | messageSizeTooLarge
  | unknownTopicOrPartition
  | unknownTopic
  | unknownPartition
  | invalidPartitions
  | messageBatchTooLarge
  | invalidRecord
  | invalidMessage
  | invalidMessageSize
  | other (code : ℤ)
  deriving DecidableEq

/-- An error of the Kafka client, as `rdkafka_error_code` and `to_string` show it. -/
structure KafkaError where
  rdkafkaErrorCode : Option RDKafkaErrorCode
  text : String
  deriving DecidableEq

/-- `AUTH_FAILURE_REASONS`. -/
def authFailureReasons : List String :=
  ["authentication failed", "authentication error", "sasl authentication",
    "invalid username or password", "unsupported sasl mechanism", "ssl handshake failed",
    "certificate verify failed"]

/-- `char::to_lowercase`, as far as ASCII letters come out of it: of the other characters only the
Kelvin sign and the capital I with a dot have some in their lowercase. -/
def toLowercase (c : Char) : List Char :=
  if c.toNat = 0x212A then ['k'] else if c.toNat = 0x130 then ['i', Char.ofNat 0x307] else [c.toLower]

/-- A reason that names one of the causes, in whatever case. -/
def isAuthFailureReason (reason : String) : Bool :=
  authFailureReasons.any fun fragment => fragment.toList <:+: reason.toList.flatMap toLowercase

/-- The code of the error is one of the two that mean rejected credentials. -/
def KafkaError.codeSaysAuth (error : KafkaError) : Bool :=
  error.rdkafkaErrorCode = some .authentication ||
    error.rdkafkaErrorCode = some .saslAuthenticationFailed

/-- An error is about authentication if its code or its reason says so. -/
def isAuthFailure (error : Option KafkaError) (reason : Option String) : Bool :=
  error.any KafkaError.codeSaysAuth || reason.any isAuthFailureReason

end OffsetExplorer
