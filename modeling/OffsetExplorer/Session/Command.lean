import OffsetExplorer.Session.State
import OffsetExplorer.Publish
import OffsetExplorer.Lib.Script

/-!
# The commands

Every command of the back end as a script of operations, one for each critical section of a lock and
for each wait: for the database, for a client to be built, for the broker. What comes from outside is
the input of an operation.

* `Request`, `Op`, `Input`, `Command`: what is asked for, done and answered.
* `markDisconnected`, `recordAuthOutcome` and the others: the methods that take more than one step.
* `effect`, `next`: what an operation does to the state, and what its command does next.
* `session`: the system of all commands; `ordersState`: an app with one saved connection.
-/

namespace OffsetExplorer.Session

/-- The commands that load a connection, ask its broker one thing and record the outcome. -/
inductive Query where
  | listBrokers
  | listTopics
  | listConsumerGroups
  | countTopicMessages
  | listPartitions
  | describeTopicConfig
  | fetchConsumerGroupLag
  deriving DecidableEq

/-- A call of the publish command. -/
structure PublishCall where
  topic : String
  partition : ℤ
  messages : List NewPublishMessage
  maxMessageSizeBytes : ℕ
  deriving DecidableEq

/-- What a connection is loaded for; a fetch holds on to its cancellation flag. -/
inductive Request where
  | connect
  | query (q : Query)
  | fetchMessages (requestId : String) (flag : ℕ)
  | publish (call : PublishCall)
  deriving DecidableEq

/-- One critical section, or one wait. -/
inductive Op where
  -- the registry of sessions
  | connectedInsert (id : String)
  | connectedRemove (id : String)
  | authFailuresRecord (id reason : String)
  | authFailuresRemove (id : String)
  | writeDenialsInsert (id topic reason : String)
  | writeDenialsRetain (id : String)
  -- the pools
  | metadataClientsRemove (id : String)
  | adminClientsRemove (id : String)
  | schemaRegistryRelease (id : String)
  -- the cancellation flags
  | ownersInsert (requestId id : String)
  | flagsEntry (requestId id : String)
  | ownersOf (id : String)
  | flagsCancel (requestId : String)
  | flagsRemove (requestId : String)
  | ownersRemove (requestId : String)
  -- the way of a request
  | authBlockReason (id : String) (request : Request)
  | dbGet (id : String) (request : Request)
  | metadataClient (connection : Connection) (request : Request)
  | adminClient (connection : Connection) (request : Request)
  | broker (connection : Connection) (request : Request)
  | isConnected (connection : Connection) (call : PublishCall)
  | writeDenied (connection : Connection) (call : PublishCall) (connected : Bool)
  | produce (connection : Connection) (call : PublishCall) (records : List EncodedRecord)
  -- the saved connections
  | dbCreate (connection : Connection)
  | dbUpdate (id : String) (new : NewConnection)
  | dbGetUpdated (id : String)
  | dbDelete (id : String)
  | dbDeleteSchemas (id : String)
  -- the end
  | respond (result : Except String Unit)
  deriving DecidableEq

/-- What comes from outside: success, an error, a task that panicked, the outcome of a publish, the
time of an update, or the order in which a map is gone through. -/
inductive Input where
  | ok
  | error (report : Report)
  | panicked
  | outcome (o : PublishOutcome)
  | stamp (now : String)
  | order (requestIds : List String)
  deriving DecidableEq

/-- The commands of the back end that are about a connection. -/
inductive Command where
  | create (connection : Connection)
  | update (id : String) (new : NewConnection)
  | delete (id : String)
  | connect (id : String)
  | disconnect (id : String)
  | query (id : String) (q : Query)
  | fetchMessages (id requestId : String)
  | cancelFetch (requestId : String)
  | publish (id : String) (call : PublishCall)
  deriving DecidableEq

/-! ## Texts -/

/-- What was attached to an error, the last first. -/
def reportReasons (report : Report) : String := ": ".intercalate report.attachments.reverse

/-- The error as the front end is told it. -/
def formatReport (report : Report) : String :=
  ": ".intercalate ([report.error.text, reportReasons report].filter (!·.isEmpty))

/-- What a request is told that the breaker stops. -/
def blockedText (reason : String) : String :=
  s!"{AppError.authentication.text}: authentication failed for this connection, so it is not " ++
    s!"being retried: {reason}. Use Reconnect to try again, or edit the connection's credentials " ++
      "and save."

/-- The error of an id that has no row. -/
def notFound (id : String) : Report := ⟨.notFound, [s!"connection {id} not found"]⟩

/-- What a panic of the blocking task is reported as; a config is described without one. -/
def Request.panicText : Request → Option String
  | .connect => "connect task panicked"
  | .query .listBrokers => "list_brokers task panicked"
  | .query .listTopics => "list_topics task panicked"
  | .query .listConsumerGroups => "list_consumer_groups task panicked"
  | .query .countTopicMessages => "count_topic_messages task panicked"
  | .query .listPartitions => "list_partitions task panicked"
  | .query .describeTopicConfig => none
  | .query .fetchConsumerGroupLag => "fetch_consumer_group_lag task panicked"
  | .fetchMessages _ _ => "fetch_messages task panicked"
  | .publish _ => none

/-! ## Methods of several steps -/

section Methods

variable (id : String)

/-- The connection is off, and its denials are forgotten. -/
def markDisconnected : List Op := [.connectedRemove id, .writeDenialsRetain id]

/-- A rejection is counted. -/
def recordAuthFailure (reason : String) : List Op := [.authFailuresRecord id reason]

/-- Rejections and denials are forgotten. -/
def clearAuthFailures : List Op := [.authFailuresRemove id, .writeDenialsRetain id]

/-- A success forgets them too. -/
def recordAuthSuccess : List Op := clearAuthFailures id

/-- Both clients of the connection leave their pools. -/
def dropPooledClient : List Op := [.metadataClientsRemove id, .adminClientsRemove id]

/-- `KafkaClient::release`. -/
def release : List Op := dropPooledClient id

/-- A fetch is registered, its owner first. -/
def beginForConnection (requestId : String) : List Op :=
  [.ownersInsert requestId id, .flagsEntry requestId id]

/-- The fetches of the connection are looked up, and cancelled one by one. -/
def cancelAllForConnection : List Op := [.ownersOf id]

/-- A fetch is not registered any more. -/
def finish (requestId : String) : List Op := [.flagsRemove requestId, .ownersRemove requestId]

/-- The gate in front of every request: the breaker, and then the row. -/
def connectionForRequest (request : Request) : List Op := [.authBlockReason id request]

/-- What the outcome of a request says about the credentials. -/
def recordAuthOutcome : Except Report Unit → List Op
  | .ok () => recordAuthSuccess id
  | .error report =>
    if report.error = .authentication then
      recordAuthFailure id (reportReasons report) ++ release id
    else []

/-- The same where a rejection is not counted. -/
def recordAuthSuccessOnly : Except Report Unit → List Op
  | .ok () => recordAuthSuccess id
  | .error report => if report.error = .authentication then release id else []

/-- What `connection_publish_messages` records. -/
def recordPublishOutcome (topic : String) (outcome : PublishOutcome) : List Op :=
  (if outcome.delivered.isEmpty then [] else recordAuthSuccess id) ++
    match outcome.failure with
    | none => []
    | some failure =>
      match failure.kind with
      | .authorization => [.writeDenialsInsert id topic failure.reason]
      | .authentication => recordAuthFailure id failure.reason ++ release id
      | .validation | .transient => []

/-- The command ends with the outcome as it is told. -/
def answer : Except Report Unit → Op
  | .ok () => .respond (.ok ())
  | .error report => .respond (.error (formatReport report))

/-- A request ends before it asks for a client; a fetch is forgotten first. -/
def refuse (request : Request) (message : String) : List Op :=
  match request with
  | .fetchMessages requestId _ => finish requestId ++ [.respond (.error message)]
  | _ => [.respond (.error message)]

/-- What a loaded connection is used for next. -/
def useConnection (connection : Connection) (request : Request) : List Op :=
  match request with
  | .publish call => [.isConnected connection call]
  | .query .describeTopicConfig => [.adminClient connection request]
  | _ => [.metadataClient connection request]

/-- What a request records of its result: the group commands only a success, and a publish has a
record of its own. -/
def record (request : Request) (result : Except Report Unit) : List Op :=
  match request with
  | .query .listConsumerGroups | .query .fetchConsumerGroupLag => recordAuthSuccessOnly id result
  | .publish _ => []
  | _ => recordAuthOutcome id result

/-- A request that has its result: a fetch is forgotten, the result is recorded, and `connect` marks a
connection that has answered. -/
def settle (request : Request) (result : Except Report Unit) : List Op :=
  (match request with
    | .fetchMessages requestId _ => finish requestId
    | _ => []) ++ record id request result ++
    (match request, result with
      | .connect, .ok () => [.connectedInsert id]
      | _, _ => []) ++ [answer result]

/-- An error of the Kafka client; `connect` drops the pooled clients on the way out. -/
def fail (request : Request) (report : Report) : List Op :=
  (if request = .connect then dropPooledClient id else []) ++ settle id request (.error report)

end Methods

/-! ## Operations -/

/-- What an operation does to the state. -/
def effect (s : AppState) : Op → Input → AppState
  | .connectedInsert id, _ => { s with connections := s.connections.insertConnected id }
  | .connectedRemove id, _ => { s with connections := s.connections.removeConnected id }
  | .authFailuresRecord id reason, _ =>
    { s with connections := s.connections.countAuthFailure id reason }
  | .authFailuresRemove id, _ => { s with connections := s.connections.forgetAuthFailures id }
  | .writeDenialsInsert id topic reason, _ =>
    { s with connections := s.connections.recordWriteDenied id topic reason }
  | .writeDenialsRetain id, _ => { s with connections := s.connections.clearWriteDenials id }
  | .metadataClientsRemove id, _ => { s with kafka := s.kafka.removeMetadataClient id }
  | .adminClientsRemove id, _ => { s with kafka := s.kafka.removeAdminClient id }
  | .schemaRegistryRelease id, _ =>
    { s with schemaRegistry := Function.update s.schemaRegistry id false }
  | .ownersInsert requestId id, _ =>
    { s with fetchCancellations := s.fetchCancellations.insertOwner requestId id }
  | .flagsEntry requestId _, _ =>
    { s with fetchCancellations := (s.fetchCancellations.entry requestId).1 }
  | .flagsCancel requestId, _ =>
    { s with fetchCancellations := s.fetchCancellations.cancel requestId }
  | .flagsRemove requestId, _ =>
    { s with fetchCancellations := s.fetchCancellations.removeFlag requestId }
  | .ownersRemove requestId, _ =>
    { s with fetchCancellations := s.fetchCancellations.removeOwner requestId }
  | .metadataClient connection _, .ok => { s with kafka := s.kafka.poolMetadataClient connection }
  | .adminClient connection _, .ok => { s with kafka := s.kafka.poolAdminClient connection }
  | .dbCreate connection, .ok => { s with db := s.db.create connection }
  | .dbUpdate id new, .stamp now => { s with db := s.db.update id new now }
  | .dbDelete id, .ok => { s with db := s.db.delete id }
  | .dbDeleteSchemas id, .ok => { s with db := s.db.deleteAllForConnection id }
  | _, _ => s

/-- What the command of an operation does next; `none` where the input is not one that the operation
can have. -/
def next (decoders : Decoders) (s : AppState) : Op → Input → Option (List Op)
  | .connectedInsert _, .ok | .connectedRemove _, .ok | .authFailuresRemove _, .ok
  | .writeDenialsInsert _ _ _, .ok | .writeDenialsRetain _, .ok | .metadataClientsRemove _, .ok
  | .adminClientsRemove _, .ok | .schemaRegistryRelease _, .ok | .ownersInsert _ _, .ok
  | .flagsCancel _, .ok | .flagsRemove _, .ok | .ownersRemove _, .ok | .respond _, .ok => some []
  | .authFailuresRecord id reason, .ok =>
    some (if maxAuthAttempts ≤ (s.connections.countAuthFailure id reason).attempts id then
      markDisconnected id else [])
  | .flagsEntry requestId id, .ok =>
    some (connectionForRequest id
      (.fetchMessages requestId (s.fetchCancellations.entry requestId).2))
  | .ownersOf id, .order requestIds =>
    if requestIds.Perm (s.fetchCancellations.requestsOf id) then
      some (requestIds.map .flagsCancel)
    else none
  | .authBlockReason id request, .ok =>
    some (match s.connections.authBlockReason id with
      | some reason => refuse request (blockedText reason)
      | none => [.dbGet id request])
  | .dbGet id request, .ok =>
    some (match s.db.get id with
      | some connection => useConnection connection request
      | none => refuse request (formatReport (notFound id)))
  | .dbGet _ request, .error report => some (refuse request (formatReport report))
  | .metadataClient connection request, .ok => some [.broker connection request]
  | .metadataClient connection request, .error report =>
    if RdKafkaClient.current connection s.kafka.metadataClients then none
    else some (fail connection.id request report)
  | .adminClient connection request, .ok => some [.broker connection request]
  | .adminClient connection request, .error report =>
    if RdKafkaClient.current connection s.kafka.adminClients then none
    else some (fail connection.id request report)
  | .broker connection request, .ok => some (settle connection.id request (.ok ()))
  | .broker connection request, .error report => some (fail connection.id request report)
  | .broker connection request, .panicked =>
    request.panicText.map fun text => settle connection.id request (.error ⟨.kafka, [text]⟩)
  | .isConnected connection call, .ok =>
    some [.writeDenied connection call (s.connections.isConnected connection.id)]
  | .writeDenied connection call connected, .ok =>
    some (match publishRefusal connected connection.allowPublishing
        (s.connections.writeDeniedReason connection.id call.topic) with
      | some refusal =>
        [.respond (.error s!"{refusal.error.text}: {refusal.message call.topic}")]
      | none =>
        match encodeMessages decoders call.messages
            (PublishLimits.forMaxMessageSize call.maxMessageSizeBytes) with
        | .error report => [.respond (.error (formatReport report))]
        | .ok records => [.produce connection call records])
  | .produce connection call _, .outcome outcome =>
    some (recordPublishOutcome connection.id call.topic outcome ++ [.respond (.ok ())])
  | .produce _ _ _, .error report => some [.respond (.error (formatReport report))]
  | .dbCreate connection, .ok =>
    if (s.db.get connection.id).isNone then some [.respond (.ok ())] else none
  | .dbCreate _, .error report => some [.respond (.error (formatReport report))]
  | .dbUpdate id _, .stamp _ =>
    some (if (s.db.get id).isSome then [.dbGetUpdated id]
      else [.respond (.error (formatReport (notFound id)))])
  | .dbUpdate _ _, .error report => some [.respond (.error (formatReport report))]
  | .dbGetUpdated id, .ok =>
    some (if (s.db.get id).isSome then
      clearAuthFailures id ++ release id ++ [.schemaRegistryRelease id, .respond (.ok ())]
      else [.respond (.error (formatReport (notFound id)))])
  | .dbGetUpdated _, .error report => some [.respond (.error (formatReport report))]
  | .dbDelete id, .ok =>
    some (if (s.db.get id).isSome then [.dbDeleteSchemas id]
      else [.respond (.error (formatReport (notFound id)))])
  | .dbDelete _, .error report => some [.respond (.error (formatReport report))]
  | .dbDeleteSchemas id, .ok =>
    some (markDisconnected id ++ clearAuthFailures id ++ release id ++
      [.schemaRegistryRelease id, .respond (.ok ())])
  | .dbDeleteSchemas _, .error report => some [.respond (.error (formatReport report))]
  | _, _ => none

/-- What a command starts with. -/
def Command.script : Command → List Op
  | .create connection => [.dbCreate connection]
  | .update id new => [.dbUpdate id new]
  | .delete id => [.dbDelete id]
  | .connect id => clearAuthFailures id ++ connectionForRequest id .connect
  | .disconnect id =>
    markDisconnected id ++ cancelAllForConnection id ++ release id ++
      [.schemaRegistryRelease id, .respond (.ok ())]
  | .query id q => connectionForRequest id (.query q)
  | .fetchMessages id requestId => beginForConnection id requestId
  | .cancelFetch requestId => [.flagsCancel requestId, .respond (.ok ())]
  | .publish id call => connectionForRequest id (.publish call)

/-- All commands over the shared state. -/
def session (decoders : Decoders) : Script.System AppState Command Op Input where
  script := Command.script
  perform s op input := (next decoders s op input).map fun ops => (effect s op input, ops)

/-- The shared state, with the commands that run. -/
abbrev World : Type := Script.World AppState Command Op

/-- A command begins, or one that runs takes a step. -/
abbrev Event : Type := Script.Event Command Op Input

theorem perform_eq_some {decoders : Decoders} {s t : AppState} {op : Op} {input : Input}
    {ops : List Op} : (session decoders).perform s op input = some (t, ops) ↔
      next decoders s op input = some ops ∧ t = effect s op input := by
  rw [session, Option.map_eq_some_iff]
  constructor
  · rintro ⟨ops', h, heq⟩
    cases heq
    exact ⟨h, rfl⟩
  · rintro ⟨h, rfl⟩
    exact ⟨ops, h, rfl⟩

/-! ## An app with one connection -/

/-- A saved connection that allows publishing. -/
def ordersConnection : Connection where
  name := "orders"
  bootstrapServers := "localhost:9092"
  allowPublishing := true
  id := "c1"
  updatedAt := "2026-01-01T00:00:00Z"

/-- One saved connection, and nothing else. -/
def ordersState : AppState where
  db := { connections := [ordersConnection] }

/-- Decoders for which everything is right. -/
def plainDecoders : Decoders where
  json _ := .ok ()
  base64 _ := .ok []

/-- A publish of one message without a key and a value, and its record. -/
def ordersCall : PublishCall where
  topic := "orders"
  partition := 0
  messages := [{ key := { encoding := .null }, value := { encoding := .null } }]
  maxMessageSizeBytes := 1000

/-- A record without anything in it. -/
def ordersRecord : EncodedRecord where
  key := none
  value := none
  headers := []

/-- A connect that succeeds. -/
def connectTrace : List (Op × Input) :=
  [(.authFailuresRemove "c1", .ok), (.writeDenialsRetain "c1", .ok),
    (.authBlockReason "c1" .connect, .ok), (.dbGet "c1" .connect, .ok),
    (.metadataClient ordersConnection .connect, .ok), (.broker ordersConnection .connect, .ok),
    (.authFailuresRemove "c1", .ok), (.writeDenialsRetain "c1", .ok), (.connectedInsert "c1", .ok),
    (.respond (.ok ()), .ok)]

example : ((Script.serialStep (session plainDecoders) ordersState (.connect "c1", connectTrace)).map
    fun s => s.connections.connected "c1") = some true := by
  decide

/-- The trace of a call as events of task `t`. -/
def eventsOf (t : ℕ) (trace : List (Op × Input)) : List Event :=
  trace.map fun entry => .act t entry.1 entry.2

/-- A publish up to its check of the registry. -/
def publishTrace : List (Op × Input) :=
  [(.authBlockReason "c1" (.publish ordersCall), .ok), (.dbGet "c1" (.publish ordersCall), .ok),
    (.isConnected ordersConnection ordersCall, .ok),
    (.writeDenied ordersConnection ordersCall true, .ok)]

/-- A request that loads its connection. -/
def loadTrace : List (Op × Input) :=
  [(.authBlockReason "c1" (.query .listBrokers), .ok), (.dbGet "c1" (.query .listBrokers), .ok)]

/-- A request whose credentials are rejected; a rejection that trips the breaker also disconnects. -/
def rejectedTrace (connection : Connection) (trips : Bool) : List (Op × Input) :=
  let report : Report := ⟨.authentication, ["wrong password"]⟩
  [(.metadataClient connection (.query .listBrokers), .ok),
    (.broker connection (.query .listBrokers), .error report),
    (.authFailuresRecord "c1" "wrong password", .ok)] ++
    (if trips then [(.connectedRemove "c1", .ok), (.writeDenialsRetain "c1", .ok)] else []) ++
    [(.metadataClientsRemove "c1", .ok), (.adminClientsRemove "c1", .ok),
      (.respond (.error (formatReport report)), .ok)]

/-- A task comes past the gate. -/
def loadEvents (t : ℕ) : List Event := eventsOf t loadTrace

/-- A task is told that its credentials are wrong. -/
def rejectedEvents (t : ℕ) (connection : Connection) (trips : Bool) : List Event :=
  eventsOf t (rejectedTrace connection trips)

/-- A fetch up to its poll loop, and from the answer of the loop on. -/
def fetchTrace : List (Op × Input) :=
  let request := Request.fetchMessages "r1" 0
  [(.ownersInsert "r1" "c1", .ok), (.flagsEntry "r1" "c1", .ok), (.authBlockReason "c1" request, .ok),
    (.dbGet "c1" request, .ok), (.metadataClient ordersConnection request, .ok)]

/-- The rest of a fetch that succeeds. -/
def fetchedTrace : List (Op × Input) :=
  [(.broker ordersConnection (.fetchMessages "r1" 0), .ok), (.flagsRemove "r1", .ok),
    (.ownersRemove "r1", .ok), (.authFailuresRemove "c1", .ok), (.writeDenialsRetain "c1", .ok),
    (.respond (.ok ()), .ok)]

/-- A disconnect that finds these fetches. -/
def disconnectTrace (fetches : List String) : List (Op × Input) :=
  [(.connectedRemove "c1", .ok), (.writeDenialsRetain "c1", .ok), (.ownersOf "c1", .order fetches)] ++
    fetches.map (fun requestId => (.flagsCancel requestId, .ok)) ++
    [(.metadataClientsRemove "c1", .ok), (.adminClientsRemove "c1", .ok),
      (.schemaRegistryRelease "c1", .ok), (.respond (.ok ()), .ok)]

end OffsetExplorer.Session
