import OffsetExplorer.Avro.Decode
import OffsetExplorer.Client.Pools
import OffsetExplorer.Protobuf.Header
import OffsetExplorer.Protobuf.Resolve
import Mathlib.Data.List.DropRight

/-!
# Decoding with a Schema Registry

`connection_decode_avro` and `connection_decode_protobuf` wait for the database, for a client and for the
registry; in between, other decodes go on, connections are edited and released, and schemas are set. A client
keeps the schemas that it has fetched.

* `Format`, `avro`, `protobuf`: what a command does with its payload; `Format.command`: the command on its own.
* `State.step`: the commands and everything around them, one wait at a time.
-/

namespace OffsetExplorer.SchemaRegistry

open OffsetExplorer.Core
open ClientPools (Environment RegistrySettings RegistryClient registrySettings)

/-! ## Formats -/

/-- What is done with a payload: it is decoded, or it waits for a schema of the registry. -/
inductive Plan (α : Type) where
  | finished (answer : Except Report α)
  | registry (schemaId : UInt32) (finish : String → Except Report α)

/-- A format: its name in the table of schemas, and the plan for a payload, a manual schema, and whether there
is a registry. -/
structure Format (α : Type) where
  name : String
  plan : List UInt8 → Option String → Bool → Plan α

/-- The Avro command. -/
def avro {σ : Type} (library : Avro.Library σ) (renderers : Avro.Renderers) : Format Avro.Json where
  name := "avro"
  plan bytes manualSchema hasRegistry :=
    match Avro.decideDecodeStrategy bytes manualSchema.isSome hasRegistry with
    | .error refusal => .finished (.error ⟨.decode, [refusal.message]⟩)
    | .ok .containerFile => .finished (Avro.decodeContainer library renderers bytes)
    | .ok .manualSchema => .finished (Avro.decode library renderers bytes (manualSchema.getD ""))
    | .ok (.schemaRegistry schemaId) => .registry schemaId (Avro.decode library renderers (bytes.drop 5))

/-- The two decoders are those of the protobuf crate. -/
def protobuf {α : Type} (decodeWithoutSchema : List UInt8 → Except Report α)
    (decode : List UInt8 → String → List ℤ → Protobuf.ProtobufSchemaSource → Except Report α) : Format α where
  name := "protobuf"
  plan bytes manualSchema hasRegistry :=
    match Protobuf.decideDecodeStrategy bytes manualSchema.isSome hasRegistry with
    | .rawFields bodyOffset => .finished (decodeWithoutSchema (bytes.drop bodyOffset))
    | .manualSchema bodyOffset messageIndex =>
      .finished (decode (bytes.drop bodyOffset) (manualSchema.getD "") messageIndex .manual)
    | .schemaRegistry schemaId bodyOffset messageIndex =>
      .registry schemaId fun schemaText => decode (bytes.drop bodyOffset) schemaText messageIndex .registry

variable {α : Type}

/-- The payload of a call. -/
def payloadBytes (payloadBase64 : String) : Except Report (List UInt8) :=
  match Base64.decodeCanonical payloadBase64.toList with
  | none => .error ⟨.decode, ["payload isn't valid base64"]⟩
  | some bytes => .ok bytes

/-- The command on its own, with what it looks up. -/
def Format.command (format : Format α) (lookups : Avro.Lookups) (payloadBase64 : String) : Except Report α := do
  let bytes ← payloadBytes payloadBase64
  let manualSchema ← lookups.manualSchema
  let endpoint ← lookups.schemaRegistryEndpoint
  match format.plan bytes manualSchema endpoint.isSome with
  | .finished answer => answer
  | .registry schemaId finish => do
    lookups.getOrCreate (endpoint.getD "")
    let schemaText ← lookups.fetchSchemaById schemaId
    finish schemaText

/-- **The Avro command** is this one. -/
theorem avro_command {σ : Type} (library : Avro.Library σ) (renderers : Avro.Renderers) (lookups : Avro.Lookups)
    (payloadBase64 : String) : (avro library renderers).command lookups payloadBase64 =
      Avro.connectionDecodeAvro library renderers lookups payloadBase64 := by
  rw [Format.command, Avro.connectionDecodeAvro, Avro.decodeTask, payloadBytes]
  cases Base64.decodeCanonical payloadBase64.toList with
  | none => rfl
  | some bytes =>
    cases lookups.manualSchema with
    | error report => rfl
    | ok manualSchema =>
      cases lookups.schemaRegistryEndpoint with
      | error report => rfl
      | ok endpoint =>
        simp only [bind, Except.bind, avro]
        cases Avro.decideDecodeStrategy bytes manualSchema.isSome endpoint.isSome with
        | error refusal => rfl
        | ok strategy =>
          cases strategy with
          | containerFile | manualSchema => rfl
          | schemaRegistry schemaId =>
            dsimp only
            cases lookups.getOrCreate (endpoint.getD "") with
            | error report => rfl
            | ok _ => cases lookups.fetchSchemaById schemaId <;> rfl

/-! ## The registry -/

/-- `trim_end_matches('/')`. -/
def baseUrl (endpoint : String) : String := String.ofList (endpoint.toList.rdropWhile (· = '/'))

/-- Where a registry has the schema of an id. -/
def schemaUrl (endpoint : String) (schemaId : UInt32) : String := s!"{baseUrl endpoint}/schemas/ids/{schemaId}"

/-- What comes back of a request. -/
inductive Response where
  | unsent
  | notFound
  | refused
  | unreadable
  | schema (text : String)
  deriving DecidableEq

/-- `fetch_schema_by_id` behind its request. -/
def received (endpoint : String) (schemaId : UInt32) : Response → Except Report String
  | .unsent => .error ⟨.schemaRegistry, [s!"request to {schemaUrl endpoint schemaId} failed"]⟩
  | .notFound => .error ⟨.notFound, [s!"schema id {schemaId} not found in registry"]⟩
  | .refused => .error ⟨.schemaRegistry, [s!"registry returned an error for schema id {schemaId}"]⟩
  | .unreadable => .error ⟨.schemaRegistry, ["failed to parse registry response as JSON"]⟩
  | .schema text => .ok text

/-- The schemas that are published to whoever comes with these settings. -/
abbrev Published := RegistrySettings → UInt32 → Option String

/-- A registry that answers with a schema answers with the one that it has under the id. -/
def Honest (published : Published) (settings : RegistrySettings) (schemaId : UInt32) : Response → Prop
  | .schema text => published settings schemaId = some text
  | _ => True

/-! ## Calls -/

/-- How far a call has come, with what it keeps of what it has read. -/
inductive Phase (α : Type) where
  | decoded (bytes : List UInt8)
  | manual (bytes : List UInt8) (manualSchema : Option String)
  | planned (connection : Connection) (schemaId : UInt32) (finish : String → Except Report α)
  | holding (client : RegistryClient) (schemaId : UInt32) (finish : String → Except Report α)
  | waiting (client : RegistryClient) (schemaId : UInt32) (finish : String → Except Report α)
  | done (answer : Except Report α)

/-- What a command is called with. -/
structure Request (α : Type) where
  format : Format α
  id : String
  topic : String
  payloadBase64 : String

/-- A call, and how far it has come. -/
structure Call (α : Type) extends Request α where
  phase : Phase α

/-- The caches go by the settings and the serial of their clients. -/
structure State (α : Type) where
  pools : ClientPools.State
  schemas : String × String × String → Option String := fun _ => none
  caches : RegistrySettings × ℕ → UInt32 → Option String := fun _ _ => none
  calls : List (Call α) := []

/-- Nothing is pooled, cached or set by hand. -/
def State.start (rows : List Connection) : State α := { pools := .start rows }

/-- What is done to connections and schemas, and the steps of the calls. -/
inductive Event (α : Type) where
  /-- Connections are created, edited and deleted, and clients are asked for and released. -/
  | pools (event : ClientPools.Event)
  | setSchema (key : String × String × String) (schemaText : Option String)
  | invoke (request : Request α)
  /-- A call reads the table of schemas, and after that its connection. -/
  | readSchema (call : ℕ) (outcome : Except Report Unit)
  | readConnection (call : ℕ) (outcome : Except Report Unit)
  /-- A call asks for its client, which may have to be built. -/
  | getClient (call : ℕ) (outcome : Except Report Unit)
  /-- It looks in the cache, and waits if the schema is not there. -/
  | lookUp (call : ℕ)
  | receive (call : ℕ) (response : Response)

/-- What a call does that has read its connection. -/
def Plan.phase (connection : Connection) : Plan α → Phase α
  | .finished answer => .done answer
  | .registry schemaId finish => .planned connection schemaId finish

namespace State

variable (env : Environment) (fingerprint : RegistrySettings → UInt64) (s : State α)

/-- A call goes on to another phase. -/
def goTo (n : ℕ) (call : Call α) (phase : Phase α) : State α := { s with calls := s.calls.set n { call with phase } }

/-- The row of a connection. -/
def found (id : String) : Except Report Connection :=
  match s.pools.rows.find? (·.id = id) with
  | none => .error ⟨.notFound, [s!"connection {id} not found"]⟩
  | some connection => .ok connection

/-- What a client remembers of a schema. -/
def cached (client : RegistryClient) (schemaId : UInt32) : Option String :=
  s.caches (client.settings, client.serial) schemaId

/-- `insert`. -/
def remember (client : RegistryClient) (schemaId : UInt32) (text : String) : State α :=
  let key := (client.settings, client.serial)
  { s with caches := Function.update s.caches key (Function.update (s.caches key) schemaId (some text)) }

/-- One step. What cannot happen is `none`. -/
def step : Event α → Option (State α)
  | .pools event => (ClientPools.step env fingerprint s.pools event).map fun pools => { s with pools }
  | .setSchema key schemaText => some { s with schemas := Function.update s.schemas key schemaText }
  | .invoke request =>
    let phase := match payloadBytes request.payloadBase64 with
      | .error report => .done (.error report)
      | .ok bytes => .decoded bytes
    some { s with calls := s.calls ++ [{ request with phase }] }
  | .readSchema n outcome => do
    let call ← s.calls[n]?
    match call.phase with
    | .decoded bytes =>
      match outcome with
      | .error report => return s.goTo n call (.done (.error report))
      | .ok () => return s.goTo n call (.manual bytes (s.schemas (call.id, call.topic, call.format.name)))
    | _ => none
  | .readConnection n outcome => do
    let call ← s.calls[n]?
    match call.phase with
    | .manual bytes manualSchema =>
      match outcome with
      | .error report => return s.goTo n call (.done (.error report))
      | .ok () =>
        match s.found call.id with
        | .error report => return s.goTo n call (.done (.error report))
        | .ok connection =>
          let plan := call.format.plan bytes manualSchema connection.schemaRegistryEndpoint.isSome
          return s.goTo n call (plan.phase connection)
    | _ => none
  | .getClient n outcome => do
    let call ← s.calls[n]?
    match call.phase with
    | .planned connection schemaId finish =>
      let settings ← registrySettings connection
      let (answer, pools) := ClientPools.getOrCreate fingerprint s.pools outcome connection.id settings
      match answer with
      | .error report => return { s with pools }.goTo n call (.done (.error report))
      | .ok client => return { s with pools }.goTo n call (.holding client schemaId finish)
    | _ => none
  | .lookUp n => do
    let call ← s.calls[n]?
    match call.phase with
    | .holding client schemaId finish =>
      match s.cached client schemaId with
      | some text => return s.goTo n call (.done (finish text))
      | none => return s.goTo n call (.waiting client schemaId finish)
    | _ => none
  | .receive n response => do
    let call ← s.calls[n]?
    match call.phase with
    | .waiting client schemaId finish =>
      match received client.settings.endpoint schemaId response with
      | .error report => return s.goTo n call (.done (.error report))
      | .ok text => return (s.remember client schemaId text).goTo n call (.done (finish text))
    | _ => none

end State

end OffsetExplorer.SchemaRegistry
