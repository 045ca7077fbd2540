import OffsetExplorer.Core.Connection
import OffsetExplorer.Error
import OffsetExplorer.Lib.Machine
import OffsetExplorer.Lib.Record
import OffsetExplorer.Lib.VersionedPool

/-!
# The pools of clients

The Kafka client keeps a metadata client and an admin client for each connection, in the version that its
row had, and the registry a Schema Registry client, by the fingerprint of its settings. A request loads its
row long before it asks for a client; updates, deletes and releases come in between.

* `clientConfig`, `registrySettings`: what the clients of a connection are built from.
* `metadataClient`, `adminClient`, `getOrCreate`: the code; `State`, `Event`, `step`: requests and the
  others in any order.
* `Backed`, `Versions`: each pooled client was built from a row of its connection in its version, and a
  version is one row.
* **`pooled_clients_own`**: whoever asks is given a client with the settings of the row that it has loaded.
-/

namespace OffsetExplorer.ClientPools

open OffsetExplorer.Core

/-! ## Settings -/

/-- The properties of a Kafka client. -/
abbrev ClientConfig := Record String String

/-- What all clients of a run of the app share. -/
structure Environment where
  clientId : String
  nativeCaBundlePem : Option String

/-- The stores of a connection with TLS, as its row has them. -/
structure BrokerSslConfig where
  truststoreLocation : Option String := none
  keystoreLocation : Option String := none
  keystorePassword : Option String := none
  keystoreKeyPassword : Option String := none

/-- `if let Some(value) = … { config.set(key, value) }`. -/
def setSome (config : ClientConfig) (key : String) : Option String → ClientConfig
  | some value => config.set key value
  | none => config

/-- How soon and how long librdkafka dials again. -/
def applyConnectionAttemptLimits (config : ClientConfig) : ClientConfig :=
  ((config.set "reconnect.backoff.ms" "1000").set "reconnect.backoff.max.ms" "30000").set
    "socket.connection.setup.timeout.ms" "5000"

/-- No more connections than are asked for, and no topics made by asking. -/
def applyConnectionFootprintLimits (config : ClientConfig) : ClientConfig :=
  (config.set "enable.sparse.connections" "true").set "allow.auto.create.topics" "false"

/-- The user and the password are set with a mechanism only. -/
def applySasl (config : ClientConfig) (mechanism : Option SaslMechanism)
    (username password : Option String) : ClientConfig :=
  match mechanism with
  | some mechanism =>
    setSome (setSome (config.set "sasl.mechanism" mechanism.text) "sasl.username" username)
      "sasl.password" password
  | none => config

/-- The trust store of the connection, or the one of the system for a protocol with TLS. -/
def applyTruststore (env : Environment) (config : ClientConfig) (protocol : SecurityProtocol)
    (location : Option String) : ClientConfig :=
  match location with
  | some location => config.set "ssl.ca.location" location
  | none =>
    if protocol = .ssl ∨ protocol = .saslSsl then setSome config "ssl.ca.pem" env.nativeCaBundlePem
    else config

/-- The properties of a client. Later ones win over earlier ones of the same name. -/
def buildClientConfig (env : Environment) (bootstrapServers : String) (protocol : SecurityProtocol)
    (mechanism : Option SaslMechanism) (username password : Option String) (ssl : BrokerSslConfig) :
    ClientConfig :=
  let config := (((∅ : ClientConfig).set "bootstrap.servers" bootstrapServers).set "security.protocol"
    protocol.text.toLower).set "client.id" env.clientId
  let config := applyConnectionFootprintLimits (applyConnectionAttemptLimits config)
  let config := applySasl config mechanism username password
  let config := applyTruststore env config protocol ssl.truststoreLocation
  let config := setSome config "ssl.keystore.location" ssl.keystoreLocation
  let config := setSome config "ssl.keystore.password" ssl.keystorePassword
  setSome config "ssl.key.password" ssl.keystoreKeyPassword

/-- The properties that a row comes to. -/
def clientConfig (env : Environment) (connection : Connection) : ClientConfig :=
  buildClientConfig env connection.bootstrapServers connection.securityProtocol
    connection.saslMechanism connection.saslUsername connection.saslPassword
    { truststoreLocation := connection.sslTruststoreLocation
      keystoreLocation := connection.sslKeystoreLocation
      keystorePassword := connection.sslKeystorePassword
      keystoreKeyPassword := connection.sslKeystoreKeyPassword }

/-- The endpoint and the `SchemaRegistryAuth` that goes with it. -/
structure RegistrySettings where
  endpoint : String
  basicAuthCredentials : Option String
  trustStoreLocation : Option String
  keystoreLocation : Option String
  keystorePassword : Option String
  deriving DecidableEq

/-- A connection without an endpoint has no registry to ask. -/
def registrySettings (connection : Connection) : Option RegistrySettings :=
  connection.schemaRegistryEndpoint.map fun endpoint =>
    { endpoint
      basicAuthCredentials := connection.schemaRegistryBasicAuthCredentials
      trustStoreLocation := connection.schemaRegistryTrustStoreLocation
      keystoreLocation := connection.schemaRegistryKeystoreLocation
      keystorePassword := connection.schemaRegistryKeystorePassword }

/-! ## Pools -/

/-- A metadata or an admin client: what it was built from, and which build it was. -/
structure KafkaClient where
  config : ClientConfig
  serial : ℕ

/-- A client of a registry, with a number that tells it from others of the same settings. -/
structure RegistryClient where
  settings : RegistrySettings
  serial : ℕ

open VersionedPool (Pool getOrBuild)

/-- Both pools of the Kafka client, the one of the registry, and what the requests have loaded. The rows
that were ever there are kept for reference, and each time that a client is asked for has a number. -/
structure State where
  rows : List Connection
  versions : List Connection
  requests : List Connection := []
  metadataClients : Pool String String KafkaClient := fun _ => none
  adminClients : Pool String String KafkaClient := fun _ => none
  registryClients : Pool String UInt64 RegistryClient := fun _ => none
  asked : ℕ := 0

/-- Nothing is pooled yet. -/
def State.start (rows : List Connection) : State := { rows, versions := rows }

/-- The three kinds of clients. -/
inductive Kind where
  | metadata
  | admin
  | registry
  deriving DecidableEq

/-- A client of either kind of pool. -/
inductive Client where
  | kafka (client : KafkaClient)
  | registry (client : RegistryClient)

section Requests

variable (env : Environment) (fingerprint : RegistrySettings → UInt64) (s : State)
  (connection : Connection) (outcome : Except Report Unit)

/-- The client that is built for a connection, unless that fails. -/
def buildKafka : Except Report KafkaClient :=
  outcome.map fun _ => { config := clientConfig env connection, serial := s.asked }

/-- The pooled client of the row's version, or a new one in its place. -/
def metadataClient : Except Report KafkaClient × State :=
  let (answer, pool) := getOrBuild s.metadataClients connection.id connection.updatedAt
    (buildKafka env s connection outcome)
  (answer, { s with metadataClients := pool, asked := s.asked + 1 })

/-- The same in the pool of the admin clients. -/
def adminClient : Except Report KafkaClient × State :=
  let (answer, pool) := getOrBuild s.adminClients connection.id connection.updatedAt
    (buildKafka env s connection outcome)
  (answer, { s with adminClients := pool, asked := s.asked + 1 })

/-- A registry client, unless it cannot be built. -/
def buildRegistry (settings : RegistrySettings) : Except Report RegistryClient :=
  outcome.map fun _ => { settings, serial := s.asked }

/-- `get_or_create`: the fingerprint of the settings takes the place of the version. -/
def getOrCreate (connectionId : String) (settings : RegistrySettings) :
    Except Report RegistryClient × State :=
  let (answer, pool) := getOrBuild s.registryClients connectionId (fingerprint settings)
    (buildRegistry s outcome settings)
  (answer, { s with registryClients := pool, asked := s.asked + 1 })

/-- A request that has loaded `connection` asks for a client; the registry is asked only where there is an
endpoint. -/
def ask : Kind → Option (Except Report Client × State)
  | .metadata =>
    some ((metadataClient env s connection outcome).1.map .kafka,
      (metadataClient env s connection outcome).2)
  | .admin =>
    some ((adminClient env s connection outcome).1.map .kafka,
      (adminClient env s connection outcome).2)
  | .registry => (registrySettings connection).map fun settings =>
    ((getOrCreate fingerprint s outcome connection.id settings).1.map .registry,
      (getOrCreate fingerprint s outcome connection.id settings).2)

end Requests

/-- A client is taken out of its pool; `release` of the Kafka client does this in each of its pools. -/
def release (s : State) (id : String) : Kind → State
  | .metadata => { s with metadataClients := VersionedPool.release s.metadataClients id }
  | .admin => { s with adminClients := VersionedPool.release s.adminClients id }
  | .registry => { s with registryClients := VersionedPool.release s.registryClients id }

/-- What can happen next. -/
inductive Event where
  | create (new : NewConnection) (id now : String)
  | update (id : String) (new : NewConnection) (now : String)
  | delete (id : String)
  /-- A request starts and loads its row. -/
  | load (id : String)
  /-- A request asks for a client; `outcome` is that of a build. -/
  | ask (request : ℕ) (kind : Kind) (outcome : Except Report Unit)
  | release (kind : Kind) (id : String)

/-- The row after an update. -/
def updated (new : NewConnection) (now : String) (row : Connection) : Connection :=
  { new with id := row.id, createdAt := row.createdAt, updatedAt := now }

/-- The commands one after another, as the pools see them. -/
def step (env : Environment) (fingerprint : RegistrySettings → UInt64) (s : State) :
    Event → Option State
  | .create new id now =>
    if id ∈ s.rows.map (·.id) then none
    else
      let row : Connection := { new with id, createdAt := now, updatedAt := now }
      some { s with rows := s.rows ++ [row], versions := s.versions ++ [row] }
  | .update id new now =>
    some { s with
      rows := s.rows.map fun row => if row.id = id then updated new now row else row
      versions := s.versions ++ (s.rows.filter (·.id = id)).map (updated new now) }
  | .delete id => some { s with rows := s.rows.filter (·.id ≠ id) }
  | .load id => (s.rows.find? (·.id = id)).map fun row => { s with requests := s.requests ++ [row] }
  | .ask request kind outcome => do
    let connection ← s.requests[request]?
    let (_, s) ← ask env fingerprint s connection outcome kind
    return s
  | .release kind id => some (release s id kind)

/-! ## What the assumptions say -/

/-- A row is created under an id of its own, and every update gives it an `updated_at` that it never had. -/
def NewVersion (s : State) : Event → Prop
  | .create _ id _ => ∀ row ∈ s.versions, row.id ≠ id
  | .update id _ now => ∀ row ∈ s.versions, row.id = id → row.updatedAt ≠ now
  | _ => True

/-- The hash tells the registry settings that a connection ever had apart. -/
def NoCollision (fingerprint : RegistrySettings → UInt64) (versions : List Connection) : Prop :=
  ∀ a ∈ versions, ∀ b ∈ versions, a.id = b.id → ∀ x ∈ registrySettings a, ∀ y ∈ registrySettings b,
    fingerprint x = fingerprint y → x = y

/-- The client was built from the settings of the row. -/
def Own (env : Environment) (connection : Connection) : Client → Prop
  | .kafka client => client.config = clientConfig env connection
  | .registry client => registrySettings connection = some client.settings

/-- A step neither releases the client of `connection` nor asks for one in another version. -/
def Undisturbed (kind : Kind) (connection : Connection) (s : State) : Event → Prop
  | .ask request kind' _ => kind' = kind → ∀ other ∈ s.requests[request]?, other.id = connection.id →
    other.updatedAt = connection.updatedAt
  | .release kind' id => kind' = kind → id ≠ connection.id
  | _ => True

/-! ## Versions -/

/-- Rows have ids of their own, and an id and a time are one row, whoever has loaded it. -/
structure Versions (s : State) : Prop where
  ids : (s.rows.map (·.id)).Nodup
  rows : ∀ row ∈ s.rows, row ∈ s.versions
  requests : ∀ row ∈ s.requests, row ∈ s.versions
  unique : ∀ a ∈ s.versions, ∀ b ∈ s.versions, a.id = b.id → a.updatedAt = b.updatedAt → a = b

variable {env : Environment} {fingerprint : RegistrySettings → UInt64} {s s' : State} {e : Event}

theorem versions_start {rows : List Connection} (hrows : (rows.map (·.id)).Nodup) :
    Versions (.start rows) where
  ids := hrows
  rows := fun _ h => h
  requests := fun _ h => absurd h List.not_mem_nil
  unique := fun _ ha _ hb hid _ => List.inj_on_of_nodup_map hrows ha hb hid

theorem ask_fields {connection : Connection} {outcome : Except Report Unit} {kind : Kind}
    {answer : Except Report Client}
    (h : ask env fingerprint s connection outcome kind = some (answer, s')) :
    s'.rows = s.rows ∧ s'.versions = s.versions ∧ s'.requests = s.requests := by
  cases kind with
  | metadata | admin =>
    cases h
    exact ⟨rfl, rfl, rfl⟩
  | registry =>
    obtain ⟨settings, -, heq⟩ := Option.map_eq_some_iff.mp h
    cases heq
    exact ⟨rfl, rfl, rfl⟩

theorem step_ask {request : ℕ} {kind : Kind} {outcome : Except Report Unit}
    (h : step env fingerprint s (.ask request kind outcome) = some s') :
    ∃ connection answer, s.requests[request]? = some connection ∧
      ask env fingerprint s connection outcome kind = some (answer, s') := by
  obtain ⟨connection, hget, h⟩ := Option.bind_eq_some_iff.mp h
  obtain ⟨⟨answer, t⟩, hask, h⟩ := Option.bind_eq_some_iff.mp h
  cases h
  exact ⟨connection, answer, hget, hask⟩

theorem versions_subset (h : step env fingerprint s e = some s') :
    ∀ row ∈ s.versions, row ∈ s'.versions := by
  intro row hrow
  cases e with
  | create new id now =>
    rw [step] at h
    split_ifs at h
    cases h
    exact List.mem_append_left _ hrow
  | update id new now =>
    cases h
    exact List.mem_append_left _ hrow
  | load id =>
    obtain ⟨_, -, rfl⟩ := Option.map_eq_some_iff.mp h
    exact hrow
  | ask request kind outcome =>
    obtain ⟨connection, answer, -, hask⟩ := step_ask h
    rw [(ask_fields hask).2.1]
    exact hrow
  | release kind id =>
    cases h
    cases kind <;> exact hrow
  | delete id =>
    cases h
    exact hrow

theorem unique_append {versions new : List Connection}
    (hunique : ∀ a ∈ versions, ∀ b ∈ versions, a.id = b.id → a.updatedAt = b.updatedAt → a = b)
    (hnew : ∀ a ∈ new, ∀ b ∈ new, a.id = b.id → a = b)
    (hfresh : ∀ a ∈ new, ∀ b ∈ versions, a.id = b.id → a.updatedAt ≠ b.updatedAt) :
    ∀ a ∈ versions ++ new, ∀ b ∈ versions ++ new, a.id = b.id → a.updatedAt = b.updatedAt → a = b := by
  intro a ha b hb hid htime
  rcases List.mem_append.mp ha with ha | ha <;> rcases List.mem_append.mp hb with hb | hb
  · exact hunique a ha b hb hid htime
  · exact absurd htime.symm (hfresh b hb a ha hid.symm)
  · exact absurd htime (hfresh a ha b hb hid)
  · exact hnew a ha b hb hid

/-- **A version stays one row.** -/
theorem versions_step (hv : Versions s) (hnew : NewVersion s e)
    (h : step env fingerprint s e = some s') : Versions s' := by
  cases e with
  | create new id now =>
    rw [step] at h
    split_ifs at h with hid
    cases h
    refine ⟨?_, fun row hrow => ?_, fun row hrow => List.mem_append_left _ (hv.requests row hrow), ?_⟩
    · rw [List.map_append, List.nodup_append]
      refine ⟨hv.ids, List.nodup_singleton _, fun a ha b hb heq => ?_⟩
      rw [List.mem_singleton.mp hb] at heq
      have heq : a = id := heq
      exact hid (heq ▸ ha)
    · rcases List.mem_append.mp hrow with hrow | hrow
      · exact List.mem_append_left _ (hv.rows row hrow)
      · exact List.mem_append_right _ hrow
    · refine unique_append hv.unique (fun a ha b hb _ => ?_) fun a ha b hb hsame => ?_
      · rw [List.mem_singleton.mp ha, List.mem_singleton.mp hb]
      · rw [List.mem_singleton.mp ha] at hsame
        exact absurd hsame.symm (hnew b hb)
  | update id new now =>
    cases h
    have hids : (s.rows.map fun row => if row.id = id then updated new now row else row).map (·.id) =
        s.rows.map (·.id) := by
      rw [List.map_map]
      refine List.map_congr_left fun row _ => ?_
      simp only [Function.comp_apply]
      split_ifs <;> rfl
    refine ⟨hids ▸ hv.ids, fun row hrow => ?_,
      fun row hrow => List.mem_append_left _ (hv.requests row hrow), ?_⟩
    · obtain ⟨old, hold, rfl⟩ := List.mem_map.mp hrow
      split_ifs with hid
      · exact List.mem_append_right _
          (List.mem_map_of_mem (List.mem_filter.mpr ⟨hold, decide_eq_true hid⟩))
      · exact List.mem_append_left _ (hv.rows old hold)
    · refine unique_append hv.unique (fun a ha b hb hsame => ?_) fun a ha b hb hsame htime => ?_
      · obtain ⟨x, hx, rfl⟩ := List.mem_map.mp ha
        obtain ⟨y, hy, rfl⟩ := List.mem_map.mp hb
        rw [List.inj_on_of_nodup_map hv.ids (List.mem_of_mem_filter hx) (List.mem_of_mem_filter hy)
          hsame]
      · obtain ⟨x, hx, rfl⟩ := List.mem_map.mp ha
        have hid : x.id = id := of_decide_eq_true (List.mem_filter.mp hx).2
        exact hnew b hb (hsame.symm.trans hid) htime.symm
  | delete id =>
    cases h
    exact ⟨hv.ids.sublist (List.filter_sublist.map _),
      fun row hrow => hv.rows row (List.mem_of_mem_filter hrow), hv.requests, hv.unique⟩
  | load id =>
    obtain ⟨row, hfind, rfl⟩ := Option.map_eq_some_iff.mp h
    refine ⟨hv.ids, hv.rows, fun r hr => ?_, hv.unique⟩
    rcases List.mem_append.mp hr with hr | hr
    · exact hv.requests r hr
    · rw [List.mem_singleton.mp hr]
      exact hv.rows row (List.mem_of_find?_eq_some hfind)
  | ask request kind outcome =>
    obtain ⟨connection, answer, -, hask⟩ := step_ask h
    obtain ⟨hrows, hversions, hrequests⟩ := ask_fields hask
    exact ⟨hrows ▸ hv.ids, hrows ▸ hversions ▸ hv.rows, hrequests ▸ hversions ▸ hv.requests,
      hversions ▸ hv.unique⟩
  | release kind id =>
    cases h
    cases kind <;> exact ⟨hv.ids, hv.rows, hv.requests, hv.unique⟩

/-! ## What the clients were built from -/

open VersionedPool (Backed)

/-- A Kafka client was built from a row of its connection, in the version that it is pooled with. -/
def BuiltFrom (env : Environment) (versions : List Connection) (id updatedAt : String)
    (client : KafkaClient) : Prop :=
  ∃ row ∈ versions, row.id = id ∧ row.updatedAt = updatedAt ∧ client.config = clientConfig env row

/-- The registry client was built from settings of its connection with this fingerprint. -/
def RegistryBuiltFrom (fingerprint : RegistrySettings → UInt64) (versions : List Connection)
    (id : String) (hash : UInt64) (client : RegistryClient) : Prop :=
  ∃ row ∈ versions, row.id = id ∧ registrySettings row = some client.settings ∧
    fingerprint client.settings = hash

/-- The three pools of a state. -/
structure Pools (env : Environment) (fingerprint : RegistrySettings → UInt64) (versions : List Connection)
    (s : State) : Prop where
  metadata : Backed (BuiltFrom env versions) s.metadataClients
  admin : Backed (BuiltFrom env versions) s.adminClients
  registry : Backed (RegistryBuiltFrom fingerprint versions) s.registryClients

theorem Pools.mono {versions later : List Connection} (h : Pools env fingerprint versions s)
    (hsub : ∀ row ∈ versions, row ∈ later) : Pools env fingerprint later s where
  metadata := h.metadata.mono fun _ _ _ ⟨row, hrow, hbuilt⟩ => ⟨row, hsub row hrow, hbuilt⟩
  admin := h.admin.mono fun _ _ _ ⟨row, hrow, hbuilt⟩ => ⟨row, hsub row hrow, hbuilt⟩
  registry := h.registry.mono fun _ _ _ ⟨row, hrow, hbuilt⟩ => ⟨row, hsub row hrow, hbuilt⟩

theorem builtFrom_buildKafka {connection : Connection} {outcome : Except Report Unit}
    {versions : List Connection} (hmem : connection ∈ versions) :
    ∀ client, buildKafka env s connection outcome = .ok client →
      BuiltFrom env versions connection.id connection.updatedAt client := by
  intro client h
  cases outcome with
  | error report => cases h
  | ok _ =>
    cases h
    exact ⟨connection, hmem, rfl, rfl, rfl⟩

theorem builtFrom_buildRegistry {connection : Connection} {outcome : Except Report Unit}
    {versions : List Connection} {settings : RegistrySettings} (hmem : connection ∈ versions)
    (hsettings : registrySettings connection = some settings) :
    ∀ client, buildRegistry s outcome settings = .ok client →
      RegistryBuiltFrom fingerprint versions connection.id (fingerprint settings) client := by
  intro client h
  cases outcome with
  | error report => cases h
  | ok _ =>
    cases h
    exact ⟨connection, hmem, rfl, hsettings, rfl⟩

theorem Pools.ask {versions : List Connection} (h : Pools env fingerprint versions s)
    {connection : Connection} {outcome : Except Report Unit} {kind : Kind}
    {answer : Except Report Client} (hmem : connection ∈ versions)
    (hask : ask env fingerprint s connection outcome kind = some (answer, s')) :
    Pools env fingerprint versions s' := by
  cases kind with
  | metadata =>
    cases hask
    exact ⟨h.metadata.getOrBuild (builtFrom_buildKafka hmem), h.admin, h.registry⟩
  | admin =>
    cases hask
    exact ⟨h.metadata, h.admin.getOrBuild (builtFrom_buildKafka hmem), h.registry⟩
  | registry =>
    obtain ⟨settings, hsettings, heq⟩ := Option.map_eq_some_iff.mp hask
    cases heq
    exact ⟨h.metadata, h.admin, h.registry.getOrBuild (builtFrom_buildRegistry hmem hsettings)⟩

theorem Pools.release {versions : List Connection} (h : Pools env fingerprint versions s) (id : String)
    (kind : Kind) : Pools env fingerprint versions (release s id kind) := by
  cases kind with
  | metadata => exact ⟨h.metadata.release id, h.admin, h.registry⟩
  | admin => exact ⟨h.metadata, h.admin.release id, h.registry⟩
  | registry => exact ⟨h.metadata, h.admin, h.registry.release id⟩

/-- **The pools are kept by every step.** -/
theorem pools_step (hv : Versions s) (hp : Pools env fingerprint s.versions s)
    (h : step env fingerprint s e = some s') : Pools env fingerprint s'.versions s' := by
  suffices hpools : Pools env fingerprint s.versions s' from hpools.mono (versions_subset h)
  cases e with
  | create new id now =>
    rw [step] at h
    split_ifs at h
    cases h
    exact ⟨hp.metadata, hp.admin, hp.registry⟩
  | update id new now | delete id =>
    cases h
    exact ⟨hp.metadata, hp.admin, hp.registry⟩
  | load id =>
    obtain ⟨_, -, rfl⟩ := Option.map_eq_some_iff.mp h
    exact ⟨hp.metadata, hp.admin, hp.registry⟩
  | ask request kind outcome =>
    obtain ⟨connection, answer, hget, hask⟩ := step_ask h
    exact hp.ask (hv.requests connection (List.mem_of_getElem? hget)) hask
  | release kind id =>
    cases h
    exact hp.release id kind

theorem map_eq_ok {α β : Type} {f : α → β} {x : Except Report α} {y : β} (h : x.map f = .ok y) :
    ∃ a, x = .ok a ∧ f a = y := by
  cases x with
  | error report => cases h
  | ok a =>
    cases h
    exact ⟨a, rfl, rfl⟩

theorem map_eq_error {α β : Type} {f : α → β} {x : Except Report α} {report : Report}
    (h : x.map f = .error report) : x = .error report := by
  cases x with
  | error _ =>
    cases h
    rfl
  | ok a => cases h

/-- **Own settings.** A client that was built from a row in this version was built from the row at hand. -/
theorem own_of_ask (hv : Versions s) (hp : Pools env fingerprint s.versions s)
    (hhash : NoCollision fingerprint s.versions) {connection : Connection} (hmem : connection ∈ s.versions)
    {outcome : Except Report Unit} {kind : Kind} {client : Client}
    (hask : ask env fingerprint s connection outcome kind = some (.ok client, s')) :
    Own env connection client := by
  have hpools := hp.ask hmem hask
  have kafka : ∀ c : KafkaClient, BuiltFrom env s.versions connection.id connection.updatedAt c →
      Own env connection (.kafka c) := by
    rintro c ⟨row, hrow, hid, htime, hconfig⟩
    obtain rfl := hv.unique row hrow connection hmem hid htime
    exact hconfig
  cases kind with
  | metadata =>
    obtain ⟨hanswer, rfl⟩ := Prod.mk.inj (Option.some.inj hask)
    obtain ⟨c, hc, rfl⟩ := map_eq_ok hanswer
    exact kafka c (hpools.metadata _ _ (VersionedPool.pooled_of_getOrBuild hc))
  | admin =>
    obtain ⟨hanswer, rfl⟩ := Prod.mk.inj (Option.some.inj hask)
    obtain ⟨c, hc, rfl⟩ := map_eq_ok hanswer
    exact kafka c (hpools.admin _ _ (VersionedPool.pooled_of_getOrBuild hc))
  | registry =>
    obtain ⟨settings, hsettings, heq⟩ := Option.map_eq_some_iff.mp hask
    obtain ⟨hanswer, rfl⟩ := Prod.mk.inj heq
    obtain ⟨c, hc, rfl⟩ := map_eq_ok hanswer
    obtain ⟨row, hrow, hid, hbuilt, hsame⟩ :=
      hpools.registry _ _ (VersionedPool.pooled_of_getOrBuild hc)
    rw [Own, hsettings, hhash row hrow connection hmem hid c.settings hbuilt settings hsettings hsame]

/-! ## What stays in a pool -/

/-- The client that a pool holds for the version of `connection`. -/
def Holds (fingerprint : RegistrySettings → UInt64) (kind : Kind) (connection : Connection)
    (client : Client) (s : State) : Prop :=
  match kind, client with
  | .metadata, .kafka c => s.metadataClients connection.id = some ⟨connection.updatedAt, c⟩
  | .admin, .kafka c => s.adminClients connection.id = some ⟨connection.updatedAt, c⟩
  | .registry, .registry c => ∃ settings, registrySettings connection = some settings ∧
    s.registryClients connection.id = some ⟨fingerprint settings, c⟩
  | _, _ => False

variable {kind : Kind} {connection : Connection} {client : Client}

theorem holds_of_ask {outcome : Except Report Unit}
    (hask : ask env fingerprint s connection outcome kind = some (.ok client, s')) :
    Holds fingerprint kind connection client s' := by
  cases kind with
  | metadata =>
    obtain ⟨hanswer, rfl⟩ := Prod.mk.inj (Option.some.inj hask)
    obtain ⟨c, hc, rfl⟩ := map_eq_ok hanswer
    exact VersionedPool.pooled_of_getOrBuild hc
  | admin =>
    obtain ⟨hanswer, rfl⟩ := Prod.mk.inj (Option.some.inj hask)
    obtain ⟨c, hc, rfl⟩ := map_eq_ok hanswer
    exact VersionedPool.pooled_of_getOrBuild hc
  | registry =>
    obtain ⟨settings, hsettings, heq⟩ := Option.map_eq_some_iff.mp hask
    obtain ⟨hanswer, rfl⟩ := Prod.mk.inj heq
    obtain ⟨c, hc, rfl⟩ := map_eq_ok hanswer
    exact ⟨settings, hsettings, VersionedPool.pooled_of_getOrBuild hc⟩

theorem ask_of_holds (h : Holds fingerprint kind connection client s) (outcome : Except Report Unit) :
    (ask env fingerprint s connection outcome kind).map Prod.fst = some (.ok client) := by
  cases kind <;> cases client
  case metadata.kafka c =>
    rw [ask, metadataClient, VersionedPool.getOrBuild_of_current h]
    rfl
  case admin.kafka c =>
    rw [ask, adminClient, VersionedPool.getOrBuild_of_current h]
    rfl
  case registry.registry c =>
    obtain ⟨settings, hsettings, hpool⟩ := h
    rw [ask, hsettings, Option.map_some, getOrCreate, VersionedPool.getOrBuild_of_current hpool]
    rfl
  all_goals exact h.elim

/-- A request for the same row, or of another connection, leaves the client where it is. -/
theorem holds_ask {other : Connection} {kind' : Kind} {outcome : Except Report Unit}
    {answer : Except Report Client}
    (hsame : kind' = kind → other.id = connection.id → other = connection)
    (hholds : Holds fingerprint kind connection client s)
    (hask : ask env fingerprint s other outcome kind' = some (answer, s')) :
    Holds fingerprint kind connection client s' := by
  cases kind' with
  | metadata =>
    cases hask
    cases kind <;> cases client
    case metadata.kafka c =>
      exact VersionedPool.getOrBuild_keeps hholds fun hid => by rw [hsame rfl hid]
    all_goals exact hholds
  | admin =>
    cases hask
    cases kind <;> cases client
    case admin.kafka c =>
      exact VersionedPool.getOrBuild_keeps hholds fun hid => by rw [hsame rfl hid]
    all_goals exact hholds
  | registry =>
    obtain ⟨settings, hsettings, heq⟩ := Option.map_eq_some_iff.mp hask
    cases heq
    cases kind <;> cases client
    case registry.registry c =>
      obtain ⟨own, hown, hpool⟩ := hholds
      refine ⟨own, hown, VersionedPool.getOrBuild_keeps hpool fun hid => ?_⟩
      rw [hsame rfl hid, hown] at hsettings
      rw [Option.some.inj hsettings]
    all_goals exact hholds

theorem holds_release {id : String} {kind' : Kind} (hother : kind' = kind → id ≠ connection.id)
    (hholds : Holds fingerprint kind connection client s) :
    Holds fingerprint kind connection client (release s id kind') := by
  cases kind' <;> cases kind <;> cases client
  case metadata.metadata.kafka c => exact (VersionedPool.release_keeps (hother rfl)).trans hholds
  case admin.admin.kafka c => exact (VersionedPool.release_keeps (hother rfl)).trans hholds
  case registry.registry.registry c =>
    obtain ⟨settings, hsettings, hpool⟩ := hholds
    exact ⟨settings, hsettings, (VersionedPool.release_keeps (hother rfl)).trans hpool⟩
  all_goals exact hholds

/-- **A pooled client stays** through every step that neither releases it nor asks for another version. -/
theorem holds_step (hv : Versions s) (hmem : connection ∈ s.versions)
    (hundisturbed : Undisturbed kind connection s e)
    (hholds : Holds fingerprint kind connection client s)
    (h : step env fingerprint s e = some s') : Holds fingerprint kind connection client s' := by
  cases e with
  | create new id now =>
    rw [step] at h
    split_ifs at h
    cases h
    cases kind <;> cases client <;> exact hholds
  | update id new now | delete id =>
    cases h
    cases kind <;> cases client <;> exact hholds
  | load id =>
    obtain ⟨_, -, rfl⟩ := Option.map_eq_some_iff.mp h
    cases kind <;> cases client <;> exact hholds
  | ask request kind' outcome =>
    obtain ⟨other, answer, hget, hask⟩ := step_ask h
    have hother := hv.requests other (List.mem_of_getElem? hget)
    exact holds_ask (fun hkind hid => hv.unique other hother connection hmem hid
      (hundisturbed hkind other hget hid)) hholds hask
  | release kind' id =>
    cases h
    exact holds_release hundisturbed hholds

/-- **A failed build leaves the pools as they were.** -/
theorem pools_of_error {outcome : Except Report Unit} {report : Report}
    (hask : ask env fingerprint s connection outcome kind = some (.error report, s')) :
    s'.metadataClients = s.metadataClients ∧ s'.adminClients = s.adminClients ∧
      s'.registryClients = s.registryClients := by
  cases kind with
  | metadata =>
    obtain ⟨hanswer, rfl⟩ := Prod.mk.inj (Option.some.inj hask)
    exact ⟨VersionedPool.getOrBuild_of_error (map_eq_error hanswer), rfl, rfl⟩
  | admin =>
    obtain ⟨hanswer, rfl⟩ := Prod.mk.inj (Option.some.inj hask)
    exact ⟨rfl, VersionedPool.getOrBuild_of_error (map_eq_error hanswer), rfl⟩
  | registry =>
    obtain ⟨settings, -, heq⟩ := Option.map_eq_some_iff.mp hask
    obtain ⟨hanswer, rfl⟩ := Prod.mk.inj heq
    exact ⟨rfl, rfl, VersionedPool.getOrBuild_of_error (map_eq_error hanswer)⟩

/-! ## Whole runs -/

/-- What every state of a run is in. -/
def Good (env : Environment) (fingerprint : RegistrySettings → UInt64) (s : State) : Prop :=
  Versions s ∧ Pools env fingerprint s.versions s

theorem good_run {s s' : State} {es : List Event} (hgood : Good env fingerprint s)
    (hnew : Machine.AllSteps (step env fingerprint) NewVersion s es)
    (hrun : Machine.run (step env fingerprint) s es = some s') : Good env fingerprint s' :=
  Machine.run_induction (fun _ _ _ hC hI h => ⟨versions_step hI.1 hC h, pools_step hI.1 hI.2 h⟩)
    hnew hgood hrun

theorem good_start {rows : List Connection} (hrows : (rows.map (·.id)).Nodup) :
    Good env fingerprint (.start rows) :=
  ⟨versions_start hrows, VersionedPool.backed_empty, VersionedPool.backed_empty,
    VersionedPool.backed_empty⟩

/-- **A pooled client is never used with other settings.** In every state that the app comes to, whoever
asks for a client is given one that was built from the row it has loaded, or, where the build fails, leaves
the pools as they were; and who asks in the same version later is given the same client, with no release
and no request in another version in between. -/
theorem pooled_clients_own (env : Environment) (fingerprint : RegistrySettings → UInt64)
    {rows : List Connection} (hrows : (rows.map (·.id)).Nodup) {es : List Event} {s : State}
    (hrun : Machine.run (step env fingerprint) (.start rows) es = some s)
    (hnew : Machine.AllSteps (step env fingerprint) NewVersion (.start rows) es)
    (hhash : NoCollision fingerprint s.versions) :
    ∀ connection ∈ s.requests, ∀ kind outcome answer s₁,
      ask env fingerprint s connection outcome kind = some (answer, s₁) →
        (∀ report, answer = .error report → s₁.metadataClients = s.metadataClients ∧
          s₁.adminClients = s.adminClients ∧ s₁.registryClients = s.registryClients) ∧
        ∀ client, answer = .ok client → Own env connection client ∧
          ∀ later s₂, Machine.run (step env fingerprint) s₁ later = some s₂ →
            Machine.AllSteps (step env fingerprint) NewVersion s₁ later →
            Machine.AllSteps (step env fingerprint) (Undisturbed kind connection) s₁ later →
              ∀ other ∈ s₂.requests, other.id = connection.id →
                other.updatedAt = connection.updatedAt → ∀ outcome',
                  (ask env fingerprint s₂ other outcome' kind).map Prod.fst = some (.ok client) := by
  intro connection hrequest kind outcome answer s₁ hask
  obtain ⟨hv, hp⟩ := good_run (good_start hrows) hnew hrun
  have hmem := hv.requests connection hrequest
  refine ⟨fun report hreport => pools_of_error (hreport ▸ hask), fun client hclient => ?_⟩
  subst hclient
  refine ⟨own_of_ask hv hp hhash hmem hask, fun later s₂ hlater hnew' hundisturbed other hother hid
    htime outcome' => ?_⟩
  obtain ⟨hrows₁, hversions₁, hrequests₁⟩ := ask_fields hask
  have hgood₁ : Good env fingerprint s₁ :=
    ⟨⟨hrows₁ ▸ hv.ids, hrows₁ ▸ hversions₁ ▸ hv.rows, hrequests₁ ▸ hversions₁ ▸ hv.requests,
      hversions₁ ▸ hv.unique⟩, hversions₁ ▸ hp.ask hmem hask⟩
  have hend := Machine.run_induction
    (I := fun t => Good env fingerprint t ∧ connection ∈ t.versions ∧
      Holds fingerprint kind connection client t)
    (fun t e t' hC hI h => ⟨⟨versions_step hI.1.1 hC.1 h, pools_step hI.1.1 hI.1.2 h⟩,
      versions_subset h connection hI.2.1, holds_step hI.1.1 hI.2.1 hC.2 hI.2.2 h⟩)
    (hnew'.and hundisturbed) ⟨hgood₁, hversions₁ ▸ hmem, holds_of_ask hask⟩ hlater
  obtain ⟨⟨hv₂, -⟩, hmem₂, hholds⟩ := hend
  obtain rfl := hv₂.unique other (hv₂.requests other hother) connection hmem₂ hid htime
  exact ask_of_holds hholds outcome'

/-! ## A run with an update -/

instance (s : State) : ∀ e, Decidable (NewVersion s e)
  | .create _ id _ => inferInstanceAs (Decidable (∀ row ∈ s.versions, row.id ≠ id))
  | .update id _ now =>
    inferInstanceAs (Decidable (∀ row ∈ s.versions, row.id = id → row.updatedAt ≠ now))
  | .delete _ | .load _ | .ask _ _ _ | .release _ _ => inferInstanceAs (Decidable True)

instance (fingerprint : RegistrySettings → UInt64) (versions : List Connection) :
    Decidable (NoCollision fingerprint versions) :=
  inferInstanceAs (Decidable (∀ a ∈ versions, ∀ b ∈ versions, _))

/-- A connection with a registry. -/
def ordersConnection : Connection where
  name := "orders"
  bootstrapServers := "localhost:9092"
  kafkaVersion := "3.7"
  schemaRegistryEndpoint := some "http://localhost:8081"
  id := "c1"
  createdAt := "2026-01-01T00:00:00Z"
  updatedAt := "2026-01-01T00:00:00Z"

/-- The connection moves to a cluster with TLS and to another registry. -/
def movedConnection : NewConnection :=
  { ordersConnection.toNewConnection with
    bootstrapServers := "broker:9093", securityProtocol := .ssl
    schemaRegistryEndpoint := some "https://registry" }

/-- A system without certificates of its own. -/
def desktop : Environment where
  clientId := "salty/1.0.0"
  nativeCaBundlePem := none

/-- A hash that tells the two registries apart. -/
def lengthHash (settings : RegistrySettings) : UInt64 := .ofNat settings.endpoint.length

/-- The first request has loaded the old row and asks after the update has released the pools; the second
loads the new row and asks after it. -/
def movedEvents : List Event :=
  [.load "c1", .update "c1" movedConnection "2026-02-01T00:00:00Z", .release .metadata "c1",
    .release .admin "c1", .release .registry "c1", .ask 0 .metadata (.ok ()), .ask 0 .registry (.ok ()),
    .load "c1", .ask 1 .metadata (.ok ())]

theorem pooled_clients_own_moved :
    let s := Machine.after (step desktop lengthHash) (.start [ordersConnection]) movedEvents
      (by decide +kernel)
    ∀ connection ∈ s.requests, ∀ kind outcome answer s₁,
      ask desktop lengthHash s connection outcome kind = some (answer, s₁) →
        (∀ report, answer = .error report → s₁.metadataClients = s.metadataClients ∧
          s₁.adminClients = s.adminClients ∧ s₁.registryClients = s.registryClients) ∧
        ∀ client, answer = .ok client → Own desktop connection client ∧
          ∀ later s₂, Machine.run (step desktop lengthHash) s₁ later = some s₂ →
            Machine.AllSteps (step desktop lengthHash) NewVersion s₁ later →
            Machine.AllSteps (step desktop lengthHash) (Undisturbed kind connection) s₁ later →
              ∀ other ∈ s₂.requests, other.id = connection.id →
                other.updatedAt = connection.updatedAt → ∀ outcome',
                  (ask desktop lengthHash s₂ other outcome' kind).map Prod.fst = some (.ok client) := by
  intro s
  exact pooled_clients_own desktop lengthHash (by decide) (Machine.run_after _ _ _ _)
    (by decide +kernel) (by decide +kernel)

end OffsetExplorer.ClientPools
