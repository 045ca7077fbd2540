import OffsetExplorer.Core.Connection
import OffsetExplorer.Error
import OffsetExplorer.Lib.MapM
import OffsetExplorer.Lib.Record

/-!
# The tables of connections and schemas

The database keeps the protocols of a connection as texts, and the schemas of topics under the connection, the
topic and the format. A table is a dictionary by its primary key.

* `ConnectionRow`, `intoConnection`, `ofNew`: a row, and what is read of it and written into it.
* `Tables` and the statements on it, one definition each under its name; `Event`, `Tables.step`.
* `connectionAfter`, `schemaAfter`: what is saved under one key, from the statements about it alone.
* **`tables_answer`**: after any statements, the tables answer with what was saved last.
-/

namespace OffsetExplorer.Db

open OffsetExplorer.Core

/-! ## Rows -/

/-- A row of the table, with protocol and mechanism as texts. -/
structure ConnectionRow where
  id : String
  name : String
  bootstrapServers : String
  kafkaVersion : String
  zookeeperEnabled : Bool
  zookeeperHost : Option String
  zookeeperPort : Option ℤ
  zookeeperChrootPath : Option String
  securityProtocol : String
  saslMechanism : Option String
  saslUsername : Option String
  saslPassword : Option String
  saslOauthUrl : Option String
  schemaRegistryEndpoint : Option String
  schemaRegistryBasicAuthCredentials : Option String
  schemaRegistryTrustStoreLocation : Option String
  schemaRegistryTrustStorePassword : Option String
  schemaRegistryKeystoreLocation : Option String
  schemaRegistryKeystorePassword : Option String
  schemaRegistryKeystoreKeyPassword : Option String
  sslTruststoreLocation : Option String
  sslTruststorePassword : Option String
  sslKeystoreLocation : Option String
  sslKeystorePassword : Option String
  sslKeystoreKeyPassword : Option String
  allowPublishing : Bool
  createdAt : String
  updatedAt : String

/-- `map(from_str).transpose()`. -/
def readMechanism : Option String → Option (Option SaslMechanism)
  | none => some none
  | some text => (SaslMechanism.ofText text).map some

/-- A row is read back, unless one of its texts is none of those that are written. -/
def ConnectionRow.intoConnection (row : ConnectionRow) : Except Report Connection :=
  match SecurityProtocol.ofText row.securityProtocol with
  | none => .error ⟨.db, [s!"invalid security_protocol {row.securityProtocol}"]⟩
  | some securityProtocol =>
    match readMechanism row.saslMechanism with
    | none => .error ⟨.db, ["invalid sasl_mechanism"]⟩
    | some saslMechanism => .ok
      { id := row.id
        name := row.name
        bootstrapServers := row.bootstrapServers
        kafkaVersion := row.kafkaVersion
        zookeeperEnabled := row.zookeeperEnabled
        zookeeperHost := row.zookeeperHost
        zookeeperPort := row.zookeeperPort
        zookeeperChrootPath := row.zookeeperChrootPath
        securityProtocol
        saslMechanism
        saslUsername := row.saslUsername
        saslPassword := row.saslPassword
        saslOauthUrl := row.saslOauthUrl
        schemaRegistryEndpoint := row.schemaRegistryEndpoint
        schemaRegistryBasicAuthCredentials := row.schemaRegistryBasicAuthCredentials
        schemaRegistryTrustStoreLocation := row.schemaRegistryTrustStoreLocation
        schemaRegistryTrustStorePassword := row.schemaRegistryTrustStorePassword
        schemaRegistryKeystoreLocation := row.schemaRegistryKeystoreLocation
        schemaRegistryKeystorePassword := row.schemaRegistryKeystorePassword
        schemaRegistryKeystoreKeyPassword := row.schemaRegistryKeystoreKeyPassword
        sslTruststoreLocation := row.sslTruststoreLocation
        sslTruststorePassword := row.sslTruststorePassword
        sslKeystoreLocation := row.sslKeystoreLocation
        sslKeystorePassword := row.sslKeystorePassword
        sslKeystoreKeyPassword := row.sslKeystoreKeyPassword
        allowPublishing := row.allowPublishing
        createdAt := row.createdAt
        updatedAt := row.updatedAt }

/-- The values that are bound for a connection. -/
def ConnectionRow.ofNew (new : NewConnection) (id createdAt updatedAt : String) : ConnectionRow where
  id
  name := new.name
  bootstrapServers := new.bootstrapServers
  kafkaVersion := new.kafkaVersion
  zookeeperEnabled := new.zookeeperEnabled
  zookeeperHost := new.zookeeperHost
  zookeeperPort := new.zookeeperPort
  zookeeperChrootPath := new.zookeeperChrootPath
  securityProtocol := new.securityProtocol.text
  saslMechanism := new.saslMechanism.map SaslMechanism.text
  saslUsername := new.saslUsername
  saslPassword := new.saslPassword
  saslOauthUrl := new.saslOauthUrl
  schemaRegistryEndpoint := new.schemaRegistryEndpoint
  schemaRegistryBasicAuthCredentials := new.schemaRegistryBasicAuthCredentials
  schemaRegistryTrustStoreLocation := new.schemaRegistryTrustStoreLocation
  schemaRegistryTrustStorePassword := new.schemaRegistryTrustStorePassword
  schemaRegistryKeystoreLocation := new.schemaRegistryKeystoreLocation
  schemaRegistryKeystorePassword := new.schemaRegistryKeystorePassword
  schemaRegistryKeystoreKeyPassword := new.schemaRegistryKeystoreKeyPassword
  sslTruststoreLocation := new.sslTruststoreLocation
  sslTruststorePassword := new.sslTruststorePassword
  sslKeystoreLocation := new.sslKeystoreLocation
  sslKeystorePassword := new.sslKeystorePassword
  sslKeystoreKeyPassword := new.sslKeystoreKeyPassword
  allowPublishing := new.allowPublishing
  createdAt
  updatedAt

/-- A connection as it is saved. -/
def saved (new : NewConnection) (id createdAt updatedAt : String) : Connection := { new with id, createdAt, updatedAt }

/-- **A row is read as it was written.** -/
theorem intoConnection_ofNew (new : NewConnection) (id createdAt updatedAt : String) :
    (ConnectionRow.ofNew new id createdAt updatedAt).intoConnection = .ok (saved new id createdAt updatedAt) := by
  have hmechanism : readMechanism (new.saslMechanism.map SaslMechanism.text) = some new.saslMechanism := by
    cases new.saslMechanism with
    | none => rfl
    | some mechanism =>
      rw [Option.map_some, readMechanism, SaslMechanism.ofText_text]
      rfl
  simp only [ConnectionRow.intoConnection, ConnectionRow.ofNew, SecurityProtocol.ofText_text, hmechanism]
  rfl

theorem id_of_intoConnection {row : ConnectionRow} {connection : Connection} (h : row.intoConnection = .ok connection) :
    connection.id = row.id ∧ connection.createdAt = row.createdAt := by
  unfold ConnectionRow.intoConnection at h
  split at h
  · cases h
  · split at h
    · cases h
    · cases h
      exact ⟨rfl, rfl⟩

/-- A row of `topic_schemas`, under its connection, topic and format. -/
structure SchemaRow where
  schemaText : String
  createdAt : String
  updatedAt : String

/-! ## Statements -/

/-- The two tables. Ids and keys are unique in them. -/
structure Tables where
  connections : Record String ConnectionRow := ∅
  topicSchemas : Record (String × String × String) SchemaRow := ∅

/-- The error of a statement that finds no row. -/
def notFound (id : String) : Report := ⟨.notFound, [s!"connection {id} not found"]⟩

namespace Tables

variable (t : Tables)

/-- The connection of an id. -/
def get (id : String) : Except Report Connection :=
  match t.connections.get? id with
  | some row => row.intoConnection
  | none => .error (notFound id)

/-- `INSERT`, and the row that has been inserted; an id is there once. -/
def create (new : NewConnection) (id now : String) : Except Report Connection × Tables :=
  if (t.connections.get? id).isSome then (.error ⟨.db, ["failed to insert connection"]⟩, t)
  else
    let t := { t with connections := t.connections.set id (.ofNew new id now now) }
    (t.get id, t)

/-- `ORDER BY created_at ASC`. -/
def list : Except Report (List Connection) :=
  (t.connections.values.mergeSort fun a b => decide (a.createdAt ≤ b.createdAt)).mapM
    ConnectionRow.intoConnection

/-- `UPDATE … WHERE id = …` sets everything but the id and the time of creation. -/
def update (id : String) (new : NewConnection) (now : String) : Except Report Connection × Tables :=
  match t.connections.get? id with
  | none => (.error (notFound id), t)
  | some row =>
    let t := { t with connections := t.connections.set id (.ofNew new row.id row.createdAt now) }
    (t.get id, t)

/-- A row that is not there is an error. -/
def delete (id : String) : Except Report Unit × Tables :=
  match t.connections.get? id with
  | none => (.error (notFound id), t)
  | some _ => (.ok (), { t with connections := t.connections.erase id })

/-- `CHECK (format IN ('avro', 'protobuf'))`. -/
def formats : List String := ["avro", "protobuf"]

/-- The text that was saved for a topic, if one was. -/
def schemaGet (connectionId topic format : String) : Option String :=
  (t.topicSchemas.get? (connectionId, topic, format)).map SchemaRow.schemaText

/-- `INSERT … ON CONFLICT … DO UPDATE SET schema_text, updated_at`. -/
def schemaSet (connectionId topic format schemaText now : String) : Except Report Unit × Tables :=
  if format ∈ formats then
    let key := (connectionId, topic, format)
    let createdAt := ((t.topicSchemas.get? key).map SchemaRow.createdAt).getD now
    (.ok (), { t with topicSchemas := t.topicSchemas.set key { schemaText, createdAt, updatedAt := now } })
  else (.error ⟨.db, [s!"failed to save schema for {connectionId}/{topic}/{format}"]⟩, t)

/-- A text that is not there is no error. -/
def schemaDelete (connectionId topic format : String) : Tables :=
  { t with topicSchemas := t.topicSchemas.erase (connectionId, topic, format) }

/-- The texts of a connection that is deleted. -/
def deleteAllForConnection (connectionId : String) : Tables :=
  { t with topicSchemas := t.topicSchemas.keep fun key => key.1 ≠ connectionId }

end Tables

/-- The statements that change a table. -/
inductive Event where
  | create (new : NewConnection) (id now : String)
  | update (id : String) (new : NewConnection) (now : String)
  | delete (id : String)
  | schemaSet (connectionId topic format schemaText now : String)
  | schemaDelete (connectionId topic format : String)
  | deleteAllForConnection (connectionId : String)

/-- The tables after a statement. -/
def Tables.step (t : Tables) : Event → Tables
  | .create new id now => (t.create new id now).2
  | .update id new now => (t.update id new now).2
  | .delete id => (t.delete id).2
  | .schemaSet connectionId topic format schemaText now => (t.schemaSet connectionId topic format schemaText now).2
  | .schemaDelete connectionId topic format => t.schemaDelete connectionId topic format
  | .deleteAllForConnection connectionId => t.deleteAllForConnection connectionId

/-! ## What is saved -/

/-- What one statement makes of the connection under an id. -/
def connectionAfter (id : String) (before : Option Connection) : Event → Option Connection
  | .create new id' now =>
    if id' = id ∧ before = none then some (saved new id now now) else before
  | .update id' new now =>
    if id' = id then before.map fun connection => saved new connection.id connection.createdAt now else before
  | .delete id' => if id' = id then none else before
  | _ => before

/-- What one statement makes of the schema under a key. -/
def schemaAfter (key : String × String × String) (before : Option String) : Event → Option String
  | .schemaSet connectionId topic format schemaText _ =>
    if (connectionId, topic, format) = key ∧ format ∈ Tables.formats then some schemaText else before
  | .schemaDelete connectionId topic format => if (connectionId, topic, format) = key then none else before
  | .deleteAllForConnection connectionId => if key.1 = connectionId then none else before
  | _ => before

/-! ## One statement -/

namespace Tables

variable {t : Tables}

/-- The connection that the row under an id is read as. -/
def find (t : Tables) (id : String) : Option Connection :=
  (t.connections.get? id).bind fun row => row.intoConnection.toOption

/-- Rows are under their own ids and can be read. -/
def Sound (t : Tables) : Prop :=
  ∀ id row, t.connections.get? id = some row → row.id = id ∧ ∃ connection, row.intoConnection = .ok connection

theorem find_of_none {id : String} (h : t.connections.get? id = none) : t.find id = none := by
  rw [find, h]
  rfl

theorem find_of_some {id : String} {row : ConnectionRow} {connection : Connection}
    (h : t.connections.get? id = some row) (hrow : row.intoConnection = .ok connection) :
    t.find id = some connection := by
  rw [find, h, Option.bind_some, hrow]
  rfl

theorem Sound.row_or_none (h : t.Sound) (id : String) :
    (t.connections.get? id = none ∧ t.find id = none) ∨
      ∃ row connection, t.connections.get? id = some row ∧ row.intoConnection = .ok connection ∧
        t.find id = some connection ∧ row.id = id ∧ connection.id = id ∧ connection.createdAt = row.createdAt := by
  cases hrow : t.connections.get? id with
  | none => exact .inl ⟨rfl, find_of_none hrow⟩
  | some row =>
    obtain ⟨hid, connection, hconnection⟩ := h id row hrow
    obtain ⟨hread, hcreated⟩ := id_of_intoConnection hconnection
    exact .inr ⟨row, connection, rfl, hconnection, find_of_some hrow hconnection, hid, hread.trans hid, hcreated⟩

theorem Sound.set (h : t.Sound) (new : NewConnection) (id createdAt now : String) :
    let t' : Tables := { t with connections := t.connections.set id (.ofNew new id createdAt now) }
    t'.Sound ∧ ∀ j, t'.find j = if j = id then some (saved new id createdAt now) else t.find j := by
  refine ⟨fun j row hrow => ?_, fun j => ?_⟩
  · rw [Record.get?_set] at hrow
    split_ifs at hrow with hj
    · cases hrow
      exact ⟨hj.symm, _, intoConnection_ofNew ..⟩
    · exact h j row hrow
  · rw [find, Record.get?_set]
    split_ifs
    · rw [Option.bind_some, intoConnection_ofNew]
      rfl
    · rfl

theorem Sound.erase (h : t.Sound) (id : String) :
    let t' : Tables := { t with connections := t.connections.erase id }
    t'.Sound ∧ ∀ j, t'.find j = if j = id then none else t.find j := by
  refine ⟨fun j row hrow => ?_, fun j => ?_⟩
  · rw [Record.get?_erase] at hrow
    split_ifs at hrow
    exact h j row hrow
  · rw [find, Record.get?_erase]
    split_ifs <;> rfl

/-- **A statement makes of each connection what it says.** -/
theorem Sound.step (h : t.Sound) (event : Event) :
    (t.step event).Sound ∧ ∀ id, (t.step event).find id = connectionAfter id (t.find id) event := by
  cases event with
  | create new id now =>
    simp only [Tables.step, Tables.create]
    rcases h.row_or_none id with ⟨hrow, hfind⟩ | ⟨row, connection, hrow, -, hfind, -⟩
    · rw [hrow, if_neg (by simp)]
      refine ⟨(h.set new id now now).1, fun j => ((h.set new id now now).2 j).trans ?_⟩
      dsimp only [connectionAfter]
      by_cases hj : j = id
      · rw [if_pos hj, hj, hfind, if_pos ⟨rfl, rfl⟩]
      · rw [if_neg hj, if_neg fun hboth => hj hboth.1.symm]
    · rw [hrow, if_pos (by simp)]
      refine ⟨h, fun j => (if_neg ?_).symm⟩
      rintro ⟨rfl, hnone⟩
      exact Option.some_ne_none _ (hfind.symm.trans hnone)
  | update id new now =>
    simp only [Tables.step, Tables.update]
    rcases h.row_or_none id with ⟨hrow, hfind⟩ | ⟨row, connection, hrow, -, hfind, rfl, hid, hcreated⟩
    · rw [hrow]
      refine ⟨h, fun j => ?_⟩
      dsimp only [connectionAfter]
      split_ifs with hj
      · rw [← hj, hfind]
        rfl
      · rfl
    · rw [hrow]
      refine ⟨(h.set new row.id row.createdAt now).1, fun j => ((h.set new row.id row.createdAt now).2 j).trans ?_⟩
      dsimp only [connectionAfter]
      by_cases hj : j = row.id
      · rw [if_pos hj, if_pos hj.symm, hj, hfind, Option.map_some, hid, hcreated]
      · rw [if_neg hj, if_neg (Ne.symm hj)]
  | delete id =>
    simp only [Tables.step, Tables.delete]
    rcases h.row_or_none id with ⟨hrow, hfind⟩ | ⟨row, connection, hrow, -⟩
    · rw [hrow]
      refine ⟨h, fun j => ?_⟩
      dsimp only [connectionAfter]
      split_ifs with hj
      · rw [← hj, hfind]
      · rfl
    · rw [hrow]
      refine ⟨(h.erase id).1, fun j => ((h.erase id).2 j).trans ?_⟩
      dsimp only [connectionAfter]
      simp only [eq_comm]
  | schemaSet connectionId topic format schemaText now =>
    simp only [Tables.step, Tables.schemaSet]
    split_ifs <;> exact ⟨h, fun _ => rfl⟩
  | schemaDelete connectionId topic format => exact ⟨h, fun _ => rfl⟩
  | deleteAllForConnection connectionId => exact ⟨h, fun _ => rfl⟩

/-- The text under a key. -/
def schemaAt (t : Tables) (key : String × String × String) : Option String :=
  (t.topicSchemas.get? key).map SchemaRow.schemaText

/-- **A statement makes of each schema what it says.** -/
theorem schemaAt_step (t : Tables) (event : Event) (key : String × String × String) :
    (t.step event).schemaAt key = schemaAfter key (t.schemaAt key) event := by
  cases event with
  | create new id now =>
    simp only [Tables.step, Tables.create]
    split_ifs <;> rfl
  | update id new now =>
    simp only [Tables.step, Tables.update]
    cases t.connections.get? id <;> rfl
  | delete id =>
    simp only [Tables.step, Tables.delete]
    cases t.connections.get? id <;> rfl
  | schemaSet connectionId topic format schemaText now =>
    simp only [Tables.step, Tables.schemaSet, schemaAfter]
    by_cases hformat : format ∈ formats
    · rw [if_pos hformat, schemaAt, Record.get?_set]
      by_cases hkey : key = (connectionId, topic, format)
      · rw [if_pos hkey, if_pos ⟨hkey.symm, hformat⟩]
        rfl
      · rw [if_neg hkey, if_neg fun hboth => hkey hboth.1.symm]
        rfl
    · rw [if_neg hformat, if_neg fun hboth => hformat hboth.2]
  | schemaDelete connectionId topic format =>
    simp only [Tables.step, schemaDelete, schemaAfter, schemaAt, Record.get?_erase, eq_comm]
    split_ifs <;> rfl
  | deleteAllForConnection connectionId =>
    simp only [Tables.step, deleteAllForConnection, schemaAfter, schemaAt, Record.get?_keep]
    by_cases hkey : key.1 = connectionId <;> simp [hkey]

/-! ## Answers -/

theorem Sound.list (h : t.Sound) :
    ∃ connections, t.list = .ok connections ∧ connections.Pairwise (fun a b => a.createdAt ≤ b.createdAt) ∧
      (connections.map Connection.id).Nodup ∧ ∀ c, c ∈ connections ↔ t.find c.id = some c := by
  let before (a b : ConnectionRow) : Bool := decide (a.createdAt ≤ b.createdAt)
  have hvalues : ∀ row, row ∈ t.connections.values ↔ t.connections.get? row.id = some row := by
    intro row
    constructor
    · intro hrow
      obtain ⟨⟨id, row'⟩, hentry, rfl⟩ := List.mem_map.mp hrow
      have hget := Record.get?_of_mem_entries hentry
      rwa [(h id row' hget).1]
    · intro hrow
      exact List.mem_map.mpr ⟨_, Record.mem_entries_of_get? hrow, rfl⟩
  have hperm := List.mergeSort_perm t.connections.values before
  have hmem : ∀ row, row ∈ t.connections.values.mergeSort before ↔ t.connections.get? row.id = some row :=
    fun row => hperm.mem_iff.trans (hvalues row)
  obtain ⟨connections, hlist, hread⟩ := MapM.exists_mapM_ok (f := ConnectionRow.intoConnection)
    (l := t.connections.values.mergeSort before) fun row hrow => (h _ row ((hmem row).mp hrow)).2
  refine ⟨connections, hlist, ?_, ?_, fun c => ?_⟩
  · have htimes := MapM.map_eq_of_forall₂ (f := ConnectionRow.createdAt) (g := Connection.createdAt) hread
      fun row c hrow => (id_of_intoConnection hrow).2.symm
    have htrans : ∀ a b c, before a b = true → before b c = true → before a c = true := fun a b c hab hbc =>
      decide_eq_true (String.le_trans (of_decide_eq_true hab) (of_decide_eq_true hbc))
    have htotal : ∀ a b, (before a b || before b a) = true := fun a b => by
      simpa only [before, Bool.or_eq_true, decide_eq_true_eq] using String.le_total a.createdAt b.createdAt
    have hsorted := List.pairwise_mergeSort htrans htotal t.connections.values
    rw [← List.pairwise_map (f := Connection.createdAt) (R := (· ≤ ·)), ← htimes, List.pairwise_map]
    exact hsorted.imp of_decide_eq_true
  · have hids := MapM.map_eq_of_forall₂ (f := ConnectionRow.id) (g := Connection.id) hread
      fun row c hrow => (id_of_intoConnection hrow).1.symm
    have hkeys : t.connections.values.map ConnectionRow.id = t.connections.entries.map Prod.fst := by
      rw [Record.values, List.map_map]
      exact List.map_congr_left fun entry hentry => (h entry.1 entry.2 (Record.get?_of_mem_entries hentry)).1
    rw [← hids, (hperm.map _).nodup_iff, hkeys]
    exact t.connections.nodup
  · rw [MapM.mem_iff_of_forall₂ hread]
    constructor
    · rintro ⟨row, hrow, hc⟩
      rw [(id_of_intoConnection hc).1]
      exact find_of_some ((hmem row).mp hrow) hc
    · intro hc
      obtain ⟨row, hrow, hread⟩ := Option.bind_eq_some_iff.mp hc
      obtain ⟨hid, connection, hconnection⟩ := h _ row hrow
      rw [hconnection] at hread
      cases hread
      exact ⟨row, (hmem row).mpr (by rwa [hid]), hconnection⟩

end Tables

/-- What every question to the tables is answered, for what is saved in them. -/
structure Answers (t : Tables) (connection : String → Option Connection)
    (schema : String × String × String → Option String) : Prop where
  get : ∀ id, t.get id = ((connection id).elim (.error (notFound id)) .ok)
  list : ∃ connections, t.list = .ok connections ∧ connections.Pairwise (fun a b => a.createdAt ≤ b.createdAt) ∧
    (connections.map Connection.id).Nodup ∧ ∀ c, c ∈ connections ↔ connection c.id = some c
  create : ∀ new id now, connection id = none → (t.create new id now).1 = .ok (saved new id now now)
  update : ∀ id new now, (t.update id new now).1 =
    (connection id).elim (.error (notFound id)) fun c => .ok (saved new id c.createdAt now)
  delete : ∀ id, (t.delete id).1 = (connection id).elim (.error (notFound id)) fun _ => .ok ()
  schemaGet : ∀ connectionId topic format, t.schemaGet connectionId topic format = schema (connectionId, topic, format)

theorem Tables.Sound.answers {t : Tables} (h : t.Sound) : Answers t t.find t.schemaAt where
  get id := by
    rcases h.row_or_none id with ⟨hrow, hfind⟩ | ⟨row, connection, hrow, hconnection, hfind, -⟩
    · rw [Tables.get, hrow, hfind]
      rfl
    · rw [Tables.get, hrow, hfind]
      exact hconnection
  list := h.list
  create new id now hfind := by
    rcases h.row_or_none id with ⟨hrow, -⟩ | ⟨row, connection, -, -, hsome, -⟩
    · rw [Tables.create, hrow, if_neg (by simp)]
      simp only [Tables.get, Record.get?_set_self, intoConnection_ofNew]
    · exact absurd (hsome.symm.trans hfind) (Option.some_ne_none _)
  update id new now := by
    rcases h.row_or_none id with ⟨hrow, hfind⟩ | ⟨row, connection, hrow, -, hfind, rfl, -, hcreated⟩
    · rw [Tables.update, hrow, hfind]
      rfl
    · rw [Tables.update, hrow, hfind]
      simp only [Tables.get, Record.get?_set_self, intoConnection_ofNew, Option.elim_some, hcreated]
  delete id := by
    rcases h.row_or_none id with ⟨hrow, hfind⟩ | ⟨row, connection, hrow, -, hfind, -⟩
    · rw [Tables.delete, hrow, hfind]
      rfl
    · rw [Tables.delete, hrow, hfind]
      rfl
  schemaGet _ _ _ := rfl

/-- A run of statements is sound, and makes of each key what they make of it one after another. -/
theorem Tables.Sound.run {t : Tables} (h : t.Sound) (events : List Event) :
    (events.foldl Tables.step t).Sound ∧
      (∀ id, (events.foldl Tables.step t).find id = events.foldl (connectionAfter id) (t.find id)) ∧
      ∀ key, (events.foldl Tables.step t).schemaAt key = events.foldl (schemaAfter key) (t.schemaAt key) := by
  induction events generalizing t with
  | nil => exact ⟨h, fun _ => rfl, fun _ => rfl⟩
  | cons event events ih =>
    obtain ⟨hsound, hfind⟩ := h.step event
    obtain ⟨hrun, hconnections, hschemas⟩ := ih hsound
    refine ⟨hrun, fun id => ?_, fun key => ?_⟩
    · rw [List.foldl_cons, List.foldl_cons, hconnections, hfind]
    · rw [List.foldl_cons, List.foldl_cons, hschemas, Tables.schemaAt_step]

/-- **The tables answer with what was saved last.** After any statements, a question about a connection or about a
schema is answered from those on its own key, with every setting as it was given; the connections are listed by
their times of creation, each once. -/
theorem tables_answer {t : Tables} (h : t.Sound) (events : List Event) :
    Answers (events.foldl Tables.step t) (fun id => events.foldl (connectionAfter id) (t.find id))
      (fun key => events.foldl (schemaAfter key) (t.schemaAt key)) := by
  obtain ⟨hsound, hconnections, hschemas⟩ := h.run events
  have hanswers := hsound.answers
  rwa [funext hconnections, funext hschemas] at hanswers

theorem sound_empty : Tables.Sound {} := by
  intro id row h
  cases h

/-- A connection with a protocol and a mechanism. -/
def local1 : NewConnection where
  name := "Local"
  bootstrapServers := "localhost:9092"
  kafkaVersion := "3.7"
  securityProtocol := .saslSsl
  saslMechanism := some .scramSha512
  zookeeperPort := some 2181

/-- Two connections are made, one is changed and the other deleted with its schemas. -/
def evening : List Event :=
  [.create local1 "a" "18:00", .create local1 "b" "18:05", .schemaSet "b" "orders" "avro" "\"string\"" "18:06",
    .schemaSet "a" "orders" "avro" "\"long\"" "18:07", .update "a" { local1 with name := "Home" } "18:10",
    .delete "b", .deleteAllForConnection "b"]

/-- What it leaves is answered. -/
theorem evening_answered :
    (evening.foldl Tables.step {}).get "a" = .ok (saved { local1 with name := "Home" } "a" "18:00" "18:10") ∧
      (evening.foldl Tables.step {}).get "b" = .error (notFound "b") ∧
      (evening.foldl Tables.step {}).schemaGet "a" "orders" "avro" = some "\"long\"" ∧
      (evening.foldl Tables.step {}).schemaGet "b" "orders" "avro" = none :=
  have h := tables_answer sound_empty evening
  ⟨h.get "a", h.get "b", h.schemaGet .., h.schemaGet ..⟩

end OffsetExplorer.Db
