import OffsetExplorer.Error
import OffsetExplorer.Lib.Record
import Mathlib.Algebra.Ring.Nat
import Mathlib.Data.Nat.Notation
import Mathlib.Logic.Function.Basic
import Mathlib.Tactic.SplitIfs

/-!
# The state of the back end

`AppState`: what every command shares. The saved connections, the registry of sessions, the pools of
clients and the cancellation flags of the fetches. Maps are functions from their keys, except where
the code goes through their entries.

* `Connection`, `get`, `update`, `delete`: the rows and the statements on them.
* `ConnectionRegistry`, `RdKafkaClient`, `FetchCancellations`: one definition for each critical
  section of their methods.
-/

namespace OffsetExplorer.Session

/-! ## Saved connections -/

/-- The settings of a connection, as far as the commands look at them. -/
structure NewConnection where
  name : String
  bootstrapServers : String
  saslUsername : Option String := none
  saslPassword : Option String := none
  allowPublishing : Bool := false
  deriving DecidableEq

/-- A row of the connections table. -/
structure Connection extends NewConnection where
  id : String
  updatedAt : String
  deriving DecidableEq

/-- The tables that the commands read and write: connections, and schemas by connection and topic. -/
structure Database where
  connections : List Connection := []
  topicSchemas : List (String × String × String) := []

namespace Database

variable (db : Database) (id : String)

/-- The row of the id. -/
def get : Option Connection := db.connections.find? (·.id = id)

/-- `INSERT` of a row with a fresh id. -/
def create (connection : Connection) : Database :=
  { db with connections := db.connections ++ [connection] }

/-- `UPDATE … WHERE id = …`. -/
def update (new : NewConnection) (now : String) : Database :=
  { db with
    connections := db.connections.map fun row =>
      if row.id = id then { new with id := row.id, updatedAt := now } else row }

/-- `DELETE … WHERE id = …`. -/
def delete : Database := { db with connections := db.connections.filter (·.id ≠ id) }

/-- The schemas of the connection are deleted. -/
def deleteAllForConnection : Database :=
  { db with topicSchemas := db.topicSchemas.filter (·.1 ≠ id) }

variable {db id}

theorem id_of_get {connection : Connection} (h : db.get id = some connection) :
    connection.id = id :=
  of_decide_eq_true (List.find?_some h :)

end Database

/-! ## The registry of sessions -/

/-- `MAX_AUTH_ATTEMPTS`. -/
def maxAuthAttempts : ℕ := 2

/-- How often credentials were rejected, and why the last time. -/
structure AuthFailures where
  attempts : ℕ
  reason : String

/-- Which connections are connected, and what their brokers have refused. -/
structure ConnectionRegistry where
  connected : String → Bool := fun _ => false
  authFailures : String → Option AuthFailures := fun _ => none
  writeDenials : String × String → Option String := fun _ => none

namespace ConnectionRegistry

variable (r : ConnectionRegistry) (id : String)

/-- The connection is on. -/
def insertConnected : ConnectionRegistry :=
  { r with connected := Function.update r.connected id true }

/-- The connection is off. -/
def removeConnected : ConnectionRegistry :=
  { r with connected := Function.update r.connected id false }

/-- Rejected attempts since the history was last forgotten. -/
def attempts : ℕ := ((r.authFailures id).map AuthFailures.attempts).getD 0

/-- One more rejected attempt; the counter is a `u32` that saturates. -/
def countAuthFailure (reason : String) : ConnectionRegistry :=
  { r with
    authFailures := Function.update r.authFailures id
      (some { attempts := min (r.attempts id + 1) (2 ^ 32 - 1), reason }) }

/-- The breaker is as it was at the start. -/
def forgetAuthFailures : ConnectionRegistry :=
  { r with authFailures := Function.update r.authFailures id none }

/-- Why requests of a connection are refused without dialling the broker. -/
def authBlockReason : Option String :=
  ((r.authFailures id).filter fun failures => maxAuthAttempts ≤ failures.attempts).map
    AuthFailures.reason

/-- Whether the connection is on. -/
def isConnected : Bool := r.connected id

/-- The broker's reason for a topic, the last one. -/
def recordWriteDenied (topic reason : String) : ConnectionRegistry :=
  { r with writeDenials := Function.update r.writeDenials (id, topic) (some reason) }

/-- The reason of a topic, if there is one. -/
def writeDeniedReason (topic : String) : Option String := r.writeDenials (id, topic)

/-- `retain(|(id, _), _| id != connection_id)`. -/
def clearWriteDenials : ConnectionRegistry :=
  { r with writeDenials := fun key => if key.1 = id then none else r.writeDenials key }

variable {r id}

@[simp] theorem attempts_countAuthFailure (reason : String) :
    (r.countAuthFailure id reason).attempts id = min (r.attempts id + 1) (2 ^ 32 - 1) := by
  simp only [attempts, countAuthFailure, Function.update_self, Option.map_some, Option.getD_some]

@[simp] theorem writeDeniedReason_recordWriteDenied (topic reason : String) :
    (r.recordWriteDenied id topic reason).writeDeniedReason id topic = some reason :=
  Function.update_self ..

theorem authBlockReason_isSome :
    (r.authBlockReason id).isSome = true ↔ maxAuthAttempts ≤ r.attempts id := by
  unfold authBlockReason attempts
  cases r.authFailures id with
  | none => simp [maxAuthAttempts]
  | some failures =>
    by_cases h : maxAuthAttempts ≤ failures.attempts
    · simp [Option.filter, h]
    · simp [Option.filter, h]

end ConnectionRegistry

/-! ## Pooled clients -/

/-- A client with the version of the row it was built from, and the settings. -/
structure PooledClient where
  updatedAt : String
  settings : NewConnection

/-- The pools of metadata and admin clients. -/
structure RdKafkaClient where
  metadataClients : String → Option PooledClient := fun _ => none
  adminClients : String → Option PooledClient := fun _ => none

namespace RdKafkaClient

variable (k : RdKafkaClient) (connection : Connection)

/-- Whether a pool holds a current client of the connection. -/
def current (pool : String → Option PooledClient) : Bool :=
  (pool connection.id).any fun pooled => pooled.updatedAt = connection.updatedAt

/-- `metadata_client`: the pooled client if it is current, else one that is built and pooled. -/
def poolMetadataClient : RdKafkaClient :=
  if current connection k.metadataClients then k
  else
    { k with
      metadataClients := Function.update k.metadataClients connection.id
        (some { updatedAt := connection.updatedAt, settings := connection.toNewConnection }) }

/-- `admin_client`, on the same terms. -/
def poolAdminClient : RdKafkaClient :=
  if current connection k.adminClients then k
  else
    { k with
      adminClients := Function.update k.adminClients connection.id
        (some { updatedAt := connection.updatedAt, settings := connection.toNewConnection }) }

variable {k connection}

@[simp] theorem poolMetadataClient_adminClients :
    (k.poolMetadataClient connection).adminClients = k.adminClients := by
  unfold poolMetadataClient
  split_ifs <;> rfl

@[simp] theorem poolAdminClient_metadataClients :
    (k.poolAdminClient connection).metadataClients = k.metadataClients := by
  unfold poolAdminClient
  split_ifs <;> rfl

theorem poolMetadataClient_of_ne {c : String} (h : connection.id ≠ c) :
    (k.poolMetadataClient connection).metadataClients c = k.metadataClients c := by
  unfold poolMetadataClient
  split_ifs
  · rfl
  · exact Function.update_of_ne h.symm _ _

theorem poolAdminClient_of_ne {c : String} (h : connection.id ≠ c) :
    (k.poolAdminClient connection).adminClients c = k.adminClients c := by
  unfold poolAdminClient
  split_ifs
  · rfl
  · exact Function.update_of_ne h.symm _ _

variable (k)

/-- Nothing is pooled for metadata any more. -/
def removeMetadataClient (id : String) : RdKafkaClient :=
  { k with metadataClients := Function.update k.metadataClients id none }

/-- Nothing is pooled for administration any more. -/
def removeAdminClient (id : String) : RdKafkaClient :=
  { k with adminClients := Function.update k.adminClients id none }

end RdKafkaClient

/-! ## Cancellation of fetches -/

/-- The flags by request, which are shared with the fetches and so live on a heap, and the connection
that each registered fetch reads from. Each flag is allocated, and no two requests share one. -/
structure FetchCancellations where
  flags : Record String ℕ := ∅
  owners : Record String String := ∅
  heap : ℕ → Bool := fun _ => false
  allocated : ℕ := 0
  flag_lt : ∀ r flag, flags.get? r = some flag → flag < allocated := by
    rintro _ _ ⟨⟩
  flag_inj : ∀ r q flag, flags.get? r = some flag → flags.get? q = some flag → r = q := by
    rintro _ _ _ ⟨⟩

namespace FetchCancellations

variable (f : FetchCancellations) (requestId : String)

/-- `entry(request_id).or_insert_with(…)`: the flag of a request, a new one where it has none. -/
def entry : FetchCancellations × ℕ :=
  match f.flags.get? requestId with
  | some flag => (f, flag)
  | none =>
    ({ f with
        flags := f.flags.set requestId f.allocated
        heap := Function.update f.heap f.allocated false
        allocated := f.allocated + 1
        flag_lt := by
          intro r flag h
          rw [Record.get?_set] at h
          split_ifs at h
          · cases h; omega
          · exact Nat.lt_succ_of_lt (f.flag_lt r flag h)
        flag_inj := by
          intro r q flag hr hq
          have fresh : ∀ p, ¬ f.flags.get? p = some f.allocated :=
            fun p h => Nat.lt_irrefl _ (f.flag_lt p _ h)
          rw [Record.get?_set] at hr hq
          split_ifs at hr hq with h1 h2 h2
          · rw [h1, h2]
          · cases hr; exact absurd hq (fresh q)
          · cases hq; exact absurd hr (fresh r)
          · exact f.flag_inj r q flag hr hq }, f.allocated)

/-- The flag of the id is set, a new one if there is none. -/
def cancel : FetchCancellations :=
  let (f, flag) := f.entry requestId
  { f with heap := Function.update f.heap flag true }

/-- The fetch belongs to the connection. -/
def insertOwner (id : String) : FetchCancellations :=
  { f with owners := f.owners.set requestId id }

/-- The id has no flag any more; whoever holds it keeps it. -/
def removeFlag : FetchCancellations :=
  { f with
    flags := f.flags.erase requestId
    flag_lt := by
      intro r flag h
      rw [Record.get?_erase] at h
      split_ifs at h
      exact f.flag_lt r flag h
    flag_inj := by
      intro r q flag hr hq
      rw [Record.get?_erase] at hr hq
      split_ifs at hr hq
      exact f.flag_inj r q flag hr hq }

/-- The fetch belongs to no connection any more. -/
def removeOwner : FetchCancellations := { f with owners := f.owners.erase requestId }

/-- The requests of a connection. -/
def requestsOf (id : String) : List String :=
  (f.owners.entries.filter (·.2 = id)).map Prod.fst

variable {f requestId}

theorem get?_entry (r : String) : (f.entry requestId).1.flags.get? r =
    if r = requestId then some (f.entry requestId).2 else f.flags.get? r := by
  unfold entry
  split
  · rename_i flag h
    split_ifs with hr
    · rw [hr, h]
    · rfl
  · exact Record.get?_set ..

@[simp] theorem entry_owners : (f.entry requestId).1.owners = f.owners := by
  unfold entry
  split <;> rfl

theorem entry_heap {flag : ℕ} (h : flag < f.allocated) :
    (f.entry requestId).1.heap flag = f.heap flag := by
  unfold entry
  split
  · rfl
  · exact Function.update_of_ne (Nat.ne_of_lt h) _ _

theorem allocated_le_entry : f.allocated ≤ (f.entry requestId).1.allocated := by
  unfold entry
  split
  · exact Nat.le_refl _
  · exact Nat.le_succ _

theorem cancel_heap (flag : ℕ) : (f.cancel requestId).heap flag =
    if flag = (f.entry requestId).2 then true else (f.entry requestId).1.heap flag :=
  Function.update_apply ..

theorem mem_requestsOf {r id : String} : r ∈ f.requestsOf id ↔ f.owners.get? r = some id := by
  constructor
  · intro h
    obtain ⟨⟨q, c⟩, hmem, rfl⟩ := List.mem_map.mp h
    obtain ⟨hmem, hc⟩ := List.mem_filter.mp hmem
    cases (of_decide_eq_true hc : c = id)
    exact Record.get?_of_mem_entries hmem
  · intro h
    exact List.mem_map.mpr ⟨(r, id), List.mem_filter.mpr
      ⟨Record.mem_entries_of_get? h, decide_eq_true rfl⟩, rfl⟩

end FetchCancellations

/-- What the commands share. The pool of Schema Registry clients keeps which connections have one. -/
structure AppState where
  db : Database := {}
  connections : ConnectionRegistry := {}
  kafka : RdKafkaClient := {}
  schemaRegistry : String → Bool := fun _ => false
  fetchCancellations : FetchCancellations := {}

end OffsetExplorer.Session
