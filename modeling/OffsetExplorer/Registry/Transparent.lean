import OffsetExplorer.Registry.Decode

/-!
# Decodes answer as on their own

Between two steps of a decode its connection may be edited, its client released or replaced, and its schema
fetched for another call. None of it can be told from the answer.

* `Reads`, `Own`: what a call reads, and that it was there to be read for this call.
* `Sound`: what a call keeps in its phase; `Transparent`, `transparent_step`: the invariant and its step.
* **`decodes_alone`**: every answer is that of the command on its own, with what the call has read.
-/

namespace OffsetExplorer.SchemaRegistry

open OffsetExplorer.Core
open ClientPools (Environment RegistrySettings RegistryClient registrySettings NoCollision)
open Machine

variable {α : Type}

/-! ## What a call reads -/

/-- What a call reads, one after the other. -/
structure Reads where
  manualSchema : Except Report (Option String)
  row : Except Report Connection
  client : Except Report Unit
  schema : Except Report String

/-- What the command on its own would have been told. -/
def Reads.lookups (reads : Reads) : Avro.Lookups where
  manualSchema := reads.manualSchema
  schemaRegistryEndpoint := reads.row.map (·.schemaRegistryEndpoint)
  getOrCreate _ := reads.client
  fetchSchemaById _ := reads.schema

/-- The request comes to ask a registry for a schema. -/
def Request.Asks (request : Request α) (reads : Reads) (settings : RegistrySettings) (schemaId : UInt32) : Prop :=
  ∃ bytes manualSchema connection finish, payloadBytes request.payloadBase64 = .ok bytes ∧
    reads.manualSchema = .ok manualSchema ∧ reads.row = .ok connection ∧
    registrySettings connection = some settings ∧
    request.format.plan bytes manualSchema connection.schemaRegistryEndpoint.isSome = .registry schemaId finish

variable (env : Environment) (fingerprint : RegistrySettings → UInt64) (published : Published)
  (rows : List Connection) (es : List (Event α)) (n : ℕ)

/-- The run comes through such a state after call `n` has begun. -/
def Seen (P : State α → Prop) : Prop :=
  ∃ before after s, es = before ++ after ∧
    run (State.step env fingerprint) (.start rows) before = some s ∧ n < s.calls.length ∧ P s

/-- What call `n` reads: the two tables as they stand while it is on its way, a client, and what the registry
of its own row has published. An error is one that came to this call. -/
structure Own (request : Request α) (reads : Reads) : Prop where
  manualSchema : ∀ bytes, payloadBytes request.payloadBase64 = .ok bytes →
    (∃ report, .readSchema n (.error report) ∈ es ∧ reads.manualSchema = .error report) ∨
      Seen env fingerprint rows es n fun s =>
        reads.manualSchema = .ok (s.schemas (request.id, request.topic, request.format.name))
  row : ∀ bytes manualSchema, payloadBytes request.payloadBase64 = .ok bytes →
    reads.manualSchema = .ok manualSchema →
      (∃ report, .readConnection n (.error report) ∈ es ∧ reads.row = .error report) ∨
        Seen env fingerprint rows es n fun s => reads.row = s.found request.id
  client : ∀ settings schemaId, request.Asks reads settings schemaId →
    reads.client = .ok () ∨ ∃ report, .getClient n (.error report) ∈ es ∧ reads.client = .error report
  schema : ∀ settings schemaId, request.Asks reads settings schemaId → reads.client = .ok () →
    ∃ response, Honest published settings schemaId response ∧
      (.receive n response ∈ es ∨ ∃ text, response = .schema text) ∧
        reads.schema = received settings.endpoint schemaId response

/-! ## Phases -/

/-- A call that is to ask the registry of this row. -/
structure Planned (versions : List Connection) (request : Request α) (connection : Connection)
    (schemaId : UInt32) (finish : String → Except Report α) : Prop where
  version : connection ∈ versions
  row : Seen env fingerprint rows es n fun s => s.found request.id = .ok connection
  plan : ∃ bytes manualSchema, payloadBytes request.payloadBase64 = .ok bytes ∧
    Seen env fingerprint rows es n (fun s =>
      s.schemas (request.id, request.topic, request.format.name) = manualSchema) ∧
    request.format.plan bytes manualSchema connection.schemaRegistryEndpoint.isSome = .registry schemaId finish

/-- What a call keeps is what it has read. -/
def Sound (versions : List Connection) (request : Request α) : Phase α → Prop
  | .decoded bytes => payloadBytes request.payloadBase64 = .ok bytes
  | .manual bytes manualSchema => payloadBytes request.payloadBase64 = .ok bytes ∧
    Seen env fingerprint rows es n fun s =>
      s.schemas (request.id, request.topic, request.format.name) = manualSchema
  | .planned connection schemaId finish =>
    Planned env fingerprint rows es n versions request connection schemaId finish
  | .holding client schemaId finish | .waiting client schemaId finish =>
    ∃ connection, Planned env fingerprint rows es n versions request connection schemaId finish ∧
      registrySettings connection = some client.settings
  | .done answer => ∃ reads, Own env fingerprint published rows es n request reads ∧
    answer = request.format.command reads.lookups request.payloadBase64

variable {env fingerprint published rows es n}

theorem Seen.append {P : State α → Prop} (h : Seen env fingerprint rows es n P) (e : Event α) :
    Seen env fingerprint rows (es ++ [e]) n P := by
  obtain ⟨before, after, s, rfl, hrun, hn, hP⟩ := h
  exact ⟨before, after ++ [e], s, List.append_assoc _ _ _, hrun, hn, hP⟩

theorem Seen.imp {P Q : State α → Prop} (h : Seen env fingerprint rows es n P) (hPQ : ∀ s, P s → Q s) :
    Seen env fingerprint rows es n Q := by
  obtain ⟨before, after, s, hes, hrun, hn, hP⟩ := h
  exact ⟨before, after, s, hes, hrun, hn, hPQ s hP⟩

theorem seen_here {s : State α} {P : State α → Prop} {call : Call α}
    (hrun : run (State.step env fingerprint) (.start rows) es = some s) (hget : s.calls[n]? = some call)
    (hP : P s) (e : Event α) : Seen env fingerprint rows (es ++ [e]) n P :=
  ⟨es, [e], s, rfl, hrun, (List.getElem?_eq_some_iff.mp hget).1, hP⟩

theorem Own.append {request : Request α} {reads : Reads}
    (h : Own env fingerprint published rows es n request reads) (e : Event α) :
    Own env fingerprint published rows (es ++ [e]) n request reads where
  manualSchema := by
    intro bytes hbytes
    refine (h.manualSchema bytes hbytes).imp ?_ fun hseen => hseen.append e
    rintro ⟨report, hmem, hread⟩
    exact ⟨report, List.mem_append_left _ hmem, hread⟩
  row := by
    intro bytes manualSchema hbytes hmanual
    refine (h.row bytes manualSchema hbytes hmanual).imp ?_ fun hseen => hseen.append e
    rintro ⟨report, hmem, hread⟩
    exact ⟨report, List.mem_append_left _ hmem, hread⟩
  client := by
    intro settings schemaId hasks
    refine (h.client settings schemaId hasks).imp id ?_
    rintro ⟨report, hmem, hread⟩
    exact ⟨report, List.mem_append_left _ hmem, hread⟩
  schema := by
    intro settings schemaId hasks hclient
    obtain ⟨response, hhonest, hmem, hread⟩ := h.schema settings schemaId hasks hclient
    exact ⟨response, hhonest, hmem.imp (List.mem_append_left _) id, hread⟩

theorem Planned.append {versions later : List Connection} {request : Request α} {connection : Connection}
    {schemaId : UInt32} {finish : String → Except Report α}
    (h : Planned env fingerprint rows es n versions request connection schemaId finish)
    (hsub : ∀ row ∈ versions, row ∈ later) (e : Event α) :
    Planned env fingerprint rows (es ++ [e]) n later request connection schemaId finish := by
  obtain ⟨bytes, manualSchema, hbytes, hseen, hplan⟩ := h.plan
  exact ⟨hsub _ h.version, h.row.append e, bytes, manualSchema, hbytes, hseen.append e, hplan⟩

theorem Sound.append {versions later : List Connection} {request : Request α} {phase : Phase α}
    (h : Sound env fingerprint published rows es n versions request phase)
    (hsub : ∀ row ∈ versions, row ∈ later) (e : Event α) :
    Sound env fingerprint published rows (es ++ [e]) n later request phase := by
  cases phase with
  | decoded bytes => exact h
  | manual bytes manualSchema => exact ⟨h.1, h.2.append e⟩
  | planned connection schemaId finish => exact Planned.append h hsub e
  | holding client schemaId finish | waiting client schemaId finish =>
    obtain ⟨connection, hplanned, hsettings⟩ := h
    exact ⟨connection, hplanned.append hsub e, hsettings⟩
  | done answer =>
    obtain ⟨reads, hown, hanswer⟩ := h
    exact ⟨reads, hown.append e, hanswer⟩

/-! ## Answers -/

variable {versions : List Connection} {request : Request α}

theorem done_of_payload {report : Report} (hbytes : payloadBytes request.payloadBase64 = .error report) :
    Sound env fingerprint published rows es n versions request (.done (.error report)) := by
  have hnone : ∀ bytes, payloadBytes request.payloadBase64 ≠ .ok bytes := by
    intro bytes h
    rw [hbytes] at h
    cases h
  refine ⟨⟨.error report, .error report, .error report, .error report⟩,
    ⟨fun bytes h => absurd h (hnone bytes), fun bytes _ h => absurd h (hnone bytes), ?_, ?_⟩, ?_⟩
  · rintro _ _ ⟨bytes, _, _, _, h, -⟩
    exact absurd h (hnone bytes)
  · rintro _ _ ⟨bytes, _, _, _, h, -⟩
    exact absurd h (hnone bytes)
  · rw [Format.command, hbytes]
    rfl

variable {bytes : List UInt8} {manualSchema : Option String} {report : Report}

theorem done_of_schemas (hbytes : payloadBytes request.payloadBase64 = .ok bytes)
    (hmem : .readSchema n (.error report) ∈ es) :
    Sound env fingerprint published rows es n versions request (.done (.error report)) := by
  refine ⟨⟨.error report, .error report, .error report, .error report⟩,
    ⟨fun _ _ => .inl ⟨report, hmem, rfl⟩, ?_, ?_, ?_⟩, ?_⟩
  · intro _ _ _ h
    cases h
  · rintro _ _ ⟨_, _, _, _, _, h, -⟩
    cases h
  · rintro _ _ ⟨_, _, _, _, _, h, -⟩
    cases h
  · rw [Format.command, hbytes]
    rfl

theorem done_of_row (hbytes : payloadBytes request.payloadBase64 = .ok bytes)
    (hmanual : Seen env fingerprint rows es n fun s =>
      s.schemas (request.id, request.topic, request.format.name) = manualSchema)
    (hrow : .readConnection n (.error report) ∈ es ∨
      Seen env fingerprint rows es n fun s => s.found request.id = .error report) :
    Sound env fingerprint published rows es n versions request (.done (.error report)) := by
  refine ⟨⟨.ok manualSchema, .error report, .error report, .error report⟩,
    ⟨fun _ _ => .inr (hmanual.imp fun s h => by rw [h]), fun _ _ _ _ => ?_, ?_, ?_⟩, ?_⟩
  · exact hrow.imp (fun hmem => ⟨report, hmem, rfl⟩) fun hseen => hseen.imp fun s h => h.symm
  · rintro _ _ ⟨_, _, _, _, _, _, h, -⟩
    cases h
  · rintro _ _ ⟨_, _, _, _, _, _, h, -⟩
    cases h
  · rw [Format.command, hbytes]
    rfl

variable {connection : Connection}

theorem done_of_finished {answer : Except Report α} (hbytes : payloadBytes request.payloadBase64 = .ok bytes)
    (hmanual : Seen env fingerprint rows es n fun s =>
      s.schemas (request.id, request.topic, request.format.name) = manualSchema)
    (hrow : Seen env fingerprint rows es n fun s => s.found request.id = .ok connection)
    (hplan : request.format.plan bytes manualSchema connection.schemaRegistryEndpoint.isSome = .finished answer) :
    Sound env fingerprint published rows es n versions request (.done answer) := by
  have hnone : ∀ client schema settings schemaId,
      ¬ request.Asks ⟨.ok manualSchema, .ok connection, client, schema⟩ settings schemaId := by
    rintro client schema settings schemaId ⟨bytes', manual', connection', finish, hbytes', hmanual', hrow', -, h⟩
    cases hbytes.symm.trans hbytes'
    cases hmanual'
    cases hrow'
    rw [hplan] at h
    cases h
  refine ⟨⟨.ok manualSchema, .ok connection, .ok (), .ok ""⟩,
    ⟨fun _ _ => .inr (hmanual.imp fun s h => by rw [h]),
      fun _ _ _ _ => .inr (hrow.imp fun s h => h.symm), ?_, ?_⟩, ?_⟩
  · exact fun _ _ h => absurd h (hnone _ _ _ _)
  · exact fun _ _ h => absurd h (hnone _ _ _ _)
  · rw [Format.command, hbytes]
    simp only [bind, Except.bind, Reads.lookups, Except.map]
    rw [hplan]

theorem done_of_planned {schemaId : UInt32} {finish : String → Except Report α} {settings : RegistrySettings}
    (hplanned : Planned env fingerprint rows es n versions request connection schemaId finish)
    (hsettings : registrySettings connection = some settings) (client : Except Report Unit)
    (schema : Except Report String)
    (hclient : client = .ok () ∨ ∃ report, .getClient n (.error report) ∈ es ∧ client = .error report)
    (hschema : client = .ok () → ∃ response, Honest published settings schemaId response ∧
      (.receive n response ∈ es ∨ ∃ text, response = .schema text) ∧
        schema = received settings.endpoint schemaId response) :
    Sound env fingerprint published rows es n versions request
      (.done (client.bind fun _ => schema.bind finish)) := by
  obtain ⟨bytes, manualSchema, hbytes, hmanual, hplan⟩ := hplanned.plan
  refine ⟨⟨.ok manualSchema, .ok connection, client, schema⟩,
    ⟨fun _ _ => .inr (hmanual.imp fun s h => by rw [h]),
      fun _ _ _ _ => .inr (hplanned.row.imp fun s h => h.symm), fun _ _ _ => hclient, ?_⟩, ?_⟩
  · rintro settings' schemaId' ⟨bytes', manual', connection', finish', hbytes', hmanual', hrow', hsettings', h⟩ hok
    cases hbytes.symm.trans hbytes'
    cases hmanual'
    cases hrow'
    cases hsettings.symm.trans hsettings'
    cases hplan.symm.trans h
    exact hschema hok
  · rw [Format.command, hbytes]
    simp only [bind, Except.bind, Reads.lookups, Except.map]
    rw [hplan]

/-! ## Steps -/

/-- The assumptions on a step: a row is created under a new id and updated with an `updated_at` that it never
had, the hash gives no two settings of a connection one fingerprint, and a registry answers what is published
in it. -/
def Proper (fingerprint : RegistrySettings → UInt64) (published : Published) (s : State α) : Event α → Prop
  | .pools event => ClientPools.NewVersion s.pools event
  | .getClient _ _ => NoCollision fingerprint s.pools.versions
  | .receive n response =>
    match (s.calls[n]?).map Call.phase with
    | some (.waiting client schemaId _) => Honest published client.settings schemaId response
    | _ => True
  | _ => True

variable (env fingerprint published rows) in
/-- The pools are good, what is cached is published, and each call keeps what it has read. -/
structure Transparent (es : List (Event α)) (s : State α) : Prop where
  run : run (State.step env fingerprint) (.start rows) es = some s
  pools : ClientPools.Good env fingerprint s.pools
  caches : ∀ key schemaId text, s.caches key schemaId = some text → published key.1 schemaId = some text
  calls : ∀ n call, s.calls[n]? = some call →
    Sound env fingerprint published rows es n s.pools.versions call.toRequest call.phase

variable {s t : State α} {e : Event α}

theorem mem_of_found {id : String} (h : s.found id = .ok connection) : connection ∈ s.pools.rows := by
  rw [State.found] at h
  cases hfind : s.pools.rows.find? (·.id = id) with
  | none =>
    rw [hfind] at h
    cases h
  | some row =>
    rw [hfind] at h
    cases h
    exact List.mem_of_find?_eq_some hfind

theorem calls_goTo {call : Call α} {phase : Phase α} {later : List Connection}
    (hcalls : ∀ m other, s.calls[m]? = some other →
      Sound env fingerprint published rows es m versions other.toRequest other.phase)
    (hsub : ∀ row ∈ versions, row ∈ later)
    (hphase : Sound env fingerprint published rows (es ++ [e]) n later call.toRequest phase) :
    ∀ m other, (s.goTo n call phase).calls[m]? = some other →
      Sound env fingerprint published rows (es ++ [e]) m later other.toRequest other.phase := by
  intro m other hget
  rw [State.goTo, List.getElem?_set] at hget
  split_ifs at hget with hm hlt
  · cases hget
    exact hm ▸ hphase
  · exact (hcalls m other hget).append hsub e

theorem Transparent.run_append (h : Transparent env fingerprint published rows es s)
    (hst : s.step env fingerprint e = some t) :
    Machine.run (State.step env fingerprint) (.start rows) (es ++ [e]) = some t := by
  rw [run_snoc, h.run, Option.bind_some, hst]

theorem Transparent.keep (h : Transparent env fingerprint published rows es s)
    (hst : s.step env fingerprint e = some t) (hpools : t.pools = s.pools) (hcaches : t.caches = s.caches)
    (hcalls : t.calls = s.calls) : Transparent env fingerprint published rows (es ++ [e]) t where
  run := h.run_append hst
  pools := hpools ▸ h.pools
  caches := hcaches ▸ h.caches
  calls := by
    intro m other hget
    rw [hcalls] at hget
    rw [hpools]
    exact (h.calls m other hget).append (fun _ hrow => hrow) e

theorem Transparent.goTo {call : Call α} {phase : Phase α} (h : Transparent env fingerprint published rows es s)
    (hst : s.step env fingerprint e = some (s.goTo n call phase))
    (hphase : Sound env fingerprint published rows (es ++ [e]) n s.pools.versions call.toRequest phase) :
    Transparent env fingerprint published rows (es ++ [e]) (s.goTo n call phase) where
  run := h.run_append hst
  pools := h.pools
  caches := h.caches
  calls := calls_goTo h.calls (fun _ hrow => hrow) hphase

theorem transparent_pools {event : ClientPools.Event} (h : Transparent env fingerprint published rows es s)
    (hnew : ClientPools.NewVersion s.pools event)
    (hst : s.step env fingerprint (.pools event) = some t) :
    Transparent env fingerprint published rows (es ++ [.pools event]) t := by
  have hrun := h.run_append hst
  obtain ⟨pools, hpools, rfl⟩ := Option.map_eq_some_iff.mp hst
  obtain ⟨hv, hp⟩ := h.pools
  have hsub := ClientPools.versions_subset hpools
  refine ⟨hrun, ⟨ClientPools.versions_step hv hnew hpools, ClientPools.pools_step hv hp hpools⟩, h.caches, ?_⟩
  exact fun m other hget => (h.calls m other hget).append hsub _

theorem transparent_invoke {request : Request α} (h : Transparent env fingerprint published rows es s)
    (hst : s.step env fingerprint (.invoke request) = some t) :
    Transparent env fingerprint published rows (es ++ [.invoke request]) t := by
  have hrun := h.run_append hst
  cases hst
  refine ⟨hrun, h.pools, h.caches, fun m other hget => ?_⟩
  rw [List.getElem?_append] at hget
  split_ifs at hget with hlt
  · exact (h.calls m other hget).append (fun _ hrow => hrow) _
  · obtain rfl := List.mem_singleton.mp (List.mem_of_getElem? hget)
    cases hbytes : payloadBytes request.payloadBase64 with
    | error report => exact done_of_payload hbytes
    | ok bytes => exact hbytes

theorem transparent_readSchema {outcome : Except Report Unit}
    (h : Transparent env fingerprint published rows es s)
    (hst : s.step env fingerprint (.readSchema n outcome) = some t) :
    Transparent env fingerprint published rows (es ++ [.readSchema n outcome]) t := by
  have hstep := hst
  obtain ⟨call, hget, hst⟩ := Option.bind_eq_some_iff.mp hst
  have hsound := h.calls n call hget
  cases hphase : call.phase with
  | decoded bytes =>
    rw [hphase] at hst hsound
    cases outcome with
    | error report =>
      cases hst
      exact h.goTo hstep (done_of_schemas hsound List.mem_concat_self)
    | ok _ =>
      cases hst
      exact h.goTo hstep ⟨hsound, seen_here (P := fun t =>
        t.schemas (call.id, call.topic, call.format.name) = s.schemas (call.id, call.topic, call.format.name))
        h.run hget rfl _⟩
  | manual | planned | holding | waiting | done =>
    rw [hphase] at hst
    cases hst

theorem transparent_readConnection {outcome : Except Report Unit}
    (h : Transparent env fingerprint published rows es s)
    (hst : s.step env fingerprint (.readConnection n outcome) = some t) :
    Transparent env fingerprint published rows (es ++ [.readConnection n outcome]) t := by
  have hstep := hst
  obtain ⟨call, hget, hst⟩ := Option.bind_eq_some_iff.mp hst
  have hsound := h.calls n call hget
  cases hphase : call.phase with
  | manual bytes manualSchema =>
    rw [hphase] at hst hsound
    cases outcome with
    | error report =>
      cases hst
      obtain ⟨hbytes, hmanual⟩ := hsound
      exact h.goTo hstep <| done_of_row hbytes (hmanual.append _) (.inl List.mem_concat_self)
    | ok _ =>
      dsimp only at hst
      cases hfound : s.found call.id with
      | error report =>
        rw [hfound] at hst
        cases hst
        obtain ⟨hbytes, hmanual⟩ := hsound
        exact h.goTo hstep <| done_of_row hbytes (hmanual.append _) (.inr (seen_here h.run hget hfound _))
      | ok connection =>
        rw [hfound] at hst
        cases hst
        refine h.goTo hstep ?_
        obtain ⟨hbytes, hmanual⟩ := hsound
        have hrow := seen_here (P := fun s => s.found call.id = .ok connection) h.run hget hfound
          (.readConnection n (.ok ()))
        cases hplan : call.format.plan bytes manualSchema connection.schemaRegistryEndpoint.isSome with
        | finished answer => exact done_of_finished hbytes (hmanual.append _) hrow hplan
        | registry schemaId finish =>
          exact ⟨h.pools.1.rows connection (mem_of_found hfound), hrow, bytes, manualSchema, hbytes,
            hmanual.append _, hplan⟩
  | decoded | planned | holding | waiting | done =>
    rw [hphase] at hst
    cases hst

/-- Whoever asks for a client leaves good pools and the same rows, and is given a client of its settings. -/
theorem getOrCreate_good {pools : ClientPools.State} {settings : RegistrySettings} (outcome : Except Report Unit)
    (hgood : ClientPools.Good env fingerprint pools) (hhash : NoCollision fingerprint pools.versions)
    (hmem : connection ∈ pools.versions) (hsettings : registrySettings connection = some settings) :
    let asked := ClientPools.getOrCreate fingerprint pools outcome connection.id settings
    ClientPools.Good env fingerprint asked.2 ∧ asked.2.versions = pools.versions ∧
      (∀ client, asked.1 = .ok client → client.settings = settings) ∧
        ∀ report, asked.1 = .error report → outcome = .error report := by
  intro asked
  obtain ⟨hv, hp⟩ := hgood
  have hask : ClientPools.ask env fingerprint pools connection outcome .registry =
      some (asked.1.map .registry, asked.2) := by
    rw [ClientPools.ask, hsettings]
    rfl
  obtain ⟨hrows, hversions, hrequests⟩ := ClientPools.ask_fields hask
  refine ⟨⟨⟨hrows ▸ hv.ids, hrows ▸ hversions ▸ hv.rows, hrequests ▸ hversions ▸ hv.requests,
    hversions ▸ hv.unique⟩, hversions ▸ hp.ask hmem hask⟩, hversions, fun client hclient => ?_, fun report h => ?_⟩
  · rw [hclient] at hask
    have hown : registrySettings connection = some client.settings :=
      ClientPools.own_of_ask hv hp hhash hmem hask
    exact Option.some.inj (hown.symm.trans hsettings)
  · have hbuild := VersionedPool.build_of_error h
    cases outcome with
    | error _ =>
      cases hbuild
      rfl
    | ok _ => cases hbuild

theorem transparent_getClient {outcome : Except Report Unit}
    (h : Transparent env fingerprint published rows es s) (hhash : NoCollision fingerprint s.pools.versions)
    (hst : s.step env fingerprint (.getClient n outcome) = some t) :
    Transparent env fingerprint published rows (es ++ [.getClient n outcome]) t := by
  have hrun := h.run_append hst
  obtain ⟨call, hget, hst⟩ := Option.bind_eq_some_iff.mp hst
  have hsound := h.calls n call hget
  cases hphase : call.phase with
  | planned connection schemaId finish =>
    rw [hphase] at hst hsound
    obtain ⟨settings, hsettings, hst⟩ := Option.bind_eq_some_iff.mp hst
    obtain ⟨hgood, hversions, hown, hfailed⟩ := getOrCreate_good outcome h.pools hhash hsound.version hsettings
    have hsub : ∀ row ∈ s.pools.versions, row ∈
        (ClientPools.getOrCreate fingerprint s.pools outcome connection.id settings).2.versions :=
      fun _ hrow => hversions ▸ hrow
    have hplanned := hsound.append hsub (.getClient n outcome)
    generalize ClientPools.getOrCreate fingerprint s.pools outcome connection.id settings = asked
      at hst hgood hversions hown hfailed hsub hplanned
    obtain ⟨answer, pools⟩ := asked
    cases answer with
    | error report =>
      cases hst
      obtain rfl := hfailed report rfl
      refine ⟨hrun, hgood, h.caches, calls_goTo h.calls hsub ?_⟩
      refine done_of_planned hplanned hsettings (.error report) (.ok "")
        (.inr ⟨report, List.mem_concat_self, rfl⟩) fun hok => ?_
      cases hok
    | ok client =>
      cases hst
      have hclient : registrySettings connection = some client.settings := by rw [hsettings, hown client rfl]
      exact ⟨hrun, hgood, h.caches, calls_goTo h.calls hsub ⟨connection, hplanned, hclient⟩⟩
  | decoded | manual | holding | waiting | done =>
    rw [hphase] at hst
    cases hst

theorem transparent_lookUp (h : Transparent env fingerprint published rows es s)
    (hst : s.step env fingerprint (.lookUp n) = some t) :
    Transparent env fingerprint published rows (es ++ [.lookUp n]) t := by
  have hstep := hst
  obtain ⟨call, hget, hst⟩ := Option.bind_eq_some_iff.mp hst
  have hsound := h.calls n call hget
  cases hphase : call.phase with
  | holding client schemaId finish =>
    rw [hphase] at hst hsound
    obtain ⟨connection, hplanned, hsettings⟩ := hsound
    have hplanned := hplanned.append (fun _ hrow => hrow) (.lookUp n)
    dsimp only at hst
    cases hcached : s.cached client schemaId with
    | some text =>
      rw [hcached] at hst
      cases hst
      have hpublished := h.caches (client.settings, client.serial) schemaId text hcached
      exact h.goTo hstep <| done_of_planned hplanned hsettings (.ok ()) (.ok text) (.inl rfl) fun _ =>
        ⟨.schema text, hpublished, .inr ⟨text, rfl⟩, rfl⟩
    | none =>
      rw [hcached] at hst
      cases hst
      exact h.goTo hstep ⟨connection, hplanned, hsettings⟩
  | decoded | manual | planned | waiting | done =>
    rw [hphase] at hst
    cases hst

theorem caches_remember {client : RegistryClient} {schemaId : UInt32} {text : String}
    (hcaches : ∀ key id found, s.caches key id = some found → published key.1 id = some found)
    (hpublished : published client.settings schemaId = some text) :
    ∀ key id found, (s.remember client schemaId text).caches key id = some found →
      published key.1 id = some found := by
  intro key id found hfound
  simp only [State.remember, Function.update_apply] at hfound
  split_ifs at hfound with hkey
  · rw [Function.update_apply] at hfound
    split_ifs at hfound with hid
    · cases hfound
      rwa [hkey, hid]
    · exact hkey ▸ hcaches _ _ _ hfound
  · exact hcaches _ _ _ hfound

theorem transparent_receive {response : Response} (h : Transparent env fingerprint published rows es s)
    (hproper : Proper fingerprint published s (.receive n response))
    (hst : s.step env fingerprint (.receive n response) = some t) :
    Transparent env fingerprint published rows (es ++ [.receive n response]) t := by
  have hrun := h.run_append hst
  have hstep := hst
  obtain ⟨call, hget, hst⟩ := Option.bind_eq_some_iff.mp hst
  have hsound := h.calls n call hget
  cases hphase : call.phase with
  | waiting client schemaId finish =>
    rw [hphase] at hst hsound
    have hhonest : Honest published client.settings schemaId response := by
      rw [Proper, hget, Option.map_some, hphase] at hproper
      exact hproper
    obtain ⟨connection, hplanned, hsettings⟩ := hsound
    have hplanned := hplanned.append (fun _ hrow => hrow) (.receive n response)
    have hanswer : Sound env fingerprint published rows (es ++ [.receive n response]) n s.pools.versions
        call.toRequest (.done ((received client.settings.endpoint schemaId response).bind finish)) :=
      done_of_planned hplanned hsettings (.ok ()) _ (.inl rfl) fun _ =>
        ⟨response, hhonest, .inl List.mem_concat_self, rfl⟩
    cases response with
    | schema text =>
      cases hst
      exact ⟨hrun, h.pools, caches_remember h.caches hhonest, calls_goTo h.calls (fun _ hrow => hrow) hanswer⟩
    | unsent | notFound | refused | unreadable =>
      cases hst
      exact h.goTo hstep hanswer
  | decoded | manual | planned | holding | done =>
    rw [hphase] at hst
    cases hst

/-- **One step.** -/
theorem transparent_step (hproper : Proper fingerprint published s e)
    (h : Transparent env fingerprint published rows es s) (hst : s.step env fingerprint e = some t) :
    Transparent env fingerprint published rows (es ++ [e]) t := by
  cases e with
  | pools event => exact transparent_pools h hproper hst
  | setSchema key schemaText =>
    have hstep := hst
    cases hst
    exact h.keep hstep rfl rfl rfl
  | invoke request => exact transparent_invoke h hst
  | readSchema n outcome => exact transparent_readSchema h hst
  | readConnection n outcome => exact transparent_readConnection h hst
  | getClient n outcome => exact transparent_getClient h hproper hst
  | lookUp n => exact transparent_lookUp h hst
  | receive n response => exact transparent_receive h hproper hst

/-! ## Whole runs -/

/-- **A decode answers as on its own.** However the decodes of both formats, edits of connections and releases
of clients come between one another, every answer is that of the command on its own: with the manual schema
and the row that were in their tables while the call was on its way, and with a schema that the registry of
this very row has published, whichever client and whichever cache it came from. -/
theorem decodes_alone (env : Environment) (fingerprint : RegistrySettings → UInt64) (published : Published)
    {rows : List Connection} (hrows : (rows.map (·.id)).Nodup) {es : List (Event α)} {s : State α}
    (hrun : run (State.step env fingerprint) (.start rows) es = some s)
    (hproper : AllSteps (State.step env fingerprint) (Proper fingerprint published) (.start rows) es) :
    ∀ n call answer, s.calls[n]? = some call → call.phase = .done answer →
      ∃ reads, Own env fingerprint published rows es n call.toRequest reads ∧
        answer = call.format.command reads.lookups call.payloadBase64 := by
  intro n call answer hget hphase
  have hstart : Transparent env fingerprint published rows [] (State.start rows : State α) :=
    ⟨rfl, ClientPools.good_start hrows, fun _ _ _ h => (Option.some_ne_none _ h.symm).elim,
      fun _ _ h => (Option.some_ne_none _ h.symm).elim⟩
  have hend := run_history_of_allSteps hstart (fun _ _ _ _ => transparent_step) hproper hrun
  have hsound := hend.calls n call hget
  rwa [hphase] at hsound

/-! ## Three decodes and an update -/

instance (published : Published) (settings : RegistrySettings) (schemaId : UInt32) :
    ∀ response, Decidable (Honest published settings schemaId response)
  | .schema text => inferInstanceAs (Decidable (published settings schemaId = some text))
  | .unsent | .notFound | .refused | .unreadable => inferInstanceAs (Decidable True)

instance (fingerprint : RegistrySettings → UInt64) (published : Published) (s : State α) :
    ∀ e, Decidable (Proper fingerprint published s e)
  | .pools event => inferInstanceAs (Decidable (ClientPools.NewVersion s.pools event))
  | .getClient _ _ => inferInstanceAs (Decidable (NoCollision fingerprint s.pools.versions))
  | .receive n response =>
    match h : (s.calls[n]?).map Call.phase with
    | some (.waiting client schemaId _) =>
      decidable_of_iff (Honest published client.settings schemaId response) (by rw [Proper, h])
    | none | some (.decoded _) | some (.manual _ _) | some (.planned _ _ _) | some (.holding _ _ _)
    | some (.done _) => isTrue (by rw [Proper, h]; trivial)
  | .setSchema _ _ | .invoke _ | .readSchema _ _ | .readConnection _ _ | .lookUp _ =>
    inferInstanceAs (Decidable True)

/-- The two registries of the connection have different schemas under one id. -/
def bothRegistries : Published := fun settings schemaId =>
  if schemaId = 7 then
    if settings.endpoint = "http://localhost:8081" then some "\"boolean\"" else some "\"string\""
  else none

/-- A decode of a boolean behind a header. -/
def ordersRequest : Request Avro.Json where
  format := avro Avro.booleanLibrary Avro.plainRenderers
  id := "c1"
  topic := "orders"
  payloadBase64 := "AAAAAAcB"

/-- The first call has read its connection before it moves to another registry, and asks for a client after that.
The second asks the new registry, and the third finds in the cache what the second has fetched. -/
def movedDecodes : List (Event Avro.Json) :=
  [.invoke ordersRequest, .readSchema 0 (.ok ()), .readConnection 0 (.ok ()),
    .pools (.update "c1" ClientPools.movedConnection "2026-02-01T00:00:00Z"),
    .pools (.release .registry "c1"), .invoke ordersRequest, .readSchema 1 (.ok ()),
    .readConnection 1 (.ok ()), .getClient 0 (.ok ()), .getClient 1 (.ok ()), .lookUp 0, .lookUp 1,
    .receive 1 (.schema "\"string\""), .receive 0 (.schema "\"boolean\""), .invoke ordersRequest,
    .readSchema 2 (.ok ()), .readConnection 2 (.ok ()), .getClient 2 (.ok ()), .lookUp 2]

theorem movedDecodes_alone :
    let s := after (State.step ClientPools.desktop ClientPools.lengthHash)
      (.start [ClientPools.ordersConnection]) movedDecodes (by decide +kernel)
    ∀ n call answer, s.calls[n]? = some call → call.phase = .done answer →
      ∃ reads, Own ClientPools.desktop ClientPools.lengthHash bothRegistries [ClientPools.ordersConnection]
        movedDecodes n call.toRequest reads ∧ answer = call.format.command reads.lookups call.payloadBase64 := by
  intro s
  exact decodes_alone ClientPools.desktop ClientPools.lengthHash bothRegistries (by decide)
    (run_after _ _ _ _) (by decide +kernel)

end OffsetExplorer.SchemaRegistry
