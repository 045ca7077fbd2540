import OffsetExplorer.Producer.Denied

/-!
# What a publish reports

The outcome of a publish is the only word on which messages reached the cluster.

* `publishRecords`: the loop again, with the records that it hands to the client.
* `Accounts`: the outcome accounts for every record, and says that nothing was published only then.
* `publishRecords_acked`: the acknowledged records in front; `exists_first_failure`: what follows them.
* `saysNothingPublished_reason_iff`: when the text of a failure says that nothing was published.
* **`accounts_iff`**: the outcome accounts for the batch unless a record after the first is denied.
-/

namespace OffsetExplorer

/-- A record as the client takes it. -/
structure FutureRecord where
  topic : String
  partition : ℤ
  key : Option (List UInt8)
  payload : Option (List UInt8)
  headers : Option (List (String × Option (List UInt8)))
  deriving DecidableEq

/-- A record without headers has no header block. -/
def buildHeaders (record : EncodedRecord) : Option (List (String × Option (List UInt8))) :=
  if record.headers.isEmpty then none else some record.headers

/-- The record that the producer is given. -/
def futureRecord (topic : String) (partition : ℤ) (record : EncodedRecord) : FutureRecord where
  topic := topic
  partition := partition
  key := record.key
  payload := record.value
  headers := buildHeaders record

section Loop

variable (topic : String) (partition : ℤ)

/-- The loop from the record `index` on: the records handed over in all, and the outcome. Each record
comes with what its sending would bring. -/
def publishRecordsFrom (total index : ℕ) (errors : ProducerErrorContext)
    (delivered : List DeliveredRecord) (sent : List FutureRecord) :
    List (EncodedRecord × Sending) → List FutureRecord × PublishOutcome
  | [] => (sent, { delivered })
  | (record, sending) :: rest =>
    let sent := sent ++ [futureRecord topic partition record]
    let errors := sending.reported.foldl ProducerErrorContext.error errors
    match sending.result with
    | .ok (deliveredTo, offset) =>
      publishRecordsFrom total (index + 1) errors
        (delivered ++ [{ index, partition := deliveredTo, offset }]) sent rest
    | .error error =>
      let kind := classifyProduceError error errors.failureReason
      (sent, {
        delivered
        failure := some
          { index, kind := .fromError kind, reason := describeProduceError error kind topic }
        notAttempted := total - index - 1 })

/-- What is handed over, and what is reported of the batch. -/
def publishRecords (batch : List (EncodedRecord × Sending)) : List FutureRecord × PublishOutcome :=
  publishRecordsFrom topic partition batch.length 0 {} [] [] batch

end Loop

/-! ## What an outcome is to say -/

/-- What is said of a failure in front of which nothing was delivered. -/
def nothingPublished : String := "Nothing was published."

/-- A text tells its reader that nothing was published. -/
def SaysNothingPublished (text : String) : Prop := nothingPublished.toList <:+: text.toList

instance (text : String) : Decidable (SaysNothingPublished text) :=
  inferInstanceAs (Decidable (_ <:+: _))

/-- How many records an outcome says were handed over. -/
def PublishOutcome.attempted (outcome : PublishOutcome) : ℕ :=
  outcome.delivered.length + if outcome.failure.isSome then 1 else 0

/-- An outcome accounts for a batch of which `sent` was handed to the client. -/
structure Accounts (topic : String) (partition : ℤ) (batch : List (EncodedRecord × Sending))
    (sent : List FutureRecord) (outcome : PublishOutcome) : Prop where
  sent_eq : sent = (batch.take outcome.attempted).map fun e => futureRecord topic partition e.1
  indexes : outcome.delivered.map DeliveredRecord.index = List.range outcome.delivered.length
  acknowledged : ∀ d ∈ outcome.delivered, ∃ e ∈ batch[d.index]?, e.2.result = .ok (d.partition, d.offset)
  failed : ∀ failure ∈ outcome.failure, failure.index = outcome.delivered.length ∧
    ∃ e ∈ batch[failure.index]?, ∃ error, e.2.result = .error error
  notAttempted_eq : outcome.notAttempted =
    if outcome.failure.isSome then batch.length - outcome.delivered.length - 1 else 0
  total : outcome.attempted + outcome.notAttempted = batch.length
  nothing : ∀ failure ∈ outcome.failure, SaysNothingPublished failure.reason → outcome.delivered = []

variable {topic : String} {partition : ℤ} {batch before rest : List (EncodedRecord × Sending)}
  {record : EncodedRecord} {reported reasons : List String} {error : KafkaError}

/-! ## The records in front of the first failure -/

/-- The acknowledgements of records from `index` on. -/
def acknowledgements (index : ℕ) : List (EncodedRecord × Sending) → List DeliveredRecord
  | [] => []
  | (_, sending) :: rest =>
    match sending.result with
    | .ok (partition, offset) => { index, partition, offset } :: acknowledgements (index + 1) rest
    | .error _ => []

/-- Every record was acknowledged. -/
def Acked (batch : List (EncodedRecord × Sending)) : Prop :=
  ∀ e ∈ batch, ∃ p, e.2.result = .ok p

theorem Acked.cons_iff {e : EncodedRecord × Sending} :
    Acked (e :: batch) ↔ (∃ p, e.2.result = .ok p) ∧ Acked batch :=
  List.forall_mem_cons

theorem acknowledgements_index (h : Acked batch) (index : ℕ) :
    (acknowledgements index batch).map DeliveredRecord.index = List.range' index batch.length := by
  induction batch generalizing index with
  | nil => rfl
  | cons e batch ih =>
    obtain ⟨⟨p, hp⟩, hrest⟩ := Acked.cons_iff.mp h
    rw [acknowledgements, List.length_cons, List.range'_succ]
    simp only [hp, List.map_cons, ih hrest]

theorem acknowledgements_length (h : Acked batch) (index : ℕ) :
    (acknowledgements index batch).length = batch.length := by
  have := congrArg List.length (acknowledgements_index h index)
  rwa [List.length_map, List.length_range'] at this

theorem of_mem_acknowledgements {d : DeliveredRecord} {index : ℕ}
    (hd : d ∈ acknowledgements index batch) :
    index ≤ d.index ∧ ∃ e ∈ batch[d.index - index]?, e.2.result = .ok (d.partition, d.offset) := by
  induction batch generalizing index with
  | nil => cases hd
  | cons e batch ih =>
    rw [acknowledgements] at hd
    cases hp : e.2.result with
    | error error => simp [hp] at hd
    | ok p =>
      simp only [hp] at hd
      rcases List.mem_cons.mp hd with rfl | hd
      · exact ⟨le_rfl, e, by simp, hp⟩
      · obtain ⟨hle, e', he', hresult⟩ := ih hd
        refine ⟨by omega, e', ?_, hresult⟩
        rwa [show d.index - index = d.index - (index + 1) + 1 by omega, List.getElem?_cons_succ]

/-- **The acknowledged records in front** are handed over and delivered, and the loop goes on. -/
theorem publishRecordsFrom_acked (h : Acked before) {total index : ℕ} {errors : ProducerErrorContext}
    {delivered : List DeliveredRecord} {sent : List FutureRecord} :
    publishRecordsFrom topic partition total index errors delivered sent (before ++ rest) =
      publishRecordsFrom topic partition total (index + before.length)
        ((before.flatMap fun e => e.2.reported).foldl ProducerErrorContext.error errors)
        (delivered ++ acknowledgements index before)
        (sent ++ before.map fun e => futureRecord topic partition e.1) rest := by
  induction before generalizing index errors delivered sent with
  | nil => simp [acknowledgements]
  | cons e before ih =>
    obtain ⟨⟨p, hp⟩, hrest⟩ := Acked.cons_iff.mp h
    rw [List.cons_append, publishRecordsFrom, acknowledgements]
    simp only [hp, ih hrest, List.length_cons, List.flatMap_cons, List.foldl_append, List.map_cons,
      List.append_assoc, List.singleton_append]
    rw [Nat.add_right_comm, Nat.add_assoc]

theorem exists_first_failure (batch : List (EncodedRecord × Sending)) :
    Acked batch ∨ ∃ before record reported error rest,
      batch = before ++ (record, ⟨reported, .error error⟩) :: rest ∧ Acked before := by
  induction batch with
  | nil => exact .inl fun e he => absurd he List.not_mem_nil
  | cons e batch ih =>
    obtain ⟨record, reported, result⟩ := e
    cases result with
    | error error =>
      exact .inr ⟨[], record, reported, error, batch, rfl, fun e he => absurd he List.not_mem_nil⟩
    | ok p =>
      rcases ih with h | ⟨before, record', reported', error, rest, rfl, h⟩
      · exact .inl (Acked.cons_iff.mpr ⟨⟨p, rfl⟩, h⟩)
      · exact .inr ⟨_ :: before, record', reported', error, rest, rfl,
          Acked.cons_iff.mpr ⟨⟨p, rfl⟩, h⟩⟩

/-- The kind of the first failure. -/
def failureKind (before : List (EncodedRecord × Sending)) (reported : List String)
    (error : KafkaError) : AppError :=
  classifyProduceError error (((before.flatMap fun e => e.2.reported) ++ reported).foldl
    ProducerErrorContext.error {}).failureReason

theorem publishRecords_acked (h : Acked batch) : publishRecords topic partition batch =
    (batch.map fun e => futureRecord topic partition e.1,
      { delivered := acknowledgements 0 batch }) := by
  have hrun : publishRecordsFrom topic partition batch.length 0 {} [] [] (batch ++ []) = _ :=
    publishRecordsFrom_acked h
  rw [List.append_nil] at hrun
  rw [publishRecords, hrun, publishRecordsFrom, List.nil_append, List.nil_append]

theorem publishRecords_failed (h : Acked before) :
    publishRecords topic partition (before ++ (record, ⟨reported, .error error⟩) :: rest) =
      ((before.map fun e => futureRecord topic partition e.1) ++ [futureRecord topic partition record],
        { delivered := acknowledgements 0 before
          failure := some
            { index := before.length
              kind := .fromError (failureKind before reported error)
              reason := describeProduceError error (failureKind before reported error) topic }
          notAttempted := rest.length }) := by
  rw [publishRecords, publishRecordsFrom_acked h, publishRecordsFrom]
  simp [failureKind, List.foldl_append]

theorem publishRecords_snd (topic : String) (partition : ℤ) (batch : List (EncodedRecord × Sending)) :
    publishMessages topic (.ok ()) (batch.map Prod.snd) =
      .ok (publishRecords topic partition batch).2 := by
  have hloop : ∀ (l : List (EncodedRecord × Sending)) (total index : ℕ)
      (errors : ProducerErrorContext) (delivered : List DeliveredRecord) (sent : List FutureRecord),
      index + l.length = total → publishFrom topic index errors delivered (l.map Prod.snd) =
        (publishRecordsFrom topic partition total index errors delivered sent l).2 := by
    intro l
    induction l with
    | nil => intros; rfl
    | cons e l ih =>
      intro total index errors delivered sent htotal
      rw [List.length_cons] at htotal
      rw [List.map_cons, publishFrom, publishRecordsFrom]
      cases hresult : e.2.result with
      | ok p => exact ih _ _ _ _ _ (by omega)
      | error error =>
        have hleft : (l.map Prod.snd).length = total - index - 1 := by
          rw [List.length_map]
          omega
        simp only [hleft]
  rw [publishMessages, hloop batch batch.length 0 {} [] [] (Nat.zero_add _)]
  rfl

/-! ## The text of a failure -/

/-- The broker denied the write, and nothing else was said about the credentials. -/
def DeniedOutright (error : KafkaError) (reasons : List String) : Prop :=
  error.isAuthorization = true ∧ error.isAuthentication = false ∧
    ∀ reason ∈ reasons, isAuthFailureReason reason = false

instance (error : KafkaError) (reasons : List String) : Decidable (DeniedOutright error reasons) :=
  inferInstanceAs (Decidable (_ ∧ _))

theorem classifyProduceError_eq_authorization_iff {reason : Option String} :
    classifyProduceError error reason = .authorization ↔ error.isAuthorization = true ∧
      error.isAuthentication = false ∧ reason.any isAuthFailureReason = false := by
  refine ⟨fun h => ?_, fun h => classifyProduceError_authorization h.1 h.2.1 h.2.2⟩
  have hnot : ¬ (error.isAuthentication = true ∨ reason.any isAuthFailureReason = true) := by
    rw [← classifyProduceError_authentication_iff, h]
    exact AppError.noConfusion
  obtain ⟨herror, hreason⟩ := not_or.mp hnot
  refine ⟨?_, Bool.eq_false_iff.mpr herror, Bool.eq_false_iff.mpr hreason⟩
  rw [classifyProduceError] at h
  split_ifs at h
  unfold KafkaError.isAuthorization
  split at h <;> simp_all

theorem deniedOutright_iff : DeniedOutright error reasons ↔ classifyProduceError error
    (reasons.foldl ProducerErrorContext.error {}).failureReason = .authorization := by
  rw [classifyProduceError_eq_authorization_iff, ← Bool.not_eq_true (Option.any _ _),
    any_failureReason_iff]
  simp [DeniedOutright]

theorem infix_append_iff {α : Type} {a : α} {l t s : List α} (ha : a ∉ t) :
    a :: l <:+: t ++ s ↔ a :: l <:+: s := by
  induction t with
  | nil => rfl
  | cons b t ih =>
    have hb : a ≠ b := fun h => ha (h ▸ List.mem_cons_self)
    rw [List.cons_append, List.infix_cons_iff, ih fun h => ha (List.mem_cons_of_mem _ h)]
    refine or_iff_right fun h => hb ?_
    exact (List.cons_prefix_cons.mp h).1

/-- The sentence is found in a text of brackets exactly if it is found between them. -/
theorem says_bracketed_iff {opening text : String} (h : 'N' ∉ opening.toList) :
    SaysNothingPublished (opening ++ text ++ ")") ↔ SaysNothingPublished text := by
  unfold SaysNothingPublished
  rw [String.toList_append, String.toList_append, List.append_assoc]
  have hfirst : nothingPublished.toList = 'N' :: "othing was published.".toList := by decide
  rw [hfirst, infix_append_iff h]
  have hlast : 'N' :: "othing was published.".toList = "Nothing was published".toList ++ ['.'] := by
    decide
  show _ <:+: text.toList ++ [')'] ↔ _
  rw [List.infix_concat_iff, hlast, List.suffix_concat_iff]
  refine or_iff_right ?_
  rintro (hnil | ⟨t, ht, -⟩)
  · exact absurd hnil (List.append_ne_nil_of_right_ne_nil _ (List.cons_ne_nil _ _))
  · have := List.append_inj_right' ht rfl
    cases this

theorem says_denied (error : KafkaError) (topic : String) :
    SaysNothingPublished (describeProduceError error .authorization topic) := by
  have hsplit : "). Nothing was published." = "). " ++ nothingPublished := by decide
  unfold SaysNothingPublished describeProduceError
  dsimp only [toString]
  rw [hsplit, ← String.append_assoc, ← String.append_assoc, String.toList_append]
  exact (List.suffix_append _ _).isInfix

/-- **What a failure says.** Its text says that nothing was published exactly if the write was denied
outright, or the text of the error says so. -/
theorem saysNothingPublished_reason_iff (error : KafkaError) (reasons : List String)
    (topic : String) :
    SaysNothingPublished (describeProduceError error (classifyProduceError error
      (reasons.foldl ProducerErrorContext.error {}).failureReason) topic) ↔
        DeniedOutright error reasons ∨ SaysNothingPublished error.text := by
  rw [deniedOutright_iff]
  generalize classifyProduceError error
    (reasons.foldl ProducerErrorContext.error {}).failureReason = kind
  cases kind with
  | authorization => exact iff_of_true (says_denied error topic) (.inl rfl)
  | authentication =>
    rw [or_iff_right AppError.noConfusion]
    have hopening : 'N' ∉ "the broker rejected this connection's credentials (".toList := by decide
    exact says_bracketed_iff hopening
  | kafka => exact (or_iff_right AppError.noConfusion).symm
  | validation => exact (or_iff_right AppError.noConfusion).symm
  | _ => exact (or_iff_right AppError.noConfusion).symm

/-! ## The account -/

theorem accounts_acked (h : Acked batch) : Accounts topic partition batch
    (publishRecords topic partition batch).1 (publishRecords topic partition batch).2 := by
  rw [publishRecords_acked h]
  have hlength := acknowledgements_length h 0
  constructor
  · show _ = (batch.take ((acknowledgements 0 batch).length + 0)).map _
    rw [hlength, Nat.add_zero, List.take_length]
  · show (acknowledgements 0 batch).map _ = _
    rw [acknowledgements_index h, List.range_eq_range', hlength]
  · intro d hd
    exact (of_mem_acknowledgements hd).2
  · intro failure hfailure
    cases hfailure
  · rfl
  · exact hlength
  · intro failure hfailure
    cases hfailure

/-- After a failure the outcome accounts for the batch exactly if its text does not deny what was
delivered. -/
theorem accounts_failed_iff (h : Acked before) : Accounts topic partition
    (before ++ (record, ⟨reported, .error error⟩) :: rest)
    (publishRecords topic partition (before ++ (record, ⟨reported, .error error⟩) :: rest)).1
    (publishRecords topic partition (before ++ (record, ⟨reported, .error error⟩) :: rest)).2 ↔
      (SaysNothingPublished
        (describeProduceError error (failureKind before reported error) topic) → before = []) := by
  rw [publishRecords_failed h]
  have hlength := acknowledgements_length h 0
  constructor
  · intro hacc htells
    have hnil := hacc.nothing _ rfl htells
    dsimp only at hnil
    rw [hnil] at hlength
    exact List.length_eq_zero_iff.mp hlength.symm
  · intro htells
    constructor
    · show _ = ((before ++ (record, ⟨reported, .error error⟩) :: rest).take
        ((acknowledgements 0 before).length + 1)).map _
      rw [hlength, List.take_length_add_append, List.take_succ_cons, List.take_zero, List.map_append]
      rfl
    · show (acknowledgements 0 before).map _ = _
      rw [acknowledgements_index h, List.range_eq_range', hlength]
    · intro d hd
      obtain ⟨-, e, he, hresult⟩ := of_mem_acknowledgements hd
      refine ⟨e, ?_, hresult⟩
      have hlt : d.index < before.length := (List.getElem?_eq_some_iff.mp he).1
      rwa [List.getElem?_append_left hlt]
    · intro failure hfailure
      cases hfailure
      exact ⟨hlength.symm, (record, ⟨reported, .error error⟩), by simp, error, rfl⟩
    · show rest.length = (before ++ (record, ⟨reported, .error error⟩) :: rest).length -
        (acknowledgements 0 before).length - 1
      rw [hlength, List.length_append, List.length_cons]
      omega
    · show (acknowledgements 0 before).length + 1 + rest.length =
        (before ++ (record, ⟨reported, .error error⟩) :: rest).length
      rw [hlength, List.length_append, List.length_cons]
      omega
    · intro failure hfailure htells'
      cases hfailure
      rw [htells htells']
      rfl

/-- **When the outcome accounts for the batch.** Whatever comes of each record, the outcome has every
record in one place, and it does not tell of nothing published when something was, exactly unless
records were delivered before one that the broker denies, or whose error has the sentence itself. -/
theorem accounts_iff (topic : String) (partition : ℤ) (batch : List (EncodedRecord × Sending)) :
    publishMessages topic (.ok ()) (batch.map Prod.snd) =
        .ok (publishRecords topic partition batch).2 ∧
      (Accounts topic partition batch (publishRecords topic partition batch).1
          (publishRecords topic partition batch).2 ↔
        ¬ ∃ before record reported error rest,
          batch = before ++ (record, ⟨reported, .error error⟩) :: rest ∧ Acked before ∧ before ≠ [] ∧
            (DeniedOutright error ((before.flatMap fun e => e.2.reported) ++ reported) ∨
              SaysNothingPublished error.text)) := by
  refine ⟨publishRecords_snd topic partition batch, ?_⟩
  constructor
  · rintro hacc ⟨before, record, reported, error, rest, rfl, hacked, hne, htells⟩
    have hreason := (saysNothingPublished_reason_iff error
      ((before.flatMap fun e => e.2.reported) ++ reported) topic).mpr htells
    exact hne ((accounts_failed_iff hacked).mp hacc hreason)
  · intro hnot
    rcases exists_first_failure batch with h | ⟨before, record, reported, error, rest, rfl, hacked⟩
    · exact accounts_acked h
    · rw [accounts_failed_iff hacked]
      intro htells
      by_contra hne
      exact hnot ⟨before, record, reported, error, rest, rfl, hacked, hne,
        (saysNothingPublished_reason_iff error _ topic).mp htells⟩

/-- The write is denied after one message of three was delivered. -/
def deniedMidBatch : List (EncodedRecord × Sending) :=
  let record : EncodedRecord := { key := none, value := some [49], headers := [] }
  [(record, { result := .ok (0, 41) }), (record, { result := .error topicDenied }),
    (record, { result := .ok (0, 42) })]

/-- The outcome has a delivered record, and says that nothing was published. -/
theorem denied_mid_batch_not_accounted :
    (publishRecords "orders" 0 deniedMidBatch).2.delivered =
        [{ index := 0, partition := 0, offset := 41 }] ∧
      (publishRecords "orders" 0 deniedMidBatch).2.failure.any
        (fun failure => SaysNothingPublished failure.reason) = true ∧
      ¬ Accounts "orders" 0 deniedMidBatch (publishRecords "orders" 0 deniedMidBatch).1
        (publishRecords "orders" 0 deniedMidBatch).2 := by
  have hdelivered : (publishRecords "orders" 0 deniedMidBatch).2.delivered =
      [{ index := 0, partition := 0, offset := 41 }] := by decide +kernel
  have hreason : (publishRecords "orders" 0 deniedMidBatch).2.failure.map PublishFailure.reason =
      some (describeProduceError topicDenied .authorization "orders") := by decide +kernel
  obtain ⟨failure, hfailure, hdenied⟩ := Option.map_eq_some_iff.mp hreason
  have htells : SaysNothingPublished failure.reason := hdenied ▸ says_denied topicDenied "orders"
  refine ⟨hdelivered, ?_, fun hacc => ?_⟩
  · rw [hfailure]
    exact decide_eq_true htells
  · have hnil := hacc.nothing failure hfailure htells
    rw [hdelivered] at hnil
    cases hnil

end OffsetExplorer
