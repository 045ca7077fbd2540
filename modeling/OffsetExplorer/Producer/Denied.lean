import OffsetExplorer.Producer.Publish
import OffsetExplorer.Session.Effect

/-!
# A denied write and the credentials

The broker may refuse a write of a principal that it knows. Such a refusal must not count against the
credentials of the connection.

* `any_failureReason_iff`: the context remembers whether some reason was about the credentials.
* `classifyProduceError_authentication_iff`: such a reason, or the error itself, decides before the code.
* **`denied_write_iff`**: a failure is classified by its own error exactly if no such reason was reported
  beside an authorization code.
-/

namespace OffsetExplorer

/-- One of the codes by which a broker refuses an operation. -/
def KafkaError.isAuthorization (error : KafkaError) : Bool :=
  error.rdkafkaErrorCode = some .topicAuthorizationFailed ||
    error.rdkafkaErrorCode = some .clusterAuthorizationFailed ||
    error.rdkafkaErrorCode = some .groupAuthorizationFailed ||
    error.rdkafkaErrorCode = some .transactionalIdAuthorizationFailed

/-- The error itself says that the credentials were rejected: by its code, or in the words for it. -/
def KafkaError.isAuthentication (error : KafkaError) : Bool :=
  error.codeSaysAuth || isAuthFailureReason error.text

/-- How a failed record is to be classified, by its error and the reasons that were reported. -/
structure Verdict (error : KafkaError) (reasons : List String) (kind : PublishFailureKind) : Prop where
  denied : error.isAuthorization = true → kind = .authorization
  rejected : kind = .authentication ↔ error.isAuthentication = true ∨
    error.isAuthorization = false ∧ ∃ reason ∈ reasons, isAuthFailureReason reason = true

variable {error : KafkaError} {reasons : List String}

/-! ## The context -/

theorem lastError_foldl {reason : String} (h : (reasons.foldl ProducerErrorContext.error {}).lastError =
    some reason) : reason ∈ reasons := by
  rcases List.eq_nil_or_concat reasons with rfl | ⟨before, last, rfl⟩
  · cases h
  · rw [List.concat_eq_append, List.foldl_concat] at h
    cases h
    simp

theorem authError_foldl : (reasons.foldl ProducerErrorContext.error {}).authError =
    reasons.find? isAuthFailureReason := by
  induction reasons using List.reverseRecOn with
  | nil => rfl
  | append_singleton before last ih =>
    rw [List.foldl_concat, ProducerErrorContext.error, ih, List.find?_append]
    cases hfind : before.find? isAuthFailureReason with
    | some first => simp
    | none => cases hlast : isAuthFailureReason last <;> simp [hlast]

/-- **The context remembers** whether some reason was about the credentials. -/
theorem any_failureReason_iff :
    (reasons.foldl ProducerErrorContext.error {}).failureReason.any isAuthFailureReason = true ↔
      ∃ reason ∈ reasons, isAuthFailureReason reason = true := by
  rw [ProducerErrorContext.failureReason, authError_foldl]
  cases hfind : reasons.find? isAuthFailureReason with
  | some first =>
    have hfirst := List.find?_some hfind
    exact ⟨fun _ => ⟨first, List.mem_of_find?_eq_some hfind, hfirst⟩, fun _ => hfirst⟩
  | none =>
    rw [Option.none_or]
    constructor
    · intro h
      cases hlast : (reasons.foldl ProducerErrorContext.error {}).lastError with
      | none => simp [hlast] at h
      | some last =>
        rw [hlast] at h
        exact ⟨last, lastError_foldl hlast, h⟩
    · rintro ⟨reason, hmem, hauth⟩
      exact absurd hauth (List.find?_eq_none.mp hfind reason hmem)

/-! ## The classification -/

theorem classifyProduceError_authentication_iff {reason : Option String} :
    classifyProduceError error reason = .authentication ↔
      error.isAuthentication = true ∨ reason.any isAuthFailureReason = true := by
  have hcondition : (isAuthFailure (some error) reason ||
      isAuthFailure (some error) (some error.text)) = true ↔
        error.isAuthentication = true ∨ reason.any isAuthFailureReason = true := by
    simp only [isAuthFailure, KafkaError.isAuthentication, Option.any_some, Bool.or_eq_true]
    tauto
  rw [classifyProduceError, ← hcondition]
  split_ifs with h
  · exact iff_of_true rfl h
  · refine iff_of_false ?_ h
    split <;> exact AppError.noConfusion

theorem classifyProduceError_authorization {reason : Option String}
    (hcode : error.isAuthorization = true) (herror : error.isAuthentication = false)
    (hreason : reason.any isAuthFailureReason = false) :
    classifyProduceError error reason = .authorization := by
  have hnot : ¬ (isAuthFailure (some error) reason ||
      isAuthFailure (some error) (some error.text)) = true := by
    simp only [KafkaError.isAuthentication, Bool.or_eq_false_iff] at herror
    simp [isAuthFailure, herror, hreason]
  rw [classifyProduceError, if_neg hnot]
  simp only [KafkaError.isAuthorization, Bool.or_eq_true, decide_eq_true_eq] at hcode
  rcases hcode with ((h | h) | h) | h <;> rw [h]

theorem fromError_authentication_iff {kind : AppError} :
    PublishFailureKind.fromError kind = .authentication ↔ kind = .authentication := by
  cases kind <;> simp [PublishFailureKind.fromError]

theorem codeSaysAuth_of_isAuthorization (h : error.isAuthorization = true) :
    error.codeSaysAuth = false := by
  simp only [KafkaError.isAuthorization, Bool.or_eq_true, decide_eq_true_eq] at h
  rcases h with ((h | h) | h) | h <;> simp [KafkaError.codeSaysAuth, h]

/-- **The classification meets its purpose** unless a denied write comes with words about the
credentials. -/
theorem verdict_iff {reason : Option String} (hreason : reason.any isAuthFailureReason = true ↔
    ∃ r ∈ reasons, isAuthFailureReason r = true) :
    Verdict error reasons (.fromError (classifyProduceError error reason)) ↔
      ¬ (error.isAuthorization = true ∧ (isAuthFailureReason error.text = true ∨
        ∃ r ∈ reasons, isAuthFailureReason r = true)) := by
  constructor
  · rintro h ⟨hcode, hwords⟩
    have hauth : classifyProduceError error reason = .authentication := by
      rw [classifyProduceError_authentication_iff, hreason, KafkaError.isAuthentication,
        Bool.or_eq_true]
      exact hwords.imp_left Or.inr
    have hdenied := h.denied hcode
    rw [hauth] at hdenied
    cases hdenied
  · intro h
    constructor
    · intro hcode
      have herror : error.isAuthentication = false := by
        rw [KafkaError.isAuthentication, codeSaysAuth_of_isAuthorization hcode, Bool.false_or]
        exact Bool.not_eq_true _ ▸ fun htext => h ⟨hcode, Or.inl htext⟩
      have hnone : reason.any isAuthFailureReason = false :=
        Bool.not_eq_true _ ▸ fun hany => h ⟨hcode, Or.inr (hreason.mp hany)⟩
      rw [classifyProduceError_authorization hcode herror hnone]
      rfl
    · rw [fromError_authentication_iff, classifyProduceError_authentication_iff, hreason]
      refine or_congr_right ⟨fun hwords => ⟨?_, hwords⟩, And.right⟩
      exact Bool.not_eq_true _ ▸ fun hcode => h ⟨hcode, Or.inr hwords⟩

/-! ## A publish -/

variable {topic : String} {before rest : List Sending} {reported : List String}

theorem publishFrom_failure {index : ℕ} {errors : ProducerErrorContext}
    {delivered : List DeliveredRecord} (hbefore : ∀ sending ∈ before, ∃ p, sending.result = .ok p) :
    (publishFrom topic index errors delivered (before ++ ⟨reported, .error error⟩ :: rest)).failure.map
        PublishFailure.kind =
      some (.fromError (classifyProduceError error ((before.flatMap Sending.reported ++ reported).foldl
        ProducerErrorContext.error errors).failureReason)) := by
  induction before generalizing index errors delivered with
  | nil => rfl
  | cons sending before ih =>
    obtain ⟨hfirst, hbefore⟩ := List.forall_mem_cons.mp hbefore
    obtain ⟨⟨partition, offset⟩, hresult⟩ := hfirst
    rw [List.cons_append, publishFrom]
    simp only [hresult]
    simp only [ih hbefore, List.flatMap_cons, List.foldl_append]

theorem not_counted_of_authorization {id reason : String} {outcome : PublishOutcome}
    (h : outcome.failure.map PublishFailure.kind = some .authorization) :
    .authFailuresRecord id reason ∉ Session.recordPublishOutcome id topic outcome := by
  intro hmem
  rcases Session.of_mem_recordPublishOutcome hmem with
    ⟨-, hf⟩ | ⟨failure, hfailure, ⟨-, hf⟩ | ⟨hkind, -⟩⟩
  · simp [Session.recordAuthSuccess, Session.clearAuthFailures] at hf
  · cases hf
  · rw [hfailure, Option.map_some, hkind] at h
    cases h

/-- **A denied write is no failure of the credentials**, exactly if neither the error nor a reason that
was reported during the publish has words about the credentials beside an authorization code. -/
theorem denied_write_iff (topic id : String) (before rest : List Sending) (reported : List String)
    (error : KafkaError) {outcome : PublishOutcome}
    (hbefore : ∀ sending ∈ before, ∃ p, sending.result = .ok p)
    (hpublish : publishMessages topic (.ok ()) (before ++ ⟨reported, .error error⟩ :: rest) =
      .ok outcome) :
    (∃ kind, outcome.failure.map PublishFailure.kind = some kind ∧
      Verdict error (before.flatMap Sending.reported ++ reported) kind ∧
        (error.isAuthorization = true → ∀ reason,
          .authFailuresRecord id reason ∉ Session.recordPublishOutcome id topic outcome)) ↔
      ¬ (error.isAuthorization = true ∧ (isAuthFailureReason error.text = true ∨
        ∃ reason ∈ before.flatMap Sending.reported ++ reported, isAuthFailureReason reason = true)) := by
  cases hpublish
  rw [publishFrom_failure hbefore, ← verdict_iff any_failureReason_iff]
  constructor
  · rintro ⟨kind, hkind, hverdict, -⟩
    cases hkind
    exact hverdict
  · intro hverdict
    refine ⟨_, rfl, hverdict, fun hcode reason => not_counted_of_authorization ?_⟩
    rw [publishFrom_failure hbefore, hverdict.denied hcode]

/-- What a broker answers a principal that may not write. -/
def topicDenied : KafkaError where
  rdkafkaErrorCode := some .topicAuthorizationFailed
  text := "Message production error: TopicAuthorizationFailed (Broker: Topic authorization failed)"

/-- A denied write, during which the client says that its broker is down. -/
theorem denied_write_plain : ∃ outcome,
    publishMessages "orders" (.ok ()) [⟨["1/1 brokers are down"], .error topicDenied⟩] = .ok outcome ∧
      outcome.failure.map PublishFailure.kind = some .authorization := by
  refine ⟨_, rfl, ?_⟩
  obtain ⟨kind, hkind, hverdict, -⟩ := (denied_write_iff "orders" "c1" [] []
    ["1/1 brokers are down"] topicDenied (by simp) rfl).mpr (by decide +kernel)
  rw [hverdict.denied (by decide)] at hkind
  exact hkind

/-- **A denied write that counts against the credentials.** The client has reported a rejected handshake
during the publish, and the write is refused for want of access. -/
theorem denied_write_rejected : ∃ outcome,
    publishMessages "orders" (.ok ()) [⟨["Authentication failed"], .error topicDenied⟩] = .ok outcome ∧
      topicDenied.isAuthorization = true ∧ isAuthFailureReason topicDenied.text = false ∧
        outcome.failure.map PublishFailure.kind = some .authentication ∧
          ∃ reason, .authFailuresRecord "c1" reason ∈
            Session.recordPublishOutcome "c1" "orders" outcome := by
  refine ⟨_, rfl, by decide, by decide +kernel, by decide +kernel, ?_⟩
  exact ⟨describeProduceError topicDenied .authentication "orders", by decide +kernel⟩

end OffsetExplorer
