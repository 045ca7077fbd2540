import OffsetExplorer.Core.ConnectionExport
import OffsetExplorer.Lib.JsNumber
import OffsetExplorer.Text

/-!
# The form of a connection

The modal edits a connection as texts. A draft is saved as the settings that it is converted to, and a saved
connection is loaded into a draft.

* `validateDraft`, `toNewConnection`, `connectionToDraft`: the functions of the form.
* `save`: what the back end stores of a draft, after JSON; `number`, `portText`: how a port is read and written.
* `Normal`: settings that the form can hold as they are; `keptPort_of_abs_lt`: a port of 53 bits is kept.
* `save_connectionToDraft_iff`: saving a connection as it was loaded changes nothing exactly if it is normal.
* **`save_connectionToDraft`**: what has been saved is, and what has been imported need not be.
-/

namespace OffsetExplorer.ConnectionModal

open OffsetExplorer.Core JsNumber

/-! ## The form -/

/-- What the fields of the form hold. Numbers are texts until they are saved. -/
structure ConnectionDraft where
  name : String
  bootstrapServers : String
  kafkaVersion : String
  zookeeperEnabled : Bool
  zookeeperHost : String
  zookeeperPort : String
  zookeeperChrootPath : String
  securityProtocol : SecurityProtocol
  /-- The empty text is `none`. -/
  saslMechanism : Option SaslMechanism
  saslUsername : String
  saslPassword : String
  saslOauthUrl : String
  schemaRegistryEndpoint : String
  schemaRegistryBasicAuthCredentials : String
  schemaRegistryTrustStoreLocation : String
  schemaRegistryTrustStorePassword : String
  schemaRegistryKeystoreLocation : String
  schemaRegistryKeystorePassword : String
  schemaRegistryKeystoreKeyPassword : String
  sslTruststoreLocation : String
  sslTruststorePassword : String
  sslKeystoreLocation : String
  sslKeystorePassword : String
  sslKeystoreKeyPassword : String
  allowPublishing : Bool
  deriving DecidableEq

/-- There is nothing but blanks in the field. -/
def isBlank (text : String) : Bool := (jsTrim text).isEmpty

/-- What is wrong with a draft. -/
def validateDraft (draft : ConnectionDraft) : Option String :=
  if isBlank draft.name then some "Cluster name is required"
  else if isBlank draft.bootstrapServers then some "Bootstrap servers is required"
  else if draft.zookeeperEnabled then
    if isBlank draft.zookeeperHost then some "Zookeeper host is required when Zookeeper is enabled"
    else if isBlank draft.zookeeperPort then some "Zookeeper port is required when Zookeeper is enabled"
    else none
  else none

/-- An empty field is saved as `null`. -/
def nullableTrim (value : String) : Option String :=
  let trimmed := jsTrim value
  if trimmed.isEmpty then none else some trimmed

/-- `Number(text)`. -/
def number (text : String) : JsNumber := .ofLiteral (jsTrim text).toList

/-- The settings as the script has them: the port is a number. -/
structure NewConnection where
  name : String
  bootstrapServers : String
  kafkaVersion : String
  zookeeperEnabled : Bool
  zookeeperHost : Option String
  zookeeperPort : Option JsNumber
  zookeeperChrootPath : Option String
  securityProtocol : SecurityProtocol
  saslMechanism : Option SaslMechanism
  saslUsername : Option String
  saslPassword : Option String
  saslOauthUrl : Option String
  schemaRegistryEndpoint : Option String
  schemaRegistryBasicAuthCredentials : Option String
  schemaRegistryTrustStoreLocation : Option String
  schemaRegistryTrustStorePassword : Option String
  schemaRegistryKeystoreLocation : Option String
  schemaRegistryKeystorePassword : Option String
  schemaRegistryKeystoreKeyPassword : Option String
  sslTruststoreLocation : Option String
  sslTruststorePassword : Option String
  sslKeystoreLocation : Option String
  sslKeystorePassword : Option String
  sslKeystoreKeyPassword : Option String
  allowPublishing : Bool

/-- The settings of a draft. Fields of hidden sections are dropped. -/
def toNewConnection (draft : ConnectionDraft) : NewConnection where
  name := jsTrim draft.name
  bootstrapServers := jsTrim draft.bootstrapServers
  kafkaVersion := draft.kafkaVersion
  zookeeperEnabled := draft.zookeeperEnabled
  zookeeperHost := if draft.zookeeperEnabled then nullableTrim draft.zookeeperHost else none
  zookeeperPort :=
    if draft.zookeeperEnabled && !isBlank draft.zookeeperPort then some (number draft.zookeeperPort) else none
  zookeeperChrootPath := if draft.zookeeperEnabled then nullableTrim draft.zookeeperChrootPath else none
  securityProtocol := draft.securityProtocol
  saslMechanism := draft.saslMechanism
  saslUsername := nullableTrim draft.saslUsername
  saslPassword := nullableTrim draft.saslPassword
  saslOauthUrl := nullableTrim draft.saslOauthUrl
  schemaRegistryEndpoint := nullableTrim draft.schemaRegistryEndpoint
  schemaRegistryBasicAuthCredentials := nullableTrim draft.schemaRegistryBasicAuthCredentials
  schemaRegistryTrustStoreLocation := nullableTrim draft.schemaRegistryTrustStoreLocation
  schemaRegistryTrustStorePassword := nullableTrim draft.schemaRegistryTrustStorePassword
  schemaRegistryKeystoreLocation := nullableTrim draft.schemaRegistryKeystoreLocation
  schemaRegistryKeystorePassword := nullableTrim draft.schemaRegistryKeystorePassword
  schemaRegistryKeystoreKeyPassword := nullableTrim draft.schemaRegistryKeystoreKeyPassword
  sslTruststoreLocation := nullableTrim draft.sslTruststoreLocation
  sslTruststorePassword := nullableTrim draft.sslTruststorePassword
  sslKeystoreLocation := nullableTrim draft.sslKeystoreLocation
  sslKeystorePassword := nullableTrim draft.sslKeystorePassword
  sslKeystoreKeyPassword := nullableTrim draft.sslKeystoreKeyPassword
  allowPublishing := draft.allowPublishing

/-! ## To the back end and back -/

/-- What arrives as an `Option<i64>` of a number that is written as JSON: `null` for what is not finite, and a
refusal for what is written as no integer of 64 bits. -/
def receivePort : Option JsNumber → Option (Option ℤ)
  | some (.finite v) =>
    ((integerLiteral v).filter fun k => -2 ^ 63 ≤ k ∧ k ≤ 2 ^ 63 - 1).map some
  | _ => some none

/-- The settings as the back end receives them. -/
def NewConnection.receive (new : NewConnection) : Option Core.NewConnection :=
  (receivePort new.zookeeperPort).map fun port => {
    name := new.name
    bootstrapServers := new.bootstrapServers
    kafkaVersion := new.kafkaVersion
    zookeeperEnabled := new.zookeeperEnabled
    zookeeperHost := new.zookeeperHost
    zookeeperPort := port
    zookeeperChrootPath := new.zookeeperChrootPath
    securityProtocol := new.securityProtocol
    saslMechanism := new.saslMechanism
    saslUsername := new.saslUsername
    saslPassword := new.saslPassword
    saslOauthUrl := new.saslOauthUrl
    schemaRegistryEndpoint := new.schemaRegistryEndpoint
    schemaRegistryBasicAuthCredentials := new.schemaRegistryBasicAuthCredentials
    schemaRegistryTrustStoreLocation := new.schemaRegistryTrustStoreLocation
    schemaRegistryTrustStorePassword := new.schemaRegistryTrustStorePassword
    schemaRegistryKeystoreLocation := new.schemaRegistryKeystoreLocation
    schemaRegistryKeystorePassword := new.schemaRegistryKeystorePassword
    schemaRegistryKeystoreKeyPassword := new.schemaRegistryKeystoreKeyPassword
    sslTruststoreLocation := new.sslTruststoreLocation
    sslTruststorePassword := new.sslTruststorePassword
    sslKeystoreLocation := new.sslKeystoreLocation
    sslKeystorePassword := new.sslKeystorePassword
    sslKeystoreKeyPassword := new.sslKeystoreKeyPassword
    allowPublishing := new.allowPublishing }

/-- What is stored of a draft, unless the back end refuses it. -/
def save (draft : ConnectionDraft) : Option Core.NewConnection := (toNewConnection draft).receive

/-- The integer that is written for a port that has come as JSON: of the double next to it. -/
def written (port : ℤ) : Option ℤ := (ofRat port).toFinite.bind integerLiteral

/-- `String(connection.zookeeperPort)`. -/
def portText (port : ℤ) : String := ((written port).map toString).getD ""

/-- The draft that a saved connection is loaded into. -/
def connectionToDraft (connection : Connection) : ConnectionDraft where
  name := connection.name
  bootstrapServers := connection.bootstrapServers
  kafkaVersion := connection.kafkaVersion
  zookeeperEnabled := connection.zookeeperEnabled
  zookeeperHost := connection.zookeeperHost.getD ""
  zookeeperPort := (connection.zookeeperPort.map portText).getD ""
  zookeeperChrootPath := connection.zookeeperChrootPath.getD ""
  securityProtocol := connection.securityProtocol
  saslMechanism := connection.saslMechanism
  saslUsername := connection.saslUsername.getD ""
  saslPassword := connection.saslPassword.getD ""
  saslOauthUrl := connection.saslOauthUrl.getD ""
  schemaRegistryEndpoint := connection.schemaRegistryEndpoint.getD ""
  schemaRegistryBasicAuthCredentials := connection.schemaRegistryBasicAuthCredentials.getD ""
  schemaRegistryTrustStoreLocation := connection.schemaRegistryTrustStoreLocation.getD ""
  schemaRegistryTrustStorePassword := connection.schemaRegistryTrustStorePassword.getD ""
  schemaRegistryKeystoreLocation := connection.schemaRegistryKeystoreLocation.getD ""
  schemaRegistryKeystorePassword := connection.schemaRegistryKeystorePassword.getD ""
  schemaRegistryKeystoreKeyPassword := connection.schemaRegistryKeystoreKeyPassword.getD ""
  sslTruststoreLocation := connection.sslTruststoreLocation.getD ""
  sslTruststorePassword := connection.sslTruststorePassword.getD ""
  sslKeystoreLocation := connection.sslKeystoreLocation.getD ""
  sslKeystorePassword := connection.sslKeystorePassword.getD ""
  sslKeystoreKeyPassword := connection.sslKeystoreKeyPassword.getD ""
  allowPublishing := connection.allowPublishing

/-! ## What the form can hold -/

/-- An optional text that is neither blank nor has blanks around it. -/
def Kept (text : Option String) : Prop := ∀ s ∈ text, jsTrim s = s ∧ s ≠ ""

/-- A port that a script reads and writes as it is, and that fits into 64 bits. -/
def KeptPort (port : Option ℤ) : Prop :=
  ∀ z ∈ port, written z = some z ∧ -2 ^ 63 ≤ z ∧ z ≤ 2 ^ 63 - 1

/-- The optional texts of settings that are for every kind of connection. -/
def texts (c : Core.NewConnection) : List (Option String) :=
  [c.saslUsername, c.saslPassword, c.saslOauthUrl, c.schemaRegistryEndpoint,
    c.schemaRegistryBasicAuthCredentials, c.schemaRegistryTrustStoreLocation,
    c.schemaRegistryTrustStorePassword, c.schemaRegistryKeystoreLocation, c.schemaRegistryKeystorePassword,
    c.schemaRegistryKeystoreKeyPassword, c.sslTruststoreLocation, c.sslTruststorePassword,
    c.sslKeystoreLocation, c.sslKeystorePassword, c.sslKeystoreKeyPassword]

/-- Settings that the form can hold as they are: no blanks around a text, no empty text for none, and nothing of
Zookeeper where it is not enabled. -/
structure Normal (c : Core.NewConnection) : Prop where
  name : jsTrim c.name = c.name
  bootstrapServers : jsTrim c.bootstrapServers = c.bootstrapServers
  texts : ∀ text ∈ texts c, Kept text
  zookeeper : if c.zookeeperEnabled then Kept c.zookeeperHost ∧ KeptPort c.zookeeperPort ∧
      Kept c.zookeeperChrootPath
    else c.zookeeperHost = none ∧ c.zookeeperPort = none ∧ c.zookeeperChrootPath = none

theorem isEmpty_iff {text : String} : text.isEmpty = true ↔ text = "" := String.isEmpty_iff

theorem nullableTrim_eq (value : String) :
    nullableTrim value = if jsTrim value = "" then none else some (jsTrim value) := by
  simp only [nullableTrim, isEmpty_iff]

theorem nullableTrim_getD_iff (text : Option String) : nullableTrim (text.getD "") = text ↔ Kept text := by
  rw [nullableTrim_eq]
  cases text with
  | none => exact iff_of_true rfl fun _ => nofun
  | some s =>
    simp only [Option.getD_some, Kept, Option.mem_some_iff, forall_eq']
    split_ifs with hblank
    · exact iff_of_false nofun fun h => h.2 (h.1.symm.trans hblank)
    · rw [Option.some.injEq]
      refine ⟨fun h => ⟨h, fun hempty => hblank (h.trans hempty)⟩, fun h => h.1⟩

theorem map_nullableTrim_iff (l : List (Option String)) :
    (l.map fun text => text.getD "").map nullableTrim = l ↔ ∀ text ∈ l, Kept text := by
  induction l with
  | nil => exact iff_of_true rfl (List.forall_mem_nil _)
  | cons text l ih =>
    rw [List.map_cons, List.map_cons, List.cons.injEq, nullableTrim_getD_iff, ih, List.forall_mem_cons]

theorem kept_nullableTrim (value : String) : Kept (nullableTrim value) := by
  intro s hs
  rw [nullableTrim_eq] at hs
  split_ifs at hs with hblank
  · cases hs
  · cases hs
    exact ⟨trimWhere_trimWhere _ value, hblank⟩

theorem jsTrim_toString (k : ℤ) : jsTrim (toString k) = toString k := by
  have hdigits : ∀ n, ∀ c ∈ Nat.toDigits 10 n, (isCommonBlank c || decide (c.toNat = 0xFEFF)) = false := by
    intro n c hc
    have hrange : 48 ≤ c.toNat ∧ c.toNat ≤ 57 := Char.isDigit_iff_toNat.mp (Digits.digital_toDigits n c hc)
    simp only [isCommonBlank]
    simp
    omega
  refine trimWhere_of_forall fun c hc => ?_
  cases k with
  | ofNat n =>
    rw [Int.ofNat_eq_natCast, toList_toString_natCast] at hc
    exact hdigits n c hc
  | negSucc n =>
    rw [Int.negSucc_eq, ← Int.natCast_succ, toList_toString_neg] at hc
    rcases List.mem_cons.mp hc with rfl | hc
    · rfl
    · exact hdigits (n + 1) c hc

theorem isBlank_toString (k : ℤ) : isBlank (toString k) = false := by
  have hne : toString k ≠ "" := by
    intro h
    have hnil : (toString k).toList = [] := congrArg String.toList h
    cases k with
    | ofNat n =>
      rw [Int.ofNat_eq_natCast, toList_toString_natCast] at hnil
      exact Nat.toDigits_ne_nil hnil
    | negSucc n =>
      rw [Int.negSucc_eq, ← Int.natCast_succ, toList_toString_neg] at hnil
      cases hnil
  rw [isBlank, jsTrim_toString]
  exact eq_false_of_ne_true fun h => hne (isEmpty_iff.mp h)

/-- The port that the form has of a text. -/
def formPort (text : String) : Option JsNumber := if !isBlank text then some (number text) else none

theorem receivePort_portText (port : ℤ) : receivePort (formPort (portText port)) =
    match written port with
    | some k => if -2 ^ 63 ≤ k ∧ k ≤ 2 ^ 63 - 1 then some (some k) else none
    | none => some none := by
  unfold portText
  cases hwritten : written port with
  | none => rfl
  | some k =>
    obtain ⟨v, hv, hk⟩ := Option.bind_eq_some_iff.mp hwritten
    have hnumber : number (toString k) = .finite v := by
      rw [number, jsTrim_toString, ofLiteral_toString, ofRat_of_integerLiteral hk]
    rw [Option.map_some, Option.getD_some, formPort, isBlank_toString, hnumber]
    simp only [Bool.not_false, if_true, receivePort, hk, Option.filter_some, decide_eq_true_eq]
    split_ifs <;> rfl

theorem receivePort_iff (port : Option ℤ) :
    receivePort (formPort ((port.map portText).getD "")) = some port ↔ KeptPort port := by
  cases port with
  | none => exact iff_of_true rfl fun _ => nofun
  | some z =>
    rw [Option.map_some, Option.getD_some, receivePort_portText]
    simp only [KeptPort, Option.mem_some_iff, forall_eq']
    cases written z with
    | none => exact iff_of_false nofun nofun
    | some k =>
      simp only
      constructor
      · intro h
        split_ifs at h with hrange
        cases h
        exact ⟨rfl, hrange⟩
      · rintro ⟨hk, hrange⟩
        cases hk
        exact if_pos hrange

theorem isSome_written {port : ℤ} (h : -2 ^ 63 ≤ port ∧ port ≤ 2 ^ 63 - 1) : (written port).isSome := by
  have habs : |port| ≤ 2 ^ 63 := abs_le.mpr (by omega)
  obtain ⟨v, hv, -, k, hk, hle⟩ := exists_ofRat_intCast habs
  rw [written, hv, toFinite, Option.bind_some, integerLiteral_of_int hk (by omega)]
  rfl

theorem keptPort_of_abs_lt {port : ℤ} (h : |port| < 2 ^ 53) : KeptPort (some port) := by
  intro z hz
  cases hz
  obtain ⟨v, hv, hnearest, -⟩ := exists_ofRat_intCast (z := port) (by omega)
  rw [Binary64.nearest_intCast h] at hnearest
  have hrange := abs_lt.mp h
  refine ⟨?_, by omega⟩
  rw [written, hv, toFinite, Option.bind_some, integerLiteral_of_abs_lt hnearest h]

/-! ## Saving what has been loaded -/

attribute [ext] Core.NewConnection

/-- The texts of a draft that `texts` has of settings. -/
def draftTexts (draft : ConnectionDraft) : List String :=
  [draft.saslUsername, draft.saslPassword, draft.saslOauthUrl, draft.schemaRegistryEndpoint,
    draft.schemaRegistryBasicAuthCredentials, draft.schemaRegistryTrustStoreLocation,
    draft.schemaRegistryTrustStorePassword, draft.schemaRegistryKeystoreLocation,
    draft.schemaRegistryKeystorePassword, draft.schemaRegistryKeystoreKeyPassword,
    draft.sslTruststoreLocation, draft.sslTruststorePassword, draft.sslKeystoreLocation,
    draft.sslKeystorePassword, draft.sslKeystoreKeyPassword]

/-- The three settings of Zookeeper, as they are saved. -/
def SavesZookeeper (draft : ConnectionDraft) (c : Core.NewConnection) : Prop :=
  if draft.zookeeperEnabled then
    nullableTrim draft.zookeeperHost = c.zookeeperHost ∧
      receivePort (formPort draft.zookeeperPort) = some c.zookeeperPort ∧
      nullableTrim draft.zookeeperChrootPath = c.zookeeperChrootPath
  else c.zookeeperHost = none ∧ c.zookeeperPort = none ∧ c.zookeeperChrootPath = none

/-- **What is saved of a draft**, in groups. -/
theorem save_eq_some_iff {draft : ConnectionDraft} {c : Core.NewConnection} : save draft = some c ↔
    (jsTrim draft.name = c.name ∧ jsTrim draft.bootstrapServers = c.bootstrapServers) ∧
      (draft.kafkaVersion = c.kafkaVersion ∧ draft.zookeeperEnabled = c.zookeeperEnabled ∧
        draft.securityProtocol = c.securityProtocol ∧ draft.saslMechanism = c.saslMechanism ∧
        draft.allowPublishing = c.allowPublishing) ∧
      (draftTexts draft).map nullableTrim = texts c ∧ SavesZookeeper draft c := by
  rw [save, NewConnection.receive, Option.map_eq_some_iff]
  simp only [Core.NewConnection.ext_iff, toNewConnection, texts, draftTexts, List.map_cons, List.map_nil,
    List.cons.injEq, SavesZookeeper]
  cases draft.zookeeperEnabled with
  | true =>
    simp only [Bool.true_and, if_true, formPort]
    grind
  | false =>
    simp only [Bool.false_and, Bool.false_eq_true, if_false, receivePort, Option.some.injEq]
    grind

/-- Saving a connection as it was loaded changes nothing exactly if it is normal. -/
theorem save_connectionToDraft_iff (connection : Connection) :
    save (connectionToDraft connection) = some connection.toNewConnection ↔
      Normal connection.toNewConnection := by
  have htexts : (draftTexts (connectionToDraft connection)).map nullableTrim = texts connection.toNewConnection ↔
      ∀ text ∈ texts connection.toNewConnection, Kept text := by
    have hloaded : draftTexts (connectionToDraft connection) =
        (texts connection.toNewConnection).map fun text => text.getD "" := by
      simp only [draftTexts, connectionToDraft, texts, List.map_cons, List.map_nil]
    rw [hloaded, map_nullableTrim_iff]
  have hzookeeper : SavesZookeeper (connectionToDraft connection) connection.toNewConnection ↔
      if connection.zookeeperEnabled then Kept connection.zookeeperHost ∧ KeptPort connection.zookeeperPort ∧
        Kept connection.zookeeperChrootPath
      else connection.zookeeperHost = none ∧ connection.zookeeperPort = none ∧
        connection.zookeeperChrootPath = none := by
    have hloaded : (connectionToDraft connection).zookeeperEnabled = connection.zookeeperEnabled := rfl
    unfold SavesZookeeper
    by_cases henabled : connection.zookeeperEnabled = true
    · rw [if_pos henabled, if_pos (hloaded.trans henabled)]
      exact and_congr (nullableTrim_getD_iff _) (and_congr (receivePort_iff _) (nullableTrim_getD_iff _))
    · rw [if_neg henabled, if_neg (hloaded ▸ henabled)]
  rw [save_eq_some_iff, htexts, hzookeeper]
  exact ⟨fun ⟨⟨hname, hservers⟩, _, hkept, hzoo⟩ => ⟨hname, hservers, hkept, hzoo⟩,
    fun h => ⟨⟨h.name, h.bootstrapServers⟩, ⟨rfl, rfl, rfl, rfl, rfl⟩, h.texts, h.zookeeper⟩⟩

theorem keptPort_of_receivePort {number? : Option JsNumber} {port : Option ℤ}
    (h : receivePort number? = some port) : KeptPort port := by
  intro z hz
  cases hz
  unfold receivePort at h
  split at h
  · rename_i v
    obtain ⟨k, hk, hsome⟩ := Option.map_eq_some_iff.mp h
    cases hsome
    obtain ⟨hliteral, hrange⟩ := Option.filter_eq_some_iff.mp hk
    refine ⟨?_, of_decide_eq_true hrange⟩
    rw [written, ofRat_of_integerLiteral hliteral]
    exact hliteral
  · cases h

theorem normal_of_save {draft : ConnectionDraft} {c : Core.NewConnection} (h : save draft = some c) : Normal c := by
  obtain ⟨⟨hname, hservers⟩, ⟨-, henabled, -⟩, htexts, hzookeeper⟩ := save_eq_some_iff.mp h
  refine ⟨?_, ?_, ?_, ?_⟩
  · rw [← hname]
    exact trimWhere_trimWhere _ draft.name
  · rw [← hservers]
    exact trimWhere_trimWhere _ draft.bootstrapServers
  · rw [← htexts]
    exact List.forall_mem_map.mpr fun text _ => kept_nullableTrim text
  · rw [SavesZookeeper, henabled] at hzookeeper
    split_ifs at hzookeeper ⊢
    · obtain ⟨hhost, hport, hchroot⟩ := hzookeeper
      rw [← hhost, ← hchroot]
      exact ⟨kept_nullableTrim _, keptPort_of_receivePort hport, kept_nullableTrim _⟩
    · exact hzookeeper

theorem validateDraft_eq_none_iff {draft : ConnectionDraft} : validateDraft draft = none ↔
    isBlank draft.name = false ∧ isBlank draft.bootstrapServers = false ∧
      (draft.zookeeperEnabled = true → isBlank draft.zookeeperHost = false ∧ isBlank draft.zookeeperPort = false) := by
  unfold validateDraft
  split_ifs <;> simp_all

theorem isBlank_jsTrim (text : String) : isBlank (jsTrim text) = isBlank text :=
  congrArg String.isEmpty (trimWhere_trimWhere _ text)

/-- A text that is not blank is loaded as it was saved, without the blanks around it. -/
theorem isBlank_nullableTrim {text : String} (h : isBlank text = false) :
    isBlank ((nullableTrim text).getD "") = false := by
  have hsome : nullableTrim text = some (jsTrim text) := if_neg (ne_true_of_eq_false h)
  rw [hsome, Option.getD_some, isBlank_jsTrim, h]

/-- **A draft that has been accepted and saved** is accepted when it is loaded again, if its port is a number. -/
theorem validateDraft_of_save {draft : ConnectionDraft} {connection : Connection}
    (hvalid : validateDraft draft = none) (h : save draft = some connection.toNewConnection)
    (hport : draft.zookeeperEnabled = true → (number draft.zookeeperPort).toFinite ≠ none) :
    validateDraft (connectionToDraft connection) = none := by
  obtain ⟨⟨hname, hservers⟩, ⟨-, henabled, -⟩, -, hzookeeper⟩ := save_eq_some_iff.mp h
  obtain ⟨hnamed, hserved, hfields⟩ := validateDraft_eq_none_iff.mp hvalid
  refine validateDraft_eq_none_iff.mpr ⟨?_, ?_, fun hloaded => ?_⟩
  · change isBlank connection.name = false
    rw [← hname, isBlank_jsTrim, hnamed]
  · change isBlank connection.bootstrapServers = false
    rw [← hservers, isBlank_jsTrim, hserved]
  · have hon : draft.zookeeperEnabled = true := henabled.trans hloaded
    obtain ⟨hhost, hnotBlank⟩ := hfields hon
    rw [SavesZookeeper, if_pos hon] at hzookeeper
    constructor
    · change isBlank (connection.zookeeperHost.getD "") = false
      rw [← hzookeeper.1]
      exact isBlank_nullableTrim hhost
    · -- the number has been written as an integer, which is no blank text
      have hkept := keptPort_of_receivePort hzookeeper.2.1
      have hsaved := hzookeeper.2.1
      rw [formPort, hnotBlank] at hsaved
      cases hnumber : number draft.zookeeperPort with
      | finite v =>
        rw [hnumber] at hsaved
        obtain ⟨k, -, hk⟩ := Option.map_eq_some_iff.mp hsaved
        change isBlank ((connection.zookeeperPort.map portText).getD "") = false
        rw [← hk, Option.map_some, Option.getD_some, portText, (hkept k hk.symm).1]
        exact isBlank_toString k
      | nan => exact absurd (by rw [hnumber]; rfl) (hport hon)
      | infinity negative => exact absurd (by rw [hnumber]; rfl) (hport hon)

/-- **Saving an unedited connection.** What has been saved of a draft is saved again as it is, and its draft is
accepted again if the port was a number. What has been imported is saved as it is exactly if it is normal. -/
theorem save_connectionToDraft :
    (∀ (draft : ConnectionDraft) (connection : Connection), save draft = some connection.toNewConnection →
      save (connectionToDraft connection) = some connection.toNewConnection) ∧
    (∀ (portable : PortableConnection) (id now : String),
      save (connectionToDraft (importedRow portable id now)) = some portable.toNewConnection ↔
        Normal portable.toNewConnection) ∧
    ∀ (draft : ConnectionDraft) (connection : Connection), validateDraft draft = none →
      save draft = some connection.toNewConnection →
      (draft.zookeeperEnabled = true → (number draft.zookeeperPort).toFinite ≠ none) →
      validateDraft (connectionToDraft connection) = none :=
  ⟨fun _ connection h => (save_connectionToDraft_iff connection).mpr (normal_of_save h),
    fun portable id now => save_connectionToDraft_iff (importedRow portable id now),
    fun _ _ => validateDraft_of_save⟩

/-- An imported connection whose Zookeeper is not enabled but has a host. -/
def hiddenHost : PortableConnection where
  name := "Local"
  bootstrapServers := "localhost:9092"
  kafkaVersion := "2.8"
  zookeeperHost := some "zk.local"

/-- What is saved of a draft whose port is no number. -/
def withoutPort : Connection where
  id := "conn-1"
  createdAt := "2026-08-18T00:00:00Z"
  updatedAt := "2026-08-18T00:00:00Z"
  name := "Local"
  bootstrapServers := "localhost:9092"
  kafkaVersion := "2.8"
  zookeeperEnabled := true
  zookeeperHost := some "zk.local"

/-- The host is erased, and the draft without a port is not accepted. -/
theorem hiddenHost_not_saved :
    ¬ (∀ (portable : PortableConnection) (id now : String),
        save (connectionToDraft (importedRow portable id now)) = some portable.toNewConnection) ∧
    ¬ ∀ (draft : ConnectionDraft) (connection : Connection), validateDraft draft = none →
        save draft = some connection.toNewConnection → validateDraft (connectionToDraft connection) = none := by
  constructor
  · intro h
    have hsame := h hiddenHost "conn-1" "2026-08-18T00:00:00Z"
    revert hsame
    decide +kernel
  · intro h
    have hvalid := h { connectionToDraft withoutPort with zookeeperPort := "port" } withoutPort
      (by decide +kernel) (by decide +kernel)
    revert hvalid
    decide +kernel

end OffsetExplorer.ConnectionModal
