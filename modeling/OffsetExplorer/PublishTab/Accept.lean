import OffsetExplorer.PublishTab.Draft
import OffsetExplorer.Publish.Batch
import OffsetExplorer.Lib.Base64
import OffsetExplorer.Lib.Json

/-!
# What the tab and the back end accept

Both inspect a batch, with decoders of their own. The tab's are the wider ones, it trims other blanks, and
it does not add the messages up.

* `Documented`: the four decoders, as their documentation has them.
* `Field.agrees`, `Batch.agrees`: the batches that both take.
* **`batch_accepted_iff`**: of the batches that the tab takes, the back end takes these.
-/

namespace OffsetExplorer.PublishTab

/-- The decoders of the web view and those of the back end. Its JSON parser nests at most 127 deep, takes
no number that `overflows` and no half of a surrogate pair. -/
structure Documented (browser : Browser) (decoders : Decoders) (overflows : List Char → Bool) : Prop where
  parsesJson : ∀ text, browser.parsesJson text = (Json.parse text.toList).isSome
  atobLength : ∀ text,
    browser.atobLength text = (Base64.decodeForgiving text.toList).map List.length
  json : ∀ text, decoders.json text = .ok () ↔
    ∃ content, Json.parse text.toList = some content ∧ content.Within 127 overflows
  base64 : ∀ text bytes, decoders.base64 text = .ok bytes ↔
    Base64.decodeCanonical text.toList = some bytes

/-- A field that the back end takes if the tab does. -/
structure FieldAgrees (overflows : List Char → Bool) (field : PublishField) : Prop where
  json : field.encoding = .json →
    ∀ content, Json.parse field.text.toList = some content → content.Within 127 overflows
  base64 : field.encoding = .base64 →
    rustTrim field.text = jsTrim field.text ∧ Base64.Canonical (jsTrim field.text).toList

/-- The tab and the back end agree on a header. -/
structure HeaderAgrees (overflows : List Char → Bool) (header : DraftHeader) : Prop where
  name : (rustTrim header.key).isEmpty = false
  value : FieldAgrees overflows header.value

/-- The tab and the back end agree on a message. -/
structure MessageAgrees (overflows : List Char → Bool) (message : DraftMessage) : Prop where
  key : FieldAgrees overflows message.key
  value : FieldAgrees overflows message.value
  headers : ∀ header ∈ message.headers, HeaderAgrees overflows header

/-- `batchByteLength`. -/
def batchByteLength (browser : Browser) (messages : List DraftMessage) : ℕ :=
  messages.foldl (fun total message => total + messageByteLength browser message) 0

variable {browser : Browser} {decoders : Decoders} {overflows : List Char → Bool}

/-! ## Fields -/

theorem eq_ofNat {c : Char} {n : ℕ} (h : c.toNat = n) : c = Char.ofNat n := by
  rw [← h, Char.ofNat_toNat]

theorem decodeForgiving_of_nel {text : String} (hnel : Char.ofNat 0x85 ∈ text.toList) :
    Base64.decodeForgiving (jsTrim text).toList = none := by
  cases hdecode : Base64.decodeForgiving (jsTrim text).toList with
  | none => rfl
  | some b =>
    rcases Base64.symbol_of_decodeForgiving hdecode (mem_trimWhere hnel (by decide)) with
      hblank | heq | ⟨value, hvalue⟩
    · exact absurd hblank (by decide)
    · exact absurd heq (by decide)
    · exact absurd hvalue (by rw [show Base64.sextet (Char.ofNat 0x85) = none by decide]; simp)

/-- The back end takes no text with a byte order mark, so that one without U+0085 is trimmed alike. -/
theorem rustTrim_eq_jsTrim {text : String} {b : List UInt8}
    (h : Base64.decodeCanonical (rustTrim text).toList = some b)
    (hnel : Char.ofNat 0x85 ∉ text.toList) : rustTrim text = jsTrim text := by
  have hbom : Char.ofNat 0xFEFF ∉ text.toList := by
    intro hc
    rcases Base64.symbol_of_decodeCanonical h (mem_trimWhere hc (by decide)) with heq | ⟨value, hvalue⟩
    · exact absurd heq (by decide)
    · exact absurd hvalue (by rw [show Base64.sextet (Char.ofNat 0xFEFF) = none by decide]; simp)
  refine trimWhere_congr fun c hc => ?_
  have hne : ∀ {n}, Char.ofNat n ∉ text.toList → c.toNat ≠ n := fun hn hcode => hn (eq_ofNat hcode ▸ hc)
  simp [hne hbom, hne hnel]

theorem decodeCanonical_rustTrim {text : String} {bytes b : List UInt8}
    (h : Base64.decodeForgiving (jsTrim text).toList = some bytes) :
    Base64.decodeCanonical (rustTrim text).toList = some b ↔
      b = bytes ∧ rustTrim text = jsTrim text ∧ Base64.Canonical (jsTrim text).toList := by
  constructor
  · intro hcanonical
    have hnel : Char.ofNat 0x85 ∉ text.toList := fun hmem => by
      rw [decodeForgiving_of_nel hmem] at h
      cases h
    have htrim := rustTrim_eq_jsTrim hcanonical hnel
    rw [htrim] at hcanonical
    have hclass := Base64.canonical_of_decodeCanonical hcanonical
    rw [← Base64.decodeForgiving_of_canonical hclass, h] at hcanonical
    exact ⟨(Option.some.inj hcanonical).symm, htrim, hclass⟩
  · rintro ⟨rfl, htrim, hclass⟩
    rw [htrim]
    exact (Base64.decodeCanonical_iff h).mpr hclass

theorem exists_decodeForgiving (hdoc : Documented browser decoders overflows) {text : String}
    (h : (decodeBase64 browser text).isSome = true) :
    ∃ bytes, Base64.decodeForgiving (jsTrim text).toList = some bytes ∧
      (decodeBase64 browser text).getD 0 = bytes.length := by
  unfold decodeBase64 at h ⊢
  simp only at h ⊢
  split_ifs at h ⊢ with hempty
  · refine ⟨[], ?_, rfl⟩
    rw [String.isEmpty_iff.mp hempty]
    decide
  · rw [hdoc.atobLength] at h ⊢
    obtain ⟨bytes, hbytes⟩ := Option.isSome_iff_exists.mp (Option.isSome_map .. ▸ h)
    exact ⟨bytes, hbytes, by rw [hbytes]; rfl⟩

/-- **A field that the tab takes.** The back end takes it exactly if it agrees, and then for as many
bytes. -/
theorem fieldBytes_iff_agrees (hdoc : Documented browser decoders overflows) {field : PublishField}
    {what : String} (htab : fieldProblem browser field what = none) :
    ((∃ bytes, FieldBytes decoders field bytes) ↔ FieldAgrees overflows field) ∧
      ∀ bytes, FieldBytes decoders field bytes →
        (bytes.map List.length).getD 0 = encodedByteLength browser field := by
  unfold fieldProblem at htab
  unfold encodedByteLength
  simp only [← fieldBytes_iff "", encodeField]
  cases hencoding : field.encoding with
  | null =>
    refine ⟨iff_of_true ⟨none, rfl⟩ ⟨?_, ?_⟩, ?_⟩
    · simp [hencoding]
    · simp [hencoding]
    · rintro bytes ⟨⟩
      rfl
  | text =>
    refine ⟨iff_of_true ⟨_, rfl⟩ ⟨?_, ?_⟩, ?_⟩
    · simp [hencoding]
    · simp [hencoding]
    · rintro bytes ⟨⟩
      exact length_toUTF8 _
  | json =>
    simp only [hencoding] at htab
    split_ifs at htab with hempty hparses
    rw [hdoc.parsesJson] at hparses
    obtain ⟨content, hcontent⟩ := Option.isSome_iff_exists.mp hparses
    cases hjson : decoders.json field.text with
    | error err =>
      refine ⟨iff_of_false (by simp) fun h => ?_, by simp⟩
      have hok := (hdoc.json _).mpr ⟨content, hcontent, h.json hencoding content hcontent⟩
      rw [hjson] at hok
      cases hok
    | ok _ =>
      refine ⟨iff_of_true ⟨_, rfl⟩ ⟨fun _ content' hcontent' => ?_, ?_⟩, ?_⟩
      · obtain ⟨content'', hcontent'', hwithin⟩ := (hdoc.json _).mp hjson
        rw [hcontent'] at hcontent''
        cases hcontent''
        exact hwithin
      · exact fun h => nomatch hencoding.symm.trans h
      · rintro bytes ⟨⟩
        exact length_toUTF8 _
  | base64 =>
    simp only [hencoding] at htab
    split_ifs at htab with hnone
    obtain ⟨b, hb, hlength⟩ := exists_decodeForgiving hdoc
      (Option.isSome_iff_ne_none.mpr fun h => hnone (Option.isNone_iff_eq_none.mpr h))
    have htake := fun b' => (hdoc.base64 (rustTrim field.text) b').trans (decodeCanonical_rustTrim hb)
    cases hbase64 : decoders.base64 (rustTrim field.text) with
    | error err =>
      refine ⟨iff_of_false (by simp) fun h => ?_, by simp⟩
      have hok := (htake b).mpr ⟨rfl, h.base64 hencoding⟩
      rw [hbase64] at hok
      cases hok
    | ok b' =>
      obtain ⟨rfl, hagrees⟩ := (htake b').mp hbase64
      refine ⟨iff_of_true ⟨_, rfl⟩ ⟨?_, fun _ => hagrees⟩, ?_⟩
      · exact fun h => nomatch hencoding.symm.trans h
      · rintro bytes ⟨⟩
        exact hlength.symm

/-! ## Messages -/

theorem exists_forall₂_iff {α β : Type} {R : α → β → Prop} {l : List α} :
    (∃ l', List.Forall₂ R l l') ↔ ∀ a ∈ l, ∃ b, R a b := by
  induction l with
  | nil => exact iff_of_true ⟨[], .nil⟩ fun a h => absurd h List.not_mem_nil
  | cons a l ih =>
    rw [List.forall_mem_cons, ← ih]
    constructor
    · rintro ⟨l', h⟩
      cases h with
      | cons hab htail => exact ⟨⟨_, hab⟩, _, htail⟩
    · rintro ⟨⟨b, hab⟩, l', htail⟩
      exact ⟨b :: l', .cons hab htail⟩

theorem exists_of_mem_right {α β : Type} {R : α → β → Prop} {l : List α} {l' : List β} {b : β}
    (h : List.Forall₂ R l l') (hb : b ∈ l') : ∃ a ∈ l, R a b := by
  induction h with
  | nil => cases hb
  | cons hab htail ih =>
    rcases List.mem_cons.mp hb with rfl | hb
    · exact ⟨_, List.mem_cons_self, hab⟩
    · obtain ⟨a, ha, hab⟩ := ih hb
      exact ⟨a, List.mem_cons_of_mem _ ha, hab⟩

/-- A header as it is sent. -/
def DraftHeader.toWire (header : DraftHeader) : PublishHeaderInput :=
  { key := header.key, value := header.value }

/-- A message as it is sent. -/
def DraftMessage.toWire (message : DraftMessage) : NewPublishMessage :=
  { key := message.key, value := message.value, headers := message.headers.map DraftHeader.toWire }

theorem headerBytes_iff_agrees (hdoc : Documented browser decoders overflows) {header : DraftHeader}
    (htab : headerProblem browser header = none) :
    ((∃ encoded, HeaderBytes decoders header.toWire encoded) ↔ HeaderAgrees overflows header) ∧
      ∀ encoded, HeaderBytes decoders header.toWire encoded →
        encoded.1.utf8ByteSize + (encoded.2.map List.length).getD 0 =
          header.key.utf8ByteSize + encodedByteLength browser header.value := by
  unfold headerProblem at htab
  split_ifs at htab with hname
  obtain ⟨hiff, hlength⟩ := fieldBytes_iff_agrees hdoc htab
  refine ⟨⟨?_, fun h => ?_⟩, ?_⟩
  · rintro ⟨encoded, hname, -, hvalue⟩
    exact ⟨hname, hiff.mp ⟨_, hvalue⟩⟩
  · obtain ⟨bytes, hbytes⟩ := hiff.mpr h.value
    exact ⟨(header.key, bytes), h.name, rfl, hbytes⟩
  · rintro ⟨name, bytes⟩ ⟨-, rfl, hvalue⟩
    rw [hlength bytes hvalue]
    rfl

/-- What the tab has found of a message that it takes. -/
structure Taken (browser : Browser) (maxMessageSizeBytes : ℕ) (message : DraftMessage) : Prop where
  key : fieldProblem browser message.key "Key" = none
  value : fieldProblem browser message.value "Value" = none
  headers : ∀ header ∈ message.headers, headerProblem browser header = none
  size : messageByteLength browser message ≤ maxMessageSizeBytes

theorem taken_of_messageProblem {message : DraftMessage} {maxMessageSizeBytes : ℕ}
    (h : messageProblem browser message maxMessageSizeBytes = none) :
    Taken browser maxMessageSizeBytes message := by
  simp only [messageProblem, Option.orElse_eq_orElse, Option.orElse_eq_or, Option.or_eq_none_iff,
    List.findSome?_eq_none_iff, ite_eq_right_iff, reduceCtorEq, imp_false, Nat.not_lt] at h
  exact ⟨h.1, h.2.1, h.2.2.1, h.2.2.2⟩

theorem foldl_headers {headers : List DraftHeader} {encoded : List (String × Option (List UInt8))}
    (h : List.Forall₂ (HeaderBytes decoders) (headers.map DraftHeader.toWire) encoded)
    (hlength : ∀ header ∈ headers, ∀ e, HeaderBytes decoders header.toWire e →
      e.1.utf8ByteSize + (e.2.map List.length).getD 0 =
        header.key.utf8ByteSize + encodedByteLength browser header.value) (total : ℕ) :
    encoded.foldl (fun total e =>
        total + (e.1.utf8ByteSize + (e.2.map List.length).getD 0)) total =
      headers.foldl (fun total header =>
        total + header.key.utf8ByteSize + encodedByteLength browser header.value) total := by
  induction headers generalizing encoded total with
  | nil => cases h; rfl
  | cons header rest ih =>
    cases h with
    | cons hhead htail =>
      obtain ⟨hfirst, hrest⟩ := List.forall_mem_cons.mp hlength
      rw [List.foldl_cons, List.foldl_cons, hfirst _ hhead, ← Nat.add_assoc]
      exact ih htail hrest _

/-- **A message that the tab takes.** -/
theorem encodes_iff_agrees (hdoc : Documented browser decoders overflows) {message : DraftMessage}
    {maxMessageSizeBytes : ℕ} (htab : Taken browser maxMessageSizeBytes message) :
    ((∃ record, Encodes decoders message.toWire record) ↔ MessageAgrees overflows message) ∧
      ∀ record, Encodes decoders message.toWire record →
        record.sizeBytes = messageByteLength browser message := by
  obtain ⟨hkey, hkeyLength⟩ := fieldBytes_iff_agrees hdoc htab.key
  obtain ⟨hvalue, hvalueLength⟩ := fieldBytes_iff_agrees hdoc htab.value
  have hheaders := fun header (h : header ∈ message.headers) =>
    headerBytes_iff_agrees hdoc (htab.headers header h)
  have hall : (∃ encoded, List.Forall₂ (HeaderBytes decoders) message.toWire.headers encoded) ↔
      ∀ header ∈ message.headers, HeaderAgrees overflows header := by
    rw [exists_forall₂_iff, DraftMessage.toWire, List.forall_mem_map]
    exact forall₂_congr fun header h => (hheaders header h).1
  refine ⟨⟨?_, fun h => ?_⟩, fun record h => ?_⟩
  · rintro ⟨record, h⟩
    exact ⟨hkey.mp ⟨_, h.key⟩, hvalue.mp ⟨_, h.value⟩, hall.mp ⟨_, h.headers⟩⟩
  · obtain ⟨key, hk⟩ := hkey.mpr h.key
    obtain ⟨value, hv⟩ := hvalue.mpr h.value
    obtain ⟨headers, hh⟩ := hall.mpr h.headers
    exact ⟨⟨key, value, headers⟩, hk, hv, hh⟩
  · rw [EncodedRecord.sizeBytes, messageByteLength]
    show (record.key.map List.length).getD 0 + (record.value.map List.length).getD 0 + _ = _
    rw [hkeyLength _ h.key, hvalueLength _ h.value]
    exact congrArg _ (foldl_headers h.headers (fun header hh => (hheaders header hh).2) 0)

/-! ## Batches -/

theorem batchBytes_eq {messages : List DraftMessage} {records : List EncodedRecord}
    (h : List.Forall₂ (Encodes decoders) (messages.map DraftMessage.toWire) records)
    (hsize : ∀ message ∈ messages, ∀ record, Encodes decoders message.toWire record →
      record.sizeBytes = messageByteLength browser message) (total : ℕ) :
    messages.foldl (fun total message => total + messageByteLength browser message) total =
      total + batchBytes records := by
  induction messages generalizing records total with
  | nil => cases h; rfl
  | cons message rest ih =>
    cases h with
    | cons hhead htail =>
      obtain ⟨hfirst, hrest⟩ := List.forall_mem_cons.mp hsize
      rw [List.foldl_cons, ih htail hrest, batchBytes, hfirst _ hhead, Nat.add_assoc]

theorem taken_of_batchProblem {messages : List DraftMessage} {maxMessageSizeBytes : ℕ}
    (h : batchProblem browser messages maxMessageSizeBytes = none) :
    messages ≠ [] ∧ messages.length ≤ maxPublishMessages ∧
      ∀ message ∈ messages, Taken browser maxMessageSizeBytes message := by
  unfold batchProblem at h
  split_ifs at h with hempty hcount
  refine ⟨fun heq => hempty (List.isEmpty_iff.mpr heq), Nat.not_lt.mp hcount, fun message hmem => ?_⟩
  obtain ⟨i, hi, rfl⟩ := List.getElem_of_mem hmem
  have hnone := List.findSome?_eq_none_iff.mp h (messages[i], i)
    (List.mk_mem_zipIdx_iff_getElem?.mpr (List.getElem?_eq_getElem hi))
  exact taken_of_messageProblem (Option.map_eq_none_iff.mp hnone)

/-- **What both accept.** Of the batches in which the tab finds no problem, the back end takes those of
which all messages agree and which are within the limit of a batch, and no others. -/
theorem batch_accepted_iff {browser : Browser} {decoders : Decoders} {overflows : List Char → Bool}
    (hdoc : Documented browser decoders overflows) {messages : List DraftMessage}
    {maxMessageSizeBytes : ℕ} (htab : batchProblem browser messages maxMessageSizeBytes = none) :
    (∃ records, encodeMessages decoders (toWireMessages messages)
      (.forMaxMessageSize maxMessageSizeBytes) = .ok records) ↔
      (∀ message ∈ messages, MessageAgrees overflows message) ∧
        batchByteLength browser messages ≤ maxPublishBatchBytes := by
  obtain ⟨hempty, hcount, htaken⟩ := taken_of_batchProblem htab
  have hmessage := fun message (h : message ∈ messages) => encodes_iff_agrees hdoc (htaken message h)
  have hall : (∃ records, List.Forall₂ (Encodes decoders) (toWireMessages messages) records) ↔
      ∀ message ∈ messages, MessageAgrees overflows message := by
    rw [exists_forall₂_iff, toWireMessages, List.forall_mem_map]
    exact forall₂_congr fun message h => (hmessage message h).1
  have htotal : ∀ records, List.Forall₂ (Encodes decoders) (toWireMessages messages) records →
      batchByteLength browser messages = batchBytes records := fun records h => by
    rw [batchByteLength, batchBytes_eq h (fun message hm => (hmessage message hm).2), Nat.zero_add]
  rw [← hall]
  simp only [encodeMessages_eq_ok]
  constructor
  · rintro ⟨records, h⟩
    exact ⟨⟨records, h.encodes⟩, htotal records h.encodes ▸ h.total⟩
  · rintro ⟨⟨records, hencodes⟩, hlimit⟩
    refine ⟨records, ?_, ?_, hencodes, ?_, htotal records hencodes ▸ hlimit⟩
    · simpa [toWireMessages] using hempty
    · rw [toWireMessages, List.length_map]
      exact hcount
    · intro record hrecord
      obtain ⟨wire, hwire, h⟩ := exists_of_mem_right hencodes hrecord
      obtain ⟨message, hm, rfl⟩ := List.mem_map.mp hwire
      rw [(hmessage message hm).2 record h]
      exact (htaken message hm).size

/-! ## A text without its padding -/

/-- A web view with the documented decoders. -/
def webView : Browser where
  parsesJson text := (Json.parse text.toList).isSome
  atobLength text := (Base64.decodeForgiving text.toList).map List.length
  toLocaleString n := s!"{n}"

/-- A back end with the documented decoders. -/
def backEnd (overflows : List Char → Bool) : Decoders where
  json text :=
    if ∃ content ∈ Json.parse text.toList, content.Within 127 overflows then .ok ()
    else .error "not JSON, or over a limit"
  base64 text :=
    match Base64.decodeCanonical text.toList with
    | some bytes => .ok bytes
    | none => .error "not base64"

theorem documented (overflows : List Char → Bool) :
    Documented webView (backEnd overflows) overflows where
  parsesJson _ := rfl
  atobLength _ := rfl
  json text := by
    simp only [backEnd]
    split_ifs with h
    · exact iff_of_true rfl h
    · exact iff_of_false (nomatch ·) h
  base64 text bytes := by
    simp only [backEnd]
    cases Base64.decodeCanonical text.toList <;> simp

/-- A message whose value is entered in base64. -/
def base64Message (text : String) : DraftMessage where
  id := "message-1"
  key := { encoding := .null }
  value := { encoding := .base64, text }
  headers := []

theorem batch_accepted_padded : ∃ records,
    encodeMessages (backEnd fun _ => false) (toWireMessages [base64Message "YQ=="])
      (.forMaxMessageSize 1000) = .ok records := by
  refine (batch_accepted_iff (documented fun _ => false) (by decide +kernel)).mpr ⟨?_, by decide +kernel⟩
  intro message hm
  cases List.mem_singleton.mp hm
  refine ⟨⟨nofun, nofun⟩, ⟨nofun, fun _ => ⟨by decide +kernel, ?_⟩⟩, nofun⟩
  exact Base64.canonical_of_decodeCanonical (b := [97]) (by decide +kernel)

/-- **The tab takes a text that the back end refuses**: base64 without its padding. -/
theorem unpadded_refused :
    batchProblem webView [base64Message "YQ"] 1000 = none ∧
      ∀ records, encodeMessages (backEnd fun _ => false) (toWireMessages [base64Message "YQ"])
        (.forMaxMessageSize 1000) ≠ .ok records := by
  refine ⟨by decide +kernel, fun records h => ?_⟩
  have hrefused : encodeMessages (backEnd fun _ => false) (toWireMessages [base64Message "YQ"])
      (.forMaxMessageSize 1000) =
        .error (invalid "the value of message 1 is not valid base64: not base64") := by
    decide +kernel
  rw [hrefused] at h
  cases h

end OffsetExplorer.PublishTab
