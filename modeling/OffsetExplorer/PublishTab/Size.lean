import OffsetExplorer.PublishTab.Accept
import OffsetExplorer.Lib.MapM
import OffsetExplorer.Lib.Utf16
import Mathlib.Data.List.TakeWhile

/-!
# The size that the tab shows

The tab counts the bytes of a message from its texts, which are UTF-16 code units that need not pair up.
What arrives at the back end is decoded from these, and measured as a record.

* `JsMessage`, `messageByteLength`: a draft with its texts as the web view has them, and the size shown.
* `Ipc`, `JsMessage.send`: how a draft comes to the back end.
* `Misread`: a base64 text with a character around it that the back end trims and the tab does not.
* **`shown_size_iff`**: of the messages that are accepted, these are shown in another size.
-/

namespace OffsetExplorer.PublishTab.CodeUnits

open Utf16

/-! ## What the tab counts -/

/-- A text of the web view. -/
abbrev JsString := List UInt16

/-- A field whose text is one of JavaScript, which need not be well formed. -/
structure JsField where
  encoding : PayloadEncoding
  text : JsString

/-- A header with such texts. -/
structure JsHeader where
  key : JsString
  value : JsField

/-- A row of the editor, as far as its size goes. -/
structure JsMessage where
  key : JsField
  value : JsField
  headers : List JsHeader

/-- The blanks of `String.prototype.trim`, none of which is half a surrogate pair. -/
def isJsBlank (c : Char) : Bool := isCommonBlank c || c.toNat = 0xFEFF

/-- `String.prototype.trim`, on code units. -/
def trim (text : JsString) : JsString :=
  ((text.dropWhile fun u => isJsBlank (unitChar u)).reverse.dropWhile fun u =>
    isJsBlank (unitChar u)).reverse

/-- `new TextEncoder().encode(text).length`; a lone half of a pair is encoded as U+FFFD. -/
def textEncoderLength (text : JsString) : ℕ := (String.ofList (decodeLossy text)).utf8ByteSize

section Length

variable (atobLength : JsString → Option ℕ)

/-- How many bytes the browser reads, if it can read the text. -/
def decodeBase64 (text : JsString) : Option ℕ :=
  let trimmed := trim text
  if trimmed.isEmpty then some 0 else atobLength trimmed

/-- How many bytes a field will take. -/
def encodedByteLength (field : JsField) : ℕ :=
  match field.encoding with
  | .null => 0
  | .base64 => (decodeBase64 atobLength field.text).getD 0
  | _ => textEncoderLength field.text

/-- How many bytes a message will take. -/
def messageByteLength (message : JsMessage) : ℕ :=
  let headers := message.headers.foldl
    (fun total header => total + textEncoderLength header.key + encodedByteLength atobLength header.value) 0
  encodedByteLength atobLength message.key + encodedByteLength atobLength message.value + headers

end Length

/-! ## What arrives -/

/-- What a text arrives as, where it does: without lone halves it arrives as it is, with one it is refused
or has U+FFFD in its place. -/
structure Ipc where
  deliver : JsString → Option String
  lossy : ∀ units text, deliver units = some text → text = String.ofList (decodeLossy units)

section Send

variable (ipc : Ipc)

/-- The field as it arrives in the back end. -/
def JsField.send (field : JsField) : Option PublishField :=
  (ipc.deliver field.text).map fun text => { encoding := field.encoding, text }

/-- The header as it arrives. -/
def JsHeader.send (header : JsHeader) : Option PublishHeaderInput := do
  let key ← ipc.deliver header.key
  let value ← header.value.send ipc
  return { key, value }

/-- The message as it arrives. -/
def JsMessage.send (message : JsMessage) : Option NewPublishMessage := do
  let key ← message.key.send ipc
  let value ← message.value.send ipc
  let headers ← message.headers.mapM (JsHeader.send ipc)
  return { key, value, headers }

end Send

/-- The decoders of both sides, as their documentation has them. -/
structure Documented (atobLength : JsString → Option ℕ) (decoders : Decoders) : Prop where
  atobLength : ∀ text,
    atobLength text = (Base64.decodeForgiving (text.map unitChar)).map List.length
  base64 : ∀ text bytes, decoders.base64 text = .ok bytes ↔
    Base64.decodeCanonical text.toList = some bytes

/-- The blanks of `str::trim`. -/
def isRustBlank (c : Char) : Bool := isCommonBlank c || c.toNat = 0x85

/-- Base64 with U+0085 around it: not all of the text is blank for the back end, which trims that one. -/
def JsField.Misread (field : JsField) : Prop :=
  field.encoding = .base64 ∧ 0x85 ∈ field.text ∧ ∃ u ∈ field.text, isRustBlank (unitChar u) = false

/-- The key, the value and the values of the headers. -/
def JsMessage.fields (message : JsMessage) : List JsField :=
  message.key :: message.value :: message.headers.map JsHeader.value

variable {atobLength : JsString → Option ℕ} {decoders : Decoders}

/-! ## One text -/

theorem map_trim (text : JsString) :
    (trim text).map unitChar = (jsTrim (String.ofList (text.map unitChar))).toList := by
  have hdrop : ∀ l : JsString, (l.dropWhile fun u => isJsBlank (unitChar u)).map unitChar =
      (l.map unitChar).dropWhile isJsBlank := by
    intro l
    rw [List.dropWhile_map]
    rfl
  rw [jsTrim, trimWhere, String.toList_ofList, String.toList_ofList, trim, List.map_reverse, hdrop,
    List.map_reverse, hdrop]
  rfl

theorem mem_rustTrim {text : String} {c : Char} (hc : c ∈ text.toList) (h : isRustBlank c = false) :
    c ∈ (rustTrim text).toList := mem_trimWhere hc h

theorem rustTrim_eq_empty {text : String} :
    rustTrim text = "" ↔ ∀ c ∈ text.toList, isRustBlank c = true := by
  constructor
  · intro h c hc
    by_contra hblank
    have hmem := mem_rustTrim hc (Bool.not_eq_true _ ▸ hblank)
    rw [h] at hmem
    cases hmem
  · intro h
    have hnone : text.toList.dropWhile isRustBlank = [] := List.dropWhile_eq_nil_iff.mpr h
    have htrim : rustTrim text =
        String.ofList ((text.toList.dropWhile isRustBlank).reverse.dropWhile isRustBlank).reverse := rfl
    rw [htrim, hnone]
    rfl

theorem char_of_accepted {text : String} {b : List UInt8}
    (h : Base64.decodeCanonical (rustTrim text).toList = some b) {c : Char} (hc : c ∈ text.toList) :
    isRustBlank c = true ∨ c = '=' ∨ ∃ value, Base64.sextet c = some value := by
  by_cases hblank : isRustBlank c = true
  · exact Or.inl hblank
  · exact Or.inr (Base64.symbol_of_decodeCanonical h (mem_rustTrim hc (Bool.not_eq_true _ ▸ hblank)))

theorem sextet_lt {c : Char} {value : ℕ} (h : Base64.sextet c = some value) : c.toNat < 128 := by
  unfold Base64.sextet at h
  split_ifs at h with h1 h2 h3 h4 h5
  · exact Nat.lt_of_le_of_lt (show c.toNat ≤ 90 from h1.2) (by decide)
  · exact Nat.lt_of_le_of_lt (show c.toNat ≤ 122 from h2.2) (by decide)
  · exact Nat.lt_of_le_of_lt (show c.toNat ≤ 57 from h3.2) (by decide)
  · rw [h4]
    decide
  · rw [h5]
    decide

theorem plain_of_lt {c : Char} (h : c.toNat < 0xFEFF) : Plain c := by
  refine ⟨by omega, ?_⟩
  rintro rfl
  exact absurd h (by decide)

theorem toNat_of_accepted {text : String} {b : List UInt8}
    (h : Base64.decodeCanonical (rustTrim text).toList = some b) {c : Char} (hc : c ∈ text.toList) :
    c.toNat < 0xFEFF := by
  rcases char_of_accepted h hc with hblank | rfl | ⟨value, hvalue⟩
  · simp only [isRustBlank, isCommonBlank, Bool.or_eq_true, Bool.and_eq_true, decide_eq_true_eq] at hblank
    omega
  · decide
  · have hlt := sextet_lt hvalue
    omega

theorem map_unitChar_of_accepted {units : JsString} {b : List UInt8}
    (h : Base64.decodeCanonical (rustTrim (String.ofList (decodeLossy units))).toList = some b) :
    units.map unitChar = decodeLossy units :=
  map_unitChar_of_decodeLossy fun c hc =>
    plain_of_lt (toNat_of_accepted h (by rw [String.toList_ofList]; exact hc))

theorem decodeForgiving_of_accepted {text : String} {b : List UInt8}
    (h : Base64.decodeCanonical (rustTrim text).toList = some b)
    (hnel : Char.ofNat 0x85 ∉ text.toList) :
    Base64.decodeForgiving (jsTrim text).toList = some b := by
  rw [rustTrim_eq_jsTrim h hnel] at h
  rw [Base64.decodeForgiving_of_canonical (Base64.canonical_of_decodeCanonical h), h]

/-! ## One field -/

/-- **A base64 field.** The tab shows its bytes, or none where it does not know the text for base64. -/
theorem size_base64 (hdoc : Documented atobLength decoders) {units : JsString} {b : List UInt8}
    (h : Base64.decodeCanonical (rustTrim (String.ofList (decodeLossy units))).toList = some b) :
    (decodeBase64 atobLength units).getD 0 ≤ b.length ∧
      ((decodeBase64 atobLength units).getD 0 = b.length ↔
        ¬ (0x85 ∈ units ∧ ∃ u ∈ units, isRustBlank (unitChar u) = false)) := by
  have hmap := map_unitChar_of_accepted h
  have htrim := map_trim units
  have hdecode : decodeBase64 atobLength units = if (trim units).isEmpty then some 0 else
      (Base64.decodeForgiving (jsTrim (String.ofList (units.map unitChar))).toList).map List.length := by
    rw [← htrim, ← hdoc.atobLength]
    rfl
  rw [← hmap] at h
  have hnel : 0x85 ∈ units ↔ Char.ofNat 0x85 ∈ (String.ofList (units.map unitChar)).toList := by
    rw [String.toList_ofList, List.mem_map]
    refine ⟨fun hmem => ⟨0x85, hmem, rfl⟩, ?_⟩
    rintro ⟨u, hu, hcode⟩
    have heq : u = 0x85 := (unitChar_eq_iff (by decide) (by decide)).mp hcode
    exact heq ▸ hu
  have hblank : (∃ u ∈ units, isRustBlank (unitChar u) = false) ↔
      rustTrim (String.ofList (units.map unitChar)) ≠ "" := by
    rw [Ne, rustTrim_eq_empty, String.toList_ofList, List.forall_mem_map]
    simp
  by_cases hmem : 0x85 ∈ units
  · -- the tab shows nothing
    have hshown : (decodeBase64 atobLength units).getD 0 = 0 := by
      rw [hdecode, decodeForgiving_of_nel (hnel.mp hmem)]
      split_ifs <;> rfl
    rw [hshown, hblank]
    refine ⟨Nat.zero_le _, ⟨fun hzero hmis => hmis.2 ?_, fun hmis => ?_⟩⟩
    · rw [List.length_eq_zero_iff.mp hzero.symm] at h
      exact String.toList_eq_nil_iff.mp (Base64.eq_nil_of_decodeCanonical h)
    · have hempty := not_not.mp fun hne => hmis ⟨hmem, hne⟩
      rw [hempty] at h
      cases h
      rfl
  · have hshown : (decodeBase64 atobLength units).getD 0 = b.length := by
      have hforgiving := decodeForgiving_of_accepted h fun hchar => hmem (hnel.mpr hchar)
      rw [hdecode]
      split_ifs with hempty
      · rw [List.isEmpty_iff] at hempty
        rw [← htrim, hempty] at hforgiving
        cases hforgiving
        rfl
      · rw [hforgiving]
        rfl
    exact ⟨Nat.le_of_eq hshown, iff_of_true hshown fun hmis => hmem hmis.1⟩

variable {ipc : Ipc}

theorem length_delivered {units : JsString} {text : String} (h : ipc.deliver units = some text) :
    text.utf8ByteSize = textEncoderLength units := by
  rw [ipc.lossy units text h]
  rfl

/-- **A field that is accepted** is shown in its size, unless it is misread, and then in a smaller one. -/
theorem size_field (hdoc : Documented atobLength decoders) {field : JsField} {arrived : PublishField}
    (hsend : field.send ipc = some arrived) {bytes : Option (List UInt8)}
    (h : FieldBytes decoders arrived bytes) :
    encodedByteLength atobLength field ≤ (bytes.map List.length).getD 0 ∧
      (encodedByteLength atobLength field = (bytes.map List.length).getD 0 ↔ ¬ field.Misread) := by
  obtain ⟨text, htext, rfl⟩ := Option.map_eq_some_iff.mp hsend
  have exact_of : field.encoding ≠ .base64 →
      encodedByteLength atobLength field = (bytes.map List.length).getD 0 →
      encodedByteLength atobLength field ≤ (bytes.map List.length).getD 0 ∧
        (encodedByteLength atobLength field = (bytes.map List.length).getD 0 ↔ ¬ field.Misread) :=
    fun hencoding hsize => ⟨Nat.le_of_eq hsize, iff_of_true hsize fun hmis => hencoding hmis.1⟩
  rw [← fieldBytes_iff ""] at h
  cases hencoding : field.encoding with
  | null =>
    simp only [encodeField, hencoding] at h
    cases h
    refine exact_of (by rw [hencoding]; decide) ?_
    simp only [encodedByteLength, hencoding]
    rfl
  | text =>
    simp only [encodeField, hencoding] at h
    cases h
    refine exact_of (by rw [hencoding]; decide) ?_
    simp only [encodedByteLength, hencoding]
    exact ((length_toUTF8 text).trans (length_delivered htext)).symm
  | json =>
    simp only [encodeField, hencoding] at h
    cases hjson : decoders.json text with
    | error err =>
      rw [hjson] at h
      cases h
    | ok _ =>
      rw [hjson] at h
      cases h
      refine exact_of (by rw [hencoding]; decide) ?_
      simp only [encodedByteLength, hencoding]
      exact ((length_toUTF8 text).trans (length_delivered htext)).symm
  | base64 =>
    simp only [encodeField, hencoding] at h
    cases hbase64 : decoders.base64 (rustTrim text) with
    | error err =>
      rw [hbase64] at h
      cases h
    | ok b =>
      rw [hbase64] at h
      cases h
      have hcanonical := (hdoc.base64 _ b).mp hbase64
      rw [ipc.lossy _ _ htext] at hcanonical
      have hsize := size_base64 hdoc hcanonical
      simp only [encodedByteLength, JsField.Misread, hencoding, true_and]
      exact hsize

/-! ## A message -/

theorem size_header (hdoc : Documented atobLength decoders) {header : JsHeader}
    {arrived : PublishHeaderInput} (hsend : header.send ipc = some arrived)
    {encoded : String × Option (List UInt8)} (h : HeaderBytes decoders arrived encoded) :
    textEncoderLength header.key + encodedByteLength atobLength header.value ≤
        encoded.1.utf8ByteSize + (encoded.2.map List.length).getD 0 ∧
      (textEncoderLength header.key + encodedByteLength atobLength header.value =
        encoded.1.utf8ByteSize + (encoded.2.map List.length).getD 0 ↔ ¬ header.value.Misread) := by
  obtain ⟨key, hkey, hsend⟩ := Option.bind_eq_some_iff.mp hsend
  obtain ⟨value, hvalue, hsend⟩ := Option.bind_eq_some_iff.mp hsend
  cases hsend
  obtain ⟨-, hname, hbytes⟩ := h
  have hsize := size_field hdoc hvalue hbytes
  rw [hname, length_delivered hkey]
  exact ⟨Nat.add_le_add_left hsize.1 _, by rw [Nat.add_left_cancel_iff, hsize.2]⟩

/-- Sums of which no term exceeds the other's are equal if and only if all terms are. -/
theorem size_headers (hdoc : Documented atobLength decoders) {headers : List JsHeader}
    {arrived : List PublishHeaderInput}
    (hsend : List.Forall₂ (fun header input => header.send ipc = some input) headers arrived)
    {encoded : List (String × Option (List UInt8))}
    (h : List.Forall₂ (HeaderBytes decoders) arrived encoded) {shown sent : ℕ} (hle : shown ≤ sent) :
    let shown' := headers.foldl (fun total header =>
      total + textEncoderLength header.key + encodedByteLength atobLength header.value) shown
    let sent' := encoded.foldl (fun total e =>
      total + (e.1.utf8ByteSize + (e.2.map List.length).getD 0)) sent
    shown' ≤ sent' ∧ (shown' = sent' ↔ shown = sent ∧ ∀ header ∈ headers, ¬ header.value.Misread) := by
  induction hsend generalizing encoded shown sent with
  | nil =>
    cases h
    simpa using hle
  | cons hfirst _ ih =>
    cases h with
    | cons hhead hrest =>
      obtain ⟨hbound, hiff⟩ := size_header hdoc hfirst hhead
      obtain ⟨hend, hends⟩ := ih hrest (Nat.add_le_add hle hbound)
      simp only [List.foldl_cons, Nat.add_assoc, List.forall_mem_cons] at hend hends ⊢
      refine ⟨hend, hends.trans ?_⟩
      rw [← hiff, ← and_assoc]
      refine and_congr_left fun _ => ?_
      omega

/-- **A message that is accepted.** -/
theorem size_message (hdoc : Documented atobLength decoders) {message : JsMessage}
    {arrived : NewPublishMessage} (hsend : message.send ipc = some arrived) {record : EncodedRecord}
    (h : Encodes decoders arrived record) :
    messageByteLength atobLength message = record.sizeBytes ↔
      ∀ field ∈ message.fields, ¬ field.Misread := by
  obtain ⟨key, hkey, hsend⟩ := Option.bind_eq_some_iff.mp hsend
  obtain ⟨value, hvalue, hsend⟩ := Option.bind_eq_some_iff.mp hsend
  obtain ⟨headers, hheaders, hsend⟩ := Option.bind_eq_some_iff.mp hsend
  cases hsend
  obtain ⟨hkeyLe, hkeyIff⟩ := size_field hdoc hkey h.key
  obtain ⟨hvalueLe, hvalueIff⟩ := size_field hdoc hvalue h.value
  obtain ⟨hheadersLe, hheadersIff⟩ := size_headers hdoc (MapM.mapM_eq_some_iff.mp hheaders) h.headers
    (Nat.le_refl 0)
  rw [JsMessage.fields, List.forall_mem_cons, List.forall_mem_cons, List.forall_mem_map, ← hkeyIff,
    ← hvalueIff, ← (hheadersIff.trans (and_iff_right rfl))]
  have hsent : record.sizeBytes = (record.key.map List.length).getD 0 +
      (record.value.map List.length).getD 0 + record.headers.foldl (fun total e =>
        total + (e.1.utf8ByteSize + (e.2.map List.length).getD 0)) 0 := rfl
  rw [hsent, messageByteLength]
  omega

/-! ## The batch -/

theorem sizes_batch (hdoc : Documented atobLength decoders) {messages : List JsMessage}
    {wire : List NewPublishMessage}
    (hsend : List.Forall₂ (fun message input => message.send ipc = some input) messages wire)
    {records : List EncodedRecord} (h : List.Forall₂ (Encodes decoders) wire records) :
    List.Forall₂ (fun message record => messageByteLength atobLength message = record.sizeBytes ↔
      ∀ field ∈ message.fields, ¬ field.Misread) messages records := by
  induction hsend generalizing records with
  | nil =>
    cases h
    exact .nil
  | cons hfirst _ ih =>
    cases h with
    | cons hhead hrest => exact .cons (size_message hdoc hfirst hhead) (ih hrest)

/-- **The size that the tab shows is the size that is sent**, of every message that validation accepts, if
and only if no field of it is misread. -/
theorem shown_size_iff {atobLength : JsString → Option ℕ} {decoders : Decoders} (ipc : Ipc)
    (hdoc : Documented atobLength decoders) {messages : List JsMessage} {wire : List NewPublishMessage}
    (hsend : messages.mapM (JsMessage.send ipc) = some wire) {limits : PublishLimits}
    {records : List EncodedRecord} (haccept : encodeMessages decoders wire limits = .ok records) :
    List.Forall₂ (fun message record => messageByteLength atobLength message = record.sizeBytes ↔
      ∀ field ∈ message.fields, ¬ field.Misread) messages records :=
  sizes_batch hdoc (MapM.mapM_eq_some_iff.mp hsend) (encodeMessages_eq_ok_limits.mp haccept).2.2.1

/-! ## Two messages -/

/-- Every text arrives, with U+FFFD for a lone half. -/
def lossyIpc : Ipc where
  deliver units := some (String.ofList (decodeLossy units))
  lossy _ _ h := (Option.some.inj h).symm

/-- `atob`, as far as the lengths go. -/
def atob (text : JsString) : Option ℕ := (Base64.decodeForgiving (text.map unitChar)).map List.length

theorem documented_atob : Documented atob (backEnd fun _ => false) where
  atobLength _ := rfl
  base64 := (PublishTab.documented fun _ => false).base64

/-- A key that is a letter with an accent and an emoji, and a value in base64 with blanks around it. -/
def wideMessage (value : JsString) : JsMessage where
  key := ⟨.text, [0xE9, 0xD83D, 0xDE00]⟩
  value := ⟨.base64, value⟩
  headers := [⟨[0x61], ⟨.null, []⟩⟩]

/-- The record that it becomes. -/
def wideRecord : EncodedRecord where
  key := some [0xC3, 0xA9, 0xF0, 0x9F, 0x98, 0x80]
  value := some [97]
  headers := [("a", none)]

/-- `YQ==` -/
def letterA : JsString := [0x59, 0x51, 0x3D, 0x3D]

theorem shown_size_iff_wide :
    List.Forall₂ (fun message record => messageByteLength atob message = record.sizeBytes ↔
      ∀ field ∈ message.fields, ¬ field.Misread) [wideMessage (0x20 :: letterA)] [wideRecord] :=
  shown_size_iff lossyIpc documented_atob rfl
    (show encodeMessages (backEnd fun _ => false) [_] (.forMaxMessageSize 1000) = _ by decide +kernel)

/-- **A message that is shown too small.** U+0085 stands behind its base64, which the back end trims. -/
theorem nel_shown_smaller :
    ∃ wire, [wideMessage (letterA ++ [0x85])].mapM (JsMessage.send lossyIpc) = some wire ∧
      encodeMessages (backEnd fun _ => false) wire (.forMaxMessageSize 1000) = .ok [wideRecord] ∧
        wideRecord.sizeBytes = 8 ∧ messageByteLength atob (wideMessage (letterA ++ [0x85])) = 7 := by
  refine ⟨_, rfl, ?_, ?_, ?_⟩ <;> decide +kernel

end OffsetExplorer.PublishTab.CodeUnits
