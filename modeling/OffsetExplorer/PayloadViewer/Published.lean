import OffsetExplorer.Fetch.Account
import OffsetExplorer.PayloadViewer.Preview
import OffsetExplorer.Producer.Outcome
import OffsetExplorer.Publish.Exact

/-!
# From the editor to the viewer

A message is typed in the Publish tab, encoded, handed to the client and stored; it is fetched as a row of
the grid, and opened in the viewer.

* `toUTF8_toList`: the bytes of a text.
* `FieldShown`, `MessageShown`: what is to be seen of a field and of a message.
* `exists_of_delivered`: an acknowledgement is that of a record that was handed over.
* `Stored`: the log of the broker has the records that it acknowledged.
* **`published_message_shown`**: the row of a published message shows what was typed.
-/

namespace OffsetExplorer.PayloadViewer

open Fetch Machine Workspace

/-! ## The bytes of a text -/

theorem toList_loop_eq (bs : ByteArray) (i : ℕ) (r : List UInt8) :
    ByteArray.toList.loop bs i r = r.reverse ++ bs.data.toList.drop i := by
  fun_induction ByteArray.toList.loop bs i r with
  | case1 i r h ih =>
    have hi : i < bs.data.toList.length := by
      rw [Array.length_toList]
      exact h
    have hget : bs.get! i = bs.data.toList[i] := by
      show bs.data[i]! = _
      rw [getElem!_pos bs.data i h, Array.getElem_toList]
    rw [ih, List.drop_eq_getElem_cons hi, List.reverse_cons, List.append_assoc, hget]
    rfl
  | case2 i r h =>
    have hi : bs.data.toList.length ≤ i := by
      rw [Array.length_toList]
      exact Nat.not_lt.mp h
    rw [List.drop_eq_nil_of_le hi, List.append_nil]

theorem utf8EncodeChar_eq (c : Char) : String.utf8EncodeChar c = Utf8.encodeChar c := by
  have hvalid : c.toNat < 0x110000 := by
    have h : c.toNat.isValidChar := c.valid
    unfold Nat.isValidChar at h
    omega
  have hval : c.val.toNat = c.toNat := rfl
  rw [String.utf8EncodeChar, Utf8.encodeChar, hval]
  by_cases h1 : c.toNat < 0x80
  · rw [if_pos h1, if_pos (by omega)]
  by_cases h2 : c.toNat < 0x800
  · rw [if_neg h1, if_pos h2, if_neg (by omega), if_pos (by omega), Nat.add_comm 0xC0, Nat.add_comm 0x80,
      Nat.mod_eq_of_lt (show c.toNat / 64 < 32 by omega)]
  by_cases h3 : c.toNat < 0x10000
  · rw [if_neg h1, if_neg h2, if_pos h3, if_neg (by omega), if_neg (by omega), if_pos (by omega),
      Nat.add_comm 0xE0, Nat.add_comm 0x80, Nat.add_comm 0x80,
      Nat.mod_eq_of_lt (show c.toNat / 4096 < 16 by omega)]
  · rw [if_neg h1, if_neg h2, if_neg h3, if_neg (by omega), if_neg (by omega), if_neg (by omega),
      Nat.add_comm 0xF0, Nat.add_comm 0x80, Nat.add_comm 0x80, Nat.add_comm 0x80,
      Nat.mod_eq_of_lt (show c.toNat / 262144 < 8 by omega)]

theorem toUTF8_toList (text : String) : text.toUTF8.toList = Utf8.encode text.toList := by
  have hbytes : text.toUTF8 = (text.toList.flatMap String.utf8EncodeChar).toByteArray :=
    (String.utf8Encode_toList (b := text)).symm
  rw [hbytes, ByteArray.toList, toList_loop_eq, List.toList_data_toByteArray, List.reverse_nil, List.nil_append,
    List.drop_zero, Utf8.encode]
  exact List.flatMap_congr fun c _ => utf8EncodeChar_eq c

/-! ## What is to be seen -/

/-- A text without a byte order mark in front. -/
def withoutMark (text : String) : String :=
  match text.toList with
  | [] => text
  | c :: rest => if c = Char.ofNat 0xFEFF then String.ofList rest else text

variable {decoders : Decoders}

/-- What a field that was typed is shown as: nothing, its text, or the text of its bytes. -/
inductive FieldShown (decoders : Decoders) : PublishField → Option String → Prop where
  | null (text : String) : FieldShown decoders ⟨.null, text⟩ none
  | text (text : String) : FieldShown decoders ⟨.text, text⟩ (some (withoutMark text))
  | json (text : String) : FieldShown decoders ⟨.json, text⟩ (some (withoutMark text))
  | base64 {text : String} {bytes : List UInt8} (h : decoders.base64 (rustTrim text) = .ok bytes) :
    FieldShown decoders ⟨.base64, text⟩ (some (bytesToText bytes))

/-- What is shown of a header: its name as it is, and its value. -/
structure HeaderShown (decoders : Decoders) (input : PublishHeaderInput) (header : MessageHeader) : Prop where
  name : header.key = input.key
  value : ∃ shown, base64ToDisplayText header.valueBase64 = some shown ∧ FieldShown decoders input.value shown

/-- The text that the viewer has for the payload of a row. -/
def payloadText (row : TopicMessage) : Option String := (row.payloadBase64.bind base64ToBytes).map bytesToText

/-- What a row shows of a message: its key, its headers in order, and where it carries the whole payload its value.
A null value is an empty text. -/
structure MessageShown (decoders : Decoders) (message : NewPublishMessage) (row : TopicMessage) : Prop where
  key : ∃ shown, base64ToDisplayText row.keyBase64 = some shown ∧ FieldShown decoders message.key shown
  headers : List.Forall₂ (HeaderShown decoders) message.headers row.headers
  value : row.payloadBase64.isSome = true → isPayloadTruncated row.payloadBase64 row.payloadSizeBytes = false →
    ∃ shown, FieldShown decoders message.value shown ∧ payloadText row = some (shown.getD "")

theorem bytesToText_toUTF8 (text : String) : bytesToText text.toUTF8.toList = withoutMark text := by
  have hmark : Utf8.encode [Char.ofNat 0xFEFF] = byteOrderMark := by decide
  rw [toUTF8_toList, bytesToText, withoutMark]
  cases hlist : text.toList with
  | nil =>
    rw [← String.ofList_toList (s := text), hlist]
    rfl
  | cons c rest =>
    have hdecoded := fun q => Utf8.decodeLossy_encode_append [Char.ofNat 0xFEFF] q
    rw [hmark] at hdecoded
    simp only
    by_cases hc : c = Char.ofNat 0xFEFF
    · have hsplit : Utf8.encode (c :: rest) = byteOrderMark ++ Utf8.encode rest := by
        rw [← hmark, hc]
        rfl
      rw [if_pos hc, if_pos (by rw [hsplit]; exact List.prefix_append _ _), hsplit]
      exact congrArg String.ofList (Utf8.decodeLossy_encode rest)
    · have hplain : ¬ byteOrderMark <+: Utf8.encode (c :: rest) := by
        rintro ⟨q, hq⟩
        have hhead := hdecoded q
        rw [hq, Utf8.decodeLossy_encode] at hhead
        exact hc (List.cons.inj hhead).1
      rw [if_neg hc, if_neg hplain, Utf8.decodeLossy_encode, ← hlist, String.ofList_toList]

/-- **A field** that was encoded is shown. -/
theorem fieldShown_of_encodes {field : PublishField} {bytes : Option (List UInt8)}
    (h : FieldEncodes decoders field bytes) : FieldShown decoders field (bytes.map bytesToText) := by
  cases h with
  | null text => exact .null text
  | text text =>
    rw [Option.map_some, bytesToText_toUTF8]
    exact .text text
  | json h =>
    rw [Option.map_some, bytesToText_toUTF8]
    exact .json _
  | base64 h => exact .base64 h

theorem base64ToDisplayText_encode (bytes : Option (List UInt8)) :
    base64ToDisplayText (bytes.map base64Engine) = some (bytes.map bytesToText) := by
  cases bytes with
  | none => rfl
  | some bytes =>
    rw [Option.map_some, base64ToDisplayText, base64ToBytes_encode]
    rfl

/-! ## What was delivered -/

variable {topic : String} {partition : ℤ} {batch : List (EncodedRecord × Sending)}

/-- **An acknowledgement** is that of a record that was handed over in its place. -/
theorem exists_of_delivered {d : DeliveredRecord}
    (h : d ∈ (publishRecords topic partition batch).2.delivered) : ∃ e ∈ batch[d.index]?,
      e.2.result = .ok (d.partition, d.offset) ∧
        (publishRecords topic partition batch).1[d.index]? = some (futureRecord topic partition e.1) := by
  rcases exists_first_failure batch with hacked | ⟨before, record, reported, error, rest, rfl, hacked⟩
  · rw [publishRecords_acked hacked] at h ⊢
    obtain ⟨-, e, he, hresult⟩ := of_mem_acknowledgements h
    rw [Nat.sub_zero] at he
    refine ⟨e, he, hresult, ?_⟩
    rw [List.getElem?_map, he]
    rfl
  · rw [publishRecords_failed hacked] at h ⊢
    obtain ⟨-, e, he, hresult⟩ := of_mem_acknowledgements h
    rw [Nat.sub_zero] at he
    have hlt : d.index < before.length := (List.getElem?_eq_some_iff.mp he).1
    refine ⟨e, ?_, hresult, ?_⟩
    · rw [List.getElem?_append_left hlt]
      exact he
    · rw [List.getElem?_append_left (by rw [List.length_map]; exact hlt), List.getElem?_map, he]
      rfl

/-- The log has what was sent: a message at the place of an acknowledgement is the record that was handed
over. -/
def Stored (topic : String) (partition : ℤ) (batch : List (EncodedRecord × Sending))
    (m : BorrowedMessage) : Prop :=
  ∀ d ∈ (publishRecords topic partition batch).2.delivered, d.partition = m.partition → d.offset = m.offset →
    ∀ record ∈ (publishRecords topic partition batch).1[d.index]?,
      m.key = record.key ∧ m.payload = record.payload ∧ m.headers = record.headers

/-! ## The row -/

variable {c : Loop} {m : BorrowedMessage} {message : NewPublishMessage} {record : EncodedRecord}

/-- **The row of a record** shows the message that it was made from. -/
theorem messageShown_row (hencode : c.encode = base64Engine) (h : MessageEncodes decoders message record)
    (hkey : m.key = record.key) (hvalue : m.payload = record.value) (hheaders : m.headers = buildHeaders record) :
    MessageShown decoders message (c.row m) := by
  have hlist : m.headers.getD [] = record.headers := by
    rw [hheaders, buildHeaders]
    split_ifs with hempty
    · exact (List.isEmpty_iff.mp hempty).symm
    · rfl
  constructor
  · refine ⟨_, ?_, fieldShown_of_encodes h.key⟩
    rw [Loop.row, hencode, hkey]
    exact base64ToDisplayText_encode record.key
  · rw [Loop.row, Loop.extractHeaders, hlist, List.forall₂_map_right_iff]
    refine h.headers.imp fun input header hheader => ⟨hheader.name, _, ?_, fieldShown_of_encodes hheader.value⟩
    rw [hencode]
    exact base64ToDisplayText_encode header.2
  · intro hcarried hwhole
    have hinclude : c.filter.includePayload = true := by
      by_contra hexclude
      rw [Loop.row, if_neg hexclude] at hcarried
      cases hcarried
    refine ⟨_, fieldShown_of_encodes h.value, ?_⟩
    have hrow : (c.row m).payloadBase64 = some (base64Engine
        (payloadPreviewSlice (record.value.getD []) c.filter.maxPayloadPreviewBytes)) := by
      rw [← hencode, ← hvalue, Loop.row, if_pos hinclude]
    have hslice : payloadPreviewSlice (record.value.getD []) c.filter.maxPayloadPreviewBytes =
        record.value.getD [] := by
      obtain ⟨n, hn, -⟩ := payloadPreviewSlice_eq (record.value.getD []) c.filter.maxPayloadPreviewBytes
      cases hbytes : record.value with
      | none =>
        rw [hbytes, Option.getD_none] at hn
        rw [Option.getD_none, hn, List.take_nil]
      | some payload =>
        have hsize : (c.row m).payloadSizeBytes = some payload.length := by
          rw [Loop.row, hvalue, hbytes]
          rfl
        rw [hbytes, Option.getD_some] at hn hrow
        rw [hrow, hsize, isPayloadTruncated_encode, decide_eq_false_iff_not, hn, List.length_take] at hwhole
        rw [Option.getD_some, hn, List.take_eq_self_iff]
        omega
    rw [payloadText, hrow, hslice, Option.bind_some, base64ToBytes_encode]
    cases record.value with
    | none => rfl
    | some payload => rfl

/-- **The row of a published message shows what was typed.** Whatever the batch, what came of it, and how its
topic is fetched afterwards: a row at the place of an acknowledgement shows the key and the headers of the message
that was acknowledged, and where it carries the whole payload the value, as they were entered but for a byte order
mark in front of a text. -/
theorem published_message_shown {b : Broker} {es : List Iteration} {s : PollState} {limits : PublishLimits}
    {messages : List NewPublishMessage}
    (haccepted : encodeMessages decoders messages limits = .ok (batch.map Prod.fst))
    (hstored : ∀ m ∈ messagesOf es, Stored topic partition batch m)
    (hencode : c.encode = base64Engine)
    (hplan : planFetch b c.filter = .ok c.plan) (hrun : run (Fetch.step c) (Fetch.start c) es = some s)
    {d : DeliveredRecord} (hd : d ∈ (publishRecords topic partition batch).2.delivered)
    {row : TopicMessage} (hrow : row ∈ (Fetch.result c s).messages)
    (hpartition : row.partition = d.partition) (hoffset : row.offset = d.offset) :
    ∃ message ∈ messages[d.index]?, MessageShown decoders message row := by
  have hist := history_run (planFetch_limits_nonneg hplan) hrun
  obtain ⟨m, hm, rfl⟩ := List.mem_map.mp (hist.rows.mem hrow)
  obtain ⟨e, he, -, hsent⟩ := exists_of_delivered hd
  obtain ⟨hkey, hvalue, hheaders⟩ := hstored m hm d hd hpartition.symm hoffset.symm _ hsent
  obtain ⟨-, -, hencodes, -⟩ := encodeMessages_eq_ok_limits.mp haccepted
  rw [← messageEncodes_eq, List.forall₂_map_right_iff] at hencodes
  obtain ⟨hlt, rfl⟩ := List.getElem?_eq_some_iff.mp he
  have hlt' : d.index < messages.length := hencodes.length_eq ▸ hlt
  exact ⟨messages[d.index], List.getElem?_eq_getElem hlt',
    messageShown_row hencode (hencodes.get hlt' hlt) hkey hvalue hheaders⟩

/-- Two messages. -/
def greetings : List NewPublishMessage :=
  [{ key := ⟨.text, "a"⟩, value := ⟨.text, "é"⟩, headers := [⟨"n", ⟨.null, ""⟩⟩] },
    { key := ⟨.null, ""⟩, value := ⟨.text, "b"⟩ }]

/-- Their records, of which the second is not sent. -/
def greetingBatch : List (EncodedRecord × Sending) :=
  [({ key := some [0x61], value := some [0xC3, 0xA9], headers := [("n", none)] }, { result := .ok (0, 7) }),
    ({ key := none, value := some [0x62], headers := [] },
      { result := .error ⟨some .messageSizeTooLarge, ""⟩ })]

/-- A fetch of the one that was. -/
def greetingFetch : Loop where
  filter := { maxTotalMessages := some 1, includePayload := true }
  plan := ((planFetch (uniformTopic [0] 7 8) { maxTotalMessages := some 1, includePayload := true }).toOption).getD
    ⟨0, ∅, ∅, ∅⟩
  maxMessageSizeBytes := 1048576
  maxTotalPayloadBytes := none
  encode := base64Engine

/-- The record of the first one, as it is polled. -/
def greeting : BorrowedMessage where
  partition := 0
  offset := 7
  key := some [0x61]
  payload := some [0xC3, 0xA9]
  headers := some [("n", none)]

theorem greeting_shown :
    ∃ message ∈ greetings[0]?, MessageShown noDecoders message (greetingFetch.row greeting) := by
  have hread : (run (Fetch.step greetingFetch) (Fetch.start greetingFetch)
      [{ polled := .message greeting }]).map PollState.collected = some [greetingFetch.row greeting] := by
    decide +kernel
  obtain ⟨s, hs, hcollected⟩ := Option.map_eq_some_iff.mp hread
  have haccepted : encodeMessages noDecoders greetings (.forMaxMessageSize 1048576) =
      .ok (greetingBatch.map Prod.fst) := by decide +kernel
  have hdelivered : (publishRecords "orders" 0 greetingBatch).2.delivered = [⟨0, 0, 7⟩] := by decide +kernel
  have hsent : (publishRecords "orders" 0 greetingBatch).1[0]? =
      some (futureRecord "orders" 0 { key := some [0x61], value := some [0xC3, 0xA9], headers := [("n", none)] }) := by
    decide +kernel
  have hstored : ∀ m ∈ messagesOf [{ polled := .message greeting }], Stored "orders" 0 greetingBatch m := by
    intro m hm d hd _ _ record hrecord
    rw [List.mem_singleton.mp hm]
    rw [hdelivered, List.mem_singleton] at hd
    rw [hd, hsent] at hrecord
    cases hrecord
    exact ⟨rfl, rfl, rfl⟩
  exact published_message_shown haccepted hstored rfl (b := uniformTopic [0] 7 8) rfl hs
    (hdelivered ▸ List.mem_singleton_self _) (hcollected ▸ List.mem_singleton_self _) rfl rfl

end OffsetExplorer.PayloadViewer
