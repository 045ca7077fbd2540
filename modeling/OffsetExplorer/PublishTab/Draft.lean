import OffsetExplorer.DataTab.Store
import OffsetExplorer.Publish

/-!
# Drafts of the Publish tab

`publishMessages` and `usePublishDraftStore`: editable messages, the rules they are inspected with,
and the store that keeps them while the tab is not on screen. Local ids come from a counter that the
caller passes in and moves on.

* `batchProblem`: why a batch cannot be published.
* `Edit`: what the controls of the message editors do to a draft.
* `DraftStore`: the drafts by key, `set`, `reset` and `clearForConnection`.
-/

namespace OffsetExplorer.PublishTab

/-- What the web view offers: a JSON parser, the length that `atob` decodes to, and digit groups. -/
structure Browser where
  parsesJson : String → Bool
  atobLength : String → Option ℕ
  toLocaleString : ℕ → String

/-- A header that is being typed. -/
structure DraftHeader where
  id : String
  key : String
  value : PublishField
  deriving DecidableEq

/-- One row of the editor. -/
structure DraftMessage where
  id : String
  key : PublishField
  value : PublishField
  headers : List DraftHeader
  deriving DecidableEq

/-- `MAX_PUBLISH_MESSAGES`. -/
def maxPublishMessages : ℕ := 100

/-- The id that the counter gives out after `nextId` of them. -/
def localId (kind : String) (nextId : ℕ) : String := s!"{kind}-{nextId + 1}"

/-- A new row. -/
def emptyMessage (nextId : ℕ) : DraftMessage where
  id := localId "message" nextId
  key := { encoding := .null }
  value := { encoding := .text }
  headers := []

/-- A copy of a row under fresh ids: one for the row, then one for each header. -/
def duplicateMessage (nextId : ℕ) (message : DraftMessage) : DraftMessage :=
  { message with
    id := localId "message" nextId
    headers := message.headers.mapIdx fun i header =>
      { header with id := localId "header" (nextId + 1 + i) } }

section Problems

variable (browser : Browser)

/-- The decoded length of a base64 text, if it is one. -/
def decodeBase64 (text : String) : Option ℕ :=
  let trimmed := jsTrim text
  if trimmed.isEmpty then some 0 else browser.atobLength trimmed

/-- How many bytes a field will take; base64 that cannot be read counts as none. -/
def encodedByteLength (field : PublishField) : ℕ :=
  match field.encoding with
  | .null => 0
  | .base64 => (decodeBase64 browser field.text).getD 0
  | _ => field.text.utf8ByteSize

/-- How many bytes a message will take. -/
def messageByteLength (message : DraftMessage) : ℕ :=
  let headers := message.headers.foldl
    (fun total header => total + header.key.utf8ByteSize + encodedByteLength browser header.value) 0
  encodedByteLength browser message.key + encodedByteLength browser message.value + headers

/-- What is wrong with a field. -/
def fieldProblem (field : PublishField) (what : String) : Option String :=
  match field.encoding with
  | .json =>
    if (jsTrim field.text).isEmpty then some s!"{what} is set to JSON but empty"
    else if browser.parsesJson field.text then none
    else some s!"{what} is not valid JSON"
  | .base64 =>
    if (decodeBase64 browser field.text).isNone then some s!"{what} is not valid base64" else none
  | _ => none

/-- What is wrong with a header. -/
def headerProblem (header : DraftHeader) : Option String :=
  if (jsTrim header.key).isEmpty then some "A header has no name"
  else fieldProblem browser header.value s!"Header \"{header.key}\""

/-- The first thing that is wrong with a message. -/
def messageProblem (message : DraftMessage) (maxMessageSizeBytes : ℕ) : Option String :=
  let size := messageByteLength browser message
  fieldProblem browser message.key "Key" <|>
    fieldProblem browser message.value "Value" <|>
      message.headers.findSome? (headerProblem browser) <|>
        if maxMessageSizeBytes < size then
          some (s!"{browser.toLocaleString size} bytes is over the " ++
            s!"{browser.toLocaleString maxMessageSizeBytes} byte Max Message Size")
        else none

/-- Why the batch cannot be published, if so. -/
def batchProblem (messages : List DraftMessage) (maxMessageSizeBytes : ℕ) : Option String :=
  if messages.isEmpty then some "There are no messages to publish"
  else if maxPublishMessages < messages.length then
    some s!"One publish carries at most {maxPublishMessages} messages"
  else
    messages.zipIdx.findSome? fun (message, index) =>
      (messageProblem browser message maxMessageSizeBytes).map fun problem =>
        s!"Message {index + 1}: {problem}"

end Problems

/-- What is sent of the rows: their ids stay here. -/
def toWireMessages (messages : List DraftMessage) : List NewPublishMessage :=
  messages.map fun message =>
    { key := message.key
      value := message.value
      headers := message.headers.map fun header => { key := header.key, value := header.value } }

/-! ## Edits -/

/-- What an editor passes to `onChange`: the fields it replaces. -/
structure Patch where
  key : Option PublishField := none
  value : Option PublishField := none
  headers : Option (List DraftHeader) := none

/-- The fields that a patch names take its values. -/
def DraftMessage.patch (message : DraftMessage) (p : Patch) : DraftMessage :=
  { message with
    key := p.key.getD message.key
    value := p.value.getD message.value
    headers := p.headers.getD message.headers }

/-- The controls of the form that change the draft. -/
inductive Edit where
  | update (id : String) (patch : Patch)
  | duplicate (index : ℕ)
  | remove (id : String)
  | add

/-- The draft after an edit and the counter after the ids it took; `none` where the form has no such
control or shows it disabled. -/
def Edit.apply (messages : List DraftMessage) (nextId : ℕ) :
    Edit → Option (List DraftMessage × ℕ)
  | .update id patch =>
    if messages.any (·.id = id) then
      some (messages.map fun message => if message.id = id then message.patch patch else message,
        nextId)
    else none
  | .duplicate index =>
    messages[index]?.map fun message =>
      (messages.take (index + 1) ++ duplicateMessage nextId message :: messages.drop (index + 1),
        nextId + 1 + message.headers.length)
  | .remove id =>
    if messages.any (·.id = id) ∧ 1 < messages.length then
      some (messages.filter (·.id ≠ id), nextId)
    else none
  | .add =>
    if maxPublishMessages ≤ messages.length then none
    else some (messages ++ [emptyMessage nextId], nextId + 1)

/-- The field that a type selector is for. -/
inductive Slot where
  | key (messageId : String)
  | value (messageId : String)
  | header (messageId headerId : String)
  deriving DecidableEq

/-- `onChange({ ...field, encoding })` of the type selector of a field, if the form has it. -/
def Slot.edit (messages : List DraftMessage) (encoding : PayloadEncoding) : Slot → Option Edit
  | .key id => (messages.find? (·.id = id)).map fun message =>
      .update id { key := some { message.key with encoding } }
  | .value id => (messages.find? (·.id = id)).map fun message =>
      .update id { value := some { message.value with encoding } }
  | .header id headerId => (messages.find? (·.id = id)).bind fun message =>
      if message.headers.any (·.id = headerId) then
        some (.update id
          { headers := some (message.headers.map fun header =>
              if header.id = headerId then { header with value := { header.value with encoding } }
              else header) })
      else none

/-! ## The store -/

/-- `messagesByTab`. -/
abbrev DraftStore : Type := Record String (List DraftMessage)

/-- Back to one empty message. -/
def DraftStore.reset (drafts : DraftStore) (key : String) (nextId : ℕ) : DraftStore :=
  drafts.set key [emptyMessage nextId]

/-- Forget every draft of one connection. -/
def DraftStore.clearForConnection (drafts : DraftStore) (connectionId : String) : DraftStore :=
  drafts.keep fun key => !DataTab.dataTabKeyBelongsTo key connectionId

end OffsetExplorer.PublishTab
