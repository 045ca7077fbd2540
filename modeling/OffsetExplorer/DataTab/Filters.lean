import OffsetExplorer.Lib.JsNumber
import OffsetExplorer.Text

/-!
# The filter form of the Data tab

What the front end makes of the texts that a user enters before a fetch.

* `FilterFormState`, `emptyFilterForm`: the form, and how it starts.
* `parsePositiveInt`, `parsePartitions`, `parseDate`: its fields as numbers. The dates are read by the
  browser, whose answer is a parameter.
* `validateDateRange`, `validateMaxMessagesPerPartition`: what is refused before anything is sent.
* `estimatedFetchRows`, `inlinePayloadBytesFor`: how many rows to expect, and so how much of each payload.
* `toMessageFilter`: the filter that is sent.
-/

namespace OffsetExplorer.DataTab

open Binary64

/-- What the fields of the form hold, as they were typed or ticked. -/
structure FilterFormState where
  maxMessagesPerPartition : String
  maxTotalMessages : String
  partitions : String
  fromDate : String
  toDate : String
  offset : String
  includePayload : Bool
  deriving DecidableEq

/-- What the field holds in a new form. -/
def defaultMaxMessagesPerPartition : String := "100"

/-- What the field holds in a new form. -/
def defaultMaxTotalMessages : String := "100"

/-- A new form. -/
def emptyFilterForm : FilterFormState where
  maxMessagesPerPartition := defaultMaxMessagesPerPartition
  maxTotalMessages := defaultMaxTotalMessages
  partitions := ""
  fromDate := ""
  toDate := ""
  offset := ""
  includePayload := false

/-! ## The fields -/

/-- `Number(text)`. -/
def number (text : String) : JsNumber := .ofLiteral (jsTrim text).toList

/-- The number of a text that is neither blank nor without a finite one. -/
def parsePositiveInt (value : String) : Option Double :=
  let trimmed := jsTrim value
  if trimmed.isEmpty then none else (number trimmed).toFinite

/-- The comma-separated parts of a text. -/
def parts (text : String) : List String := (text.toList.splitOn ',').map String.ofList

/-- The numbers of a list with commas; without one that can be read there is no list. -/
def parsePartitions (value : String) : Option (List Double) :=
  let trimmed := jsTrim value
  if trimmed.isEmpty then none
  else
    let parsed := (parts trimmed).filterMap fun part => (number (jsTrim part)).toFinite
    if parsed.isEmpty then none else some parsed

/-- A time value of the language: whole milliseconds, as far as its dates go. -/
structure TimeValue where
  ms : ℤ
  inRange : |ms| ≤ 8640000000000000

/-- `/^\d{4}-\d{2}-\d{2}$/`. -/
def isDateOnly : List Char → Bool
  | [y₁, y₂, y₃, y₄, '-', m₁, m₂, '-', d₁, d₂] => [y₁, y₂, y₃, y₄, m₁, m₂, d₁, d₂].all Char.isDigit
  | _ => false

section Dates

-- `new Date(text).getTime()`, where it is a number
variable (getTime : String → Option TimeValue)

/-- A date without a time is the beginning of its day. -/
def parseDate (value : String) : Option TimeValue :=
  let trimmed := jsTrim value
  if trimmed.isEmpty then none
  else
    let normalized := if isDateOnly trimmed.toList then trimmed ++ "T00:00" else trimmed
    getTime normalized

/-- The range must not be empty. A date that cannot be read is no bound. -/
def validateDateRange (form : FilterFormState) : Option String :=
  match parseDate getTime form.fromDate, parseDate getTime form.toDate with
  | some fromMs, some toMs =>
    if toMs.ms ≤ fromMs.ms then some "\"To\" date must be after \"From\" date" else none
  | _, _ => none

end Dates

/-- The one field that has to be filled in. -/
def validateMaxMessagesPerPartition (form : FilterFormState) : Option String :=
  if (jsTrim form.maxMessagesPerPartition).isEmpty then
    some "\"Max messages per partition\" is required"
  else none

/-! ## The estimate -/

/-- How much of a payload a cell decodes. -/
def valuePreviewBytes : ℕ := 4096

/-- How much of a payload is fetched with a row when payloads are asked for. -/
def maxInlinePayloadBytes : ℕ := 256 * 1024

/-- How many bytes of payloads a fetch may bring. -/
def payloadRetentionBudgetBytes : ℕ := 64 * 1024 * 1024

/-- How many rows the filter brings back, as far as the form can tell. -/
def estimatedFetchRows (form : FilterFormState) : Option JsNumber :=
  let perPartition := parsePositiveInt form.maxMessagesPerPartition
  let total := parsePositiveInt form.maxTotalMessages
  let partitions := parsePartitions form.partitions
  let byPartition :=
    match perPartition, partitions with
    | some perPartition, some partitions => some (.mul perPartition.value partitions.length)
    | _, _ => none
  match total, byPartition with
  | some total, some byPartition => some (JsNumber.min (.finite total) byPartition)
  | some total, none => some (.finite total)
  | none, byPartition => byPartition

/-- How much of each payload a fetch of so many rows may carry. -/
def inlinePayloadBytesFor : Option JsNumber → JsNumber
  | none => .ofRat valuePreviewBytes
  | some estimatedRows =>
    if estimatedRows.Le 0 then .ofRat valuePreviewBytes
    else
      let perRow := (JsNumber.quotient payloadRetentionBudgetBytes estimatedRows).floor
      .min (.ofRat maxInlinePayloadBytes) (.max (.ofRat valuePreviewBytes) perRow)

/-! ## The filter that is sent -/

/-- A `MessageFilter` of the front end. -/
structure WireFilter where
  partitions : Option (List Double)
  maxMessagesPerPartition : Option Double
  maxTotalMessages : Option Double
  fromTimestampMs : Option TimeValue
  toTimestampMs : Option TimeValue
  offset : Option Double
  includePayload : Bool
  maxPayloadPreviewBytes : JsNumber

/-- The filter of a form, as it is sent. What cannot be read is left out. -/
def toMessageFilter (getTime : String → Option TimeValue) (form : FilterFormState) : WireFilter where
  partitions := parsePartitions form.partitions
  maxMessagesPerPartition := parsePositiveInt form.maxMessagesPerPartition
  maxTotalMessages := parsePositiveInt form.maxTotalMessages
  fromTimestampMs := parseDate getTime form.fromDate
  toTimestampMs := parseDate getTime form.toDate
  offset := parsePositiveInt form.offset
  includePayload := form.includePayload
  maxPayloadPreviewBytes := inlinePayloadBytesFor (estimatedFetchRows form)

end OffsetExplorer.DataTab
