import OffsetExplorer.Lib.JsonTree
import Mathlib.Data.Int.Notation
import Mathlib.Algebra.Ring.Int.Defs
import Mathlib.Algebra.Ring.Nat
import Mathlib.Data.List.FinRange
import Mathlib.Data.List.Sort
import Mathlib.Tactic.SplitIfs

/-!
# Avro values as JSON

`lib.rs` of the avro crate: a decoded value becomes the JSON of the payload viewer. Values of logical
types become texts, where the calendar has them; others stay numbers.

* `Value`, `Schema`: decoded values and what the conversion looks up in their schema.
* `toJsonValue`: the conversion; `formatDecimal`, `formatDate`, `formatTime`, `formatTimestamp`.
* `Exact`: the integers that the web view reads exactly; `Value.Safe`: a value without a long, or a time
  that the calendar does not have, that is not one.
* **`integers_exact_iff`**: the numbers of the JSON are exact for the safe values.
-/

namespace OffsetExplorer.Avro

/-- A decoded value; the names of a record and the keys of a map are all different. -/
inductive Value : Type where
  | null
  | boolean (b : Bool)
  | int (i : Int32)
  | long (i : Int64)
  | float (bits : UInt32)
  | double (bits : UInt64)
  | bytes (b : List UInt8)
  | string (s : String)
  | fixed (size : ℕ) (b : List UInt8)
  | enum (index : ℕ) (s : String)
  | uuid (text : String)
  | decimal (unscaled : ℤ)
  | date (days : Int32)
  | timeMillis (millis : Int32)
  | timeMicros (micros : Int64)
  | timestampMillis (millis : Int64)
  | timestampMicros (micros : Int64)
  | localTimestampMillis (millis : Int64)
  | localTimestampMicros (micros : Int64)
  | timestampNanos (nanos : Int64)
  | localTimestampNanos (nanos : Int64)
  | bigDecimal (text : String)
  | duration (months days millis : UInt32)
  | union (index : ℕ) (inner : Value)
  | array (length : ℕ) (items : Fin length → Value)
  | map (keys : List String) (distinct : keys.Nodup) (values : Fin keys.length → Value)
  | record (names : List String) (distinct : names.Nodup) (fields : Fin names.length → Value)

/-- What the conversion looks up in a schema. -/
inductive Schema : Type where
  | ref (name : String)
  | decimal (scale : ℕ)
  | union (variants : List Schema)
  | array (items : Schema)
  | map (types : Schema)
  | record (lookup : String → Option ℕ) (fields : List Schema)
  | other

/-- A number of the JSON: an integer, or the bits of a double. -/
inductive Number where
  | int (n : ℤ)
  | float (bits : UInt64)
  deriving DecidableEq

/-- JSON whose numbers are those that the conversion makes. -/
abbrev Json := JsonTree String Number

/-- What other crates render: base64, a float as a double, and the date of a second of UTC where the
calendar has it. -/
structure Renderers where
  base64 : List UInt8 → String
  widen : UInt32 → UInt64
  date : ℤ → Option String

/-! ## Texts -/

/-- `{:0>width$}`, without the panic of a width above 65535. -/
def padZeros (width : ℕ) (digits : List Char) : List Char := digits.leftpad width '0'

/-- `{:02}`. -/
def twoDigits (n : ℕ) : String := String.ofList (padZeros 2 (toString n).toList)

/-- A decimal as text: JSON numbers would round it. -/
def formatDecimal (unscaled : ℤ) (scale : ℕ) : String :=
  if scale = 0 then toString unscaled
  else
    let sign := if unscaled < 0 then "-" else ""
    let digits := (toString unscaled.natAbs).toList
    if scale < digits.length then
      sign ++ String.ofList (digits.take (digits.length - scale)) ++ "." ++
        String.ofList (digits.drop (digits.length - scale))
    else sign ++ "0." ++ String.ofList (padZeros scale digits)

/-- The time of day of a number of seconds, with so many digits of its nanoseconds. -/
def renderTime (seconds nanos fractionDigits : ℕ) : String :=
  twoDigits (seconds / 3600) ++ ":" ++ twoDigits (seconds / 60 % 60) ++ ":" ++
    twoDigits (seconds % 60) ++ "." ++
    String.ofList (padZeros fractionDigits (toString (nanos / 10 ^ (9 - fractionDigits))).toList)

variable (renderers : Renderers)

/-- Days since 1970, or the number itself where the calendar ends. -/
def formatDate (days : Int32) : Json :=
  match renderers.date (days.toInt * 86400) with
  | some text => .string text
  | none => .number (.int days.toInt)

/-- A time of day, or the number itself outside a day. -/
def formatTime (value perSecond : ℤ) (fractionDigits : ℕ) : Json :=
  let seconds := value / perSecond
  let nanos := value % perSecond * (1000000000 / perSecond)
  if 0 ≤ seconds ∧ seconds < 86400 then
    .string (renderTime seconds.toNat nanos.toNat fractionDigits)
  else .number (.int value)

/-- A date and a time, with a `Z` for those of UTC. -/
def formatTimestamp (value perSecond : ℤ) (fractionDigits : ℕ) (utc : Bool) : Json :=
  let seconds := value / perSecond
  let nanos := value % perSecond * (1000000000 / perSecond)
  match renderers.date seconds with
  | some date =>
    .string (date ++ "T" ++ renderTime (seconds % 86400).toNat nanos.toNat fractionDigits ++
      if utc then "Z" else "")
  | none => .number (.int value)

/-- A double, if JSON has it. -/
def jsonFloat (bits : UInt64) : Json :=
  if bits >>> 52 &&& 0x7ff = 0x7ff then .null else .number (.float bits)

/-! ## The conversion -/

/-- What the names of a schema stand for. -/
abbrev Names := String → Option Schema

/-- The schema that a reference names, if there is one. -/
def deref (schema : Option Schema) (names : Names) : Option Schema :=
  match schema with
  | some (.ref name) => names name
  | other => other

/-- The scale, which only the schema has. -/
def decimalScale : Option Schema → ℕ
  | some (.decimal scale) => scale
  | _ => 0

/-- The schema of the variant of a union that the value is of. -/
def variantSchema (index : ℕ) : Option Schema → Option Schema
  | some (.union variants) => variants[index]?
  | _ => none

/-- The schema of the items of an array. -/
def itemsSchema : Option Schema → Option Schema
  | some (.array items) => some items
  | _ => none

/-- The schema of the values of a map. -/
def valuesSchema : Option Schema → Option Schema
  | some (.map types) => some types
  | _ => none

/-- The schema of a field, looked up by its name. -/
def fieldSchema (name : String) : Option Schema → Option Schema
  | some (.record lookup fields) => (lookup name).bind fun index => fields[index]?
  | _ => none

/-- The places of a map's entries, in the order of their keys. -/
def sortedPlaces (keys : List String) : List (Fin keys.length) :=
  (List.finRange keys.length).mergeSort fun i j => decide (keys.get i ≤ keys.get j)

theorem nodup_sortedKeys {keys : List String} (distinct : keys.Nodup) :
    ((sortedPlaces keys).map keys.get).Nodup := by
  refine List.Nodup.map (List.nodup_iff_injective_get.mp distinct) ?_
  exact (List.mergeSort_perm _ _).nodup_iff.mpr (List.nodup_finRange _)

/-- The conversion of a value under what its schema has been resolved to, if to anything. -/
def toJsonValue (names : Names) : Value → Option Schema → Json
  | .null, _ => .null
  | .boolean b, _ => .bool b
  | .int i, _ => .number (.int i.toInt)
  | .long i, _ => .number (.int i.toInt)
  | .float bits, _ => jsonFloat (renderers.widen bits)
  | .double bits, _ => jsonFloat bits
  | .bytes b, _ => .string (renderers.base64 b)
  | .string s, _ => .string s
  | .fixed _ b, _ => .string (renderers.base64 b)
  | .enum _ s, _ => .string s
  | .uuid text, _ => .string text
  | .decimal unscaled, schema =>
    .string (formatDecimal unscaled (decimalScale (deref schema names)))
  | .date days, _ => formatDate renderers days
  | .timeMillis millis, _ => formatTime millis.toInt 1000 3
  | .timeMicros micros, _ => formatTime micros.toInt 1000000 6
  | .timestampMillis millis, _ => formatTimestamp renderers millis.toInt 1000 3 true
  | .timestampMicros micros, _ => formatTimestamp renderers micros.toInt 1000000 6 true
  | .localTimestampMillis millis, _ => formatTimestamp renderers millis.toInt 1000 3 false
  | .localTimestampMicros micros, _ => formatTimestamp renderers micros.toInt 1000000 6 false
  | .timestampNanos nanos, _ => formatTimestamp renderers nanos.toInt 1000000000 9 true
  | .localTimestampNanos nanos, _ => formatTimestamp renderers nanos.toInt 1000000000 9 false
  | .bigDecimal text, _ => .string text
  | .duration months days millis, _ =>
    .object ["months", "days", "milliseconds"] (by decide) fun i =>
      .number (.int ([months, days, millis].get i).toNat)
  | .union index inner, schema =>
    toJsonValue names inner (variantSchema index (deref schema names))
  | .array length items, schema =>
    .array length fun i => toJsonValue names (items i) (itemsSchema (deref schema names))
  | .map keys distinct values, schema =>
    .object ((sortedPlaces keys).map keys.get) (nodup_sortedKeys distinct) fun i =>
      toJsonValue names (values ((sortedPlaces keys).get (i.cast (List.length_map ..))))
        (valuesSchema (deref schema names))
  | .record fieldNames distinct fields, schema =>
    .object fieldNames distinct fun i =>
      toJsonValue names (fields i) (fieldSchema (fieldNames.get i) (deref schema names))

/-- `to_json`: the schema and the table of its names; without the table, references name nothing. -/
def toJson (value : Value) (schema : Schema) (names : Option Names) : Json :=
  toJsonValue renderers (names.getD fun _ => none) value (some schema)

/-! ## Integers that the web view reads -/

/-- A double holds every integer up to this magnitude. -/
def Exact (n : ℤ) : Prop := -2 ^ 53 ≤ n ∧ n ≤ 2 ^ 53

/-- The calendar has the instant, `perSecond` of which are a second, or its number is exact. -/
def SafeInstant (value : Int64) (perSecond : ℤ) : Prop :=
  (renderers.date (value.toInt / perSecond)).isSome = true ∨ Exact value.toInt

/-- No long is beyond the exact integers, no time in microseconds that is no time of day is, and no
instant that the calendar does not have. -/
def Value.Safe : Value → Prop
  | .long i => Exact i.toInt
  | .timeMicros micros =>
    (0 ≤ micros.toInt ∧ micros.toInt < 86400 * 1000000) ∨ Exact micros.toInt
  | .timestampMillis millis => SafeInstant renderers millis 1000
  | .timestampMicros micros => SafeInstant renderers micros 1000000
  | .localTimestampMillis millis => SafeInstant renderers millis 1000
  | .localTimestampMicros micros => SafeInstant renderers micros 1000000
  | .timestampNanos nanos => SafeInstant renderers nanos 1000000000
  | .localTimestampNanos nanos => SafeInstant renderers nanos 1000000000
  | .union _ inner => inner.Safe
  | .array _ items => ∀ i, (items i).Safe
  | .map _ _ values => ∀ i, (values i).Safe
  | .record _ _ fields => ∀ i, (fields i).Safe
  | _ => True

/-- A number of the JSON is a fraction or an exact integer. -/
def Number.Exact : Number → Prop
  | .int n => Avro.Exact n
  | .float _ => True

theorem exact_int32 (n : Int32) : Exact n.toInt := by
  have hle := n.le_toInt
  have hlt := n.toInt_lt
  unfold Exact
  omega

theorem exact_uint32 (n : UInt32) : Exact n.toNat := by
  have hlt := n.toNat_lt
  unfold Exact
  omega

theorem formatDate_exact (days : Int32) : (formatDate renderers days).AllNumbers Number.Exact := by
  unfold formatDate
  split
  · trivial
  · exact exact_int32 days

theorem jsonFloat_exact (bits : UInt64) : (jsonFloat bits).AllNumbers Number.Exact := by
  unfold jsonFloat
  split_ifs <;> trivial

theorem formatTime_exact_iff (value perSecond : ℤ) (fractionDigits : ℕ) :
    (formatTime value perSecond fractionDigits).AllNumbers Number.Exact ↔
      (0 ≤ value / perSecond ∧ value / perSecond < 86400) ∨ Exact value := by
  unfold formatTime
  extract_lets seconds nanos
  split_ifs with h
  · exact iff_of_true trivial (.inl h)
  · exact ⟨.inr, fun hsafe => hsafe.resolve_left h⟩

theorem formatTimestamp_exact_iff (value : Int64) (perSecond : ℤ) (fractionDigits : ℕ) (utc : Bool) :
    (formatTimestamp renderers value.toInt perSecond fractionDigits utc).AllNumbers Number.Exact ↔
      SafeInstant renderers value perSecond := by
  unfold formatTimestamp SafeInstant
  cases h : renderers.date (value.toInt / perSecond) with
  | none => simp [h, JsonTree.AllNumbers, Number.Exact]
  | some date => simp [h, JsonTree.AllNumbers]

theorem exists_sortedPlace {keys : List String} (i : Fin keys.length) :
    ∃ j : Fin ((sortedPlaces keys).map keys.get).length,
      (sortedPlaces keys).get (j.cast (List.length_map ..)) = i := by
  have hmem : i ∈ sortedPlaces keys :=
    (List.mergeSort_perm _ _).mem_iff.mpr (List.mem_finRange i)
  obtain ⟨j, hj⟩ := List.get_of_mem hmem
  exact ⟨j.cast (List.length_map ..).symm, hj⟩

theorem toJsonValue_exact_iff (names : Names) (value : Value) (schema : Option Schema) :
    (toJsonValue renderers names value schema).AllNumbers Number.Exact ↔ value.Safe renderers := by
  induction value generalizing schema with
  | int i => exact iff_of_true (exact_int32 i) trivial
  | long i => exact Iff.rfl
  | float bits => exact iff_of_true (jsonFloat_exact _) trivial
  | double bits => exact iff_of_true (jsonFloat_exact bits) trivial
  | date days => exact iff_of_true (formatDate_exact renderers days) trivial
  | timeMillis millis =>
    exact iff_of_true ((formatTime_exact_iff ..).mpr (.inr (exact_int32 millis))) trivial
  | timeMicros micros =>
    rw [toJsonValue, formatTime_exact_iff, Value.Safe]
    refine or_congr_left ?_
    omega
  | timestampMillis millis => exact formatTimestamp_exact_iff ..
  | timestampMicros micros => exact formatTimestamp_exact_iff ..
  | localTimestampMillis millis => exact formatTimestamp_exact_iff ..
  | localTimestampMicros micros => exact formatTimestamp_exact_iff ..
  | timestampNanos nanos => exact formatTimestamp_exact_iff ..
  | localTimestampNanos nanos => exact formatTimestamp_exact_iff ..
  | duration months days millis =>
    exact iff_of_true (fun i => exact_uint32 ([months, days, millis].get i)) trivial
  | union index inner ih => exact ih _
  | array length items ih => exact forall_congr' fun i => ih i _
  | map keys distinct values ih =>
    rw [toJsonValue, JsonTree.AllNumbers, Value.Safe]
    constructor
    · intro h i
      obtain ⟨j, rfl⟩ := exists_sortedPlace i
      exact (ih _ _).mp (h j)
    · exact fun h j => (ih _ _).mpr (h _)
  | record fieldNames distinct fields ih => exact forall_congr' fun i => ih i _
  | _ => exact iff_of_true trivial trivial

/-- **Main result.** For every value, schema and table of names, every integer of the JSON is one that
the web view reads exactly, if and only if the value is safe. -/
theorem integers_exact_iff (value : Value) (schema : Schema) (names : Option Names) :
    (∀ n, (toJson renderers value schema names).HasNumber (.int n) → Exact n) ↔
      value.Safe renderers := by
  rw [← toJsonValue_exact_iff renderers (names.getD fun _ => none) value (some schema),
    JsonTree.allNumbers_iff, ← toJson]
  constructor
  · intro h n hn
    cases n with
    | int n => exact h n hn
    | float bits => trivial
  · exact fun h n hn => h (.int n) hn

/-- An id that is past the exact integers is a number all the same. -/
theorem long_inexact :
    ¬ ∀ (renderers : Renderers) (value : Value) (schema : Schema) (names : Option Names) (n : ℤ),
      (toJson renderers value schema names).HasNumber (.int n) → Exact n := by
  intro h
  have hlong := h ⟨fun _ => "", fun _ => 0, fun _ => none⟩ (.long 9007199254740993) .other none
    9007199254740993 rfl
  exact absurd hlong.2 (by decide)

end OffsetExplorer.Avro
