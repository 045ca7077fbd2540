import OffsetExplorer.Avro.ToJson

/-!
# Values and schemas walked together

Every part of a value is rendered with the schema of its own place.

* `Table`: the names of a schema, none of which names a reference.
* `HasType`: the values of a schema.
* `Step`, `Value.at?`, `Schema.at?`, `atJson?`: the same way into a value, its schema and its JSON; a
  union has no level of its own in the JSON.
* **`at_toJsonValue`**: what is at the end of the way.
* **`toJson_follows`**: decimals with the scale of their place, records in order, arrays and maps
  with all that is in them.
-/

namespace OffsetExplorer.Avro

open JsonTree (lookup)

/-- The names of a schema: each of them names a definition, not another reference. -/
structure Table where
  get : Names
  definition : ∀ name target, get name ≠ some (.ref target)

/-- Values whose rendering needs nothing of a schema. -/
def Value.IsLeaf : Value → Prop
  | .decimal _ | .union .. | .array .. | .map .. | .record .. => False
  | _ => True

/-- The values of a schema; a reference stands for what it names. -/
inductive HasType (table : Table) : Value → Schema → Prop
  | leaf {value : Value} : value.IsLeaf → HasType table value .other
  | ref {value : Value} {name : String} {schema : Schema} : table.get name = some schema →
      HasType table value schema → HasType table value (.ref name)
  | decimal (unscaled : ℤ) (scale : ℕ) : HasType table (.decimal unscaled) (.decimal scale)
  | union {index : ℕ} {inner : Value} {variants : List Schema} {schema : Schema} :
      variants[index]? = some schema → HasType table inner schema →
      HasType table (.union index inner) (.union variants)
  | array {length : ℕ} {items : Fin length → Value} {schema : Schema} :
      (∀ i, HasType table (items i) schema) → HasType table (.array length items) (.array schema)
  | map {keys : List String} {distinct : keys.Nodup} {values : Fin keys.length → Value}
      {schema : Schema} : (∀ i, HasType table (values i) schema) →
      HasType table (.map keys distinct values) (.map schema)
  | record {names : List String} {distinct : names.Nodup} {fields : Fin names.length → Value}
      {index : String → Option ℕ} {schemas : List Schema} (schema : Fin names.length → Schema) :
      (∀ i, index (names.get i) = some i.val) → (∀ i, schemas[i.val]? = some (schema i)) →
      (∀ i, HasType table (fields i) (schema i)) →
      HasType table (.record names distinct fields) (.record index schemas)

/-- A step into a value. -/
inductive Step where
  | variant (index : ℕ)
  | item (index : ℕ)
  | entry (key : String)
  | field (name : String)

/-- What is behind a step. -/
def Value.step? (step : Step) : Value → Option Value
  | .union index inner =>
    match step with
    | .variant i => if i = index then some inner else none
    | _ => none
  | .array length items =>
    match step with
    | .item i => if h : i < length then some (items ⟨i, h⟩) else none
    | _ => none
  | .map keys _ values =>
    match step with
    | .entry key => lookup keys values key
    | _ => none
  | .record names _ fields =>
    match step with
    | .field name => lookup names fields name
    | _ => none
  | _ => none

/-- What is behind a step in a schema that is no reference. -/
def Schema.inside (step : Step) : Schema → Option Schema
  | .union variants =>
    match step with
    | .variant i => variants[i]?
    | _ => none
  | .array items =>
    match step with
    | .item _ => some items
    | _ => none
  | .map types =>
    match step with
    | .entry _ => some types
    | _ => none
  | .record index schemas =>
    match step with
    | .field name => (index name).bind fun i => schemas[i]?
    | _ => none
  | _ => none

/-- What a schema stands for. -/
def Schema.resolve (table : Table) : Schema → Option Schema
  | .ref name => table.get name
  | schema => some schema

/-- The schema one step further in, through the definition of a name. -/
def Schema.step? (table : Table) (step : Step) (schema : Schema) : Option Schema :=
  (schema.resolve table).bind (Schema.inside step)

/-- The JSON one step further in; a union does not show in it. -/
def stepJson? (step : Step) (json : Json) : Option Json :=
  match step with
  | .variant _ => some json
  | .item i =>
    match json with
    | .array length items => if h : i < length then some (items ⟨i, h⟩) else none
    | _ => none
  | .entry key | .field key =>
    match json with
    | .object keys _ values => lookup keys values key
    | _ => none

/-- What is at the end of a way. -/
def Value.at? : List Step → Value → Option Value
  | [], value => some value
  | step :: steps, value => (value.step? step).bind (Value.at? steps)

/-- The schema at a position. -/
def Schema.at? (table : Table) : List Step → Schema → Option Schema
  | [], schema => some schema
  | step :: steps, schema => (schema.step? table step).bind (Schema.at? table steps)

/-- The JSON at a position. -/
def atJson? : List Step → Json → Option Json
  | [], json => some json
  | step :: steps, json => (stepJson? step json).bind (atJson? steps)

/-- The scale of the decimals of a schema. -/
def Schema.scale? (table : Table) (schema : Schema) : Option ℕ :=
  match schema.resolve table with
  | some (.decimal scale) => some scale
  | _ => none

variable (renderers : Renderers) {table : Table}

/-! ## One step -/

theorem deref_eq_resolve (schema : Schema) :
    deref (some schema) table.get = schema.resolve table := by
  cases schema <;> rfl

theorem resolve_get {name : String} {schema : Schema} (h : table.get name = some schema) :
    schema.resolve table = some schema := by
  cases schema with
  | ref target => exact absurd h (table.definition name target)
  | _ => rfl

theorem toJsonValue_congr {names : Names} {schema other : Option Schema}
    (h : deref schema names = deref other names) (value : Value) :
    toJsonValue renderers names value schema = toJsonValue renderers names value other := by
  cases value <;> simp only [toJsonValue, h]

theorem toJsonValue_ref {name : String} {schema : Schema} (h : table.get name = some schema)
    (value : Value) :
    toJsonValue renderers table.get value (some (.ref name)) =
      toJsonValue renderers table.get value (some schema) := by
  apply toJsonValue_congr
  rw [deref_eq_resolve, deref_eq_resolve, resolve_get h]
  exact h

theorem step?_ref {name : String} {schema : Schema} (h : table.get name = some schema) (step : Step) :
    (Schema.ref name).step? table step = schema.step? table step := by
  rw [Schema.step?, Schema.step?, resolve_get h, Schema.resolve, h]

theorem lookup_sorted {α : Type} {keys : List String} (distinct : keys.Nodup)
    (values : Fin keys.length → α) (i : Fin keys.length) :
    lookup ((sortedPlaces keys).map keys.get)
      (fun j => values ((sortedPlaces keys).get (j.cast (List.length_map ..)))) (keys.get i) =
        some (values i) := by
  obtain ⟨j, rfl⟩ := exists_sortedPlace i
  have hkey : ((sortedPlaces keys).map keys.get).get j =
      keys.get ((sortedPlaces keys).get (j.cast (List.length_map ..))) := by simp
  rw [← hkey, JsonTree.lookup_get (nodup_sortedKeys distinct)]

theorem perm_sortedKeys (keys : List String) : ((sortedPlaces keys).map keys.get).Perm keys := by
  have hperm := (List.mergeSort_perm (List.finRange keys.length)
    fun i j => decide (keys.get i ≤ keys.get j)).map keys.get
  have hall : (List.finRange keys.length).map keys.get = keys := by
    rw [← List.ofFn_eq_map, List.ofFn_get]
  rwa [hall] at hperm

/-- **One step**: the schema has what the value has, and the JSON has its rendering. -/
theorem step_toJsonValue {value found : Value} {schema : Schema} (h : HasType table value schema)
    {step : Step} (hstep : value.step? step = some found) :
    ∃ position, schema.step? table step = some position ∧ HasType table found position ∧
      stepJson? step (toJsonValue renderers table.get value (some schema)) =
        some (toJsonValue renderers table.get found (some position)) := by
  induction h with
  | @leaf value hleaf => cases value <;> first | cases hstep | cases hleaf
  | decimal => cases hstep
  | @ref value name schema hname _ ih =>
    obtain ⟨position, hposition, htype, hjson⟩ := ih hstep
    refine ⟨position, ?_, htype, ?_⟩
    · rw [step?_ref hname, hposition]
    · rw [toJsonValue_ref renderers hname, hjson]
  | @union index inner variants schema hschema htype _ =>
    cases step with
    | variant i =>
      rw [Value.step?] at hstep
      split_ifs at hstep with hi
      obtain rfl := Option.some.inj hstep
      subst hi
      refine ⟨schema, hschema, htype, ?_⟩
      have hvariant : variantSchema i (some (.union variants)) = some schema := hschema
      change some (toJsonValue renderers table.get inner (variantSchema i (some (.union variants)))) = _
      rw [hvariant]
    | item i => cases hstep
    | entry key => cases hstep
    | field name => cases hstep
  | @array length items schema htype _ =>
    cases step with
    | item i =>
      rw [Value.step?] at hstep
      split at hstep
      · rename_i hi
        obtain rfl := Option.some.inj hstep
        exact ⟨schema, rfl, htype _, dif_pos hi⟩
      · cases hstep
    | variant i => cases hstep
    | entry key => cases hstep
    | field name => cases hstep
  | @map keys distinct values schema htype _ =>
    cases step with
    | entry key =>
      obtain ⟨i, rfl, rfl⟩ := JsonTree.exists_of_lookup (show lookup keys values key = some found from hstep)
      refine ⟨schema, rfl, htype i, ?_⟩
      exact lookup_sorted distinct
        (fun j => toJsonValue renderers table.get (values j) (some schema)) i
    | variant i => cases hstep
    | item i => cases hstep
    | field name => cases hstep
  | @record names distinct fields index schemas schema hindex hschemas htype _ =>
    cases step with
    | field name =>
      obtain ⟨i, rfl, rfl⟩ := JsonTree.exists_of_lookup (show lookup names fields name = some found from hstep)
      have hfield : ∀ j, fieldSchema (names.get j) (some (.record index schemas)) = some (schema j) := by
        intro j
        rw [fieldSchema, hindex j, Option.bind_some, hschemas j]
      refine ⟨schema i, hfield i, htype i, ?_⟩
      have hfields : (fun j => toJsonValue renderers table.get (fields j)
          (fieldSchema (names.get j) (some (.record index schemas)))) =
          fun j => toJsonValue renderers table.get (fields j) (some (schema j)) := by
        funext j
        rw [hfield]
      change lookup names (fun j => toJsonValue renderers table.get (fields j)
        (fieldSchema (names.get j) (some (.record index schemas)))) (names.get i) = _
      rw [hfields, JsonTree.lookup_get distinct]
    | variant i => cases hstep
    | item i => cases hstep
    | entry key => cases hstep

/-- **The whole way**: what is at its end is rendered with the schema at its end. -/
theorem at_toJsonValue {path : List Step} {value found : Value} {schema : Schema}
    (h : HasType table value schema) (hfound : value.at? path = some found) :
    ∃ position, schema.at? table path = some position ∧ HasType table found position ∧
      atJson? path (toJsonValue renderers table.get value (some schema)) =
        some (toJsonValue renderers table.get found (some position)) := by
  induction path generalizing value schema with
  | nil =>
    obtain rfl := Option.some.inj hfound
    exact ⟨schema, rfl, h, rfl⟩
  | cons step path ih =>
    obtain ⟨next, hnext, hrest⟩ := Option.bind_eq_some_iff.mp hfound
    obtain ⟨between, hbetween, htype, hjson⟩ := step_toJsonValue renderers h hnext
    obtain ⟨position, hposition, hend, hshown⟩ := ih htype hrest
    refine ⟨position, ?_, hend, ?_⟩
    · rw [Schema.at?, hbetween, Option.bind_some, hposition]
    · rw [atJson?, hjson, Option.bind_some, hshown]

theorem decimal_toJsonValue {unscaled : ℤ} {position : Schema}
    (h : HasType table (.decimal unscaled) position) :
    ∃ scale, position.scale? table = some scale ∧
      toJsonValue renderers table.get (.decimal unscaled) (some position) =
        .string (formatDecimal unscaled scale) := by
  obtain ⟨value, hvalue⟩ : ∃ value, value = Value.decimal unscaled := ⟨_, rfl⟩
  rw [← hvalue] at h
  induction h with
  | decimal n scale =>
    obtain rfl := Value.decimal.inj hvalue
    exact ⟨scale, rfl, rfl⟩
  | @ref value name schema hname _ ih =>
    obtain ⟨scale, hscale, hjson⟩ := ih hvalue
    refine ⟨scale, ?_, ?_⟩
    · rw [Schema.scale?, resolve_get hname] at hscale
      rw [Schema.scale?, Schema.resolve, hname, hscale]
    · rw [toJsonValue_ref renderers hname, hjson]
  | leaf hleaf =>
    subst hvalue
    exact hleaf.elim
  | union => cases hvalue
  | array => cases hvalue
  | map => cases hvalue
  | record => cases hvalue

/-- **Main result.** For every value of a schema, whatever the schema refers to: what is in the value is
rendered at its place with the schema of its place. Each decimal has the scale of its place, records
keep their fields in order, and arrays and maps keep all that is in them. -/
theorem toJson_follows {value : Value} {schema : Schema} (h : HasType table value schema) :
    (∀ path found, value.at? path = some found → ∃ position,
      schema.at? table path = some position ∧ HasType table found position ∧
      atJson? path (toJson renderers value schema (some table.get)) =
        some (toJson renderers found position (some table.get))) ∧
    (∀ path unscaled, value.at? path = some (.decimal unscaled) → ∃ position scale,
      schema.at? table path = some position ∧ position.scale? table = some scale ∧
      atJson? path (toJson renderers value schema (some table.get)) =
        some (.string (formatDecimal unscaled scale))) ∧
    (∀ path names distinct fields, value.at? path = some (.record names distinct fields) →
      ∃ members, atJson? path (toJson renderers value schema (some table.get)) =
        some (.object names distinct members)) ∧
    (∀ path length items, value.at? path = some (.array length items) →
      ∃ elements, atJson? path (toJson renderers value schema (some table.get)) =
        some (.array length elements)) ∧
    ∀ path keys distinct values, value.at? path = some (.map keys distinct values) →
      ∃ sorted hsorted members, sorted.Perm keys ∧
        atJson? path (toJson renderers value schema (some table.get)) =
          some (.object sorted hsorted members) := by
  refine ⟨fun path found hfound => at_toJsonValue renderers h hfound,
    fun path unscaled hfound => ?_, fun path names distinct fields hfound => ?_,
    fun path length items hfound => ?_, fun path keys distinct values hfound => ?_⟩
  · obtain ⟨position, hposition, htype, hjson⟩ := at_toJsonValue renderers h hfound
    obtain ⟨scale, hscale, hdecimal⟩ := decimal_toJsonValue renderers htype
    exact ⟨position, scale, hposition, hscale, hjson.trans (congrArg some hdecimal)⟩
  · obtain ⟨position, -, -, hjson⟩ := at_toJsonValue renderers h hfound
    exact ⟨_, hjson⟩
  · obtain ⟨position, -, -, hjson⟩ := at_toJsonValue renderers h hfound
    exact ⟨_, hjson⟩
  · obtain ⟨position, -, -, hjson⟩ := at_toJsonValue renderers h hfound
    exact ⟨_, nodup_sortedKeys distinct, _, perm_sortedKeys keys, hjson⟩

/-- Amounts in a list: an amount, and the rest of the list or nothing. -/
def nodeSchema : Schema :=
  .record (fun name => if name = "amount" then some 0 else if name = "next" then some 1 else none)
    [.decimal 2, .union [.other, .ref "node"]]

/-- The one definition of a schema that refers to itself. -/
def nodeTable : Table where
  get name := if name = "node" then some nodeSchema else none
  definition := by
    intro name target h
    split_ifs at h
    cases h

/-- A node of a list of amounts, in front of the rest of it. -/
def nodeValue (unscaled : ℤ) (next : Value) : Value :=
  .record ["amount", "next"] (by decide) [.decimal unscaled, next].get

theorem hasType_node {unscaled : ℤ} {next : Value}
    (h : HasType nodeTable next (.union [.other, .ref "node"])) :
    HasType nodeTable (nodeValue unscaled next) nodeSchema := by
  refine .record [Schema.decimal 2, Schema.union [.other, .ref "node"]].get (by decide)
    (fun i => ?_) fun i => ?_
  · match i with
    | ⟨0, _⟩ => rfl
    | ⟨1, _⟩ => rfl
  · match i with
    | ⟨0, _⟩ => exact .decimal unscaled 2
    | ⟨1, _⟩ => exact h

theorem toJson_follows_node :
    ∃ position scale, nodeSchema.at? nodeTable [.field "next", .variant 1, .field "amount"] =
        some position ∧ position.scale? nodeTable = some scale ∧
      atJson? [.field "next", .variant 1, .field "amount"]
        (toJson ⟨fun _ => "", fun _ => 0, fun _ => none⟩
          (nodeValue 1234 (.union 1 (nodeValue (-5) (.union 0 .null)))) nodeSchema
          (some nodeTable.get)) = some (.string (formatDecimal (-5) scale)) := by
  have hend : HasType nodeTable (.union 0 .null) (.union [.other, .ref "node"]) :=
    .union rfl (.leaf trivial)
  have hname : nodeTable.get "node" = some nodeSchema := by simp [nodeTable]
  have hnext : HasType nodeTable (.union 1 (nodeValue (-5) (.union 0 .null)))
      (.union [.other, .ref "node"]) := .union rfl (.ref hname (hasType_node hend))
  exact (toJson_follows ⟨fun _ => "", fun _ => 0, fun _ => none⟩ (hasType_node hnext)).2.1 _ (-5) rfl

end OffsetExplorer.Avro
