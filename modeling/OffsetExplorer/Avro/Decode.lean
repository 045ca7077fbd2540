import OffsetExplorer.Avro.ToJson
import OffsetExplorer.Error
import OffsetExplorer.Lib.Base64
import OffsetExplorer.Lib.Bytes

/-!
# Decoding a payload

The strategy of the avro crate, its two decoders and the command over them. The library that reads Avro
is a parameter, and so are the encodings of the Avro specification, of which the library reads more than them.

* `decideDecodeStrategy`: what a payload is read with.
* `decode`, `decodeContainer`: one value with a schema, and a file with its own.
* `connectionDecodeAvro`: the command, from the text of a payload to the value that is shown.
* `Accounted`: the payload as a whole is an encoding of what is shown of it.
* `ReadsAvro`: the reader stops behind an encoding, and takes some bytes that begin with none.
* **`decode_accounts_iff`**: a payload is accounted for unless it goes on behind an encoding or is one of these.
-/

namespace OffsetExplorer.Avro

/-! ## The strategy -/

/-- The schema id of a Confluent header. -/
def detectWireFormat : List UInt8 → Option UInt32
  | 0 :: b₁ :: b₂ :: b₃ :: b₄ :: _ => some (.ofNat (Bytes.fromBe [b₁, b₂, b₃, b₄]))
  | _ => none

/-- `Obj` and the version 1. -/
def containerFileMagic : List UInt8 := [0x4f, 0x62, 0x6a, 0x01]

/-- A payload that is a whole container file brings its own schema. -/
def detectContainerFile (bytes : List UInt8) : Bool := containerFileMagic.isPrefixOf bytes

/-- Where the schema of a payload comes from. -/
inductive AvroDecodeStrategy where
  | containerFile
  | manualSchema
  | schemaRegistry (schemaId : UInt32)
  deriving DecidableEq

/-- Why there is no schema to decode with. -/
inductive AvroDecodeRefusal where
  | noSchemaAvailable
  | noRegistryConfigured
  deriving DecidableEq

/-- A container file first, then a manual schema, then the Confluent header. -/
def decideDecodeStrategy (bytes : List UInt8) (hasManualSchema hasRegistry : Bool) :
    Except AvroDecodeRefusal AvroDecodeStrategy :=
  if detectContainerFile bytes then .ok .containerFile
  else if hasManualSchema then .ok .manualSchema
  else
    match detectWireFormat bytes with
    | some schemaId => if hasRegistry then .ok (.schemaRegistry schemaId) else .error .noRegistryConfigured
    | none => .error .noSchemaAvailable

/-- The text that the command reports. -/
def AvroDecodeRefusal.message : AvroDecodeRefusal → String
  | .noSchemaAvailable =>
    "payload has no Confluent Avro wire-format header and no manual schema is set for this topic"
  | .noRegistryConfigured =>
    "no manual schema is set for this topic and this connection has no Schema Registry configured"

/-! ## The decoders -/

/-- The Avro library: schemas of texts, with what the conversion looks up in them; the reader of one
value, which answers the bytes that it has not read; and the records of a container file. -/
structure Library (σ : Type) where
  parseStr : String → Option σ
  lookup : σ → Schema
  names : σ → Option Names
  builds : σ → Bool
  readValue : σ → List UInt8 → Option (Value × List UInt8)
  readContainer : List UInt8 → Option (σ × List (Option Value))

variable {σ : Type} (library : Library σ) (renderers : Renderers)

/-- One value; the bytes behind it are not looked at. -/
def decode (bytes : List UInt8) (schemaJson : String) : Except Report Json :=
  match library.parseStr schemaJson with
  | none => .error ⟨.decode, ["invalid Avro schema"]⟩
  | some schema =>
    if library.builds schema then
      match library.readValue schema bytes with
      | none => .error ⟨.decode, ["payload isn't valid Avro for this schema"]⟩
      | some (value, _) => .ok (toJson renderers value (library.lookup schema) (library.names schema))
    else .error ⟨.decode, ["invalid Avro schema"]⟩

/-- The one record of a container file, or a list of them. -/
def decodeContainer (bytes : List UInt8) : Except Report Json :=
  match library.readContainer bytes with
  | none => .error ⟨.decode, ["payload isn't a valid Avro container file"]⟩
  | some (schema, values) =>
    match values.mapM id with
    | none => .error ⟨.decode, ["payload isn't a valid Avro container file"]⟩
    | some values =>
      let records := values.map fun value =>
        toJson renderers value (library.lookup schema) (library.names schema)
      match records with
      | [] => .error ⟨.decode, ["Avro container file has no records"]⟩
      | [record] => .ok record
      | records => .ok (.array records.length records.get)

/-! ## The command -/

/-- What the command looks up: the manual schema of the topic, the registry of the connection, its
client, and a schema of it. -/
structure Lookups where
  manualSchema : Except Report (Option String)
  schemaRegistryEndpoint : Except Report (Option String)
  getOrCreate : String → Except Report Unit
  fetchSchemaById : UInt32 → Except Report String

/-- What is decoded: a container file, or bytes with a schema. -/
inductive Task where
  | container (bytes : List UInt8)
  | datum (bytes : List UInt8) (schemaJson : String)
  deriving DecidableEq

/-- The part of `connection_decode_avro` before it decodes. The bytes that a registry schema is for come
after the header. -/
def decodeTask (lookups : Lookups) (payloadBase64 : String) : Except Report Task := do
  let bytes ← match Base64.decodeCanonical payloadBase64.toList with
    | none => .error ⟨.decode, ["payload isn't valid base64"]⟩
    | some bytes => .ok bytes
  let manualSchema ← lookups.manualSchema
  let endpoint ← lookups.schemaRegistryEndpoint
  match decideDecodeStrategy bytes manualSchema.isSome endpoint.isSome with
  | .error refusal => .error ⟨.decode, [refusal.message]⟩
  | .ok .containerFile => .ok (.container bytes)
  | .ok .manualSchema => .ok (.datum bytes (manualSchema.getD ""))
  | .ok (.schemaRegistry schemaId) => do
    lookups.getOrCreate (endpoint.getD "")
    let schemaText ← lookups.fetchSchemaById schemaId
    .ok (.datum (bytes.drop 5) schemaText)

/-- What is left of the command once the schema is known. -/
def Task.run : Task → Except Report Json
  | .container bytes => decodeContainer library renderers bytes
  | .datum bytes schemaJson => decode library renderers bytes schemaJson

/-- The command `connection_decode_avro`. -/
def connectionDecodeAvro (lookups : Lookups) (payloadBase64 : String) : Except Report Json := do
  let task ← decodeTask lookups payloadBase64
  task.run library renderers

/-! ## What is left over -/

/-- The encodings of the Avro specification: the bytes that encode a value of a schema. -/
abbrev Encoding (σ : Type) := σ → Value → List UInt8 → Prop

/-- The reader of the library beside the specification. It reads an encoding, whatever comes after it, and stops
right behind it. It is more tolerant than the specification: of the bytes that begin with no encoding it takes some
all the same, as it reads a null where the bytes end in front of a boolean, within a text or in front of a union. -/
structure ReadsAvro (library : Library σ) (encodes : Encoding σ) (tolerates : σ → List UInt8 → Prop) : Prop where
  encoding : ∀ schema value front back, library.builds schema = true → encodes schema value front →
    library.readValue schema (front ++ back) = some (value, back)
  other : ∀ schema bytes, library.builds schema = true →
    (∀ value front, encodes schema value front → ¬ front <+: bytes) →
      ((library.readValue schema bytes).isSome = true ↔ tolerates schema bytes)

/-- The bytes as a whole encode the value that is shown. -/
def Accounted (encodes : Encoding σ) (bytes : List UInt8) (schemaJson : String) (json : Json) : Prop :=
  ∃ schema value, library.parseStr schemaJson = some schema ∧ encodes schema value bytes ∧
    json = toJson renderers value (library.lookup schema) (library.names schema)

/-- The bytes begin with an encoding and go on behind it. -/
def Overlong (encodes : Encoding σ) (bytes : List UInt8) (schemaJson : String) : Prop :=
  ∃ schema, library.parseStr schemaJson = some schema ∧ library.builds schema = true ∧
    ∃ front back value, encodes schema value front ∧ back ≠ [] ∧ bytes = front ++ back

/-- The bytes begin with no encoding, and the library tolerates them. -/
def Tolerated (encodes : Encoding σ) (tolerates : σ → List UInt8 → Prop) (bytes : List UInt8)
    (schemaJson : String) : Prop :=
  ∃ schema, library.parseStr schemaJson = some schema ∧ library.builds schema = true ∧
    (∀ value front, encodes schema value front → ¬ front <+: bytes) ∧ tolerates schema bytes

variable {library renderers} {encodes : Encoding σ} {tolerates : σ → List UInt8 → Prop} {bytes : List UInt8}
  {schemaJson : String} {json : Json}

theorem decode_eq_ok : decode library renderers bytes schemaJson = .ok json ↔
    ∃ schema value rest, library.parseStr schemaJson = some schema ∧ library.builds schema = true ∧
      library.readValue schema bytes = some (value, rest) ∧
        json = toJson renderers value (library.lookup schema) (library.names schema) := by
  unfold decode
  constructor
  · intro h
    split at h
    · cases h
    · rename_i schema hparse
      split at h
      · rename_i hbuilds
        split at h
        · cases h
        · rename_i value rest hread
          exact ⟨schema, value, rest, hparse, hbuilds, hread, (Except.ok.inj h).symm⟩
      · cases h
  · rintro ⟨schema, value, rest, hparse, hbuilds, hread, rfl⟩
    simp only [hparse, hbuilds, if_true, hread]

theorem ReadsAvro.whole (hreads : ReadsAvro library encodes tolerates) {schema : σ} {value : Value}
    (hbuilds : library.builds schema = true) (h : encodes schema value bytes) :
    library.readValue schema bytes = some (value, []) := by
  have hread := hreads.encoding schema value bytes [] hbuilds h
  rwa [List.append_nil] at hread

theorem not_overlong (hreads : ReadsAvro library encodes tolerates)
    (haccounted : ∀ json, decode library renderers bytes schemaJson = .ok json →
      Accounted library renderers encodes bytes schemaJson json) : ¬ Overlong library encodes bytes schemaJson := by
  rintro ⟨schema, hparse, hbuilds, front, back, value, hvalue, hback, rfl⟩
  have hread := hreads.encoding schema value front back hbuilds hvalue
  obtain ⟨schema', value', hparse', hvalue', -⟩ :=
    haccounted _ (decode_eq_ok.mpr ⟨schema, value, back, hparse, hbuilds, hread, rfl⟩)
  cases hparse.symm.trans hparse'
  have hagain := hreads.whole hbuilds hvalue'
  rw [hread] at hagain
  exact hback (Prod.mk.inj (Option.some.inj hagain)).2

theorem not_tolerated (hreads : ReadsAvro library encodes tolerates)
    (haccounted : ∀ json, decode library renderers bytes schemaJson = .ok json →
      Accounted library renderers encodes bytes schemaJson json) :
    ¬ Tolerated library encodes tolerates bytes schemaJson := by
  rintro ⟨schema, hparse, hbuilds, hnone, htolerates⟩
  obtain ⟨⟨value, rest⟩, hread⟩ := Option.isSome_iff_exists.mp ((hreads.other schema bytes hbuilds hnone).mpr htolerates)
  obtain ⟨schema', value', hparse', hvalue', -⟩ :=
    haccounted _ (decode_eq_ok.mpr ⟨schema, value, rest, hparse, hbuilds, hread, rfl⟩)
  cases hparse.symm.trans hparse'
  exact hnone value' bytes hvalue' List.prefix_rfl

/-- **One value.** It accounts for its bytes unless they go on behind an encoding or are tolerated without one. -/
theorem accounted_iff (hreads : ReadsAvro library encodes tolerates) :
    (∀ json, decode library renderers bytes schemaJson = .ok json →
      Accounted library renderers encodes bytes schemaJson json) ↔
      ¬ Overlong library encodes bytes schemaJson ∧ ¬ Tolerated library encodes tolerates bytes schemaJson := by
  constructor
  · intro haccounted
    exact ⟨not_overlong hreads haccounted, not_tolerated hreads haccounted⟩
  · rintro ⟨hshort, hstrict⟩ json hdecode
    obtain ⟨schema, value, rest, hparse, hbuilds, hread, rfl⟩ := decode_eq_ok.mp hdecode
    by_cases hfront : ∃ value front, encodes schema value front ∧ front <+: bytes
    · obtain ⟨value', front, hvalue', back, rfl⟩ := hfront
      -- what is read is the encoding at the front, and nothing is behind it
      have hagain := hreads.encoding schema value' front back hbuilds hvalue'
      rw [hread] at hagain
      cases hagain
      have hback : rest = [] := by
        by_contra hne
        exact hshort ⟨schema, hparse, hbuilds, front, rest, value, hvalue', hne, rfl⟩
      rw [hback, List.append_nil]
      exact ⟨schema, value, hparse, hvalue', rfl⟩
    · have hnone : ∀ value front, encodes schema value front → ¬ front <+: bytes := fun value front hvalue hstart =>
        hfront ⟨value, front, hvalue, hstart⟩
      have htolerates := (hreads.other schema bytes hbuilds hnone).mp (by rw [hread]; rfl)
      exact absurd ⟨schema, hparse, hbuilds, hnone, htolerates⟩ hstrict

/-- The library, for the schema of a boolean: one byte, zero or one, and a null at the end of the bytes. -/
def booleanLibrary : Library Unit where
  parseStr schemaJson := if schemaJson = "\"boolean\"" then some () else none
  lookup _ := .other
  names _ := some fun _ => none
  builds _ := true
  readValue _
    | 0 :: rest => some (.boolean false, rest)
    | 1 :: rest => some (.boolean true, rest)
    | _ :: _ => none
    | [] => some (.null, [])
  readContainer _ := none

/-- The encodings of a boolean. -/
inductive EncodesBoolean : Unit → Value → List UInt8 → Prop
  | no : EncodesBoolean () (.boolean false) [0]
  | yes : EncodesBoolean () (.boolean true) [1]

theorem readsAvro_booleanLibrary : ReadsAvro booleanLibrary EncodesBoolean fun _ bytes => bytes = [] where
  encoding := by
    intro schema value front back _ h
    cases h <;> rfl
  other := by
    intro schema bytes _ hnone
    match bytes with
    | [] => exact iff_of_true rfl rfl
    | byte :: rest =>
      have hzero : byte ≠ 0 := fun h => hnone _ _ .no ⟨rest, by rw [h]; rfl⟩
      have hone : byte ≠ 1 := fun h => hnone _ _ .yes ⟨rest, by rw [h]; rfl⟩
      refine iff_of_false ?_ (List.cons_ne_nil byte rest)
      -- the last case of the reader, as the byte is neither zero nor one
      have hread : booleanLibrary.readValue schema (byte :: rest) = none := by simp only [booleanLibrary]
      rw [hread]
      exact Bool.false_ne_true

/-- Renderers for a schema that asks for none of them. -/
def plainRenderers : Renderers where
  base64 _ := ""
  widen bits := bits.toUInt64
  date _ := none

/-- A topic with a manual schema, on a connection with a registry. -/
def manualLookups : Lookups where
  manualSchema := .ok (some "\"boolean\"")
  schemaRegistryEndpoint := .ok (some "http://localhost:8081")
  getOrCreate _ := .ok ()
  fetchSchemaById _ := .ok "\"boolean\""

end OffsetExplorer.Avro
