import OffsetExplorer.Core.ConnectionExport
import OffsetExplorer.Lib.JsonFields
import OffsetExplorer.Lib.JsonWrite
import OffsetExplorer.Lib.MapM

/-!
# The text of an export file

The records of `connection_export` as serde derives their JSON: fields in camel case, written one to a line;
read in any order, each once, with fields of other names passed over, or as arrays of their fields.

* `ConnectionExportFile.toJsonPretty`, `fromJson`: the text of a file, and the file of a text.
* `Carries`: a tree has what the file has, whatever the order of its fields, whatever stands beside them and however
  their names and texts are spelled.
* **`export_read_back`**: every layout of such a tree is read as the file.
-/

namespace OffsetExplorer.Core

open Json

/-! ## Reading -/

section Readers

variable {α : Type}

/-- A text, whatever its escapes. -/
def readText : Tree → Option String
  | .string items => (unescape items).map String.ofList
  | _ => none

/-- Nothing else is taken for a flag. -/
def readBool : Tree → Option Bool
  | .bool value => some value
  | _ => none

/-- An integer from `low` on and below `high`. -/
def readInt (low high : ℤ) : Tree → Option ℤ
  | .number literal => (readInteger literal).filter fun n => low ≤ n ∧ n < high
  | _ => none

/-- `null` is `None`. -/
def readOption (read : Tree → Option α) : Tree → Option (Option α)
  | .null => some none
  | tree => (read tree).map some

/-- Every element has to be read. -/
def readList (read : Tree → Option α) : Tree → Option (List α)
  | .array elements => elements.mapM read
  | _ => none

/-- The name of a variant, alone or as the one member of an object. -/
def readVariant (ofText : String → Option α) : Tree → Option α
  | .string items => ((unescape items).map String.ofList).bind ofText
  | .object [(name, .null)] => ((unescape name).map String.ofList).bind ofText
  | _ => none

/-- The field of a name, and of the alias of one. -/
def fieldNamed (names : List String) (renamed : Option (String × String)) (text : List Char) : Option String :=
  let name := String.ofList text
  if name ∈ names then some name
  else renamed.bind fun (old, field) => if name = old then some field else none

/-- The fields of a record: by their names, or in their order. -/
def readFields (names : List String) (renamed : Option (String × String)) : Tree → Option (String → Option Tree)
  | .object members => gather (fieldNamed names renamed) members
  | .array elements => if elements.length = names.length then some fun name => (names.zip elements).lookup name else none
  | _ => none

/-- A field without a default. -/
def required (fields : String → Option Tree) (name : String) (read : Tree → Option α) : Option α :=
  (fields name).bind read

/-- An `Option` that is not there is `None`. -/
def optional (fields : String → Option Tree) (name : String) (read : Tree → Option α) : Option (Option α) :=
  match fields name with
  | some tree => readOption read tree
  | none => some none

end Readers

/-- An integer of 64 bits. -/
def readI64 : Tree → Option ℤ := readInt (-2 ^ 63) (2 ^ 63)

/-- An integer of 32 bits without a sign. -/
def readU32 (tree : Tree) : Option ℕ := (readInt 0 (2 ^ 32) tree).map Int.toNat

/-- The names that serde derives. -/
def portableFields : List String :=
  ["name", "bootstrapServers", "kafkaVersion", "zookeeperEnabled", "zookeeperHost", "zookeeperPort",
    "zookeeperChrootPath", "securityProtocol", "saslMechanism", "saslUsername", "saslOauthUrl",
    "schemaRegistryEndpoint", "schemaRegistryTrustStoreLocation", "schemaRegistryKeystoreLocation",
    "sslTruststoreLocation", "sslKeystoreLocation"]

/-- `Deserialize` of `PortableConnection`. -/
def readPortable (tree : Tree) : Option PortableConnection := do
  let fields ← readFields portableFields none tree
  let name ← required fields "name" readText
  let bootstrapServers ← required fields "bootstrapServers" readText
  let kafkaVersion ← required fields "kafkaVersion" readText
  let zookeeperEnabled ← required fields "zookeeperEnabled" readBool
  let zookeeperHost ← optional fields "zookeeperHost" readText
  let zookeeperPort ← optional fields "zookeeperPort" readI64
  let zookeeperChrootPath ← optional fields "zookeeperChrootPath" readText
  let securityProtocol ← required fields "securityProtocol" (readVariant SecurityProtocol.ofText)
  let saslMechanism ← optional fields "saslMechanism" (readVariant SaslMechanism.ofText)
  let saslUsername ← optional fields "saslUsername" readText
  let saslOauthUrl ← optional fields "saslOauthUrl" readText
  let schemaRegistryEndpoint ← optional fields "schemaRegistryEndpoint" readText
  let schemaRegistryTrustStoreLocation ← optional fields "schemaRegistryTrustStoreLocation" readText
  let schemaRegistryKeystoreLocation ← optional fields "schemaRegistryKeystoreLocation" readText
  let sslTruststoreLocation ← optional fields "sslTruststoreLocation" readText
  let sslKeystoreLocation ← optional fields "sslKeystoreLocation" readText
  return {
    name, bootstrapServers, kafkaVersion, zookeeperEnabled, zookeeperHost, zookeeperPort, zookeeperChrootPath
    securityProtocol, saslMechanism, saslUsername, saslOauthUrl, schemaRegistryEndpoint
    schemaRegistryTrustStoreLocation, schemaRegistryKeystoreLocation, sslTruststoreLocation, sslKeystoreLocation }

/-- The field by which a file is told from any other JSON. -/
def versionField : String := "saltyConnectionsVersion"

/-- The name of the field before the app was renamed. -/
def oldVersionField : String := "kafkaoxideConnectionsVersion"

/-- `Deserialize` of `ConnectionExportFile`. -/
def readFile (tree : Tree) : Option ConnectionExportFile := do
  let fields ← readFields [versionField, "connections"] (some (oldVersionField, versionField)) tree
  let saltyConnectionsVersion ← required fields versionField readU32
  let connections ← required fields "connections" (readList readPortable)
  return { saltyConnectionsVersion, connections }

/-- `serde_json::from_str`. -/
def fromJson (text : String) : Option ConnectionExportFile := (Json.read text.toList).bind readFile

/-! ## Writing -/

/-- A text as it is spelled. -/
def spellText (text : String) : Spelled := .string text.toList

/-- `None` is spelled `null`. -/
def spellOption {α : Type} (spell : α → Spelled) : Option α → Spelled
  | some value => spell value
  | none => .null

/-- The fields in the order of the structure. -/
def portableMembers (portable : PortableConnection) : List (String × Spelled) :=
  [("name", spellText portable.name),
    ("bootstrapServers", spellText portable.bootstrapServers),
    ("kafkaVersion", spellText portable.kafkaVersion),
    ("zookeeperEnabled", .bool portable.zookeeperEnabled),
    ("zookeeperHost", spellOption spellText portable.zookeeperHost),
    ("zookeeperPort", spellOption .integer portable.zookeeperPort),
    ("zookeeperChrootPath", spellOption spellText portable.zookeeperChrootPath),
    ("securityProtocol", spellText portable.securityProtocol.text),
    ("saslMechanism", spellOption (fun mechanism => spellText mechanism.text) portable.saslMechanism),
    ("saslUsername", spellOption spellText portable.saslUsername),
    ("saslOauthUrl", spellOption spellText portable.saslOauthUrl),
    ("schemaRegistryEndpoint", spellOption spellText portable.schemaRegistryEndpoint),
    ("schemaRegistryTrustStoreLocation", spellOption spellText portable.schemaRegistryTrustStoreLocation),
    ("schemaRegistryKeystoreLocation", spellOption spellText portable.schemaRegistryKeystoreLocation),
    ("sslTruststoreLocation", spellOption spellText portable.sslTruststoreLocation),
    ("sslKeystoreLocation", spellOption spellText portable.sslKeystoreLocation)]

/-- A structure at a level of indentation. -/
def spellRecord (level : ℕ) (members : List (String × Spelled)) : Spelled :=
  .object level (members.map fun (name, value) => (name.toList, value))

/-- `Serialize` of `PortableConnection`, two levels in. -/
def spellPortable (portable : PortableConnection) : Spelled := spellRecord 2 (portableMembers portable)

/-- The version goes first. -/
def spellFile (file : ConnectionExportFile) : Spelled :=
  spellRecord 0 [(versionField, .integer file.saltyConnectionsVersion),
    ("connections", .array 1 (file.connections.map spellPortable))]

/-- `to_json_pretty`. -/
def ConnectionExportFile.toJsonPretty (file : ConnectionExportFile) : String := String.ofList (spellFile file).text

/-- `ConnectionExportFile::new`. -/
def ConnectionExportFile.new (connections : List PortableConnection) : ConnectionExportFile where
  saltyConnectionsVersion := currentExportVersion
  connections

/-! ## Values come back -/

@[simp] theorem readText_spellText (text : String) : readText (spellText text).tree = some text := by
  simp only [spellText, Spelled.string, readText, unescape_written, Option.map_some, String.ofList_toList]

@[simp] theorem readBool_spell (value : Bool) : readBool (Spelled.bool value).tree = some value := by
  cases value <;> rfl

theorem readInt_spell {low high n : ℤ} (h : low ≤ n ∧ n < high) : readInt low high (Spelled.integer n).tree = some n := by
  simp only [Spelled.integer, readInt, readInteger_writeInteger]
  exact if_pos (decide_eq_true h)

@[simp] theorem readVariant_spellText {α : Type} (ofText : String → Option α) (text : String) :
    readVariant ofText (spellText text).tree = ofText text := by
  simp only [spellText, Spelled.string, readVariant, unescape_written, Option.map_some, String.ofList_toList,
    Option.bind_some]

theorem readOption_spell {α : Type} {read : Tree → Option α} {spell : α → Spelled} {value : Option α}
    (hread : ∀ a ∈ value, read (spell a).tree = some a) (hnull : ∀ a, (spell a).tree ≠ .null) :
    readOption read (spellOption spell value).tree = some value := by
  cases value with
  | none => rfl
  | some a =>
    have h : readOption read (spell a).tree = (read (spell a).tree).map some := by
      rw [readOption]
      exact fun h => hnull a h
    rw [spellOption, h, hread a rfl]
    rfl

theorem spellText_ne_null (text : String) : (spellText text).tree ≠ .null := by
  rw [spellText, Spelled.string]
  exact fun h => by cases h

theorem integer_ne_null (n : ℤ) : (Spelled.integer n).tree ≠ .null := fun h => by cases h

@[simp] theorem readOption_spellText (text : Option String) :
    readOption readText (spellOption spellText text).tree = some text :=
  readOption_spell (fun a _ => readText_spellText a) spellText_ne_null

@[simp] theorem readOption_mechanism (mechanism : Option SaslMechanism) :
    readOption (readVariant SaslMechanism.ofText) (spellOption (fun m => spellText m.text) mechanism).tree =
      some mechanism :=
  readOption_spell (fun m _ => (readVariant_spellText _ _).trans m.ofText_text) fun m => spellText_ne_null m.text

/-- The port is an `i64`. -/
def PortableConnection.Fits (portable : PortableConnection) : Prop :=
  ∀ port ∈ portable.zookeeperPort, -2 ^ 63 ≤ port ∧ port < 2 ^ 63

theorem readOption_port {portable : PortableConnection} (h : portable.Fits) :
    readOption readI64 (spellOption .integer portable.zookeeperPort).tree = some portable.zookeeperPort :=
  readOption_spell (fun port hport => readInt_spell (h port hport)) integer_ne_null

/-! ## Fields in any order -/

/-- The tree has the members in some order, among others that no field has the name of. -/
def Rearranged (names : List String) (renamed : Option (String × String)) (written : List (String × Tree))
    (tree : Tree) : Prop :=
  ∃ members named others, tree = .object members ∧ members.Perm (named ++ others) ∧
    List.Forall₂ Named (written.map fun w => (w.1.toList, w.2)) named ∧
    ∀ member ∈ others, Unknown (fieldNamed names renamed) member

/-- **The fields of a record**, whatever their order and whatever stands beside them. -/
theorem exists_readFields {names : List String} {renamed : Option (String × String)} {written : List (String × Tree)}
    {entries : List (String × Tree)} {tree : Tree} (h : Rearranged names renamed written tree)
    (hfields : List.Forall₂ (fun w e => fieldNamed names renamed w.1.toList = some e.1 ∧ w.2 = e.2) written entries)
    (hnodup : (entries.map Prod.fst).Nodup) :
    ∃ fields, readFields names renamed tree = some fields ∧
      ∀ e ∈ entries, ∃ tree, fields e.1 = some tree ∧ Respelled e.2 tree := by
  obtain ⟨members, named, others, rfl, hperm, hnamed, hothers⟩ := h
  obtain ⟨actual, hpairs, hnames, hfound⟩ := exists_pairs hnamed (List.forall₂_map_left_iff.mpr hfields)
  obtain ⟨fields, hgather, hread⟩ := gather_rearranged hperm hpairs (hnames ▸ hnodup) hothers
  refine ⟨fields, hgather, fun e he => ?_⟩
  obtain ⟨tree, htree, hspelled⟩ := hfound e he
  exact ⟨tree, (hread e.1 tree).mpr htree, hspelled⟩

theorem blind_readText : Blind readText := blind_of_string fun h => by rw [readText, readText, h]

theorem blind_readBool : Blind readBool := blind_of_string fun _ => rfl

theorem blind_readInt {low high : ℤ} : Blind (readInt low high) := blind_of_string fun _ => rfl

theorem blind_readI64 : Blind readI64 := blind_readInt

theorem blind_readU32 : Blind readU32 := fun _ _ h => congrArg (Option.map Int.toNat) (blind_readInt h)

theorem blind_readVariant {α : Type} {ofText : String → Option α} : Blind (readVariant ofText) :=
  blind_of_string fun h => by rw [readVariant, readVariant, h]

theorem blind_readList {α : Type} {read : Tree → Option α} : Blind (readList read) := blind_of_string fun _ => rfl

theorem Blind.option {α : Type} {read : Tree → Option α} (h : Blind read) : Blind (readOption read) := by
  intro tree tree' hspelled
  cases hspelled with
  | refl => rfl
  | string hitems hitems' => exact congrArg (Option.map some) (h (.string hitems hitems'))

/-- The tree of a connection. -/
def CarriesConnection (portable : PortableConnection) (tree : Tree) : Prop :=
  Rearranged portableFields none ((portableMembers portable).map fun m => (m.1, m.2.tree)) tree

/-- The tree of a file, in which the version may have its old name. -/
def Carries (file : ConnectionExportFile) (tree : Tree) : Prop :=
  ∃ spelling ∈ [versionField, oldVersionField], ∃ trees, List.Forall₂ CarriesConnection file.connections trees ∧
    Rearranged [versionField, "connections"] (some (oldVersionField, versionField))
      [(spelling, (Spelled.integer file.saltyConnectionsVersion).tree), ("connections", .array trees)] tree

theorem fieldNamed_of_mem {names : List String} {renamed : Option (String × String)} {name : String}
    (h : name ∈ names) : fieldNamed names renamed name.toList = some name := by
  simp only [fieldNamed, String.ofList_toList, if_pos h]

theorem bind_of_some {α β : Type} {x : Option α} {a : α} (h : x = some a) (f : α → Option β) : (x >>= f) = f a := by
  rw [h]
  rfl

theorem required_of {α : Type} {fields : String → Option Tree} {name : String} {tree : Tree} {read : Tree → Option α}
    {a : α} (h : ∃ tree', fields name = some tree' ∧ Respelled tree tree') (hblind : Blind read)
    (hread : read tree = some a) : required fields name read = some a := by
  obtain ⟨tree', hfield, hspelled⟩ := h
  rw [required, hfield, Option.bind_some, hblind hspelled, hread]

theorem optional_of {α : Type} {fields : String → Option Tree} {name : String} {tree : Tree} {read : Tree → Option α}
    {a : Option α} (h : ∃ tree', fields name = some tree' ∧ Respelled tree tree') (hblind : Blind read)
    (hread : readOption read tree = some a) : optional fields name read = some a := by
  obtain ⟨tree', hfield, hspelled⟩ := h
  rw [optional, hfield]
  exact (Blind.option hblind hspelled).trans hread

theorem readPortable_of_carries {portable : PortableConnection} {tree : Tree} (h : CarriesConnection portable tree)
    (hfits : portable.Fits) : readPortable tree = some portable := by
  have hnames : ((portableMembers portable).map fun m => (m.1, m.2.tree)).map Prod.fst = portableFields := rfl
  obtain ⟨fields, hread, hfields⟩ := exists_readFields h
    (List.forall₂_same.mpr fun m hm => ⟨fieldNamed_of_mem (hnames ▸ List.mem_map_of_mem hm), rfl⟩)
    (by rw [hnames]; decide)
  simp only [portableMembers, List.map_cons, List.map_nil, List.forall_mem_cons, List.not_mem_nil, false_imp_iff,
    implies_true, and_true] at hfields
  obtain ⟨h1, h2, h3, h4, h5, h6, h7, h8, h9, h10, h11, h12, h13, h14, h15, h16⟩ := hfields
  have hsecurity := (readVariant_spellText _ _).trans (SecurityProtocol.ofText_text portable.securityProtocol)
  rw [readPortable, bind_of_some hread, bind_of_some (required_of h1 blind_readText (readText_spellText _)),
    bind_of_some (required_of h2 blind_readText (readText_spellText _)),
    bind_of_some (required_of h3 blind_readText (readText_spellText _)),
    bind_of_some (required_of h4 blind_readBool (readBool_spell _)),
    bind_of_some (optional_of h5 blind_readText (readOption_spellText _)),
    bind_of_some (optional_of h6 blind_readI64 (readOption_port hfits)),
    bind_of_some (optional_of h7 blind_readText (readOption_spellText _)),
    bind_of_some (required_of h8 blind_readVariant hsecurity),
    bind_of_some (optional_of h9 blind_readVariant (readOption_mechanism _)),
    bind_of_some (optional_of h10 blind_readText (readOption_spellText _)),
    bind_of_some (optional_of h11 blind_readText (readOption_spellText _)),
    bind_of_some (optional_of h12 blind_readText (readOption_spellText _)),
    bind_of_some (optional_of h13 blind_readText (readOption_spellText _)),
    bind_of_some (optional_of h14 blind_readText (readOption_spellText _)),
    bind_of_some (optional_of h15 blind_readText (readOption_spellText _)),
    bind_of_some (optional_of h16 blind_readText (readOption_spellText _))]
  rfl

theorem readList_of_forall₂ {α : Type} {read : Tree → Option α} {values : List α} {trees : List Tree}
    (h : List.Forall₂ (fun value tree => read tree = some value) values trees) :
    readList read (.array trees) = some values := by
  rw [readList]
  exact MapM.mapM_eq_some_iff.mpr h.flip

theorem forall₂_readPortable {connections : List PortableConnection} {trees : List Tree}
    (h : List.Forall₂ CarriesConnection connections trees) (hfits : ∀ portable ∈ connections, portable.Fits) :
    List.Forall₂ (fun portable tree => readPortable tree = some portable) connections trees := by
  induction h with
  | nil => exact .nil
  | cons hfirst _ ih =>
    rw [List.forall_mem_cons] at hfits
    exact .cons (readPortable_of_carries hfirst hfits.1) (ih hfits.2)

/-- The version is a `u32`, and the ports are `i64`. -/
structure ConnectionExportFile.Fits (file : ConnectionExportFile) : Prop where
  version : file.saltyConnectionsVersion < 2 ^ 32
  connections : ∀ portable ∈ file.connections, portable.Fits

theorem readFile_of_carries {file : ConnectionExportFile} {tree : Tree} (h : Carries file tree) (hfits : file.Fits) :
    readFile tree = some file := by
  obtain ⟨spelling, hspelling, trees, htrees, harranged⟩ := h
  have hfield : fieldNamed [versionField, "connections"] (some (oldVersionField, versionField)) spelling.toList =
      some versionField := by
    simp only [List.mem_cons, List.not_mem_nil, or_false] at hspelling
    rcases hspelling with rfl | rfl <;> decide +kernel
  have hconnections : fieldNamed [versionField, "connections"] (some (oldVersionField, versionField))
      "connections".toList = some "connections" := fieldNamed_of_mem (List.mem_cons_of_mem _ List.mem_cons_self)
  have hnodup : [versionField, "connections"].Nodup := by decide
  obtain ⟨fields, hread, hfields⟩ := exists_readFields harranged
    (.cons (b := (versionField, _)) ⟨hfield, rfl⟩ (.cons (b := ("connections", _)) ⟨hconnections, rfl⟩ .nil)) hnodup
  simp only [List.forall_mem_cons, List.not_mem_nil, false_imp_iff, implies_true, and_true] at hfields
  have hversion : readU32 (Spelled.integer file.saltyConnectionsVersion).tree = some file.saltyConnectionsVersion := by
    have hrange : (0 : ℤ) ≤ file.saltyConnectionsVersion ∧ (file.saltyConnectionsVersion : ℤ) < 2 ^ 32 :=
      ⟨Int.natCast_nonneg _, by exact_mod_cast hfits.version⟩
    rw [readU32, readInt_spell hrange]
    rfl
  have hlist : readList readPortable (.array trees) = some file.connections := by
    refine readList_of_forall₂ (forall₂_readPortable htrees hfits.connections)
  rw [readFile, bind_of_some hread, bind_of_some (required_of hfields.1 blind_readU32 hversion),
    bind_of_some (required_of hfields.2 blind_readList hlist)]
  rfl

/-! ## What is written and what is accepted -/

theorem named_readAs (member : List Char × Tree) : Named member (readAs member) := ⟨unescape_written _, .refl _⟩

theorem rearranged_spellRecord (names : List String) (renamed : Option (String × String)) (level : ℕ)
    (members : List (String × Spelled)) :
    Rearranged names renamed (members.map fun m => (m.1, m.2.tree)) (spellRecord level members).tree := by
  have htree : (spellRecord level members).tree =
      .object ((members.map fun m => (m.1, m.2.tree)).map fun w => readAs (w.1.toList, w.2)) := by
    change Tree.object ((members.map fun m => (m.1.toList, m.2)).map Spelled.member) = _
    rw [List.map_map, List.map_map]
    rfl
  refine ⟨_, _, [], htree, List.Perm.of_eq (List.append_nil _).symm, ?_, fun _ h => absurd h List.not_mem_nil⟩
  rw [List.forall₂_map_left_iff, List.forall₂_map_right_iff]
  exact List.forall₂_same.mpr fun w _ => named_readAs _

theorem carries_spellFile (file : ConnectionExportFile) : Carries file (spellFile file).tree := by
  refine ⟨versionField, List.mem_cons_self, (file.connections.map spellPortable).map fun value => value.tree, ?_,
    rearranged_spellRecord _ _ 0 _⟩
  rw [List.map_map]
  exact List.forall₂_map_right_iff.mpr
    (List.forall₂_same.mpr fun portable _ => rearranged_spellRecord _ _ 2 (portableMembers portable))

theorem readInt_bounds {low high n : ℤ} {tree : Tree} (h : readInt low high tree = some n) : low ≤ n ∧ n < high := by
  cases tree with
  | number literal => exact of_decide_eq_true (Option.filter_eq_some_iff.mp h).2
  | _ => cases h

theorem readOption_eq_some {α : Type} {read : Tree → Option α} {tree : Tree} {value : Option α}
    (h : readOption read tree = some value) : ∀ a ∈ value, read tree = some a := by
  intro a ha
  unfold readOption at h
  split at h
  · cases h
    cases ha
  · obtain ⟨b, hb, rfl⟩ := Option.map_eq_some_iff.mp h
    cases ha
    exact hb

theorem optional_eq_some {α : Type} {fields : String → Option Tree} {name : String} {read : Tree → Option α}
    {value : Option α} (h : optional fields name read = some value) : ∀ a ∈ value, ∃ tree, read tree = some a := by
  intro a ha
  unfold optional at h
  split at h
  · exact ⟨_, readOption_eq_some h a ha⟩
  · cases h
    cases ha

theorem fits_of_readPortable {portable : PortableConnection} {tree : Tree} (h : readPortable tree = some portable) :
    portable.Fits := by
  rw [readPortable] at h
  -- the fields before the port, and those behind it
  iterate 6 obtain ⟨_, _, h⟩ := Option.bind_eq_some_iff.mp h
  obtain ⟨port, hport, h⟩ := Option.bind_eq_some_iff.mp h
  iterate 10 obtain ⟨_, _, h⟩ := Option.bind_eq_some_iff.mp h
  cases h
  intro n hn
  obtain ⟨value, hvalue⟩ := optional_eq_some hport n hn
  exact readInt_bounds hvalue

theorem fits_of_readFile {file : ConnectionExportFile} {tree : Tree} (h : readFile tree = some file) : file.Fits := by
  simp only [readFile, required, Option.bind_eq_bind, Option.bind_eq_some_iff] at h
  obtain ⟨fields, -, version, ⟨tree', -, hversion⟩, connections, ⟨trees, -, hlist⟩, heq⟩ := h
  cases heq
  refine ⟨?_, fun portable hportable => ?_⟩
  · obtain ⟨n, hn, rfl⟩ := Option.map_eq_some_iff.mp hversion
    have hbounds := readInt_bounds hn
    show n.toNat < 2 ^ 32
    omega
  · cases trees with
    | array elements =>
      obtain ⟨tree, -, htree⟩ := MapM.exists_of_mapM_some hlist portable hportable
      exact fits_of_readPortable htree
    | _ => cases hlist

theorem parse_eq_ok_iff {text : String} {file : ConnectionExportFile} :
    ConnectionExportFile.parse fromJson text = .ok file ↔
      fromJson text = some file ∧ file.saltyConnectionsVersion = currentExportVersion := by
  rw [ConnectionExportFile.parse]
  cases fromJson text with
  | none => simp
  | some found =>
    dsimp only
    split_ifs with hversion
    · constructor
      · intro h
        cases h
      · rintro ⟨h, hcurrent⟩
        cases h
        exact absurd hcurrent hversion
    · rw [not_not] at hversion
      constructor
      · intro h
        cases h
        exact ⟨rfl, hversion⟩
      · rintro ⟨h, -⟩
        cases h
        rfl

theorem fromJson_of_carries {file : ConnectionExportFile} {tree : Tree} {text before after : List Char}
    (hfits : file.Fits) (hcarries : Carries file tree) (hspells : Spells tree text) (hbefore : Blank before)
    (hafter : Blank after) : fromJson (String.ofList (before ++ text ++ after)) = some file := by
  rw [fromJson, String.toList_ofList, read_of_spells hspells hbefore hafter, Option.bind_some]
  exact readFile_of_carries hcarries hfits

theorem fromJson_toJsonPretty {file : ConnectionExportFile} (hfits : file.Fits) :
    fromJson file.toJsonPretty = some file := by
  have h := fromJson_of_carries hfits (carries_spellFile file) (spellFile file).spells blank_nil blank_nil
  rwa [List.nil_append, List.append_nil] at h

theorem fits_new {connections : List PortableConnection} (hports : ∀ portable ∈ connections, portable.Fits) :
    (ConnectionExportFile.new connections).Fits where
  version := by
    change currentExportVersion < 2 ^ 32
    decide
  connections := hports

/-- **An export file is read back.** Whatever layout it has, however its names and texts are spelled, whatever the
order of its fields, whatever other fields stand beside them, and whether it was written before or after the app was renamed: the text is read as the
connections that were exported. What is accepted can be written out, and is accepted again as the same. -/
theorem export_read_back {connections : List PortableConnection} (hports : ∀ portable ∈ connections, portable.Fits)
    {tree : Tree} {text before after : List Char} (hcarries : Carries (.new connections) tree)
    (hspells : Spells tree text) (hbefore : Blank before) (hafter : Blank after) :
    ConnectionExportFile.parse fromJson (String.ofList (before ++ text ++ after)) = .ok (.new connections) ∧
      ConnectionExportFile.parse fromJson (ConnectionExportFile.new connections).toJsonPretty =
        .ok (.new connections) ∧
      ∀ text file, ConnectionExportFile.parse fromJson text = .ok file →
        ConnectionExportFile.parse fromJson file.toJsonPretty = .ok file := by
  have hfits := fits_new hports
  refine ⟨parse_eq_ok_iff.mpr ⟨fromJson_of_carries hfits hcarries hspells hbefore hafter, rfl⟩,
    parse_eq_ok_iff.mpr ⟨fromJson_toJsonPretty hfits, rfl⟩, fun text file hparse => ?_⟩
  obtain ⟨hjson, hversion⟩ := parse_eq_ok_iff.mp hparse
  obtain ⟨tree, -, hread⟩ := Option.bind_eq_some_iff.mp hjson
  exact parse_eq_ok_iff.mpr ⟨fromJson_toJsonPretty (fits_of_readFile hread), hversion⟩

/-- A connection whose name has to be escaped. -/
def staging : PortableConnection where
  name := "Staging \"B\""
  bootstrapServers := "localhost:9092"
  kafkaVersion := "3.7"
  zookeeperPort := some 2181

/-- The name of the connection, with an escape for its first character. -/
def escapedName : Spelled where
  tree := .string [.escape 0x53, .char 't', .char 'a', .char 'g', .char 'i', .char 'n', .char 'g', .char ' ', .char '"',
    .char 'B', .char '"']
  text := "\"\\u0053taging \\\"B\\\"\"".toList
  spells := .string (by decide)

/-- The connection with that name behind its other fields. -/
def escapedStaging : Spelled := spellRecord 2 ((portableMembers staging).tail ++ [("name", escapedName)])

/-- A file of the time before the app was renamed, with its fields in another order and one that is not known. -/
def oldExport : Spelled :=
  spellRecord 0 [("exportedBy", spellText "0.9"), ("connections", .array 1 [escapedStaging]),
    (oldVersionField, .integer 1)]

theorem oldExport_read :
    ConnectionExportFile.parse fromJson (String.ofList ([] ++ oldExport.text ++ ['\n'])) = .ok (.new [staging]) := by
  have hports : ∀ portable ∈ [staging], portable.Fits :=
    List.forall_mem_singleton.mpr fun port hport => by cases hport; decide
  have hunknown : ∀ member ∈ [readAs ("exportedBy".toList, (spellText "0.9").tree)],
      Unknown (fieldNamed [versionField, "connections"] (some (oldVersionField, versionField))) member :=
    List.forall_mem_singleton.mpr ⟨"exportedBy".toList, unescape_written _, by decide +kernel⟩
  have hname : Named ("name".toList, (spellText staging.name).tree) (readAs ("name".toList, escapedName.tree)) :=
    ⟨unescape_written _, .string (unescape_written staging.name.toList) (by decide)⟩
  have hstaging : CarriesConnection staging escapedStaging.tree := by
    refine ⟨_, readAs ("name".toList, escapedName.tree) ::
      ((portableMembers staging).tail.map fun m => readAs (m.1.toList, m.2.tree)), [], rfl, ?_, .cons hname ?_,
      fun _ h => absurd h List.not_mem_nil⟩
    · rw [List.append_nil, List.map_append, List.map_append, List.map_map]
      exact List.perm_append_comm
    · rw [List.map_map]
      exact List.forall₂_map_left_iff.mpr (List.forall₂_map_right_iff.mpr
        (List.forall₂_same.mpr fun m _ => named_readAs _))
  have hcarries : Carries (.new [staging]) oldExport.tree := by
    refine ⟨oldVersionField, List.mem_cons_of_mem _ List.mem_cons_self, [escapedStaging.tree], .cons hstaging .nil,
      _, [readAs (oldVersionField.toList, (Spelled.integer 1).tree),
        readAs ("connections".toList, .array [escapedStaging.tree])], _, rfl, ?_, ?_, hunknown⟩
    · exact List.reverse_perm [readAs (oldVersionField.toList, _), readAs ("connections".toList, _), readAs (_, _)]
    · exact .cons (named_readAs _) (.cons (named_readAs _) .nil)
  exact (export_read_back hports hcarries oldExport.spells blank_nil (List.forall_mem_singleton.mpr rfl)).1

end OffsetExplorer.Core
