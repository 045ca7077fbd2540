import OffsetExplorer.Lib.Digits
import OffsetExplorer.Lib.Gather
import OffsetExplorer.Protobuf.Accept

/-!
# What is shown of a message without a schema

Nothing is lost: every field is there, under its number, behind the fields of that number before it.

* `Content`, `Field`: what a field says; `Field.Encodes`: the words that say it.
* **`mem_field_iff`**: the words of the grammar are those that say a field.
* `Content.shown`: how a field is shown; `gathered`: a field that is there several times.
* **`addField_gathered`**: one more field, over the values that are gathered by number.
* **`decodeRaw_lossless`**: the object of a payload.
-/

namespace OffsetExplorer.Wire

/-- What a field carries. -/
inductive Content where
  | varint (n : UInt64)
  | fixed64 (n : UInt64)
  | lengthDelimited (content : List UInt8)
  | fixed32 (n : UInt32)

/-- The wire type that the content has on the wire. -/
def Content.wireType : Content → WireType
  | .varint _ => .varint
  | .fixed64 _ => .fixed64
  | .lengthDelimited _ => .lengthDelimited
  | .fixed32 _ => .fixed32

/-- A field of a message: its number, and what it holds. -/
structure Field where
  number : ℕ
  content : Content

/-- The bytes behind the key. -/
def Content.Encodes : Content → List UInt8 → Prop
  | .varint n, word => word ∈ Wire.varint ∧ Wire.number word = n.toNat
  | .fixed64 n, word => word.length = 8 ∧ fromLeBytes word = n.toNat
  | .lengthDelimited content, word =>
    ∃ run ∈ Wire.varint, Wire.number run = content.length ∧ word = run ++ content
  | .fixed32 n, word => word.length = 4 ∧ fromLeBytes word = n.toNat

/-- The bytes of a field: its number and wire type in a key, and its content. -/
def Field.Encodes (f : Field) (word : List UInt8) : Prop :=
  ∃ run ∈ Wire.varint, ∃ rest, word = run ++ rest ∧ 1 ≤ f.number ∧
    Wire.number run = 8 * f.number + f.content.wireType.bits ∧ f.content.Encodes rest

theorem WireType.bits_lt (wireType : WireType) : wireType.bits < 8 := by
  cases wireType <;> decide

theorem fromLeBytes_lt (bytes : List UInt8) : fromLeBytes bytes < 256 ^ bytes.length := by
  induction bytes with
  | nil => simp [fromLeBytes]
  | cons b bytes ih =>
    have hb := b.toNat_lt
    rw [fromLeBytes, List.length_cons, Nat.pow_succ]
    omega

theorem exists_encodes_iff {wireType : WireType} {word : List UInt8} :
    (∃ content : Content, content.wireType = wireType ∧ content.Encodes word) ↔
      word ∈ payload wireType := by
  constructor
  · rintro ⟨content, rfl, h⟩
    cases content with
    | varint n => exact h.1
    | fixed64 n => exact h.1
    | fixed32 n => exact h.1
    | lengthDelimited content =>
      obtain ⟨run, hrun, hlength, hword⟩ := h
      exact ⟨run, hrun, content, hlength.symm, hword⟩
  · intro h
    cases wireType with
    | varint =>
      refine ⟨.varint (.ofNat (number word)), rfl, h, ?_⟩
      exact (UInt64.toNat_ofNat_of_lt (Nat.mod_lt _ (by decide))).symm
    | fixed64 =>
      have hlt := fromLeBytes_lt word
      rw [show word.length = 8 from h] at hlt
      exact ⟨.fixed64 (.ofNat (fromLeBytes word)), rfl, h, (UInt64.toNat_ofNat_of_lt hlt).symm⟩
    | fixed32 =>
      have hlt := fromLeBytes_lt word
      rw [show word.length = 4 from h] at hlt
      exact ⟨.fixed32 (.ofNat (fromLeBytes word)), rfl, h, (UInt32.toNat_ofNat_of_lt hlt).symm⟩
    | lengthDelimited =>
      obtain ⟨run, hrun, content, hlength, hword⟩ := h
      exact ⟨.lengthDelimited content, rfl, run, hrun, hlength.symm, hword⟩

/-- **The words of the grammar** are those that say a field. -/
theorem mem_field_iff {word : List UInt8} : word ∈ field ↔ ∃ f : Field, f.Encodes word := by
  constructor
  · rintro ⟨wireType, run, ⟨hrun, hbits, hpos⟩, rest, hrest, rfl⟩
    obtain ⟨content, rfl, hcontent⟩ := exists_encodes_iff.mpr hrest
    refine ⟨⟨number run / 8, content⟩, run, hrun, rest, rfl, hpos, ?_, hcontent⟩
    dsimp only
    omega
  · rintro ⟨f, run, hrun, rest, rfl, hpos, hkey, hcontent⟩
    have hlt := f.content.wireType.bits_lt
    exact ⟨f.content.wireType, run, ⟨hrun, by omega, by omega⟩, rest,
      exists_encodes_iff.mp ⟨f.content, rfl, hcontent⟩, rfl⟩

/-! ## What is shown -/

/-- How a content is shown, when `nested` says which contents are messages. -/
def Content.shown (texts : Texts) (nested : List UInt8 → Option Fields) : Content → Value
  | .varint n => varintValue n
  | .fixed64 n => .string s!"0x{hexText 16 n.toNat} (double {texts.double n})"
  | .lengthDelimited content => contentValue (nested content) content
  | .fixed32 n => .string s!"0x{hexText 8 n.toNat} (float {texts.float n})"

/-- One value is shown as itself, several are shown as an array. -/
def gathered : List Value → Value
  | [value] => value
  | values => .array values

/-- Of how many fields a value tells. -/
def Value.occurrences : Value → ℕ
  | .array items => items.length
  | _ => 1

/-- The number that a shown varint tells: JSON numbers are exact below 2^53, texts begin with it. -/
def Value.varint? : Value → Option UInt64
  | .number n => if n < jsonSafeMax then some n else none
  | .string s => some (.ofNat (Nat.ofDigitChars 10 (s.toList.takeWhile Char.isDigit) 0))
  | _ => none

/-- The key of a field number. -/
def fieldKey : ℕ ↪ String where
  toFun n := toString n
  inj' _ _ h := Digits.repr_injective h

/-- A field that came more than once is shown as an array. -/
def Value.IsArray (value : Value) : Prop := ∃ items, value = .array items

variable {texts : Texts} {nested : List UInt8 → Option Fields}

theorem not_isArray_shown (content : Content) : ¬ (content.shown texts nested).IsArray := by
  rintro ⟨items, h⟩
  cases content with
  | varint n =>
    rw [Content.shown, varintValue] at h
    split_ifs at h
  | fixed64 n => cases h
  | fixed32 n => cases h
  | lengthDelimited content =>
    change contentValue (nested content) content = _ at h
    unfold contentValue at h
    split at h
    · cases h
    · split at h <;> cases h

theorem varint?_varintValue (n : UInt64) : (varintValue n).varint? = some n := by
  unfold varintValue
  split_ifs with h
  · rw [Value.varint?, if_pos h]
  · have htext : s!"{n.toNat} (signed {n.toInt64.toInt})".toList =
        Nat.toDigits 10 n.toNat ++ ' ' :: ("(signed " ++ toString n.toInt64.toInt ++ ")").toList := by
      have hid : ∀ s : String, toString s = s := fun _ => rfl
      rw [← Nat.toList_repr]
      simp [String.toList_append, hid]
    rw [Value.varint?, htext, Digits.takeWhile_isDigit (Digits.digital_toDigits _) (by decide),
      Nat.ofDigitChars_ten_toDigits, UInt64.ofNat_toNat]

theorem occurrences_gathered {values : List Value} (hne : values ≠ [])
    (hvalues : ∀ value ∈ values, ¬ value.IsArray) : (gathered values).occurrences = values.length := by
  rcases values with _ | ⟨first, _ | ⟨second, values⟩⟩
  · exact absurd rfl hne
  · have hfirst := hvalues first List.mem_cons_self
    cases first with
    | array items => exact absurd ⟨items, rfl⟩ hfirst
    | number n => rfl
    | string s => rfl
    | object fields => rfl
  · rfl

/-- Every number has values, none of which is an array. -/
def Plain (r : Record ℕ (List Value)) : Prop :=
  ∀ n values, r.get? n = some values → values ≠ [] ∧ ∀ value ∈ values, ¬ value.IsArray

/-- The fields of the object. -/
def objectFields (r : Record ℕ (List Value)) : Fields := (r.mapValues gathered).mapKeys fieldKey

theorem entries_objectFields (r : Record ℕ (List Value)) :
    (objectFields r).entries = r.entries.map fun e => (toString e.1, gathered e.2) := by
  change (r.entries.map fun e => (e.1, gathered e.2)).map _ = _
  rw [List.map_map]
  rfl

/-- **One more field**: the values of its number, and it. -/
theorem addField_gathered {r : Record ℕ (List Value)} (h : Plain r) (n : ℕ) (value : Value) :
    addField (objectFields r) (toString n) value = objectFields (r.push n value) := by
  have hget : (objectFields r).get? (toString n) = (r.get? n).map gathered := by
    change (objectFields r).get? (fieldKey n) = _
    rw [objectFields, Record.get?_mapKeys, Record.get?_mapValues]
  have hset : ∀ values, objectFields (r.set n values) =
      (objectFields r).set (toString n) (gathered values) := by
    intro values
    rw [objectFields, Record.mapValues_set, Record.mapKeys_set]
    rfl
  rw [addField, hget, Record.push, hset]
  cases hr : r.get? n with
  | none => rfl
  | some values =>
    obtain ⟨hne, hplain⟩ := h n values hr
    rcases values with _ | ⟨first, _ | ⟨second, values⟩⟩
    · exact absurd rfl hne
    · -- a single value is no array, so that it is not taken for several
      have hfirst := hplain first List.mem_cons_self
      cases first with
      | array items => exact absurd ⟨items, rfl⟩ hfirst
      | number m => rfl
      | string s => rfl
      | object fields => rfl
    · rfl

theorem plain_gather {stream : List (ℕ × Value)} (h : ∀ e ∈ stream, ¬ e.2.IsArray) :
    Plain (Record.gather stream) := by
  intro n values hn
  obtain ⟨rfl, hne⟩ := Record.eq_valuesOf_of_mem (Record.mem_entries_of_get? hn)
  refine ⟨hne, fun value hvalue => ?_⟩
  obtain ⟨e, he, rfl⟩ := List.mem_map.mp hvalue
  exact h e (List.mem_of_mem_filter he)

/-- A field, as it comes to the object. -/
def Field.entry (texts : Texts) (nested : List UInt8 → Option Fields) (f : Field) : ℕ × Value :=
  (f.number, f.content.shown texts nested)

/-- **All fields**: the object gathers them by number. -/
theorem foldl_addField_gather (fields : List Field) :
    fields.foldl (fun object f => addField object (toString f.number) (f.content.shown texts nested)) ∅ =
      objectFields (.gather (fields.map (Field.entry texts nested))) := by
  induction fields using List.reverseRecOn with
  | nil => rfl
  | append_singleton fields f ih =>
    have hplain : Plain (.gather (fields.map (Field.entry texts nested))) := by
      refine plain_gather fun e he => ?_
      obtain ⟨g, -, rfl⟩ := List.mem_map.mp he
      exact not_isArray_shown g.content
    rw [List.foldl_append, ih, List.foldl_cons, List.foldl_nil, addField_gathered hplain,
      List.map_append, List.map_singleton, Record.gather_concat]
    rfl

/-! ## The decoder -/

section

variable (texts) {calls : List UInt8 → Call Fields} {bytes rest : List UInt8} {index : ℕ}

theorem toNat_ofNat_number (run : List UInt8) : (UInt64.ofNat (number run)).toNat = number run :=
  UInt64.toNat_ofNat_of_lt (Nat.mod_lt _ (by decide))

theorem readVarint_eq_some {run : List UInt8} (hrun : run ∈ varint)
    (hsplit : bytes.drop index = run ++ rest) :
    readVarint bytes index = some (.ofNat (number run), run.length) := by
  rw [readVarint_eq, hsplit, Varint.takeRun_append hrun, Option.map_some, number]
  congr 2
  exact UInt64.toNat_inj.mp (by simp)

theorem drop_add_length {word : List UInt8} (hsplit : bytes.drop index = word ++ rest) :
    bytes.drop (index + word.length) = rest := by
  rw [← List.drop_drop, hsplit, List.drop_left]

theorem decodeValue_encodes (hcalls : ∀ content, content.length < 2 ^ 63 →
      calls content = .ok (nested content)) (hfit : bytes.length < 2 ^ 63)
    (hindex : index ≤ bytes.length) {content : Content} {word : List UInt8}
    (hword : content.Encodes word) (hsplit : bytes.drop index = word ++ rest) :
    decodeValue texts calls bytes index content.wireType =
      .ok (some (content.shown texts nested, index + word.length)) := by
  have hlength := congrArg List.length hsplit
  rw [List.length_drop, List.length_append] at hlength
  cases content with
  | varint n =>
    have hn : UInt64.ofNat (number word) = n := by rw [hword.2, UInt64.ofNat_toNat]
    simp only [Content.wireType, decodeValue, readVarint_eq_some hword.1 hsplit, hn, Content.shown]
  | fixed64 n =>
    have hn : UInt64.ofNat (fromLeBytes ((bytes.drop index).take 8)) = n := by
      rw [hsplit, ← hword.1, List.take_left, hword.2, UInt64.ofNat_toNat]
    rw [Content.wireType, decodeValue, if_neg (by have := hword.1; omega), fixed64Value, hn, hword.1]
    rfl
  | fixed32 n =>
    have hn : UInt32.ofNat (fromLeBytes ((bytes.drop index).take 4)) = n := by
      rw [hsplit, ← hword.1, List.take_left, hword.2, UInt32.ofNat_toNat]
    rw [Content.wireType, decodeValue, if_neg (by have := hword.1; omega), fixed32Value, hn, hword.1]
    rfl
  | lengthDelimited content =>
    obtain ⟨run, hrun, hnumber, rfl⟩ := hword
    rw [List.append_assoc] at hsplit
    rw [List.length_append] at hlength
    have hread := readVarint_eq_some hrun hsplit
    have hcount : (UInt64.ofNat (number run)).toNat = content.length := by
      rw [toNat_ofNat_number, hnumber]
    have htake : (bytes.drop (index + run.length)).take content.length = content := by
      rw [drop_add_length hsplit, List.take_left]
    simp only [Content.wireType, decodeValue, hread, hcount, checkedAdd]
    rw [if_pos (by omega)]
    dsimp only
    rw [if_neg (by omega), htake, hcalls content (by omega), List.length_append, ← Nat.add_assoc]
    rfl

theorem decodeField_encodes (hcalls : ∀ content, content.length < 2 ^ 63 →
      calls content = .ok (nested content)) (hfit : bytes.length < 2 ^ 63)
    (hindex : index ≤ bytes.length) {f : Field} {word : List UInt8} (hword : f.Encodes word)
    (hsplit : bytes.drop index = word ++ rest) :
    decodeField texts calls bytes index =
      .ok (some (toString f.number, f.content.shown texts nested, index + word.length)) := by
  obtain ⟨run, hrun, body, rfl, hpos, hkey, hbody⟩ := hword
  rw [List.append_assoc] at hsplit
  have hread := readVarint_eq_some hrun hsplit
  have hlength := congrArg List.length hsplit
  rw [List.length_drop, List.length_append] at hlength
  have hraw : (UInt64.ofNat (number run)).toNat = 8 * f.number + f.content.wireType.bits := by
    rw [toNat_ofNat_number, hkey]
  have hbits := f.content.wireType.bits_lt
  have htype : WireType.fromBits (UInt64.ofNat (number run) &&& 0x07) = some f.content.wireType := by
    rw [fromBits_eq_some_iff, toNat_wireBits, hraw]
    omega
  have hnumber : (UInt64.ofNat (number run) >>> 3).toNat = f.number := by
    rw [toNat_fieldNumber, hraw]
    omega
  have hzero : ¬ UInt64.ofNat (number run) >>> 3 = 0 := by
    intro h
    rw [h] at hnumber
    exact absurd hnumber (by simp; omega)
  have hvalue := decodeValue_encodes texts hcalls hfit (by omega) hbody
    (drop_add_length hsplit)
  simp only [decodeField, hread, htype, if_neg hzero, hvalue, hnumber]
  rw [List.length_append, ← Nat.add_assoc]
  rfl

/-- **The loop** adds the encoded fields one after the other. -/
theorem decodeLoop_encodes (hcalls : ∀ content, content.length < 2 ^ 63 →
      calls content = .ok (nested content)) (hfit : bytes.length < 2 ^ 63)
    (hindex : index ≤ bytes.length) {fields : List Field} {words : List (List UInt8)}
    (hwords : List.Forall₂ Field.Encodes fields words) (hsplit : bytes.drop index = words.flatten)
    {rounds : ℕ} (hrounds : bytes.length ≤ index + rounds) (object : Fields) :
    decodeLoop texts calls bytes rounds index object = .ok (some (fields.foldl
      (fun object f => addField object (toString f.number) (f.content.shown texts nested)) object)) := by
  induction hwords generalizing rounds index object with
  | nil =>
    have hover : ¬ index < bytes.length := by
      have hlength := congrArg List.length hsplit
      rw [List.length_drop] at hlength
      simp at hlength
      omega
    cases rounds <;> rw [decodeLoop, if_neg hover] <;> rfl
  | @cons f word fields words hword _ ih =>
    have hlength := congrArg List.length hsplit
    rw [List.length_drop, List.flatten_cons, List.length_append] at hlength
    have hpos : 0 < word.length := by
      refine List.length_pos_iff.mpr fun hnil => nil_notMem_field ?_
      exact hnil ▸ mem_field_iff.mpr ⟨f, hword⟩
    obtain ⟨rounds, rfl⟩ : ∃ more, rounds = more + 1 := ⟨rounds - 1, by omega⟩
    have hfield := decodeField_encodes texts hcalls hfit hindex hword hsplit
    rw [decodeLoop, if_pos (by omega), hfield]
    exact ih (by omega) (drop_add_length hsplit) (by omega) _

end

/-- The message that a content is taken for, on a stack with a frame for each depth. -/
def nestedFields (texts : Texts) (content : List UInt8) : Option Fields :=
  (parseNested (fun inner => decodeFields texts (maxDepth + 1) inner 1) content).toOption.join

theorem parseNested_eq (texts : Texts) {content : List UInt8} (hcontent : content.length < 2 ^ 63) :
    parseNested (fun inner => decodeFields texts (maxDepth + 1) inner 1) content =
      .ok (nestedFields texts content) := by
  rw [nestedFields, parseNested]
  split_ifs
  · rfl
  · obtain ⟨result, hcall, -⟩ := decodeFields_spec texts (Nat.le_refl (maxDepth + 1 + 1))
      (Nat.succ_pos maxDepth) hcontent
    rw [hcall]
    rfl

theorem returns_encodes (texts : Texts) (slice : Slice) {fields : List Field}
    {words : List (List UInt8)} (hwords : List.Forall₂ Field.Encodes fields words)
    (hslice : slice.bytes = words.flatten) :
    Returns texts slice (some (.object (objectFields
      (.gather (fields.map (Field.entry texts (nestedFields texts))))).entries)) := by
  intro stack hstack
  have henough : maxDepth + 2 ≤ maxDepth + 2 + 0 := Nat.le_refl _
  have hloop := decodeLoop_encodes texts (fun _ => parseNested_eq texts) slice.fits (Nat.zero_le _) hwords
    hslice (Nat.le_add_left ..) (∅ : Fields)
  rw [decodeRaw, decodeFields_stack texts hstack henough (by omega) (Nat.succ_pos _), decodeFields,
    if_neg (Nat.not_lt_zero _), hloop, foldl_addField_gather]
  rfl

/-- **A payload without a schema** is shown with all that its fields say: each number once, where it is
first, with the values of its fields in their order. -/
theorem decodeRaw_lossless (texts : Texts) (slice : Slice) {fields : List Field}
    {words : List (List UInt8)} (hwords : List.Forall₂ Field.Encodes fields words)
    (hslice : slice.bytes = words.flatten) :
    ∃ numbers : List ℕ,
      Returns texts slice (some (.object (numbers.map fun n =>
        (toString n, gathered ((fields.filter fun f => f.number = n).map fun f =>
          f.content.shown texts (nestedFields texts)))))) ∧
      (∀ n, n ∈ numbers ↔ n ∈ fields.map Field.number) ∧
      (numbers.Pairwise fun m n =>
        (fields.map Field.number).idxOf m < (fields.map Field.number).idxOf n) ∧
      (numbers.map fun n => (gathered ((fields.filter fun f => f.number = n).map fun f =>
        f.content.shown texts (nestedFields texts))).occurrences).sum = fields.length ∧
      ∀ f ∈ fields, ∀ n, f.content = .varint n →
        (f.content.shown texts (nestedFields texts)).varint? = some n := by
  obtain ⟨stream, hstream⟩ : ∃ stream, stream = fields.map (Field.entry texts (nestedFields texts)) :=
    ⟨_, rfl⟩
  have hnumbers : stream.map Prod.fst = fields.map Field.number := by
    rw [hstream, List.map_map]
    rfl
  have hvalues : ∀ n, Record.valuesOf n stream = (fields.filter fun f => f.number = n).map fun f =>
      f.content.shown texts (nestedFields texts) := by
    intro n
    rw [Record.valuesOf, hstream, List.filter_map, List.map_map]
    rfl
  have hplain : ∀ e ∈ (Record.gather stream).entries, e.2 = Record.valuesOf e.1 stream ∧
      (gathered (Record.valuesOf e.1 stream)).occurrences = e.2.length := by
    rintro ⟨n, values⟩ he
    obtain ⟨rfl, hne⟩ := Record.eq_valuesOf_of_mem he
    refine ⟨rfl, occurrences_gathered hne fun value hvalue => ?_⟩
    dsimp only at hvalue
    rw [hvalues] at hvalue
    obtain ⟨f, -, rfl⟩ := List.mem_map.mp hvalue
    exact not_isArray_shown f.content
  refine ⟨(Record.gather stream).keys, ?_, fun n => ?_, ?_, ?_, fun f _ n hf => ?_⟩
  · have hreturns := returns_encodes texts slice hwords hslice
    rw [← hstream, entries_objectFields] at hreturns
    have hentries : (Record.gather stream).keys.map (fun n => (toString n, gathered
        ((fields.filter fun f => f.number = n).map fun f =>
          f.content.shown texts (nestedFields texts)))) =
        (Record.gather stream).entries.map fun e => (toString e.1, gathered e.2) := by
      rw [Record.keys, List.map_map]
      refine List.map_congr_left fun e he => ?_
      simp only [Function.comp_apply, ← hvalues, ← (hplain e he).1]
    rwa [hentries]
  · rw [Record.mem_keys_gather, hnumbers]
  · have hpairwise := Record.pairwise_keys_gather stream
    rwa [hnumbers] at hpairwise
  · have hsum := Record.sum_length_gather stream
    rw [hstream, List.length_map, ← hstream, Record.values, List.map_map] at hsum
    rw [← hsum, Record.keys, List.map_map]
    refine congrArg List.sum (List.map_congr_left fun e he => ?_)
    simp only [Function.comp_apply, ← hvalues, (hplain e he).2]
  · rw [hf]
    exact varint?_varintValue n

/-- A number, a text, and the number again. -/
def orderFields : List Field :=
  [⟨1, .varint 150⟩, ⟨2, .lengthDelimited [0x68, 0x69]⟩, ⟨1, .varint 3⟩]

/-- A number, a text, and the same number's field again. -/
def orderSlice : Slice := ⟨[0x08, 0x96, 0x01, 0x12, 0x02, 0x68, 0x69, 0x08, 0x03], by decide⟩

theorem orderFields_encodes : List.Forall₂ Field.Encodes orderFields
    [[0x08, 0x96, 0x01], [0x12, 0x02, 0x68, 0x69], [0x08, 0x03]] := by
  have hone : ∀ b : UInt8, b.toNat < 128 → [b] ∈ varint := fun b hb =>
    Varint.cons_mem_runs_iff.mpr (.inl ⟨hb, rfl⟩)
  have htwo : [0x96, 0x01] ∈ varint :=
    Varint.cons_mem_runs_iff.mpr (.inr ⟨by decide, Varint.cons_mem_runs_iff.mpr (.inl (by decide))⟩)
  refine .cons ?_ (.cons ?_ (.cons ?_ .nil))
  · exact ⟨[0x08], hone _ (by decide), [0x96, 0x01], rfl, by decide, by decide, htwo, by decide⟩
  · exact ⟨[0x12], hone _ (by decide), [0x02, 0x68, 0x69], rfl, by decide, by decide, [0x02],
      hone _ (by decide), by decide, rfl⟩
  · exact ⟨[0x08], hone _ (by decide), [0x03], rfl, by decide, by decide, hone _ (by decide),
      by decide⟩

theorem orders_lossless :
    ∃ numbers : List ℕ, numbers.Pairwise (fun m n => [1, 2, 1].idxOf m < [1, 2, 1].idxOf n) ∧
      (∀ n, n ∈ numbers ↔ n ∈ [1, 2, 1]) ∧ ∃ values : ℕ → Value,
        Returns ⟨fun _ => "", fun _ => ""⟩ orderSlice
          (some (.object (numbers.map fun n => (toString n, values n)))) := by
  obtain ⟨numbers, hreturns, hmem, hpairwise, -⟩ :=
    decodeRaw_lossless ⟨fun _ => "", fun _ => ""⟩ orderSlice orderFields_encodes rfl
  exact ⟨numbers, hpairwise, hmem, _, hreturns⟩

end OffsetExplorer.Wire
