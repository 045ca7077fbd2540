import OffsetExplorer.Fetch.Poll
import OffsetExplorer.PayloadViewer.Decoding
import OffsetExplorer.Workspace.FullPayload

/-!
# What a row shows of its payload

A fetch carries the front of a payload in base64, and the cell decodes the front of that.

* `base64DecodedLength_encode`, `base64ToBytes_encode`: the fields that the back end writes are read.
* `detectConfluentAvro_eq`: both sides find the same header.
* `isPayloadTruncated_row`: the viewer knows whether it has all of a payload.
* `Gap`: the payloads that the search box calls searched and does not have.
* **`cell_of_row`**: what the cell makes of a row, and when the search box sees all of it.
-/

namespace OffsetExplorer.PayloadViewer

open Fetch Workspace

/-- The engine of the back end. -/
def base64Engine (bytes : List UInt8) : String := String.ofList (Base64.encode bytes)

/-- The text of a cell for these bytes. -/
def cellText (bytes : List UInt8) : String :=
  match detectConfluentAvro bytes with
  | some schemaId => s!"Avro (schema id: {schemaId.toNat})"
  | none => bytesToText bytes

/-! ## The fields that the back end writes -/

variable {bytes : List UInt8} {c : Loop} {m : BorrowedMessage}

@[simp] theorem base64ToBytes_encode (bytes : List UInt8) : base64ToBytes (base64Engine bytes) = some bytes := by
  rw [base64ToBytes, base64Engine, String.toList_ofList, Base64.decodeForgiving_encode]

theorem endsWith_iff {text suffix : String} : text.endsWith suffix = true ↔ suffix.toList <:+ text.toList := by
  have hslice := @String.Slice.endsWith_string_iff suffix text.toSlice
  rwa [String.copy_toSlice] at hslice

theorem base64DecodedLength_encode (bytes : List UInt8) :
    DataTab.base64DecodedLength (base64Engine bytes) = bytes.length := by
  have hlength : (base64Engine bytes).length = (bytes.length + 2) / 3 * 4 := by
    rw [base64Engine, String.length_ofList, Base64.length_encode]
  have htwo : (base64Engine bytes).endsWith "==" = decide (bytes.length % 3 = 1) := by
    rw [Bool.eq_iff_iff, decide_eq_true_iff, endsWith_iff, base64Engine,
      String.toList_ofList (l := Base64.encode bytes)]
    exact Base64.two_suffix_encode bytes
  have hone : (base64Engine bytes).endsWith "=" = decide (bytes.length % 3 ≠ 0) := by
    rw [Bool.eq_iff_iff, decide_eq_true_iff, endsWith_iff, base64Engine,
      String.toList_ofList (l := Base64.encode bytes)]
    exact Base64.one_suffix_encode bytes
  rw [DataTab.base64DecodedLength, hlength, htwo, hone]
  simp only [decide_eq_true_eq]
  split_ifs <;> omega

/-! ## The header -/

theorem toNat_header (b₁ b₂ b₃ b₄ : UInt8) :
    (b₁.toUInt32 <<< 24 ||| b₂.toUInt32 <<< 16 ||| b₃.toUInt32 <<< 8 ||| b₄.toUInt32).toNat =
      Bytes.fromBe [b₁, b₂, b₃, b₄] := by
  have h₁ := b₁.toNat_lt
  have h₂ := b₂.toNat_lt
  have h₃ := b₃.toNat_lt
  have h₄ := b₄.toNat_lt
  have hshift : ∀ (b : UInt8) (k : UInt32), k.toNat ≤ 24 → (b.toUInt32 <<< k).toNat = b.toNat <<< k.toNat := by
    intro b k hk
    have hb := b.toNat_lt
    rw [UInt32.toNat_shiftLeft, Nat.mod_eq_of_lt (show k.toNat < 32 by omega), Nat.mod_eq_of_lt,
      UInt8.toNat_toUInt32]
    rw [Nat.shiftLeft_eq]
    calc b.toUInt32.toNat * 2 ^ k.toNat < 2 ^ 8 * 2 ^ 24 :=
          Nat.mul_lt_mul_of_lt_of_le hb (Nat.pow_le_pow_right (by omega) hk) (by omega)
      _ = 2 ^ 32 := rfl
  rw [UInt32.toNat_or, UInt32.toNat_or, UInt32.toNat_or, hshift _ _ (by decide), hshift _ _ (by decide),
    hshift _ _ (by decide), Nat.or_assoc, Nat.or_assoc]
  rw [show (8 : UInt32).toNat = 8 from rfl, show (16 : UInt32).toNat = 16 from rfl,
    show (24 : UInt32).toNat = 24 from rfl, UInt8.toNat_toUInt32]
  have hlast : b₃.toNat <<< 8 ||| b₄.toNat = b₃.toNat * 256 + b₄.toNat := by
    rw [← Nat.shiftLeft_add_eq_or_of_lt h₄, Nat.shiftLeft_eq]
  have hmiddle : b₂.toNat <<< 16 ||| (b₃.toNat * 256 + b₄.toNat) =
      b₂.toNat * 65536 + (b₃.toNat * 256 + b₄.toNat) := by
    rw [← Nat.shiftLeft_add_eq_or_of_lt (by omega), Nat.shiftLeft_eq]
  rw [hlast, hmiddle, ← Nat.shiftLeft_add_eq_or_of_lt (by omega), Nat.shiftLeft_eq]
  simp only [Bytes.fromBe, List.foldl_cons, List.foldl_nil]
  omega

/-- **Both sides find the same header.** -/
theorem detectConfluentAvro_eq (bytes : List UInt8) : detectConfluentAvro bytes = Avro.detectWireFormat bytes := by
  unfold Avro.detectWireFormat
  split
  · rename_i b₁ b₂ b₃ b₄ rest
    rw [detectConfluentAvro, if_neg (not_not_intro rfl), ← toNat_header, UInt32.ofNat_toNat]
  · rename_i hother
    unfold detectConfluentAvro
    split
    · rename_i b₀ b₁ b₂ b₃ b₄ rest
      refine if_pos fun hzero => hother b₁ b₂ b₃ b₄ rest ?_
      rw [hzero]
    · rfl

/-! ## The cell -/

theorem decodeValuePreview_encode (bytes : List UInt8) :
    decodeValuePreview (some (base64Engine bytes)) = some (cellText (bytes.take valuePreviewDecodedBytes)) := by
  have hcut : String.ofList ((base64Engine bytes).toList.take previewChars) =
      base64Engine (bytes.take valuePreviewDecodedBytes) := by
    rw [base64Engine, base64Engine, String.toList_ofList, previewChars, valuePreviewDecodedBytes,
      Base64.take_encode]
  rw [decodeValuePreview, Option.getD_some]
  split_ifs with hempty
  · have hnil : bytes = [] := by
      have hlength := base64DecodedLength_encode bytes
      rw [hempty] at hlength
      exact List.length_eq_zero_iff.mp (Int.natCast_eq_zero.mp hlength.symm)
    rw [hnil]
    rfl
  · rw [hcut, base64ToBytes_encode]
    rfl

/-- The text of a cell that decodes the front of a text, one without a header and without a byte order mark:
the characters in front of the cut, and one replacement character if the cut goes through the next one. -/
theorem cellText_take_encode {text : List Char} (hmark : text.head? ≠ some (Char.ofNat 0xFEFF)) (n : ℕ)
    (hheader : detectConfluentAvro ((Utf8.encode text).take n) = none) :
    cellText ((Utf8.encode text).take n) = String.ofList (Utf8.whole n text ++
      if Utf8.encode (Utf8.whole n text) = (Utf8.encode text).take n then [] else [Utf8.replacement]) := by
  have hplain : ¬ byteOrderMark <+: (Utf8.encode text).take n := by
    rintro ⟨rest, hrest⟩
    have hsplit : Utf8.encode text = byteOrderMark ++ (rest ++ (Utf8.encode text).drop n) := by
      rw [← List.append_assoc, hrest, List.take_append_drop]
    have hmarked := Utf8.decodeLossy_encode_append [Char.ofNat 0xFEFF] (rest ++ (Utf8.encode text).drop n)
    rw [show Utf8.encode [Char.ofNat 0xFEFF] = byteOrderMark by decide, ← hsplit, Utf8.decodeLossy_encode]
      at hmarked
    exact hmark (hmarked ▸ rfl)
  rw [cellText, hheader]
  simp only
  rw [bytesToText, if_neg hplain, Utf8.decodeLossy_take]
  refine congrArg (fun tail => String.ofList (Utf8.whole n text ++ tail)) (if_congr ?_ rfl rfl)
  rw [← List.length_take]
  exact ⟨(Utf8.encode_whole_isPrefix_take n text).eq_of_length, congrArg List.length⟩

/-! ## The row of a message -/

/-- A payload that the search box takes for searched, though the row has only `sent` of it. -/
def Gap (sent payload : List UInt8) : Prop :=
  sent.length < payload.length ∧ payload.length ≤ valuePreviewDecodedBytes

instance (sent payload : List UInt8) : Decidable (Gap sent payload) := inferInstanceAs (Decidable (_ ∧ _))

/-- What a row that carries `sent` of a payload shows of it. -/
structure Shows (sent payload : List UInt8) (row : TopicMessage) : Prop where
  /-- The viewer knows whether it has all of the payload. -/
  truncated : isPayloadTruncated row.payloadBase64 row.payloadSizeBytes = true ↔ sent ≠ payload
  cell : decodeValuePreview row.payloadBase64 = some (cellText (sent.take valuePreviewDecodedBytes))
  /-- The cell has all of it where the search box says so, but for the gap. -/
  searched : sent.take valuePreviewDecodedBytes = payload ↔
    searchSeesPartialValue row.payloadBase64 row.payloadSizeBytes = false ∧ ¬ Gap sent payload
  gap : Gap sent payload → payload.length = 4097 ∨ payload.length = 4098
  /-- Of a text the cell has the characters in front of the cut, and one replacement character exactly if the cut
  goes through the next one. -/
  text : ∀ text, payload = Utf8.encode text → text.head? ≠ some (Char.ofNat 0xFEFF) →
    detectConfluentAvro (sent.take valuePreviewDecodedBytes) = none → ∃ seen, seen <+: text ∧
      (seen = text ∨ DataTab.valuePreviewBytes < (Utf8.encode seen).length + 4) ∧
      decodeValuePreview row.payloadBase64 = some (String.ofList (seen ++
        if Utf8.encode seen = sent.take valuePreviewDecodedBytes then [] else [Utf8.replacement]))

theorem payloadPreviewSlice_eq (payload : List UInt8) (bound : Option UInt32) :
    ∃ n, payloadPreviewSlice payload bound = payload.take n ∧
      (payloadPreviewSlice payload bound = payload ∨ ∃ max ∈ bound, n = max.toNat) := by
  cases bound with
  | none => exact ⟨payload.length, (List.take_length).symm, Or.inl rfl⟩
  | some max =>
    refine ⟨max.toNat, ?_, Or.inr ⟨max, rfl, rfl⟩⟩
    rw [payloadPreviewSlice, Nat.min_comm, ← List.take_take, List.take_length]

theorem isPayloadTruncated_encode (sent payload : List UInt8) :
    isPayloadTruncated (some (base64Engine sent)) (some payload.length) =
      decide (sent.length < payload.length) := by
  rw [isPayloadTruncated, base64DecodedLength_encode, decide_eq_decide, Nat.cast_lt]

/-- **What a row shows of its payload.** The payload is any byte string, and the bound of the previews is at
least that of the cell, as the front end has it. -/
theorem cell_of_row (hencode : c.encode = base64Engine) (hinclude : c.filter.includePayload = true)
    (hbound : ∀ max ∈ c.filter.maxPayloadPreviewBytes, DataTab.valuePreviewBytes ≤ max.toNat)
    {payload : List UInt8} (hpayload : m.payload = some payload) :
    Shows (payloadPreviewSlice payload c.filter.maxPayloadPreviewBytes) payload (c.row m) := by
  have hrow : (c.row m).payloadBase64 =
      some (base64Engine (payloadPreviewSlice payload c.filter.maxPayloadPreviewBytes)) := by
    rw [← hencode, Loop.row, if_pos hinclude, hpayload]
    rfl
  have hsize : (c.row m).payloadSizeBytes = some payload.length := by
    rw [Loop.row, hpayload]
    rfl
  obtain ⟨n, hslice, hall⟩ := payloadPreviewSlice_eq payload c.filter.maxPayloadPreviewBytes
  have hleast : payload.length ≤ n ∨ DataTab.valuePreviewBytes ≤ n := by
    rcases hall with hall | ⟨max, hmax, rfl⟩
    · exact Or.inl ((List.take_eq_self_iff payload).mp (hslice ▸ hall))
    · exact Or.inr (hbound max hmax)
  rw [hslice]
  rw [hslice] at hrow
  have hpreview : DataTab.valuePreviewBytes = 4096 := rfl
  have hdecoded : valuePreviewDecodedBytes = 4098 := rfl
  constructor
  · rw [hrow, hsize, isPayloadTruncated_encode, decide_eq_true_iff, List.length_take, ne_eq, List.take_eq_self_iff]
    omega
  · rw [hrow]
    exact decodeValuePreview_encode _
  · rw [hrow, hsize, searchSeesPartialValue, decide_eq_false_iff_not, List.take_take, List.take_eq_self_iff, Gap,
      List.length_take]
    omega
  · rintro ⟨hless, hle⟩
    rw [List.length_take] at hless
    omega
  · intro text htext hmark hheader
    rw [List.take_take] at hheader
    rw [hrow, decodeValuePreview_encode, List.take_take]
    subst htext
    refine ⟨Utf8.whole (min valuePreviewDecodedBytes n) text, Utf8.whole_prefix _ _, ?_, ?_⟩
    · rcases Utf8.whole_eq_or (min valuePreviewDecodedBytes n) text with hwhole | hwhole
      · exact Or.inl hwhole
      · by_cases hshort : (Utf8.encode text).length ≤ min valuePreviewDecodedBytes n
        · exact Or.inl (Utf8.whole_eq_self.mpr hshort)
        · exact Or.inr (by omega)
    · exact congrArg some (cellText_take_encode hmark _ hheader)

/-- A fetch of one message, with the least previews. -/
def leastFetch : Loop where
  filter := { maxTotalMessages := some 1, includePayload := true, maxPayloadPreviewBytes := some 4096 }
  plan := ⟨1, .ofList [((0 : ℤ), (1 : ℤ))], ∅, ∅⟩
  maxMessageSizeBytes := 1048576
  maxTotalPayloadBytes := none
  encode := base64Engine

theorem leastFetch_gap : Gap (List.replicate 4096 0x61) (List.replicate 4097 0x61) ∧
    Shows (List.replicate 4096 0x61) (List.replicate 4097 0x61)
      (leastFetch.row { partition := 0, offset := 7, payload := some (List.replicate 4097 0x61) }) := by
  have hslice : payloadPreviewSlice (List.replicate 4097 0x61) leastFetch.filter.maxPayloadPreviewBytes =
      List.replicate 4096 0x61 := by
    show (List.replicate 4097 0x61).take _ = _
    rw [List.take_replicate, List.length_replicate]
    rfl
  refine ⟨⟨by rw [List.length_replicate, List.length_replicate]; decide, by rw [List.length_replicate]; decide⟩, ?_⟩
  rw [← hslice]
  exact cell_of_row rfl rfl (fun max hmax => by cases hmax; decide) rfl

end OffsetExplorer.PayloadViewer
