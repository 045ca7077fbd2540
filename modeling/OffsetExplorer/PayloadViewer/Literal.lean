import OffsetExplorer.PayloadViewer.Preview

/-!
# The views that show bytes

Hex, base64 and raw text are renderings of the same bytes, and Save writes the one that is shown.

* `readHexDump`: a reader of hex dumps.
* `readHexDump_bytesToHexDump`, `base64ToBytes_wrapBase64`: both views are read back.
* `encode_bytesToText_iff`: when the bytes of a text, as it is shown, are those that it came from.
* **`saved_views`**: what can be had back from a file that Save wrote.
-/

namespace OffsetExplorer.PayloadViewer

/-! ## A reader of hex dumps -/

/-- The value of a digit of the dump. -/
def hexValue (c : Char) : Option ℕ :=
  if '0' ≤ c ∧ c ≤ '9' then some (c.toNat - 48)
  else if 'a' ≤ c ∧ c ≤ 'f' then some (c.toNat - 87)
  else none

/-- Two digits for each byte. -/
def readPairs : List Char → Option (List UInt8)
  | [] => some []
  | [_] => none
  | a :: b :: rest => do
    let high ← hexValue a
    let low ← hexValue b
    let bytes ← readPairs rest
    return .ofNat (high * 16 + low) :: bytes

/-- The digits of a line: those of the fifty characters behind the offset. -/
def readHexLine (line : List Char) : Option (List UInt8) :=
  readPairs (((line.dropWhile (· ≠ ' ')).take 50).filter (· ≠ ' '))

/-- The bytes of a dump, line by line. -/
def readHexDump (dump : String) : Option (List UInt8) :=
  ((dump.toList.splitOn '\n').mapM readHexLine).map List.flatten

variable {row payload : List UInt8} {c : Char} {n width : ℕ}

/-! ## Digits -/

theorem exists_of_mem_toDigits (h : c ∈ Nat.toDigits 16 n) : ∃ d < 16, c = Nat.digitChar d := by
  induction n using Nat.strongRecOn with
  | ind n ih =>
    by_cases hn : n < 16
    · rw [Nat.toDigits_of_lt_base hn, List.mem_singleton] at h
      exact ⟨n, hn, h⟩
    · rw [Nat.toDigits_of_base_le (by omega) (by omega), List.mem_append, List.mem_singleton] at h
      rcases h with h | h
      · exact ih (n / 16) (by omega) h
      · exact ⟨n % 16, Nat.mod_lt n (by omega), h⟩

theorem exists_of_mem_hexPadded (h : c ∈ hexPadded width n) : ∃ d < 16, c = Nat.digitChar d := by
  rcases List.mem_append.mp h with hzero | hdigit
  · exact ⟨0, by omega, List.eq_of_mem_replicate hzero⟩
  · exact exists_of_mem_toDigits hdigit

theorem digitChar_spec : ∀ d < 16, Nat.digitChar d ≠ ' ' ∧ Nat.digitChar d ≠ '\n' ∧
    hexValue (Nat.digitChar d) = some d := by decide

theorem ne_blank_of_mem_hexPadded (h : c ∈ hexPadded width n) : c ≠ ' ' := by
  obtain ⟨d, hd, rfl⟩ := exists_of_mem_hexPadded h
  exact (digitChar_spec d hd).1

theorem hexPadded_two (b : UInt8) :
    hexPadded 2 b.toNat = [Nat.digitChar (b.toNat / 16), Nat.digitChar (b.toNat % 16)] := by
  have hb := b.toNat_lt
  have hhigh : Nat.toDigits 16 (b.toNat / 16) = [Nat.digitChar (b.toNat / 16)] :=
    Nat.toDigits_of_lt_base (by omega)
  by_cases hsmall : b.toNat < 16
  · rw [hexPadded, Nat.toDigits_of_lt_base hsmall, show b.toNat / 16 = 0 by omega,
      show b.toNat % 16 = b.toNat by omega]
    rfl
  · rw [hexPadded, Nat.toDigits_of_base_le (by omega) (by omega), hhigh]
    rfl

/-! ## One line -/

theorem length_intercalate_blank {fields : List (List Char)} (h : ∀ field ∈ fields, field.length = 2) :
    ([' '].intercalate fields).length = 3 * fields.length - 1 := by
  induction fields with
  | nil => rfl
  | cons field rest ih =>
    obtain ⟨hfield, hrest⟩ := List.forall_mem_cons.mp h
    cases rest with
    | nil => rw [List.intercalate_singleton, hfield]; rfl
    | cons next rest =>
      rw [List.intercalate_cons_cons, List.length_append, List.length_append, hfield, ih hrest]
      simp only [List.length_cons, List.length_nil]
      omega

theorem filter_intercalate_blank (fields : List (List Char)) :
    ([' '].intercalate fields).filter (· ≠ ' ') = fields.flatMap fun field => field.filter (· ≠ ' ') := by
  induction fields with
  | nil => rfl
  | cons field rest ih =>
    cases rest with
    | nil => rw [List.intercalate_singleton, List.flatMap_cons, List.flatMap_nil, List.append_nil]
    | cons next rest =>
      have hblank : [' '].filter (· ≠ ' ') = [] := by decide
      rw [List.intercalate_cons_cons, List.filter_append, List.filter_append, ih, hblank, List.append_nil,
        List.flatMap_cons (x := field)]

theorem length_of_mem_hexColumn {field : List Char} (h : field ∈ hexColumn row) : field.length = 2 := by
  rcases List.mem_append.mp h with hbyte | hblank
  · obtain ⟨b, -, rfl⟩ := List.mem_map.mp hbyte
    rw [hexPadded_two]
    rfl
  · rw [List.eq_of_mem_replicate hblank]
    rfl

theorem length_hexColumn (h : row.length ≤ 16) : (hexColumn row).length = 16 := by
  rw [hexColumn, List.length_append, List.length_map, List.length_replicate]
  omega

theorem filter_hexColumn (row : List UInt8) :
    ((hexColumn row).flatMap fun field => field.filter (· ≠ ' ')) =
      row.flatMap fun b => hexPadded 2 b.toNat := by
  have hblank : ∀ k, ((List.replicate k [' ', ' ']).flatMap fun field => field.filter (· ≠ ' ')) = [] := by
    intro k
    induction k with
    | zero => rfl
    | succ k ih =>
      rw [List.replicate_succ, List.flatMap_cons, ih]
      rfl
  rw [hexColumn, List.flatMap_append, hblank, List.append_nil, List.flatMap_map]
  refine List.flatMap_congr fun b _ => List.filter_eq_self.mpr fun c hc => ?_
  exact decide_eq_true (ne_blank_of_mem_hexPadded hc)

theorem readPairs_digits (row : List UInt8) :
    readPairs (row.flatMap fun b => hexPadded 2 b.toNat) = some row := by
  induction row with
  | nil => rfl
  | cons b row ih =>
    have hb := b.toNat_lt
    rw [List.flatMap_cons, hexPadded_two]
    show readPairs (_ :: _ :: (row.flatMap fun b => hexPadded 2 b.toNat)) = _
    rw [readPairs, (digitChar_spec _ (by omega)).2.2, (digitChar_spec _ (by omega)).2.2, ih]
    show some (UInt8.ofNat (b.toNat / 16 * 16 + b.toNat % 16) :: row) = _
    rw [show b.toNat / 16 * 16 + b.toNat % 16 = b.toNat by omega, UInt8.ofNat_toNat]

theorem readHexLine_hexLine (start : ℕ) (h : row.length ≤ 16) : readHexLine (hexLine start row) = some row := by
  have hlength := length_hexColumn h
  have hleft : ([' '].intercalate ((hexColumn row).take 8)).length = 23 := by
    rw [length_intercalate_blank fun field hfield => length_of_mem_hexColumn (List.mem_of_mem_take hfield),
      List.length_take, hlength]
    rfl
  have hright : ([' '].intercalate ((hexColumn row).drop 8)).length = 23 := by
    rw [length_intercalate_blank fun field hfield => length_of_mem_hexColumn (List.mem_of_mem_drop hfield),
      List.length_drop, hlength]
  have hline : hexLine start row = hexPadded 8 start ++
      (([' ', ' '] ++ [' '].intercalate ((hexColumn row).take 8) ++ [' ', ' '] ++
        [' '].intercalate ((hexColumn row).drop 8)) ++
          ([' ', ' ', '|'] ++ row.map asciiColumn ++ ['|'])) := by
    simp only [hexLine, List.append_assoc]
  have hoffset : (hexLine start row).dropWhile (· ≠ ' ') =
      ([' ', ' '] ++ [' '].intercalate ((hexColumn row).take 8) ++ [' ', ' '] ++
        [' '].intercalate ((hexColumn row).drop 8)) ++
          ([' ', ' ', '|'] ++ row.map asciiColumn ++ ['|']) := by
    rw [hline, List.dropWhile_append_of_pos fun c hc => decide_eq_true (ne_blank_of_mem_hexPadded hc)]
    rfl
  rw [readHexLine, hoffset, List.take_left' (by simp only [List.length_append, hleft, hright]; rfl)]
  simp only [List.filter_append, filter_intercalate_blank]
  have hcolumn : (((hexColumn row).take 8).flatMap fun field => field.filter (· ≠ ' ')) ++
      (((hexColumn row).drop 8).flatMap fun field => field.filter (· ≠ ' ')) =
        row.flatMap fun b => hexPadded 2 b.toNat := by
    rw [← List.flatMap_append, List.take_append_drop, filter_hexColumn]
  have hblanks : [' ', ' '].filter (· ≠ ' ') = [] := by decide
  rw [hblanks, List.nil_append, List.append_nil, hcolumn, readPairs_digits]

theorem mem_intercalate_blank {fields : List (List Char)} (h : c ∈ [' '].intercalate fields) :
    c = ' ' ∨ ∃ field ∈ fields, c ∈ field := by
  induction fields with
  | nil => cases h
  | cons field rest ih =>
    cases rest with
    | nil =>
      rw [List.intercalate_singleton] at h
      exact Or.inr ⟨field, List.mem_cons_self, h⟩
    | cons next rest =>
      rw [List.intercalate_cons_cons, List.mem_append, List.mem_append, List.mem_singleton] at h
      rcases h with (h | h) | h
      · exact Or.inr ⟨field, List.mem_cons_self, h⟩
      · exact Or.inl h
      · exact (ih h).imp_right fun ⟨field', hfield', hc⟩ => ⟨field', List.mem_cons_of_mem _ hfield', hc⟩

theorem ne_newline_of_column {fields : List (List Char)} (hfields : ∀ field ∈ fields, field ∈ hexColumn row)
    (h : c ∈ [' '].intercalate fields) : c ≠ '\n' := by
  rcases mem_intercalate_blank h with rfl | ⟨field, hfield, hc⟩
  · decide
  · rcases List.mem_append.mp (hfields field hfield) with hbyte | hblank
    · obtain ⟨b, -, rfl⟩ := List.mem_map.mp hbyte
      obtain ⟨d, hd, rfl⟩ := exists_of_mem_hexPadded hc
      exact (digitChar_spec d hd).2.1
    · rw [List.eq_of_mem_replicate hblank] at hc
      rcases List.mem_cons.mp hc with rfl | hc
      · decide
      · rw [List.mem_singleton.mp hc]
        decide

theorem asciiColumn_ne_newline (b : UInt8) : asciiColumn b ≠ '\n' := by
  rw [asciiColumn]
  split_ifs with h
  · intro heq
    have hcode := congrArg Char.toNat heq
    rw [Utf8.toNat_ofNat_of_valid (by omega)] at hcode
    exact absurd (hcode ▸ h.1) (by decide)
  · decide

theorem newline_not_mem_hexLine (start : ℕ) (row : List UInt8) : '\n' ∉ hexLine start row := by
  have hsep : '\n' ∉ [' ', ' '] := by decide
  have hbar : '\n' ∉ [' ', ' ', '|'] := by decide
  have hend : '\n' ∉ ['|'] := by decide
  intro h
  simp only [hexLine, List.mem_append, hsep, hbar, hend, or_false] at h
  rcases h with ((h | h) | h) | h
  · obtain ⟨d, hd, heq⟩ := exists_of_mem_hexPadded h
    exact (digitChar_spec d hd).2.1 heq.symm
  · exact ne_newline_of_column (fun field hfield => List.mem_of_mem_take hfield) h rfl
  · exact ne_newline_of_column (fun field hfield => List.mem_of_mem_drop hfield) h rfl
  · obtain ⟨b, -, heq⟩ := List.mem_map.mp h
    exact asciiColumn_ne_newline b heq

/-! ## Whole views -/

theorem mapM_mapIdx {rows : List (List UInt8)} {f : ℕ → List UInt8 → List Char}
    (h : ∀ i, ∀ row ∈ rows, readHexLine (f i row) = some row) :
    (rows.mapIdx f).mapM readHexLine = some rows := by
  refine MapM.mapM_eq_some_iff.mpr ?_
  induction rows generalizing f with
  | nil => exact List.Forall₂.nil
  | cons row rows ih =>
    rw [List.mapIdx_cons]
    exact List.Forall₂.cons (h 0 row List.mem_cons_self)
      (ih fun i row hrow => h (i + 1) row (List.mem_cons_of_mem _ hrow))

/-- **A hex dump is read back.** -/
theorem readHexDump_bytesToHexDump (payload : List UInt8) :
    readHexDump (bytesToHexDump payload) = some payload := by
  rw [readHexDump, bytesToHexDump, String.toList_ofList]
  by_cases hempty : Chunks.chunks 16 payload = []
  · have hnil : payload = [] := by rw [← Chunks.flatten_chunks 16 payload, hempty, List.flatten_nil]
    rw [hnil]
    rfl
  · have hlines : ∀ line ∈ (Chunks.chunks 16 payload).mapIdx fun i row => hexLine (16 * i) row, '\n' ∉ line := by
      intro line hline
      obtain ⟨i, hi, rfl⟩ := List.mem_mapIdx.mp hline
      exact newline_not_mem_hexLine _ _
    have hread := mapM_mapIdx fun i row (hrow : row ∈ Chunks.chunks 16 payload) =>
      readHexLine_hexLine (16 * i) (Chunks.length_le_of_mem_chunks (by omega) hrow)
    rw [List.splitOn_intercalate '\n' hlines fun h => hempty (List.mapIdx_eq_nil_iff.mp h), hread,
      Option.map_some, Chunks.flatten_chunks]

/-- **Base64 in lines is read back**: the line ends are white space. -/
theorem base64ToBytes_wrapBase64 (payload : List UInt8) (width : ℕ) :
    base64ToBytes (wrapBase64 (base64Engine payload) width) = some payload := by
  have hfilter : ∀ lines : List (List Char), (['\n'].intercalate lines).filter (fun c => !Base64.isAsciiBlank c) =
      lines.flatten.filter fun c => !Base64.isAsciiBlank c := by
    intro lines
    induction lines with
    | nil => rfl
    | cons line rest ih =>
      cases rest with
      | nil => rw [List.intercalate_singleton, List.flatten_cons, List.flatten_nil, List.append_nil]
      | cons next rest =>
        have hnewline : ['\n'].filter (fun c => !Base64.isAsciiBlank c) = [] := by decide
        rw [List.intercalate_cons_cons, List.filter_append, List.filter_append, ih, hnewline, List.append_nil,
          List.flatten_cons (L := next :: rest), List.filter_append]
  rw [base64ToBytes, wrapBase64, String.toList_ofList]
  refine Base64.decodeForgiving_of_filter ?_
  rw [hfilter, Chunks.flatten_chunks, base64Engine, String.toList_ofList, Base64.filter_encode]

/-! ## Save -/

theorem bytesToBase64_eq (bytes : List UInt8) : bytesToBase64 bytes = base64Engine bytes := by
  have hcodes : (binaryString bytes).map (fun c => UInt8.ofNat c.toNat) = bytes := by
    have hbyte : ∀ b : UInt8, UInt8.ofNat (Char.ofNat b.toNat).toNat = b := fun b => by
      have hb := b.toNat_lt
      rw [Utf8.toNat_ofNat_of_valid (by omega), UInt8.ofNat_toNat]
    rw [binaryString, List.map_flatMap]
    simp only [List.map_map, Function.comp_def, hbyte, List.map_id']
    rw [List.flatMap_id', Chunks.flatten_chunks]
  rw [bytesToBase64, hcodes, base64Engine]

theorem payloadSave_textToBase64 (text : String) :
    payloadSave (textToBase64 text) true = .ok (Utf8.encode text.toList) := by
  rw [payloadSave, textToBase64, bytesToBase64_eq, base64Engine, String.toList_ofList,
    Base64.decodeCanonical_encode]
  rfl

/-! ## Raw text -/

/-- The text of a payload is encoded by it, but for a byte order mark and what is no text. -/
theorem encode_bytesToText_iff (payload : List UInt8) :
    Utf8.encode (bytesToText payload).toList = payload ↔
      ∃ text : List Char, text.head? ≠ some (Char.ofNat 0xFEFF) ∧ payload = Utf8.encode text := by
  have hmark : Utf8.encode [Char.ofNat 0xFEFF] = byteOrderMark := by decide
  rw [bytesToText, String.toList_ofList]
  constructor
  · intro h
    by_cases hprefix : byteOrderMark <+: payload
    · -- the text would begin with itself and a mark in front
      obtain ⟨rest, rfl⟩ := hprefix
      rw [if_pos ⟨rest, rfl⟩, show (byteOrderMark ++ rest).drop 3 = rest from rfl] at h
      have hdecoded := Utf8.decodeLossy_encode_append [Char.ofNat 0xFEFF] rest
      rw [hmark, ← h, Utf8.decodeLossy_encode] at hdecoded
      have hlength := congrArg List.length hdecoded
      rw [List.length_append, List.length_singleton] at hlength
      omega
    · rw [if_neg hprefix] at h
      refine ⟨Utf8.decodeLossy payload, fun hhead => hprefix ?_, h.symm⟩
      obtain ⟨rest, hrest⟩ := List.head?_eq_some_iff.mp hhead
      refine ⟨Utf8.encode rest, ?_⟩
      rw [← hmark, ← Utf8.encode_append, ← h, hrest]
      rfl
  · rintro ⟨text, hhead, rfl⟩
    have hprefix : ¬ byteOrderMark <+: Utf8.encode text := by
      rintro ⟨rest, hrest⟩
      have hdecoded := Utf8.decodeLossy_encode_append [Char.ofNat 0xFEFF] rest
      rw [hmark, hrest, Utf8.decodeLossy_encode] at hdecoded
      exact hhead (hdecoded ▸ rfl)
    rw [if_neg hprefix, Utf8.decodeLossy_encode]

/-- The literal views of the payload viewer, one of which Save writes. -/
inductive LiteralMode where
  | raw
  | hex
  | base64
  deriving DecidableEq

/-- `currentViewText` in a literal mode; it throws where there is no result. -/
def currentViewText (mode : LiteralMode) (payloadBase64 : String) : Option String :=
  (base64ToBytes payloadBase64).map fun bytes =>
    match mode with
    | .raw => bytesToText bytes
    | .hex => bytesToHexDump bytes
    | .base64 => wrapBase64 payloadBase64 mimeWidth

/-- The file that Save writes. -/
def savedFile (mode : LiteralMode) (payloadBase64 : String) : Option (List UInt8) :=
  (currentViewText mode payloadBase64).bind fun text => (payloadSave (textToBase64 text) true).toOption

/-- What can be had back from the files of a payload. -/
structure HadBack (payload : List UInt8) : Prop where
  hex : ∃ dump, (savedFile .hex (base64Engine payload)).bind Utf8.decode = some dump ∧
    readHexDump (String.ofList dump) = some payload
  base64 : ∃ text, (savedFile .base64 (base64Engine payload)).bind Utf8.decode = some text ∧
    base64ToBytes (String.ofList text) = some payload
  /-- Raw text is the payload itself exactly if that is a text without a byte order mark. -/
  raw : savedFile .raw (base64Engine payload) = some payload ↔
    ∃ text : List Char, text.head? ≠ some (Char.ofNat 0xFEFF) ∧ payload = Utf8.encode text
  /-- A text that is shown without a replacement character is all there is. -/
  plain : Utf8.replacement ∉ (bytesToText payload).toList → ¬ byteOrderMark <+: payload →
    savedFile .raw (base64Engine payload) = some payload

/-- **What Save writes is the payload.** For every payload the hex dump and the base64 text are read back to
its bytes, and raw text is those of every text without a byte order mark, of which the replacement character
tells. -/
theorem saved_views (payload : List UInt8) : HadBack payload := by
  have hsaved : ∀ mode text, currentViewText mode (base64Engine payload) = some text →
      savedFile mode (base64Engine payload) = some (Utf8.encode text.toList) := fun mode text htext => by
    rw [savedFile, htext, Option.bind_some, payloadSave_textToBase64]
    rfl
  have hview : ∀ mode, currentViewText mode (base64Engine payload) = some (match mode with
      | .raw => bytesToText payload
      | .hex => bytesToHexDump payload
      | .base64 => wrapBase64 (base64Engine payload) mimeWidth) := fun mode => by
    rw [currentViewText, base64ToBytes_encode]
    cases mode with
    | raw => rfl
    | hex => rfl
    | base64 => rfl
  have hraw := hsaved .raw _ (hview .raw)
  constructor
  · refine ⟨(bytesToHexDump payload).toList, ?_, ?_⟩
    · rw [hsaved .hex _ (hview .hex), Option.bind_some, Utf8.decode_encode]
    · rw [String.ofList_toList, readHexDump_bytesToHexDump]
  · refine ⟨(wrapBase64 (base64Engine payload) mimeWidth).toList, ?_, ?_⟩
    · rw [hsaved .base64 _ (hview .base64), Option.bind_some, Utf8.decode_encode]
    · rw [String.ofList_toList, base64ToBytes_wrapBase64]
  · rw [hraw, Option.some.injEq]
    exact encode_bytesToText_iff payload
  · intro hplain hmark
    rw [hraw, bytesToText, String.toList_ofList, if_neg hmark, Utf8.encode_decodeLossy]
    rwa [bytesToText, String.toList_ofList, if_neg hmark] at hplain

end OffsetExplorer.PayloadViewer
