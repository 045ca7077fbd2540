import OffsetExplorer.Avro.Decode
import OffsetExplorer.DataTab.Filters
import OffsetExplorer.DataTab.Store
import OffsetExplorer.Lib.Base64Encode
import OffsetExplorer.Lib.Chunks
import OffsetExplorer.Lib.Utf8Lossy
import OffsetExplorer.Publish

/-!
# Payloads on the screen

`payloadDecoding`: the bytes of a message arrive in base64 and are shown as text, as a hex dump or as
base64 in lines.

* `base64ToBytes`, `bytesToText`, `base64ToDisplayText`: from the field of a row to a text.
* `detectConfluentAvro`, `decodeValuePreview`, `searchSeesPartialValue`: the cell of the Value column.
* `bytesToHexDump`, `wrapBase64`: the other two views.
* `textToBase64`, `payloadSave`: what Save sends, and what the back end writes.
-/

namespace OffsetExplorer.PayloadViewer

/-! ## Texts -/

/-- `atob`, and the code of each of its characters; it throws where there is no result. -/
def base64ToBytes (base64 : String) : Option (List UInt8) := Base64.decodeForgiving base64.toList

/-- The bytes of a byte order mark, which a decoder drops. -/
def byteOrderMark : List UInt8 := [0xEF, 0xBB, 0xBF]

/-- `TextDecoder.decode`, which drops a byte order mark in front. -/
def bytesToText (bytes : List UInt8) : String :=
  String.ofList (Utf8.decodeLossy (if byteOrderMark <+: bytes then bytes.drop 3 else bytes))

/-- A null field has no text; it throws where there is no result. -/
def base64ToDisplayText : Option String → Option (Option String)
  | none => some none
  | some base64 => (base64ToBytes base64).map fun bytes => some (bytesToText bytes)

/-! ## The cell -/

/-- The schema id of a Confluent header. -/
def detectConfluentAvro : List UInt8 → Option UInt32
  | b₀ :: b₁ :: b₂ :: b₃ :: b₄ :: _ =>
    if b₀ ≠ 0 then none
    else
      some (b₁.toUInt32 <<< 24 ||| b₂.toUInt32 <<< 16 ||| b₃.toUInt32 <<< 8 ||| b₄.toUInt32)
  | _ => none

/-- How many symbols of base64 the cell decodes. -/
def previewChars : ℕ := (DataTab.valuePreviewBytes + 2) / 3 * 4

/-- `VALUE_PREVIEW_DECODED_BYTES`. -/
def valuePreviewDecodedBytes : ℕ := (DataTab.valuePreviewBytes + 2) / 3 * 3

/-- The text of the cell; it throws where there is no result. -/
def decodeValuePreview (payloadBase64 : Option String) : Option String :=
  let payloadBase64 := payloadBase64.getD ""
  if payloadBase64 = "" then some ""
  else
    (base64ToBytes (String.ofList (payloadBase64.toList.take previewChars))).map fun bytes =>
      match detectConfluentAvro bytes with
      | some schemaId => s!"Avro (schema id: {schemaId.toNat})"
      | none => bytesToText bytes

/-- The search box reads only part of the value. -/
def searchSeesPartialValue (payloadBase64 : Option String) (payloadSizeBytes : Option ℕ) : Bool :=
  match payloadBase64, payloadSizeBytes with
  | some _, some payloadSizeBytes => valuePreviewDecodedBytes < payloadSizeBytes
  | _, _ => false

/-! ## Hex and base64 -/

/-- `n.toString(16).padStart(width, "0")`. -/
def hexPadded (width n : ℕ) : List Char := (Nat.toDigits 16 n).leftpad width '0'

/-- A byte of the ASCII column. -/
def asciiColumn (b : UInt8) : Char :=
  if 0x20 ≤ b.toNat ∧ b.toNat ≤ 0x7E then Char.ofNat b.toNat else '.'

/-- The hex column of a row: two digits for each byte, and blanks up to sixteen. -/
def hexColumn (row : List UInt8) : List (List Char) :=
  row.map (fun b => hexPadded 2 b.toNat) ++ List.replicate (16 - row.length) [' ', ' ']

/-- One line of the dump: the offset, the hex digits in two halves, the characters. -/
def hexLine (start : ℕ) (row : List UInt8) : List Char :=
  let hex := hexColumn row
  let left := [' '].intercalate (hex.take 8)
  let right := [' '].intercalate (hex.drop 8)
  hexPadded 8 start ++ [' ', ' '] ++ left ++ [' ', ' '] ++ right ++ [' ', ' ', '|'] ++
    row.map asciiColumn ++ ['|']

/-- Sixteen bytes a line, with their offset and their characters. -/
def bytesToHexDump (bytes : List UInt8) : String :=
  String.ofList (['\n'].intercalate ((Chunks.chunks 16 bytes).mapIdx fun i row => hexLine (16 * i) row))

/-- A long line in pieces of a width. -/
def wrapBase64 (base64 : String) (width : ℕ) : String :=
  String.ofList (['\n'].intercalate (Chunks.chunks width base64.toList))

/-- The line length of MIME, which every caller takes. -/
def mimeWidth : ℕ := 76

/-! ## Save -/

/-- The text that has the bytes as its characters, put together from chunks. -/
def binaryString (bytes : List UInt8) : List Char :=
  (Chunks.chunks 0x8000 bytes).flatMap fun chunk => chunk.map fun b => Char.ofNat b.toNat

/-- `btoa` of that text. -/
def bytesToBase64 (bytes : List UInt8) : String :=
  String.ofList (Base64.encode ((binaryString bytes).map fun c => .ofNat c.toNat))

/-- The bytes of a text as base64. -/
def textToBase64 (text : String) : String := bytesToBase64 (Utf8.encode text.toList)

/-- What the back end writes to the file; `written` tells whether the file system let it. -/
def payloadSave (contentsBase64 : String) (written : Bool) : Except Report (List UInt8) :=
  match Base64.decodeCanonical contentsBase64.toList with
  | none => .error (invalid "contents aren't valid base64")
  | some bytes => if written then .ok bytes else .error (invalid "failed to write the file")

example : bytesToHexDump "Hi!".toUTF8.toList =
    "00000000  48 69 21                                          |Hi!|" := by decide +kernel

end OffsetExplorer.PayloadViewer
