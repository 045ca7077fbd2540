import OffsetExplorer.Lib.Record
import OffsetExplorer.Lib.Utf8
import Mathlib.Algebra.Ring.Nat

/-!
# Reading a payload without a schema

`wire.rs` of the protobuf crate: fields are read from the payload by their wire types alone. A
length-delimited field is tried as a message of its own, up to a depth; what is no message is shown as
text or as bytes.

* `readVarint`, `zigzagDecode`, `WireType`: the parts of a field.
* `Value`: what is shown; `addField`: a field that is there again makes an array.
* `decodeFields`, `parseNested`, `decodeRaw`: the recursion, with a stack of so many frames. A call
  that needs more of them, or a loop that goes on for ever, is `Stuck`.
-/

namespace OffsetExplorer.Wire

/-- Bytes in memory: no slice is longer than `isize::MAX`. -/
structure Slice where
  bytes : List UInt8
  fits : bytes.length < 2 ^ 63

/-- The low three bits of a key. -/
inductive WireType where
  | varint
  | fixed64
  | lengthDelimited
  | fixed32
  deriving DecidableEq

/-- The groups of the old format are no wire types here. -/
def WireType.fromBits (bits : UInt64) : Option WireType :=
  if bits = 0 then some .varint
  else if bits = 1 then some .fixed64
  else if bits = 2 then some .lengthDelimited
  else if bits = 5 then some .fixed32
  else none

/-- The loop of `read_varint`, on the bytes from its index on. -/
def readVarintLoop : List UInt8 → UInt64 → ℕ → ℕ → Option (UInt64 × ℕ)
  | [], _, _, _ => none
  | byte :: rest, value, shift, used =>
    if 64 ≤ shift then none
    else
      -- bits that are shifted past the sixty-fourth are lost
      let value := value ||| ((byte &&& 0x7f).toUInt64 <<< UInt64.ofNat shift)
      if byte &&& 0x80 = 0 then some (value, used + 1)
      else if 10 ≤ used + 1 then none
      else readVarintLoop rest value (shift + 7) (used + 1)

/-- The number, and of how many bytes it was read. -/
def readVarint (bytes : List UInt8) (start : ℕ) : Option (UInt64 × ℕ) :=
  readVarintLoop (bytes.drop start) 0 0 0

/-- Numbers alternate in sign: 0, -1, 1, -2. -/
def zigzagDecode (value : UInt64) : Int64 := (value >>> 1).toInt64 ^^^ -(value &&& 1).toInt64

/-! ## What is shown -/

/-- The JSON that the decoder builds; `object` keeps its keys in insertion order. -/
inductive Value where
  | number (n : UInt64)
  | string (s : String)
  | array (items : List Value)
  | object (fields : List (String × Value))

/-- The fields by their numbers, in the order in which they came first. -/
abbrev Fields := Record String Value

/-- How floating-point numbers are written. -/
structure Texts where
  double : UInt64 → String
  float : UInt32 → String

/-- `{:0width$x}`. -/
def hexText (width n : ℕ) : String := String.ofList ((Nat.toDigits 16 n).leftpad width '0')

/-- `from_le_bytes`. -/
def fromLeBytes : List UInt8 → ℕ
  | [] => 0
  | b :: rest => b.toNat + 256 * fromLeBytes rest

/-- The first bytes in hexadecimal. -/
def hexPreview (bytes : List UInt8) : String :=
  let shown := " ".intercalate ((bytes.take 32).map fun b => hexText 2 b.toNat)
  if 32 < bytes.length then shown ++ "…" else shown

/-- The largest number that a JSON number holds exactly, and one. -/
def jsonSafeMax : UInt64 := .ofNat (2 ^ 53)

/-- A number, or a text where JavaScript would round it. -/
def varintValue (raw : UInt64) : Value :=
  if raw < jsonSafeMax then .number raw else .string s!"{raw.toNat} (signed {raw.toInt64.toInt})"

/-- Eight bytes, as an integer and as a `double`. -/
def fixed64Value (texts : Texts) (bytes : List UInt8) : Value :=
  let raw := UInt64.ofNat (fromLeBytes bytes)
  .string s!"0x{hexText 16 raw.toNat} (double {texts.double raw})"

/-- Four bytes, as an integer and as a `float`. -/
def fixed32Value (texts : Texts) (bytes : List UInt8) : Value :=
  let raw := UInt32.ofNat (fromLeBytes bytes)
  .string s!"0x{hexText 8 raw.toNat} (float {texts.float raw})"

/-- The content of a length-delimited field: a message, else text, else bytes. -/
def contentValue (nested : Option Fields) (content : List UInt8) : Value :=
  match nested with
  | some fields => .object fields.entries
  | none =>
    match Utf8.decode content with
    | some text => .string (String.ofList text)
    | none => .string s!"{content.length} bytes: {hexPreview content}"

/-- A field that is there again makes an array of what was there and itself. -/
def addField (fields : Fields) (key : String) (value : Value) : Fields :=
  match fields.get? key with
  | some (.array existing) => fields.set key (.array (existing ++ [value]))
  | some first => fields.set key (.array [first, value])
  | none => fields.set key value

/-! ## The recursion -/

/-- Why a call does not come back: its stack or its loop is used up. -/
inductive Stuck where
  | stack
  | loop
  deriving DecidableEq

/-- A call that may be stuck, or answer that the bytes are no message. -/
abbrev Call (α : Type) := Except Stuck (Option α)

/-- `usize::checked_add`, with 64 bits. -/
def checkedAdd (a b : ℕ) : Option ℕ := if a + b < 2 ^ 64 then some (a + b) else none

/-- The payload of a field from `index` on, and where it ends; `nested` tries a content as a message. -/
def decodeValue (texts : Texts) (nested : List UInt8 → Call Fields) (bytes : List UInt8)
    (index : ℕ) : WireType → Call (Value × ℕ)
  | .varint =>
    match readVarint bytes index with
    | none => .ok none
    | some (raw, used) => .ok (some (varintValue raw, index + used))
  | .fixed64 =>
    if bytes.length < index + 8 then .ok none
    else .ok (some (fixed64Value texts ((bytes.drop index).take 8), index + 8))
  | .fixed32 =>
    if bytes.length < index + 4 then .ok none
    else .ok (some (fixed32Value texts ((bytes.drop index).take 4), index + 4))
  | .lengthDelimited =>
    match readVarint bytes index with
    | none => .ok none
    | some (length, used) =>
      match checkedAdd (index + used) length.toNat with
      | none => .ok none
      | some stop =>
        if bytes.length < stop then .ok none
        else
          let content := (bytes.drop (index + used)).take length.toNat
          (nested content).map fun fields => some (contentValue fields content, stop)

/-- One round of the loop: the key of the field, its value, and where it ends. -/
def decodeField (texts : Texts) (nested : List UInt8 → Call Fields) (bytes : List UInt8)
    (index : ℕ) : Call (String × Value × ℕ) :=
  match readVarint bytes index with
  | none => .ok none
  | some (key, used) =>
    match WireType.fromBits (key &&& 0x07) with
    | none => .ok none
    | some wireType =>
      if key >>> 3 = 0 then .ok none
      else (decodeValue texts nested bytes (index + used) wireType).map fun field =>
        field.map fun (value, stop) => (toString (key >>> 3).toNat, value, stop)

/-- The loop, with so many rounds at most. -/
def decodeLoop (texts : Texts) (nested : List UInt8 → Call Fields) (bytes : List UInt8) :
    ℕ → ℕ → Fields → Call Fields
  | 0, index, fields => if index < bytes.length then .error .loop else .ok (some fields)
  | rounds + 1, index, fields =>
    if index < bytes.length then
      match decodeField texts nested bytes index with
      | .error stuck => .error stuck
      | .ok none => .ok none
      | .ok (some (key, value, next)) =>
        decodeLoop texts nested bytes rounds next (addField fields key value)
    else .ok (some fields)

/-- Messages that are nested deeper are shown as bytes. -/
def maxDepth : ℕ := 32

/-- Nothing is no message; else `decode` is asked. -/
def parseNested (decode : List UInt8 → Call Fields) (bytes : List UInt8) : Call Fields :=
  if bytes.isEmpty then .ok none else decode bytes

/-- The fields of a message at a depth, with a stack of so many frames. -/
def decodeFields (texts : Texts) : ℕ → List UInt8 → ℕ → Call Fields
  | 0, _, _ => .error .stack
  | stack + 1, bytes, depth =>
    if maxDepth < depth then .ok none
    else
      decodeLoop texts (parseNested fun content => decodeFields texts stack content (depth + 1)) bytes
        bytes.length 0 ∅

/-- A message whose schema is not known, read from its bytes alone. -/
def decodeRaw (texts : Texts) (stack : ℕ) (slice : Slice) : Call Value :=
  (decodeFields texts stack slice.bytes 0).map fun fields => fields.map fun f => .object f.entries

end OffsetExplorer.Wire
