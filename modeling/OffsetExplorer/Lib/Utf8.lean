import Mathlib.Data.List.Basic
import Mathlib.Data.Nat.Notation

/-!
# UTF-8

A character takes one to four bytes: the first one says how many follow, and each of these holds six
bits. A character is not written longer than it has to be, and a surrogate is not written at all.

* `encode`, `decode`: characters as bytes, and bytes as characters where they are such.
* **`decode_encode`**: what was encoded is decoded.
-/

namespace Utf8

/-- The bytes of one character. -/
def encodeChar (c : Char) : List UInt8 :=
  let n := c.toNat
  if n < 0x80 then [.ofNat n]
  else if n < 0x800 then [.ofNat (0xC0 + n / 64), .ofNat (0x80 + n % 64)]
  else if n < 0x10000 then
    [.ofNat (0xE0 + n / 4096), .ofNat (0x80 + n / 64 % 64), .ofNat (0x80 + n % 64)]
  else
    [.ofNat (0xF0 + n / 262144), .ofNat (0x80 + n / 4096 % 64), .ofNat (0x80 + n / 64 % 64),
      .ofNat (0x80 + n % 64)]

/-- The bytes of a text. -/
def encode (text : List Char) : List UInt8 := text.flatMap encodeChar

/-- The characters from a place on at which `owed` bytes of a character are still to come; `n` is made
of those before, and the character has to be `least` or more. -/
def decodeFrom : ℕ → ℕ → ℕ → List UInt8 → Option (List Char)
  | 0, _, _, [] => some []
  | 0, _, _, b :: rest =>
    if b.toNat < 0x80 then (decodeFrom 0 0 0 rest).map (Char.ofNat b.toNat :: ·)
    else if b.toNat < 0xC0 then none
    else if b.toNat < 0xE0 then decodeFrom 1 0x80 (b.toNat % 32) rest
    else if b.toNat < 0xF0 then decodeFrom 2 0x800 (b.toNat % 16) rest
    else if b.toNat < 0xF8 then decodeFrom 3 0x10000 (b.toNat % 8) rest
    else none
  | _ + 1, _, _, [] => none
  | owed + 1, least, n, b :: rest =>
    if b.toNat < 0x80 ∨ 0xC0 ≤ b.toNat then none
    else if 0 < owed then decodeFrom owed least (n * 64 + b.toNat % 64) rest
    else if least ≤ n * 64 + b.toNat % 64 ∧ (n * 64 + b.toNat % 64).isValidChar then
      (decodeFrom 0 0 0 rest).map (Char.ofNat (n * 64 + b.toNat % 64) :: ·)
    else none

/-- The characters that the bytes encode, if they do. -/
def decode (bytes : List UInt8) : Option (List Char) := decodeFrom 0 0 0 bytes

/-! ## What was encoded is decoded -/

variable {owed least n k : ℕ} {c : Char} {rest : List UInt8}

theorem decodeFrom_middle (hk : k < 64) (howed : 0 < owed) :
    decodeFrom (owed + 1) least n (.ofNat (0x80 + k) :: rest) =
      decodeFrom owed least (n * 64 + k) rest := by
  have hbyte : (UInt8.ofNat (0x80 + k)).toNat = 0x80 + k := by
    rw [UInt8.toNat_ofNat']
    omega
  rw [decodeFrom, hbyte, if_neg (by omega), if_pos howed, show (0x80 + k) % 64 = k by omega]

theorem decodeFrom_last (hc : c.toNat = n * 64 + k) (hk : k < 64) (hleast : least ≤ c.toNat) :
    decodeFrom 1 least n (.ofNat (0x80 + k) :: rest) = (decodeFrom 0 0 0 rest).map (c :: ·) := by
  have hbyte : (UInt8.ofNat (0x80 + k)).toNat = 0x80 + k := by
    rw [UInt8.toNat_ofNat']
    omega
  have hvalid : c.toNat.isValidChar := c.valid
  rw [decodeFrom, hbyte, show (0x80 + k) % 64 = k by omega, ← hc, if_neg (by omega), if_neg (by omega),
    if_pos ⟨hleast, hvalid⟩, Char.ofNat_toNat]

theorem decodeFrom_encodeChar :
    decodeFrom 0 0 0 (encodeChar c ++ rest) = (decodeFrom 0 0 0 rest).map (c :: ·) := by
  have hmax : c.toNat < 0x110000 := by
    have hvalid : c.toNat.isValidChar := c.valid
    unfold Nat.isValidChar at hvalid
    omega
  rw [encodeChar]
  split_ifs with h1 h2 h3
  · have hbyte : (UInt8.ofNat c.toNat).toNat = c.toNat := by
      rw [UInt8.toNat_ofNat']
      omega
    rw [List.singleton_append, decodeFrom, hbyte, if_pos h1, Char.ofNat_toNat]
  · have hbyte : (UInt8.ofNat (0xC0 + c.toNat / 64)).toNat = 0xC0 + c.toNat / 64 := by
      rw [UInt8.toNat_ofNat']
      omega
    rw [List.cons_append, decodeFrom, hbyte, if_neg (by omega), if_neg (by omega), if_pos (by omega)]
    exact decodeFrom_last (by omega) (by omega) (by omega)
  · have hbyte : (UInt8.ofNat (0xE0 + c.toNat / 4096)).toNat = 0xE0 + c.toNat / 4096 := by
      rw [UInt8.toNat_ofNat']
      omega
    rw [List.cons_append, decodeFrom, hbyte, if_neg (by omega), if_neg (by omega), if_neg (by omega),
      if_pos (by omega), List.cons_append, decodeFrom_middle (by omega) Nat.one_pos]
    exact decodeFrom_last (by omega) (by omega) (by omega)
  · have hbyte : (UInt8.ofNat (0xF0 + c.toNat / 262144)).toNat = 0xF0 + c.toNat / 262144 := by
      rw [UInt8.toNat_ofNat']
      omega
    rw [List.cons_append, decodeFrom, hbyte, if_neg (by omega), if_neg (by omega), if_neg (by omega),
      if_neg (by omega), if_pos (by omega), List.cons_append, decodeFrom_middle (by omega) Nat.two_pos,
      List.cons_append, decodeFrom_middle (by omega) Nat.one_pos]
    exact decodeFrom_last (by omega) (by omega) (by omega)

/-- **What was encoded is decoded.** -/
theorem decode_encode (text : List Char) : decode (encode text) = some text := by
  induction text with
  | nil => rfl
  | cons c text ih =>
    have hsplit : encode (c :: text) = encodeChar c ++ encode text := List.flatMap_cons
    rw [decode, hsplit, decodeFrom_encodeChar, ← decode, ih, Option.map_some]

end Utf8
