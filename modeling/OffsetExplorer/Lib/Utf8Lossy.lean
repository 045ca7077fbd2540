import OffsetExplorer.Lib.Utf8
import Mathlib.Tactic.SplitIfs

/-!
# UTF-8 that need not be well formed

The decoder for bytes that may be anything: it never fails, and puts the replacement character where
the bytes cannot go on, once for the longest beginning of a character that they hold there.

* `Begun`, `lossyFrom`, `decodeLossy`: a character that has begun, and the decoder.
* **`decodeLossy_encode`**: what was encoded is decoded.
* `exists_of_decodeLossy`: every other character that it makes is encoded by the bytes it came from.
* **`decodeLossy_take`**: of a cut encoding it makes the characters in front of the cut, and at most one
  replacement character.
-/

namespace Utf8

/-- What stands for bytes that are none of a text. -/
def replacement : Char := Char.ofNat 0xFFFD

/-- A character that has begun: how many of its bytes are to come, its bits so far, and the bounds of the
next byte. -/
structure Begun where
  needed : ℕ
  bits : ℕ
  lower : ℕ := 0x80
  upper : ℕ := 0xBF

/-- What the first byte of a character makes: a character, or the beginning of one. -/
def first (b : UInt8) : List Char × Option Begun :=
  let n := b.toNat
  if n < 0x80 then ([Char.ofNat n], none)
  else if n < 0xC2 then ([replacement], none)
  else if n < 0xE0 then ([], some { needed := 1, bits := n % 32 })
  else if n < 0xF0 then
    ([], some
      { needed := 2
        bits := n % 16
        lower := if n = 0xE0 then 0xA0 else 0x80
        upper := if n = 0xED then 0x9F else 0xBF })
  else if n < 0xF5 then
    ([], some
      { needed := 3
        bits := n % 8
        lower := if n = 0xF0 then 0x90 else 0x80
        upper := if n = 0xF4 then 0x8F else 0xBF })
  else ([replacement], none)

/-- The characters from a place on. A byte out of bounds is the first one of what comes next. -/
def lossyFrom : Option Begun → List UInt8 → List Char
  | none, [] => []
  | some _, [] => [replacement]
  | none, b :: rest => (first b).1 ++ lossyFrom (first b).2 rest
  | some begun, b :: rest =>
    if begun.lower ≤ b.toNat ∧ b.toNat ≤ begun.upper then
      if begun.needed = 1 then Char.ofNat (begun.bits * 64 + b.toNat % 64) :: lossyFrom none rest
      else
        lossyFrom (some { needed := begun.needed - 1, bits := begun.bits * 64 + b.toNat % 64 }) rest
    else replacement :: ((first b).1 ++ lossyFrom (first b).2 rest)

/-- The decoder of a browser, which never fails. -/
def decodeLossy (bytes : List UInt8) : List Char := lossyFrom none bytes

example : decodeLossy [0x61, 0xE2, 0x82, 0xAC] = ['a', Char.ofNat 0x20AC] ∧
    decodeLossy [0x61, 0xE2, 0x82, 0x62] = ['a', replacement, 'b'] ∧
    decodeLossy [0xED, 0xA0, 0x80] = [replacement, replacement, replacement] := by decide +kernel

/-! ## A character and what is left of it by a cut -/

variable {needed bits lower upper n k : ℕ} {c : Char} {rest : List UInt8} {text : List Char}

theorem toNat_ofNat {n : ℕ} (h : n < 256) : (UInt8.ofNat n).toNat = n := by
  rw [UInt8.toNat_ofNat']
  omega

theorem lossyFrom_middle (hk : k < 64) (hlower : lower ≤ 0x80 + k) (hupper : 0x80 + k ≤ upper)
    (hneeded : 2 ≤ needed) :
    lossyFrom (some ⟨needed, bits, lower, upper⟩) (.ofNat (0x80 + k) :: rest) =
      lossyFrom (some ⟨needed - 1, bits * 64 + k, 0x80, 0xBF⟩) rest := by
  have hmore : needed ≠ 1 := by omega
  rw [lossyFrom, toNat_ofNat (by omega), if_pos ⟨hlower, hupper⟩, if_neg hmore,
    show (0x80 + k) % 64 = k by omega]

theorem lossyFrom_last (hc : c.toNat = bits * 64 + k) (hk : k < 64) (hlower : lower ≤ 0x80 + k)
    (hupper : 0x80 + k ≤ upper) :
    lossyFrom (some ⟨1, bits, lower, upper⟩) (.ofNat (0x80 + k) :: rest) = c :: lossyFrom none rest := by
  rw [lossyFrom, toNat_ofNat (by omega), if_pos ⟨hlower, hupper⟩, if_pos rfl,
    show (0x80 + k) % 64 = k by omega, ← hc, Char.ofNat_toNat]

theorem lossyFrom_two (hn : 2 ≤ n) (hn' : n < 32) :
    lossyFrom none (.ofNat (0xC0 + n) :: rest) = lossyFrom (some ⟨1, n, 0x80, 0xBF⟩) rest := by
  rw [lossyFrom, first, toNat_ofNat (by omega), if_neg (by omega), if_neg (by omega), if_pos (by omega), show (0xC0 + n) % 32 = n by omega]
  rfl

theorem lossyFrom_three (hn : n < 16) :
    lossyFrom none (.ofNat (0xE0 + n) :: rest) =
      lossyFrom (some ⟨2, n, if n = 0 then 0xA0 else 0x80, if n = 0xD then 0x9F else 0xBF⟩) rest := by
  rw [lossyFrom, first, toNat_ofNat (by omega), if_neg (by omega), if_neg (by omega), if_neg (by omega), if_pos (by omega),
    show (0xE0 + n) % 16 = n by omega]
  simp only [Nat.add_eq_left, show 0xE0 + n = 0xED ↔ n = 0xD by omega]
  rfl

theorem lossyFrom_four (hn : n < 5) :
    lossyFrom none (.ofNat (0xF0 + n) :: rest) =
      lossyFrom (some ⟨3, n, if n = 0 then 0x90 else 0x80, if n = 4 then 0x8F else 0xBF⟩) rest := by
  rw [lossyFrom, first, toNat_ofNat (by omega), if_neg (by omega), if_neg (by omega), if_neg (by omega), if_neg (by omega), if_pos (by omega),
    show (0xF0 + n) % 8 = n by omega]
  simp only [Nat.add_eq_left, show 0xF0 + n = 0xF4 ↔ n = 4 by omega]
  rfl

theorem toNat_valid (c : Char) : c.toNat < 0xD800 ∨ 0xDFFF < c.toNat ∧ c.toNat < 0x110000 := c.valid

theorem lossyFrom_encodeChar : lossyFrom none (encodeChar c ++ rest) = c :: lossyFrom none rest := by
  have hvalid := toNat_valid c
  rw [encodeChar]
  split_ifs with h1 h2 h3
  · rw [List.singleton_append, lossyFrom, first, toNat_ofNat (by omega), if_pos h1, Char.ofNat_toNat]
    rfl
  · rw [List.cons_append, lossyFrom_two (by omega) (by omega)]
    exact lossyFrom_last (by omega) (by omega) (by omega) (by omega)
  · rw [List.cons_append, lossyFrom_three (by omega), List.cons_append,
      lossyFrom_middle (by omega) (by split_ifs <;> omega) (by split_ifs <;> omega) (by omega)]
    exact lossyFrom_last (by omega) (by omega) (by omega) (by omega)
  · rw [List.cons_append, lossyFrom_four (by omega), List.cons_append,
      lossyFrom_middle (by omega) (by split_ifs <;> omega) (by split_ifs <;> omega) (by omega),
      List.cons_append, lossyFrom_middle (by omega) (by omega) (by omega) (by omega)]
    exact lossyFrom_last (by omega) (by omega) (by omega) (by omega)

theorem decodeLossy_take_encodeChar (hpos : 0 < n) (hlt : n < (encodeChar c).length) :
    decodeLossy ((encodeChar c).take n) = [replacement] := by
  have hvalid := toNat_valid c
  rw [encodeChar] at hlt ⊢
  rw [decodeLossy]
  split_ifs at hlt ⊢ with h1 h2 h3
  · exact absurd hlt (by rw [List.length_singleton]; omega)
  · obtain rfl : n = 1 := by
      simp only [List.length_cons, List.length_nil] at hlt
      omega
    rw [List.take_succ_cons, List.take_zero, lossyFrom_two (by omega) (by omega)]
    rfl
  · have hcases : n = 1 ∨ n = 2 := by
      simp only [List.length_cons, List.length_nil] at hlt
      omega
    rcases hcases with rfl | rfl
    · rw [List.take_succ_cons, List.take_zero, lossyFrom_three (by omega)]
      rfl
    · rw [List.take_succ_cons, List.take_succ_cons, List.take_zero, lossyFrom_three (by omega),
        lossyFrom_middle (by omega) (by split_ifs <;> omega) (by split_ifs <;> omega) (by omega)]
      rfl
  · have hcases : n = 1 ∨ n = 2 ∨ n = 3 := by
      simp only [List.length_cons, List.length_nil] at hlt
      omega
    rcases hcases with rfl | rfl | rfl
    · rw [List.take_succ_cons, List.take_zero, lossyFrom_four (by omega)]
      rfl
    · rw [List.take_succ_cons, List.take_succ_cons, List.take_zero, lossyFrom_four (by omega),
        lossyFrom_middle (by omega) (by split_ifs <;> omega) (by split_ifs <;> omega) (by omega)]
      rfl
    · rw [List.take_succ_cons, List.take_succ_cons, List.take_succ_cons, List.take_zero,
        lossyFrom_four (by omega),
        lossyFrom_middle (by omega) (by split_ifs <;> omega) (by split_ifs <;> omega) (by omega),
        lossyFrom_middle (by omega) (by omega) (by omega) (by omega)]
      rfl

/-! ## Texts -/

theorem encode_cons (c : Char) (text : List Char) : encode (c :: text) = encodeChar c ++ encode text :=
  List.flatMap_cons

theorem encode_append (text text' : List Char) : encode (text ++ text') = encode text ++ encode text' :=
  List.flatMap_append

theorem decodeLossy_encode_append (text : List Char) (rest : List UInt8) :
    decodeLossy (encode text ++ rest) = text ++ decodeLossy rest := by
  induction text with
  | nil => rfl
  | cons c text ih =>
    rw [encode_cons, List.append_assoc, decodeLossy, lossyFrom_encodeChar]
    exact congrArg (c :: ·) ih

/-- **What was encoded is decoded.** -/
@[simp] theorem decodeLossy_encode (text : List Char) : decodeLossy (encode text) = text := by
  have happend := decodeLossy_encode_append text []
  rw [List.append_nil] at happend
  rw [happend]
  exact List.append_nil text

/-- The characters whose bytes come wholly before a cut. -/
def whole : ℕ → List Char → List Char
  | _, [] => []
  | n, c :: text => if (encodeChar c).length ≤ n then c :: whole (n - (encodeChar c).length) text else []

theorem whole_prefix (n : ℕ) (text : List Char) : whole n text <+: text := by
  induction text generalizing n with
  | nil => exact List.prefix_refl _
  | cons c text ih =>
    rw [whole]
    split_ifs
    · exact List.cons_prefix_cons.mpr ⟨rfl, ih _⟩
    · exact List.nil_prefix

theorem length_encode_whole_le (n : ℕ) (text : List Char) : (encode (whole n text)).length ≤ n := by
  induction text generalizing n with
  | nil => exact Nat.zero_le n
  | cons c text ih =>
    rw [whole]
    split_ifs with h
    · rw [encode_cons, List.length_append]
      have hrest := ih (n - (encodeChar c).length)
      omega
    · exact Nat.zero_le n

theorem encode_whole_isPrefix_take (n : ℕ) (text : List Char) : encode (whole n text) <+: (encode text).take n := by
  obtain ⟨rest, hrest⟩ := whole_prefix n text
  have hfront : encode (whole n text) <+: encode text := ⟨encode rest, by rw [← encode_append, hrest]⟩
  exact List.prefix_take_iff.mpr ⟨hfront, length_encode_whole_le n text⟩

/-- **A cut encoding**: the characters in front of the cut, and a replacement character for the one that the
cut goes through. -/
theorem decodeLossy_take (n : ℕ) (text : List Char) :
    decodeLossy ((encode text).take n) = whole n text ++
      if (encode (whole n text)).length = min n (encode text).length then [] else [replacement] := by
  induction text generalizing n with
  | nil =>
    rw [whole, if_pos (by rw [encode, List.flatMap_nil, List.length_nil, Nat.min_zero]), encode,
      List.flatMap_nil, List.take_nil]
    rfl
  | cons c text ih =>
    rw [whole]
    split_ifs with h hlength hlength
    · rw [encode_cons, List.take_append, List.take_of_length_le h, decodeLossy, lossyFrom_encodeChar]
      rw [encode_cons, encode_cons, List.length_append, List.length_append] at hlength
      have hrest := ih (n - (encodeChar c).length)
      rw [if_pos (by omega)] at hrest
      exact congrArg (c :: ·) hrest
    · rw [encode_cons, List.take_append, List.take_of_length_le h, decodeLossy, lossyFrom_encodeChar]
      rw [encode_cons, encode_cons, List.length_append, List.length_append] at hlength
      have hrest := ih (n - (encodeChar c).length)
      rw [if_neg (by omega)] at hrest
      exact congrArg (c :: ·) hrest
    · rw [encode, List.flatMap_nil, List.length_nil, encode_cons, List.length_append] at hlength
      obtain rfl : n = 0 := by omega
      rfl
    · rw [encode, List.flatMap_nil, List.length_nil, encode_cons, List.length_append] at hlength
      rw [encode_cons, List.take_append, show n - (encodeChar c).length = 0 by omega, List.take_zero,
        List.append_nil, decodeLossy_take_encodeChar (by omega) (by omega)]
      rfl

/-- The whole of a text comes before a cut only where the cut is behind all of it. -/
theorem whole_eq_self {n : ℕ} {text : List Char} : whole n text = text ↔ (encode text).length ≤ n := by
  constructor
  · intro h
    have hle := length_encode_whole_le n text
    rw [h] at hle
    exact hle
  · intro h
    induction text generalizing n with
    | nil => rfl
    | cons c text ih =>
      rw [encode_cons, List.length_append] at h
      rw [whole, if_pos (by omega), ih (by omega)]

theorem whole_eq_or (n : ℕ) (text : List Char) :
    whole n text = text ∨ n < (encode (whole n text)).length + 4 := by
  induction text generalizing n with
  | nil => exact Or.inl rfl
  | cons c text ih =>
    rw [whole]
    split_ifs with h
    · rcases ih (n - (encodeChar c).length) with hrest | hrest
      · exact Or.inl (by rw [hrest])
      · right
        rw [encode_cons, List.length_append]
        omega
    · right
      have hlength : (encodeChar c).length ≤ 4 := by
        rw [encodeChar]
        split_ifs <;> simp only [List.length_cons, List.length_nil] <;> omega
      omega

/-! ## Bytes that make no replacement character -/

theorem exists_of_begun {begun : Begun} {bytes : List UInt8} (hc : c ≠ replacement)
    (h : lossyFrom (some begun) bytes = c :: text) : ∃ b rest, bytes = b :: rest ∧
      begun.lower ≤ b.toNat ∧ b.toNat ≤ begun.upper ∧
      (if begun.needed = 1 then Char.ofNat (begun.bits * 64 + b.toNat % 64) :: lossyFrom none rest
        else lossyFrom (some { needed := begun.needed - 1, bits := begun.bits * 64 + b.toNat % 64 }) rest) =
        c :: text := by
  cases bytes with
  | nil =>
    rw [lossyFrom] at h
    exact absurd (List.cons.inj h).1.symm hc
  | cons b rest =>
    rw [lossyFrom] at h
    by_cases hbounds : begun.lower ≤ b.toNat ∧ b.toNat ≤ begun.upper
    · rw [if_pos hbounds] at h
      exact ⟨b, rest, rfl, hbounds.1, hbounds.2, h⟩
    · rw [if_neg hbounds] at h
      exact absurd (List.cons.inj h).1.symm hc

theorem toNat_ofNat_of_valid (h : n < 0xD800 ∨ 0xDFFF < n ∧ n < 0x110000) : (Char.ofNat n).toNat = n := by
  have hvalid : n.isValidChar := h
  rw [Char.ofNat, dif_pos hvalid]
  rfl

theorem ofNat_eq {b : UInt8} (h : n = b.toNat) : UInt8.ofNat n = b := by
  rw [h, UInt8.ofNat_toNat]

/-- **A character that is made of bytes is encoded by them**, unless it is the replacement character. -/
theorem exists_of_decodeLossy {bytes : List UInt8} (hc : c ≠ replacement)
    (h : decodeLossy bytes = c :: text) :
    ∃ rest, bytes = encodeChar c ++ rest ∧ decodeLossy rest = text := by
  cases bytes with
  | nil => cases h
  | cons b rest =>
    have hb := b.toNat_lt
    rw [decodeLossy, lossyFrom, first] at h
    by_cases h1 : b.toNat < 0x80
    · rw [if_pos h1] at h
      obtain ⟨hhead, htail⟩ := List.cons.inj h
      have hcode : c.toNat = b.toNat := by
        rw [← hhead]
        exact toNat_ofNat_of_valid (by omega)
      refine ⟨rest, ?_, htail⟩
      rw [encodeChar, if_pos (by omega), hcode, UInt8.ofNat_toNat]
      rfl
    by_cases h2 : b.toNat < 0xC2
    · rw [if_neg h1, if_pos h2] at h
      exact absurd (List.cons.inj h).1.symm hc
    by_cases h3 : b.toNat < 0xE0
    · rw [if_neg h1, if_neg h2, if_pos h3] at h
      obtain ⟨b₁, rest₁, rfl, hlow₁, hhigh₁, h⟩ := exists_of_begun hc h
      simp only [if_true] at hlow₁ hhigh₁ h
      obtain ⟨hhead, htail⟩ := List.cons.inj h
      have hcode : c.toNat = b.toNat % 32 * 64 + b₁.toNat % 64 := by
        rw [← hhead]
        exact toNat_ofNat_of_valid (by omega)
      refine ⟨rest₁, ?_, htail⟩
      rw [encodeChar, if_neg (by omega), if_pos (by omega), ofNat_eq (b := b) (by omega),
        ofNat_eq (b := b₁) (by omega)]
      rfl
    by_cases h4 : b.toNat < 0xF0
    · rw [if_neg h1, if_neg h2, if_neg h3, if_pos h4] at h
      obtain ⟨b₁, rest₁, rfl, hlow₁, hhigh₁, h⟩ := exists_of_begun hc h
      obtain ⟨b₂, rest₂, rfl, hlow₂, hhigh₂, h⟩ := exists_of_begun hc h
      simp only [if_true] at hlow₁ hhigh₁ hlow₂ hhigh₂ h
      obtain ⟨hhead, htail⟩ := List.cons.inj h
      have hcode : c.toNat = (b.toNat % 16 * 64 + b₁.toNat % 64) * 64 + b₂.toNat % 64 := by
        rw [← hhead]
        refine toNat_ofNat_of_valid ?_
        split_ifs at hlow₁ hhigh₁ <;> omega
      have hlow : 0x80 ≤ b₁.toNat := by split_ifs at hlow₁ <;> omega
      have hhigh : b₁.toNat ≤ 0xBF := by split_ifs at hhigh₁ <;> omega
      have hleast : 0x800 ≤ c.toNat := by split_ifs at hlow₁ <;> omega
      refine ⟨rest₂, ?_, htail⟩
      rw [encodeChar, if_neg (by omega), if_neg (by omega), if_pos (by omega), ofNat_eq (b := b) (by omega),
        ofNat_eq (b := b₁) (by omega), ofNat_eq (b := b₂) (by omega)]
      rfl
    by_cases h5 : b.toNat < 0xF5
    · rw [if_neg h1, if_neg h2, if_neg h3, if_neg h4, if_pos h5] at h
      obtain ⟨b₁, rest₁, rfl, hlow₁, hhigh₁, h⟩ := exists_of_begun hc h
      obtain ⟨b₂, rest₂, rfl, hlow₂, hhigh₂, h⟩ := exists_of_begun hc h
      obtain ⟨b₃, rest₃, rfl, hlow₃, hhigh₃, h⟩ := exists_of_begun hc h
      simp only [if_true] at hlow₁ hhigh₁ hlow₂ hhigh₂ hlow₃ hhigh₃ h
      obtain ⟨hhead, htail⟩ := List.cons.inj h
      have hcode : c.toNat =
          ((b.toNat % 8 * 64 + b₁.toNat % 64) * 64 + b₂.toNat % 64) * 64 + b₃.toNat % 64 := by
        rw [← hhead]
        refine toNat_ofNat_of_valid ?_
        split_ifs at hlow₁ hhigh₁ <;> omega
      have hlow : 0x80 ≤ b₁.toNat := by split_ifs at hlow₁ <;> omega
      have hhigh : b₁.toNat ≤ 0xBF := by split_ifs at hhigh₁ <;> omega
      have hleast : 0x10000 ≤ c.toNat := by split_ifs at hlow₁ <;> omega
      refine ⟨rest₃, ?_, htail⟩
      rw [encodeChar, if_neg (by omega), if_neg (by omega), if_neg (by omega), ofNat_eq (b := b) (by omega),
        ofNat_eq (b := b₁) (by omega), ofNat_eq (b := b₂) (by omega), ofNat_eq (b := b₃) (by omega)]
      rfl
    · rw [if_neg h1, if_neg h2, if_neg h3, if_neg h4, if_neg h5] at h
      exact absurd (List.cons.inj h).1.symm hc

theorem lossyFrom_some_ne_nil (begun : Begun) (bytes : List UInt8) : lossyFrom (some begun) bytes ≠ [] := by
  induction bytes generalizing begun with
  | nil => exact List.cons_ne_nil _ _
  | cons b rest ih =>
    rw [lossyFrom]
    split_ifs
    · exact List.cons_ne_nil _ _
    · exact ih _
    · exact List.cons_ne_nil _ _

theorem eq_nil_of_decodeLossy {bytes : List UInt8} (h : decodeLossy bytes = []) : bytes = [] := by
  cases bytes with
  | nil => rfl
  | cons b rest =>
    rw [decodeLossy, lossyFrom, List.append_eq_nil_iff] at h
    obtain ⟨hnone, hrest⟩ := h
    cases hfirst : (first b).2 with
    | some begun =>
      rw [hfirst] at hrest
      exact absurd hrest (lossyFrom_some_ne_nil begun rest)
    | none =>
      rw [first] at hnone hfirst
      split_ifs at hnone hfirst

theorem encode_decodeLossy {bytes : List UInt8} (h : replacement ∉ decodeLossy bytes) :
    encode (decodeLossy bytes) = bytes := by
  generalize htext : decodeLossy bytes = text at h ⊢
  induction text generalizing bytes with
  | nil =>
    rw [eq_nil_of_decodeLossy htext]
    rfl
  | cons c text ih =>
    obtain ⟨hc, htext'⟩ := not_or.mp fun hor => h (List.mem_cons.mpr hor)
    obtain ⟨rest, rfl, hrest⟩ := exists_of_decodeLossy (Ne.symm hc) htext
    rw [encode_cons, ih hrest htext']

end Utf8
