import OffsetExplorer.Lib.Varint
import OffsetExplorer.Protobuf.Wire
import Mathlib.Data.Nat.Bitwise

/-!
# The wire format

What the format itself says a message is, and what the reader of a varint makes of it.

* `varint`, `number`: the runs of at most ten bytes, and the number that is read from one.
* `key`, `payload`, `field`, `message`: a message is any number of fields, each a key with a field
  number of at least 1 and a complete payload of its wire type.
* **`readVarint_eq`**: `read_varint` finds the run that is there, and its number.
* `prefixFree_field`: where a field ends can be told from its bytes.
-/

namespace OffsetExplorer.Wire

open Computability

/-- The runs of at most ten bytes of which only the last has its high bit clear. -/
def varint : Language UInt8 := Varint.runs 10

/-- The number of a run, less the bits past the sixty-fourth. -/
def number (run : List UInt8) : ℕ := Varint.value run % 2 ^ 64

/-- The three bits of a wire type in a key. -/
def WireType.bits : WireType → ℕ
  | .varint => 0
  | .fixed64 => 1
  | .lengthDelimited => 2
  | .fixed32 => 5

/-- The keys of a wire type: its bits, and a field number of at least 1. -/
def key (wireType : WireType) : Language UInt8 :=
  {run | run ∈ varint ∧ number run % 8 = wireType.bits ∧ 1 ≤ number run / 8}

/-- A length, and that many bytes. -/
def counted : Language UInt8 :=
  {word | ∃ run ∈ varint, ∃ content : List UInt8,
    content.length = number run ∧ word = run ++ content}

/-- What follows a key of the wire type. -/
def payload : WireType → Language UInt8
  | .varint => varint
  | .fixed64 => Framing.exactly 8
  | .lengthDelimited => counted
  | .fixed32 => Framing.exactly 4

/-- A key, and a complete payload of its type. -/
def field : Language UInt8 := {word | ∃ wireType, word ∈ key wireType * payload wireType}

/-- Any number of fields, and nothing else. -/
def message : Language UInt8 := field∗

/-! ## Varints -/

theorem toNat_lowBits (byte : UInt8) : (byte &&& 0x7f).toNat = byte.toNat % 128 := by
  rw [UInt8.toNat_and]
  exact Nat.and_two_pow_sub_one_eq_mod byte.toNat 7

theorem highBit_eq_zero_iff (byte : UInt8) : byte &&& 0x80 = 0 ↔ byte.toNat < 128 := by
  have hbyte := byte.toNat_lt
  have hmask : (byte &&& 0x80).toNat = byte.toNat / 128 % 2 * 128 := by
    rw [UInt8.toNat_and]
    change byte.toNat &&& 2 ^ 7 = _
    rw [Nat.and_two_pow, Nat.testBit_eq_decide_div_mod_eq]
    rcases Nat.mod_two_eq_zero_or_one (byte.toNat / 128) with h | h <;> simp [h]
  rw [← UInt8.toNat_inj, hmask]
  change _ = 0 ↔ _
  omega

theorem toNat_addGroup {value : UInt64} {shift : ℕ} (hshift : shift < 64)
    (hvalue : value.toNat < 2 ^ shift) (byte : UInt8) :
    (value ||| ((byte &&& 0x7f).toUInt64 <<< UInt64.ofNat shift)).toNat =
      (value.toNat + 2 ^ shift * (byte.toNat % 128)) % 2 ^ 64 := by
  have hroom : 2 ^ 64 = 2 ^ (64 - shift) * 2 ^ shift := by
    rw [← Nat.pow_add]
    congr 1
    omega
  have hamount : (UInt64.ofNat shift).toNat % 64 = shift := by
    rw [UInt64.toNat_ofNat']
    omega
  have hgroup : byte.toNat % 128 * 2 ^ shift % 2 ^ 64 =
      byte.toNat % 128 % 2 ^ (64 - shift) * 2 ^ shift := by
    rw [hroom, Nat.mul_mod_mul_right]
  have hsum : byte.toNat % 128 % 2 ^ (64 - shift) * 2 ^ shift + value.toNat < 2 ^ 64 := by
    have hlow : byte.toNat % 128 % 2 ^ (64 - shift) + 1 ≤ 2 ^ (64 - shift) :=
      Nat.mod_lt _ (Nat.two_pow_pos _)
    have hmul := Nat.mul_le_mul_right (2 ^ shift) hlow
    rw [Nat.add_mul, ← hroom] at hmul
    omega
  calc (value ||| ((byte &&& 0x7f).toUInt64 <<< UInt64.ofNat shift)).toNat
      = value.toNat ||| (byte.toNat % 128 * 2 ^ shift % 2 ^ 64) := by
        rw [UInt64.toNat_or, UInt64.toNat_shiftLeft, UInt8.toNat_toUInt64, toNat_lowBits, hamount,
          Nat.shiftLeft_eq]
    _ = byte.toNat % 128 % 2 ^ (64 - shift) * 2 ^ shift + value.toNat := by
        rw [hgroup, Nat.or_comm, ← Nat.shiftLeft_eq, Nat.shiftLeft_add_eq_or_of_lt hvalue]
    _ = (value.toNat + 2 ^ shift * (byte.toNat % 128)) % 2 ^ 64 := by
        rw [Nat.add_mod, Nat.mul_comm (2 ^ shift), hgroup, Nat.mod_eq_of_lt (by omega : value.toNat < _),
          Nat.add_comm value.toNat, Nat.mod_eq_of_lt hsum]

theorem readVarintLoop_eq (input : List UInt8) (value : UInt64) {used : ℕ} (hused : used < 10)
    (hvalue : value.toNat < 2 ^ (7 * used)) :
    readVarintLoop input value (7 * used) used =
      (Varint.takeRun (10 - used) input).map fun run =>
        (UInt64.ofNat (value.toNat + 2 ^ (7 * used) * Varint.value run), used + run.length) := by
  induction input generalizing value used with
  | nil =>
    obtain ⟨left, hleft⟩ : ∃ left, 10 - used = left + 1 := ⟨9 - used, by omega⟩
    rw [hleft]
    rfl
  | cons byte input ih =>
    obtain ⟨left, hleft⟩ : ∃ left, 10 - used = left + 1 := ⟨9 - used, by omega⟩
    have hgroup := toNat_addGroup (by omega) hvalue byte
    rw [readVarintLoop, if_neg (by omega), hleft, Varint.takeRun]
    by_cases hlast : byte.toNat < 128
    · have hend : value ||| ((byte &&& 0x7f).toUInt64 <<< UInt64.ofNat (7 * used)) =
          UInt64.ofNat (value.toNat + 2 ^ (7 * used) * (byte.toNat % 128)) := by
        rw [← UInt64.toNat_inj, hgroup, UInt64.toNat_ofNat']
      simp only [(highBit_eq_zero_iff byte).mpr hlast, hlast, if_true, hend]
      simp [Varint.value]
    · have hmore : ¬ (byte &&& 0x80 = 0) := fun h => hlast ((highBit_eq_zero_iff byte).mp h)
      simp only [hmore, hlast, if_false]
      by_cases hten : 10 ≤ used + 1
      · have hnone : left = 0 := by omega
        rw [if_pos hten, hnone, Varint.takeRun]
        rfl
      · -- at most sixty-three bits are read by now, so that none is lost
        have hbits : 2 ^ (7 * (used + 1)) = 2 ^ (7 * used) * 128 := by
          rw [Nat.mul_add, Nat.pow_add]
        have hfits : 2 ^ (7 * (used + 1)) ≤ 2 ^ 63 := Nat.pow_le_pow_right (by omega) (by omega)
        have hless : value.toNat + 2 ^ (7 * used) * (byte.toNat % 128) < 2 ^ (7 * (used + 1)) := by
          have hmul := Nat.mul_le_mul_left (2 ^ (7 * used)) (by omega : byte.toNat % 128 + 1 ≤ 128)
          rw [Nat.mul_add] at hmul
          omega
        rw [Nat.mod_eq_of_lt (by omega)] at hgroup
        rw [if_neg hten, show 7 * used + 7 = 7 * (used + 1) by omega,
          ih _ (by omega) (by rw [hgroup]; exact hless), show 10 - (used + 1) = left by omega,
          Option.map_map]
        congr 1
        funext run
        have hvalue : value.toNat + 2 ^ (7 * used) * (byte.toNat % 128) +
            2 ^ (7 * (used + 1)) * Varint.value run =
              value.toNat + 2 ^ (7 * used) * Varint.value (byte :: run) := by
          rw [Varint.value, hbits, Nat.mul_add (2 ^ (7 * used)), Nat.mul_assoc, Nat.add_assoc]
        have hlength : used + 1 + run.length = used + (byte :: run).length := by
          rw [List.length_cons]
          omega
        rw [Function.comp_apply, hgroup, hvalue, hlength]

/-- **`read_varint`** finds the run that is at the place, and its number. -/
theorem readVarint_eq (bytes : List UInt8) (start : ℕ) :
    readVarint bytes start = (Varint.takeRun 10 (bytes.drop start)).map fun run =>
      (UInt64.ofNat (Varint.value run), run.length) := by
  have hloop := readVarintLoop_eq (bytes.drop start) 0 (Nat.zero_lt_succ 9) (by simp)
  simpa [readVarint] using hloop

variable {bytes : List UInt8} {start used : ℕ} {n : UInt64}

theorem exists_of_readVarint (h : readVarint bytes start = some (n, used)) :
    ∃ run ∈ varint, ∃ rest, bytes.drop start = run ++ rest ∧ n.toNat = number run ∧
      used = run.length := by
  rw [readVarint_eq] at h
  obtain ⟨run, htake, hread⟩ := Option.map_eq_some_iff.mp h
  obtain ⟨hrun, rest, hsplit⟩ := Varint.exists_of_takeRun htake
  obtain ⟨rfl, rfl⟩ := Prod.mk.inj hread
  exact ⟨run, hrun, rest, hsplit, UInt64.toNat_ofNat' .., rfl⟩

theorem ne_of_readVarint_none (h : readVarint bytes start = none) :
    ∀ run ∈ varint, ∀ rest, bytes.drop start ≠ run ++ rest := by
  intro run hrun rest hsplit
  rw [readVarint_eq, hsplit, Varint.takeRun_append hrun] at h
  exact absurd h (by simp)

theorem readVarint_encode {m : ℕ} {rest : List UInt8} (hm : m < 2 ^ 64)
    (hsplit : bytes.drop start = Varint.encode m ++ rest) :
    readVarint bytes start = some (UInt64.ofNat m, (Varint.encode m).length) := by
  have hrun : Varint.encode m ∈ Varint.runs 10 := Varint.encode_mem_runs (by omega)
  rw [readVarint_eq, hsplit, Varint.takeRun_append hrun, Option.map_some, Varint.value_encode]

theorem toInt_zigzagDecode (value : UInt64) :
    (zigzagDecode value).toInt = Varint.unzigzag value.toNat := by
  have hmax := value.toNat_lt
  have hlow : (value &&& 1).toNat = value.toNat % 2 := by
    rw [UInt64.toNat_and]
    exact Nat.and_two_pow_sub_one_eq_mod value.toNat 1
  have hhalf : (value >>> 1).toNat = value.toNat / 2 := by
    rw [UInt64.toNat_shiftRight]
    exact Nat.shiftRight_eq_div_pow value.toNat 1
  have hsigned : (value >>> 1).toInt64.toInt = (value.toNat / 2 : ℕ) := by
    change (value >>> 1).toBitVec.toInt = _
    rw [BitVec.toInt_eq_toNat_of_lt (by change 2 * (value >>> 1).toNat < _; omega)]
    change ((value >>> 1).toNat : ℤ) = _
    rw [hhalf]
  rw [zigzagDecode, Varint.unzigzag]
  rcases Nat.mod_two_eq_zero_or_one value.toNat with heven | hodd
  · have hbit : value &&& 1 = 0 := UInt64.toNat_inj.mp (hlow.trans heven)
    rw [hbit, if_pos heven]
    simp [hsigned]
  · have hbit : value &&& 1 = 1 := UInt64.toNat_inj.mp (hlow.trans hodd)
    have hones : -(1 : UInt64).toInt64 = ~~~0 := by decide
    rw [hbit, if_neg (by omega), hones, Int64.xor_not, Int64.xor_zero, Int64.toInt_not, hsigned,
      Int.bmod_eq_of_le (by omega) (by omega)]

/-! ## Fields -/

theorem fromBits_eq_some_iff {bits : UInt64} {wireType : WireType} :
    WireType.fromBits bits = some wireType ↔ bits.toNat = wireType.bits := by
  have hsmall : ∀ m < 2 ^ 64, bits = UInt64.ofNat m ↔ bits.toNat = m := fun m hm => by
    rw [← UInt64.toNat_inj, UInt64.toNat_ofNat', Nat.mod_eq_of_lt hm]
  have h0 := hsmall 0 (by decide)
  have h1 := hsmall 1 (by decide)
  have h2 := hsmall 2 (by decide)
  have h5 := hsmall 5 (by decide)
  unfold WireType.fromBits
  split_ifs with a b c d <;> cases wireType <;> simp_all [WireType.bits]

theorem toNat_wireBits (key : UInt64) : (key &&& 0x07).toNat = key.toNat % 8 := by
  rw [UInt64.toNat_and]
  exact Nat.and_two_pow_sub_one_eq_mod key.toNat 3

theorem toNat_fieldNumber (key : UInt64) : (key >>> 3).toNat = key.toNat / 8 := by
  rw [UInt64.toNat_shiftRight]
  exact Nat.shiftRight_eq_div_pow key.toNat 3

theorem key_inj {wireType other : WireType} {run : List UInt8} (h : run ∈ key wireType)
    (hother : run ∈ key other) : wireType = other := by
  have hbits : wireType.bits = other.bits := h.2.1.symm.trans hother.2.1
  cases wireType <;> cases other <;> first | rfl | exact absurd hbits (by decide)

theorem prefixFree_key (wireType : WireType) : Framing.PrefixFree (key wireType) :=
  fun _ _ _ _ hx hy h => Varint.prefixFree_runs hx.1 hy.1 h

theorem prefixFree_counted : Framing.PrefixFree counted := by
  rintro _ _ s t ⟨run, hrun, content, hcontent, rfl⟩ ⟨run', hrun', content', hcontent', rfl⟩ h
  simp only [List.append_assoc] at h
  obtain ⟨rfl, hrest⟩ := Varint.prefixFree_runs.append_inj hrun hrun' h
  rw [(List.append_inj hrest (hcontent.trans hcontent'.symm)).1]

theorem prefixFree_payload (wireType : WireType) : Framing.PrefixFree (payload wireType) := by
  cases wireType with
  | varint => exact Varint.prefixFree_runs
  | fixed64 => exact Framing.prefixFree_exactly 8
  | lengthDelimited => exact prefixFree_counted
  | fixed32 => exact Framing.prefixFree_exactly 4

/-- **Where a field ends** can be told from its bytes. -/
theorem prefixFree_field : Framing.PrefixFree field := by
  rintro _ _ s t ⟨wireType, run, hrun, rest, hrest, rfl⟩ ⟨other, run', hrun', rest', hrest', rfl⟩ h
  simp only [List.append_assoc] at h
  obtain ⟨rfl, hbehind⟩ := Varint.prefixFree_runs.append_inj hrun.1 hrun'.1 h
  obtain rfl := key_inj hrun hrun'
  rw [prefixFree_payload wireType hrest hrest' hbehind]

theorem readsAt_counted {index : ℕ} {run rest : List UInt8} (hindex : index ≤ bytes.length)
    (hrun : run ∈ varint) (hsplit : bytes.drop index = run ++ rest) :
    Framing.ReadsAt counted bytes index
      (if bytes.length < index + run.length + number run then none
        else some (index + run.length + number run)) := by
  have hlength := congrArg List.length hsplit
  rw [List.length_drop, List.length_append] at hlength
  split_ifs with h
  · apply Framing.ReadsAt.absent
    rintro _ ⟨run', hrun', content, hcontent, rfl⟩ s hword
    rw [hsplit, List.append_assoc] at hword
    obtain ⟨rfl, hrest⟩ := Varint.prefixFree_runs.append_inj hrun hrun' hword
    have hbehind := congrArg List.length hrest
    rw [List.length_append] at hbehind
    omega
  · have hcontent : (rest.take (number run)).length = number run := by
      rw [List.length_take]
      omega
    have hword : run ++ rest.take (number run) ∈ counted := ⟨run, hrun, _, hcontent, rfl⟩
    have hread : Framing.ReadsAt counted bytes index
        (some (index + (run ++ rest.take (number run)).length)) := by
      apply Framing.ReadsAt.found (s := rest.drop (number run)) hword
      rw [hsplit, List.append_assoc, List.take_append_drop]
    rwa [List.length_append, hcontent, ← Nat.add_assoc] at hread

theorem readsAt_field {index : ℕ} {wireType : WireType} {run rest : List UInt8} {result : Option ℕ}
    (hrun : run ∈ key wireType) (hsplit : bytes.drop index = run ++ rest)
    (h : Framing.ReadsAt (payload wireType) bytes (index + run.length) result) :
    Framing.ReadsAt field bytes index result := by
  have hboth := Framing.ReadsAt.mul (prefixFree_key wireType) hrun hsplit h
  cases hboth with
  | found hword hbehind => exact .found ⟨wireType, hword⟩ hbehind
  | absent hnone =>
    apply Framing.ReadsAt.absent
    rintro word ⟨other, hword⟩ s hbehind
    obtain ⟨run', hrun', rest', hrest', rfl⟩ := hword
    have hkeys : run ++ rest = run' ++ (rest' ++ s) := by
      rw [← hsplit, hbehind, List.append_assoc]
    obtain ⟨rfl, -⟩ := Varint.prefixFree_runs.append_inj hrun.1 hrun'.1 hkeys
    obtain rfl := key_inj hrun hrun'
    exact hnone _ (Language.append_mem_mul hrun hrest') s hbehind

theorem readsAt_field_absent {index : ℕ}
    (h : ∀ run ∈ varint, ∀ rest, bytes.drop index = run ++ rest → ∀ wireType, run ∉ key wireType) :
    Framing.ReadsAt field bytes index none := by
  apply Framing.ReadsAt.absent
  rintro _ ⟨wireType, run, hrun, rest, -, rfl⟩ s hsplit
  exact h run hrun.1 (rest ++ s) (by rw [hsplit, List.append_assoc]) wireType hrun

theorem nil_notMem_field : [] ∉ field := by
  rintro ⟨wireType, run, hrun, rest, -, hempty⟩
  obtain ⟨rfl, -⟩ := List.append_eq_nil_iff.mp hempty
  exact Varint.nil_notMem_runs hrun.1

end OffsetExplorer.Wire
