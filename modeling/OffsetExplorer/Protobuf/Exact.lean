import OffsetExplorer.Protobuf.Grammar

/-!
# Which varints are read exactly

`read_varint` adds the seven bits of the tenth byte at the sixty-fourth place, where there is room for
one. What was written with 64 bits is read back; what has more of them is read as another number.

* `Spells`: a varint is there, and its sum has 64 bits.
* `Overflows`: the tenth byte has more than its one bit.
* `value_lt_iff`: a sum has 64 bits exactly when its tenth byte keeps to its bit.
* **`readVarint_exact_iff`**: what is read is what is spelled exactly where nothing overflows; every
  number is read back from its shortest varint, and every number with a sign from its code.
-/

namespace OffsetExplorer.Wire

/-- The low seven bits of each byte, at their place. -/
def untruncated (run : List UInt8) : ℕ := ∑ i : Fin run.length, (run.get i).toNat % 128 * 2 ^ (7 * i.val)

/-- At the place is a varint of so many bytes, and its sum is a number of 64 bits. -/
def Spells (bytes : List UInt8) (start : ℕ) (n : UInt64) (used : ℕ) : Prop :=
  ∃ run ∈ varint, ∃ rest, bytes.drop start = run ++ rest ∧
    untruncated run < 2 ^ 64 ∧ n.toNat = untruncated run ∧ used = run.length

/-- Nine bytes that go on, and a tenth that ends the varint and has more than one bit. -/
def Overflows (input : List UInt8) : Prop :=
  ∃ init last rest, input = init ++ last :: rest ∧ init.length = 9 ∧
    (∀ b ∈ init, 128 ≤ b.toNat) ∧ 2 ≤ last.toNat ∧ last.toNat < 128

/-- Non-negative numbers on the even places, negative ones on the odd. -/
def zigzagEncode (n : Int64) : UInt64 := .ofNat (Varint.zigzag n.toInt)

variable {run rest bytes : List UInt8} {start used : ℕ} {n : UInt64}

theorem untruncated_eq (run : List UInt8) : untruncated run = Varint.value run :=
  (Varint.value_eq_sum run).symm

/-! ## Room for 64 bits -/

theorem value_lt_iff {init : List UInt8} {last : UInt8} (hinit : init.length = 9)
    (hlast : last.toNat < 128) :
    Varint.value (init ++ [last]) < 2 ^ 64 ↔ last.toNat < 2 := by
  have hlow := Varint.value_lt init
  rw [hinit] at hlow
  rw [Varint.value_append, hinit, Varint.value, Varint.value, Nat.mod_eq_of_lt hlast]
  omega

theorem value_lt_of_not_overflows (hrun : run ∈ varint) (h : ¬ Overflows (run ++ rest)) :
    Varint.value run < 2 ^ 64 := by
  obtain ⟨hlength, init, last, rfl, hinit, hlast⟩ := hrun
  rw [List.length_append, List.length_singleton] at hlength
  by_cases hten : init.length = 9
  · refine (value_lt_iff hten hlast).mpr (not_le.mp fun hwide => h ?_)
    exact ⟨init, last, rest, List.append_assoc .., hten, hinit, hwide, hlast⟩
  · -- nine bytes have sixty-three bits
    have hlow := Varint.value_lt (init ++ [last])
    have hpow : 128 ^ (init ++ [last]).length ≤ 128 ^ 9 := by
      refine Nat.pow_le_pow_right (by decide) ?_
      rw [List.length_append, List.length_singleton]
      omega
    exact (hlow.trans_le hpow).trans (by decide)

theorem exists_of_overflows (h : Overflows (bytes.drop start)) :
    ∃ run ∈ varint, ∃ rest, bytes.drop start = run ++ rest ∧ 2 ^ 64 ≤ Varint.value run := by
  obtain ⟨init, last, rest, hsplit, hinit, hhigh, hwide, hlast⟩ := h
  refine ⟨init ++ [last], ⟨by simp [hinit], init, last, rfl, hhigh, hlast⟩, rest, ?_, ?_⟩
  · rw [hsplit, List.append_assoc, List.singleton_append]
  · refine not_lt.mp fun hfits => ?_
    have hbit := (value_lt_iff hinit hlast).mp hfits
    omega

/-! ## Reading -/

theorem readVarint_of_split (hrun : run ∈ varint) (hsplit : bytes.drop start = run ++ rest) :
    readVarint bytes start = some (.ofNat (Varint.value run), run.length) := by
  rw [readVarint_eq, hsplit, Varint.takeRun_append hrun, Option.map_some]

theorem readVarint_of_spells (h : Spells bytes start n used) :
    readVarint bytes start = some (n, used) := by
  obtain ⟨run, hrun, rest, hsplit, -, hn, rfl⟩ := h
  rw [readVarint_of_split hrun hsplit, ← untruncated_eq, ← hn, UInt64.ofNat_toNat]

theorem spells_of_readVarint (hfits : ¬ Overflows (bytes.drop start))
    (h : readVarint bytes start = some (n, used)) : Spells bytes start n used := by
  obtain ⟨run, hrun, rest, hsplit, hn, hused⟩ := exists_of_readVarint h
  rw [hsplit] at hfits
  have hroom := value_lt_of_not_overflows hrun hfits
  rw [number, Nat.mod_eq_of_lt hroom] at hn
  exact ⟨run, hrun, rest, hsplit, by rwa [untruncated_eq], by rwa [untruncated_eq], hused⟩

theorem not_spells_of_overflows (h : Overflows (bytes.drop start)) : ¬ Spells bytes start n used := by
  rintro ⟨run, hrun, rest, hsplit, hroom, -⟩
  obtain ⟨wide, hwide, behind, hthere, hlarge⟩ := exists_of_overflows h
  have hsame : run = wide := Varint.prefixFree_runs hrun hwide (hsplit.symm.trans hthere)
  rw [untruncated_eq, hsame] at hroom
  omega

theorem exists_readVarint_of_overflows (h : Overflows (bytes.drop start)) :
    ∃ n used, readVarint bytes start = some (n, used) := by
  obtain ⟨run, hrun, rest, hsplit, -⟩ := exists_of_overflows h
  exact ⟨_, _, readVarint_of_split hrun hsplit⟩

theorem spells_iff_readVarint_iff (bytes : List UInt8) (start : ℕ) :
    (∀ n used, readVarint bytes start = some (n, used) ↔ Spells bytes start n used) ↔
      ¬ Overflows (bytes.drop start) := by
  constructor
  · intro hexact hover
    obtain ⟨n, used, hread⟩ := exists_readVarint_of_overflows hover
    exact not_spells_of_overflows hover ((hexact n used).mp hread)
  · intro hfits n used
    exact ⟨spells_of_readVarint hfits, readVarint_of_spells⟩

theorem length_encode_le_of_spells (h : Spells bytes start n used) :
    (Varint.encode n.toNat).length ≤ used := by
  obtain ⟨run, hrun, rest, -, -, hn, rfl⟩ := h
  rw [hn, untruncated_eq]
  exact Varint.length_encode_value_le hrun

/-! ## Signs -/

theorem toNat_zigzagEncode (n : Int64) : (zigzagEncode n).toNat = Varint.zigzag n.toInt := by
  rw [zigzagEncode, UInt64.toNat_ofNat']
  exact Nat.mod_eq_of_lt (Varint.zigzag_lt_iff.mpr ⟨n.le_toInt, n.toInt_lt⟩)

theorem zigzagDecode_zigzagEncode (n : Int64) : zigzagDecode (zigzagEncode n) = n := by
  rw [← Int64.toInt_inj, toInt_zigzagDecode, toNat_zigzagEncode, Varint.unzigzag_zigzag]

theorem zigzagEncode_zigzagDecode (n : UInt64) : zigzagEncode (zigzagDecode n) = n := by
  rw [← UInt64.toNat_inj, toNat_zigzagEncode, toInt_zigzagDecode, Varint.zigzag_unzigzag]

/-! ## All of it -/

/-- **`read_varint`** reads what is spelled, and nothing else, exactly where nothing overflows; each
number is read back from its shortest varint, whatever is around it, and each number with a sign from its
code. -/
theorem readVarint_exact_iff (bytes rest : List UInt8) (start : ℕ) (n : UInt64) (z : Int64) :
    ((∀ v used, readVarint bytes start = some (v, used) ↔ Spells bytes start v used) ↔
      ¬ Overflows (bytes.drop start)) ∧
    readVarint (bytes ++ Varint.encode n.toNat ++ rest) bytes.length =
      some (n, (Varint.encode n.toNat).length) ∧
    zigzagDecode (zigzagEncode z) = z ∧ zigzagEncode (zigzagDecode n) = n := by
  have hsplit : (bytes ++ Varint.encode n.toNat ++ rest).drop bytes.length =
      Varint.encode n.toNat ++ rest := by
    rw [List.append_assoc, List.drop_left]
  refine ⟨spells_iff_readVarint_iff bytes start, ?_, zigzagDecode_zigzagEncode z,
    zigzagEncode_zigzagDecode n⟩
  rw [readVarint_encode n.toNat_lt hsplit, UInt64.ofNat_toNat]

/-- 2^64 in ten bytes: it is read as zero. -/
def overlong : List UInt8 := [0x80, 0x80, 0x80, 0x80, 0x80, 0x80, 0x80, 0x80, 0x80, 0x02]

theorem overlong_misread :
    readVarint overlong 0 = some (0, 10) ∧ ¬ Spells overlong 0 0 10 ∧
      untruncated overlong = 2 ^ 64 := by
  refine ⟨by decide +kernel, not_spells_of_overflows ?_, by decide +kernel⟩
  exact ⟨List.replicate 9 0x80, 0x02, [], rfl, rfl, by simp, by decide, by decide⟩

end OffsetExplorer.Wire
