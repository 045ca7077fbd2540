import OffsetExplorer.Protobuf.Grammar

/-!
# What is taken for a message

The decoder takes exactly the messages of the wire format, whatever is in their length-delimited
fields, and comes back with a stack that does not depend on the payload.

* `Value.Within`: how deep objects are nested in what is shown.
* `decodeValue_spec`, `decodeField_spec`, `decodeLoop_spec`, `decodeFields_spec`: what each part of
  the recursion gives, from what the calls that it makes give.
* **`decodeRaw_accepts`**: the decoder.
-/

namespace OffsetExplorer.Wire

open Computability

/-- Objects are nested at most so many levels deep. -/
inductive Value.Within : ℕ → Value → Prop
  | number (n : ℕ) (m : UInt64) : Within n (.number m)
  | string (n : ℕ) (s : String) : Within n (.string s)
  | array {n : ℕ} {items : List Value} : (∀ item ∈ items, Within n item) → Within n (.array items)
  | object {n : ℕ} {fields : List (String × Value)} :
      (∀ entry ∈ fields, Within n entry.2) → Within (n + 1) (.object fields)

/-- The calls for the contents come back, with objects of so many levels at most. -/
def Bounded (n : ℕ) (nested : List UInt8 → Call Fields) : Prop :=
  ∀ content, content.length < 2 ^ 63 → ∃ result, nested content = .ok result ∧
    ∀ fields ∈ result, (Value.object fields.entries).Within n

variable (texts : Texts) {nested : List UInt8 → Call Fields} {bytes : List UInt8} {index n : ℕ}

/-! ## Values -/

theorem varintValue_within (raw : UInt64) : (varintValue raw).Within n := by
  unfold varintValue
  split_ifs
  · exact .number ..
  · exact .string ..

theorem contentValue_within {result : Option Fields} {content : List UInt8}
    (h : ∀ fields ∈ result, (Value.object fields.entries).Within n) :
    (contentValue result content).Within n := by
  cases result with
  | none =>
    simp only [contentValue]
    split
    · exact .string ..
    · exact .string ..
  | some fields => exact h fields rfl

theorem addField_within {fields : Fields} (key : String) {value : Value}
    (hfields : ∀ entry ∈ fields.entries, entry.2.Within n) (hvalue : value.Within n) :
    ∀ entry ∈ (addField fields key value).entries, entry.2.Within n := by
  have hset : ∀ new : Value, new.Within n →
      ∀ entry ∈ (fields.set key new).entries, entry.2.Within n := by
    intro new hnew entry hentry
    rcases Record.mem_entries_set hentry with rfl | hold
    · exact hnew
    · exact hfields entry hold
  have hthere : ∀ old, fields.get? key = some old → old.Within n := fun old hold =>
    hfields (key, old) (Record.mem_entries_of_get? hold)
  unfold addField
  split
  · rename_i existing hold
    apply hset
    cases hthere _ hold with
    | array hitems =>
      refine .array fun item hitem => ?_
      rcases List.mem_append.mp hitem with hbefore | hlast
      · exact hitems item hbefore
      · rwa [List.mem_singleton.mp hlast]
  · rename_i first hold
    apply hset
    exact .array (by simp [hthere _ hold, hvalue])
  · exact hset value hvalue

/-! ## The parts of the recursion -/

/-- **A payload** is read where one is. -/
theorem decodeValue_spec (hnested : Bounded n nested) (hfit : bytes.length < 2 ^ 63)
    (hindex : index ≤ bytes.length) (wireType : WireType) :
    ∃ result, decodeValue texts nested bytes index wireType = .ok result ∧
      Framing.ReadsAt (payload wireType) bytes index (result.map Prod.snd) ∧
      ∀ found ∈ result, found.1.Within n := by
  cases wireType with
  | varint =>
    cases hread : readVarint bytes index with
    | none =>
      refine ⟨none, by simp only [decodeValue, hread], ?_, by simp⟩
      exact .absent (ne_of_readVarint_none hread)
    | some found =>
      obtain ⟨raw, used⟩ := found
      obtain ⟨run, hrun, rest, hsplit, -, rfl⟩ := exists_of_readVarint hread
      refine ⟨some (varintValue raw, index + run.length), by simp only [decodeValue, hread], ?_, ?_⟩
      · exact .found hrun hsplit
      · rintro _ ⟨⟩
        exact varintValue_within raw
  | fixed64 =>
    have hreads := Framing.readsAt_exactly bytes 8 hindex
    by_cases hlength : bytes.length < index + 8
    · refine ⟨none, by rw [decodeValue, if_pos hlength], ?_, by simp⟩
      rwa [if_pos hlength] at hreads
    · refine ⟨_, by rw [decodeValue, if_neg hlength], ?_, ?_⟩
      · rwa [if_neg hlength] at hreads
      · rintro _ ⟨⟩
        exact .string ..
  | fixed32 =>
    have hreads := Framing.readsAt_exactly bytes 4 hindex
    by_cases hlength : bytes.length < index + 4
    · refine ⟨none, by rw [decodeValue, if_pos hlength], ?_, by simp⟩
      rwa [if_pos hlength] at hreads
    · refine ⟨_, by rw [decodeValue, if_neg hlength], ?_, ?_⟩
      · rwa [if_neg hlength] at hreads
      · rintro _ ⟨⟩
        exact .string ..
  | lengthDelimited =>
    cases hread : readVarint bytes index with
    | none =>
      refine ⟨none, by simp only [decodeValue, hread], ?_, by simp⟩
      apply Framing.ReadsAt.absent
      rintro _ ⟨run, hrun, content, -, rfl⟩ s hsplit
      exact ne_of_readVarint_none hread run hrun (content ++ s) (by rw [hsplit, List.append_assoc])
    | some found =>
      obtain ⟨length, used⟩ := found
      obtain ⟨run, hrun, rest, hsplit, hnumber, rfl⟩ := exists_of_readVarint hread
      have hreads := readsAt_counted hindex hrun hsplit
      rw [← hnumber] at hreads
      by_cases hstop : bytes.length < index + run.length + length.toNat
      · refine ⟨none, ?_, by rwa [if_pos hstop] at hreads, by simp⟩
        simp only [decodeValue, hread, checkedAdd]
        split_ifs with hsum
        · exact if_pos hstop
        · rfl
      · have hsum : index + run.length + length.toNat < 2 ^ 64 := by omega
        obtain ⟨content, hcontent⟩ : ∃ content, content =
          (bytes.drop (index + run.length)).take length.toNat := ⟨_, rfl⟩
        have hshort : content.length < 2 ^ 63 := by
          rw [hcontent, List.length_take, List.length_drop]
          omega
        obtain ⟨result, hcall, hwithin⟩ := hnested content hshort
        refine ⟨some (contentValue result content, index + run.length + length.toNat), ?_, ?_, ?_⟩
        · simp only [decodeValue, hread, checkedAdd, if_pos hsum, if_neg hstop, ← hcontent, hcall]
          rfl
        · rwa [if_neg hstop] at hreads
        · rintro _ ⟨⟩
          exact contentValue_within hwithin

/-- **A field** is read where one is. -/
theorem decodeField_spec (hnested : Bounded n nested) (hfit : bytes.length < 2 ^ 63)
    (hindex : index ≤ bytes.length) :
    ∃ result, decodeField texts nested bytes index = .ok result ∧
      Framing.ReadsAt field bytes index (result.map fun found => found.2.2) ∧
      ∀ found ∈ result, found.2.1.Within n := by
  cases hread : readVarint bytes index with
  | none =>
    refine ⟨none, by simp only [decodeField, hread], ?_, by simp⟩
    exact readsAt_field_absent fun run hrun rest hsplit =>
      absurd hsplit (ne_of_readVarint_none hread run hrun rest)
  | some found =>
    obtain ⟨raw, used⟩ := found
    obtain ⟨run, hrun, rest, hsplit, hnumber, rfl⟩ := exists_of_readVarint hread
    -- no other run is at this place
    have honly : ∀ run' ∈ varint, ∀ rest', bytes.drop index = run' ++ rest' → run' = run := by
      intro run' hrun' rest' hsplit'
      exact Varint.prefixFree_runs hrun' hrun (hsplit'.symm.trans hsplit)
    have hlow : (raw &&& 0x07).toNat = number run % 8 := by rw [toNat_wireBits, hnumber]
    have hhigh : (raw >>> 3).toNat = number run / 8 := by rw [toNat_fieldNumber, hnumber]
    cases htype : WireType.fromBits (raw &&& 0x07) with
    | none =>
      refine ⟨none, by simp only [decodeField, hread, htype], ?_, by simp⟩
      refine readsAt_field_absent fun run' hrun' rest' hsplit' wireType hkey => ?_
      obtain rfl := honly run' hrun' rest' hsplit'
      rw [fromBits_eq_some_iff.mpr (hlow.trans hkey.2.1)] at htype
      cases htype
    | some wireType =>
      have hbits : number run % 8 = wireType.bits := by
        rw [← hlow]
        exact fromBits_eq_some_iff.mp htype
      by_cases hzero : raw >>> 3 = 0
      · refine ⟨none, by simp only [decodeField, hread, htype, if_pos hzero], ?_, by simp⟩
        refine readsAt_field_absent fun run' hrun' rest' hsplit' wireType hkey => ?_
        obtain rfl := honly run' hrun' rest' hsplit'
        have hpos := hkey.2.2
        rw [← hhigh, hzero] at hpos
        exact absurd hpos (by decide)
      · have hpos : 1 ≤ number run / 8 := by
          rw [← hhigh]
          exact Nat.one_le_iff_ne_zero.mpr fun h => hzero (UInt64.toNat_inj.mp h)
        have hbehind : index + run.length ≤ bytes.length := by
          have hlength := congrArg List.length hsplit
          rw [List.length_drop, List.length_append] at hlength
          omega
        obtain ⟨result, hvalue, hreads, hwithin⟩ :=
          decodeValue_spec texts hnested hfit hbehind wireType
        refine ⟨result.map fun found => (toString (raw >>> 3).toNat, found.1, found.2), ?_, ?_, ?_⟩
        · simp only [decodeField, hread, htype, if_neg hzero, hvalue]
          rfl
        · rw [Option.map_map]
          exact readsAt_field ⟨hrun, hbits, hpos⟩ hsplit hreads
        · intro found hfound
          obtain ⟨inner, hinner, rfl⟩ := Option.map_eq_some_iff.mp hfound
          exact hwithin inner hinner

theorem drop_mem_message (h : ¬ index < bytes.length) : bytes.drop index ∈ message := by
  rw [List.drop_eq_nil_of_le (by omega)]
  exact Language.nil_mem_kstar field

/-- **The loop** goes on to the end of a message; each round reads a byte or more, so that there are
rounds enough. -/
theorem decodeLoop_spec (hnested : Bounded n nested) (hfit : bytes.length < 2 ^ 63) {rounds : ℕ}
    {fields : Fields} (hindex : index ≤ bytes.length) (hrounds : bytes.length ≤ index + rounds)
    (hfields : ∀ entry ∈ fields.entries, entry.2.Within n) :
    ∃ result, decodeLoop texts nested bytes rounds index fields = .ok result ∧
      (result.isSome ↔ bytes.drop index ∈ message) ∧
      ∀ fields ∈ result, ∀ entry ∈ fields.entries, entry.2.Within n := by
  induction rounds generalizing index fields with
  | zero =>
    have hover : ¬ index < bytes.length := by omega
    refine ⟨some fields, by rw [decodeLoop, if_neg hover], ?_, ?_⟩
    · simpa using drop_mem_message hover
    · rintro _ ⟨⟩
      exact hfields
  | succ rounds ih =>
    rw [decodeLoop]
    by_cases hmore : index < bytes.length
    · rw [if_pos hmore]
      obtain ⟨result, hfield, hreads, hwithin⟩ := decodeField_spec texts hnested hfit hindex
      rw [hfield]
      cases result with
      | none =>
        refine ⟨none, rfl, ?_, by simp⟩
        simpa [message] using hreads.notMem_kstar hmore
      | some found =>
        obtain ⟨name, value, next⟩ := found
        have hstep := hreads.mem_kstar prefixFree_field nil_notMem_field
        have hforward : index < next := hreads.lt nil_notMem_field
        have hnext : next ≤ bytes.length := hreads.le hindex
        have hall := addField_within name hfields (hwithin _ rfl)
        obtain ⟨result, hloop, hiff, hrest⟩ := ih hnext (by omega) hall
        exact ⟨result, hloop, hiff.trans hstep.symm, hrest⟩
    · refine ⟨some fields, by rw [if_neg hmore], ?_, ?_⟩
      · simpa using drop_mem_message hmore
      · rintro _ ⟨⟩
        exact hfields

/-- **The fields of a message**: a frame for every depth up to the limit, and one for the call that is
past it, are enough. -/
theorem decodeFields_spec {stack depth : ℕ} (hstack : maxDepth + 2 ≤ stack + depth)
    (hpos : 0 < stack) (hfit : bytes.length < 2 ^ 63) :
    ∃ result, decodeFields texts stack bytes depth = .ok result ∧
      (depth ≤ maxDepth → (result.isSome ↔ bytes ∈ message)) ∧
      ∀ fields ∈ result, (Value.object fields.entries).Within (maxDepth + 1 - depth) := by
  induction stack generalizing bytes depth with
  | zero => exact absurd hpos (by omega)
  | succ stack ih =>
    rw [decodeFields]
    by_cases hdepth : maxDepth < depth
    · exact ⟨none, by rw [if_pos hdepth], fun h => absurd hdepth (by omega), by simp⟩
    · rw [if_neg hdepth]
      have hnested : Bounded (maxDepth - depth) (parseNested fun content =>
          decodeFields texts stack content (depth + 1)) := by
        intro content hcontent
        rw [parseNested]
        split_ifs
        · exact ⟨none, rfl, by simp⟩
        · obtain ⟨result, hcall, -, hwithin⟩ := ih (by omega : maxDepth + 2 ≤ stack + (depth + 1))
            (by omega) hcontent
          refine ⟨result, hcall, ?_⟩
          rwa [show maxDepth + 1 - (depth + 1) = maxDepth - depth by omega] at hwithin
      have hempty : ∀ entry ∈ (∅ : Fields).entries, entry.2.Within (maxDepth - depth) :=
        fun entry hentry => absurd hentry List.not_mem_nil
      obtain ⟨result, hloop, hiff, hwithin⟩ :=
        decodeLoop_spec texts hnested hfit (Nat.zero_le _) (Nat.le_add_left ..) hempty
      refine ⟨result, hloop, fun _ => hiff, fun fields hfields => ?_⟩
      rw [show maxDepth + 1 - depth = maxDepth - depth + 1 by omega]
      exact .object (hwithin fields hfields)

theorem decodeFields_stack {stack stack' depth : ℕ} (hstack : maxDepth + 2 ≤ stack + depth)
    (hstack' : maxDepth + 2 ≤ stack' + depth) (hpos : 0 < stack) (hpos' : 0 < stack') :
    decodeFields texts stack bytes depth = decodeFields texts stack' bytes depth := by
  induction stack generalizing stack' bytes depth with
  | zero => exact absurd hpos (by omega)
  | succ stack ih =>
    cases stack' with
    | zero => exact absurd hpos' (by omega)
    | succ stack' =>
      rw [decodeFields, decodeFields]
      split_ifs with hdepth
      · rfl
      · have hcalls : (fun content => decodeFields texts stack content (depth + 1)) =
            fun content => decodeFields texts stack' content (depth + 1) := by
          funext content
          exact ih (by omega) (by omega) (by omega) (by omega)
        rw [hcalls]

/-! ## The decoder -/

/-- The call comes back with the result, on every stack with a frame for each depth up to the limit and
one for the call that is past it. -/
def Returns (texts : Texts) (slice : Slice) (result : Option Value) : Prop :=
  ∀ stack, maxDepth + 2 ≤ stack → decodeRaw texts stack slice = .ok result

theorem decodeRaw_spec (texts : Texts) (slice : Slice) :
    ∃ result, Returns texts slice result ∧ (result.isSome ↔ slice.bytes ∈ message) ∧
      ∀ value ∈ result, value.Within (maxDepth + 1) := by
  have henough : maxDepth + 2 ≤ maxDepth + 2 + 0 := Nat.le_refl _
  obtain ⟨result, hcall, hiff, hwithin⟩ :=
    decodeFields_spec texts henough (Nat.succ_pos _) slice.fits
  refine ⟨result.map fun fields => .object fields.entries, fun stack hstack => ?_, ?_, ?_⟩
  · rw [decodeRaw, decodeFields_stack texts hstack henough (by omega) (Nat.succ_pos _), hcall]
    rfl
  · rw [Option.isSome_map]
    exact hiff (Nat.zero_le _)
  · intro value hvalue
    obtain ⟨fields, hfields, rfl⟩ := Option.map_eq_some_iff.mp hvalue
    exact hwithin fields hfields

theorem refill_mem_message {before run length content other after : List UInt8}
    (hbefore : before ∈ message) (hrun : run ∈ key .lengthDelimited) (hlength : length ∈ varint)
    (hcontent : content.length = number length) (hother : other.length = number length) :
    before ++ (run ++ (length ++ content)) ++ after ∈ message ↔
      before ++ (run ++ (length ++ other)) ++ after ∈ message := by
  have hfield : ∀ inside : List UInt8, inside.length = number length →
      run ++ (length ++ inside) ∈ field := fun inside hinside =>
    ⟨.lengthDelimited, Language.append_mem_mul hrun ⟨length, hlength, inside, hinside, rfl⟩⟩
  have hrest : ∀ inside : List UInt8, inside.length = number length →
      (before ++ (run ++ (length ++ inside)) ++ after ∈ message ↔ after ∈ message) := by
    intro inside hinside
    rw [List.append_assoc, message,
      prefixFree_field.kstar_append_mem_kstar nil_notMem_field hbefore,
      prefixFree_field.append_mem_kstar nil_notMem_field (hfield inside hinside)]
  rw [hrest content hcontent, hrest other hother]

/-- **Main result.** For every payload the decoder comes back, on a stack that does not depend on the
payload; it gives something exactly when the payload is a message; what it gives has no more levels than
the limit allows; and what is in a length-delimited field does not matter. -/
theorem decodeRaw_accepts (texts : Texts) (slice : Slice) :
    ∃ result, Returns texts slice result ∧ (result.isSome ↔ slice.bytes ∈ message) ∧
      (∀ value ∈ result, value.Within (maxDepth + 1)) ∧
      ∀ before ∈ message, ∀ run ∈ key .lengthDelimited, ∀ length ∈ varint,
        ∀ content other after : List UInt8,
        content.length = number length → other.length = number length →
        slice.bytes = before ++ (run ++ (length ++ content)) ++ after →
        ∀ refilled : Slice, refilled.bytes = before ++ (run ++ (length ++ other)) ++ after →
          ∃ result', Returns texts refilled result' ∧ (result'.isSome ↔ result.isSome) := by
  obtain ⟨result, hreturns, hiff, hwithin⟩ := decodeRaw_spec texts slice
  refine ⟨result, hreturns, hiff, hwithin, ?_⟩
  intro before hbefore run hrun length hlength content other after hcontent hother hslice refilled
    hrefilled
  obtain ⟨result', hreturns', hiff', -⟩ := decodeRaw_spec texts refilled
  refine ⟨result', hreturns', ?_⟩
  rw [hiff', hiff, hslice, hrefilled]
  exact (refill_mem_message hbefore hrun hlength hcontent hother).symm

end OffsetExplorer.Wire
