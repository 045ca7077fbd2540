import OffsetExplorer.Lib.Bytes
import OffsetExplorer.Protobuf.Accept

/-!
# A header in front of a payload

`lib.rs` of the protobuf crate: a serializer with a registry writes a zero byte, the id of the schema
and a path of message indexes in front of the message.

* `detectConfluentHeader`, `decideDecodeStrategy`: the code.
* `frame`, `shorthand`: what a serializer writes.
* **`confluent_header`**: what was written is found; a header that is found leaves a payload; and no
  message is taken for a header.
-/

namespace OffsetExplorer.Protobuf

open Wire

/-- What a registry's serializer puts in front of a message. -/
structure ConfluentHeader where
  schemaId : UInt32
  messageIndex : List ℤ
  bodyOffset : ℕ
  deriving DecidableEq

/-- `u32::from_be_bytes`. -/
def fromBeBytes (a b c d : UInt8) : UInt32 := .ofNat (Bytes.fromBe [a, b, c, d])

/-- `usize::try_from`, of a number below 2^63. -/
def usizeTryFrom (n : Int64) : Option ℕ := if 0 ≤ n.toInt then some n.toInt.toNat else none

/-- `i32::try_from`. -/
def i32TryFrom (n : Int64) : Option ℤ :=
  if -2 ^ 31 ≤ n.toInt ∧ n.toInt < 2 ^ 31 then some n.toInt else none

/-- The loop over the indexes, with so many left. -/
def readIndexes (bytes : List UInt8) : ℕ → ℕ → List ℤ → Option (List ℤ × ℕ)
  | 0, offset, messageIndex => some (messageIndex, offset)
  | left + 1, offset, messageIndex =>
    match readVarint bytes offset with
    | none => none
    | some (raw, used) =>
      match i32TryFrom (zigzagDecode raw) with
      | none => none
      | some index => readIndexes bytes left (offset + used) (messageIndex ++ [index])

/-- The path, and where it ends. -/
def readPath (bytes : List UInt8) (offset : ℕ) : Option (List ℤ × ℕ) :=
  match readVarint bytes offset with
  | none => none
  | some (first, used) =>
    if first = 0 then some ([0], offset + used)
    else
      match usizeTryFrom (zigzagDecode first) with
      | none => none
      | some count => if 32 < count then none else readIndexes bytes count (offset + used) []

/-- A zero, the id of a schema in network order and the path to a message in it. -/
def detectConfluentHeader (bytes : List UInt8) : Option ConfluentHeader :=
  match bytes with
  | magic :: a :: b :: c :: d :: _ =>
    if magic ≠ 0 then none
    else (readPath bytes 5).map fun (messageIndex, offset) =>
      { schemaId := fromBeBytes a b c d, messageIndex, bodyOffset := offset }
  | _ => none

/-- Where the schema of a payload comes from, and where its message begins. -/
inductive ProtobufDecodeStrategy where
  | manualSchema (bodyOffset : ℕ) (messageIndex : List ℤ)
  | schemaRegistry (schemaId : UInt32) (bodyOffset : ℕ) (messageIndex : List ℤ)
  | rawFields (bodyOffset : ℕ)
  deriving DecidableEq

/-- A schema that was set by hand goes before the registry, and no schema is no error. -/
def decideDecodeStrategy (bytes : List UInt8) (hasManualSchema hasRegistry : Bool) :
    ProtobufDecodeStrategy :=
  let header := detectConfluentHeader bytes
  let bodyOffset := (header.map (·.bodyOffset)).getD 0
  let messageIndex := (header.map (·.messageIndex)).getD [0]
  if hasManualSchema then .manualSchema bodyOffset messageIndex
  else
    match header with
    | some found =>
      if hasRegistry then .schemaRegistry found.schemaId bodyOffset messageIndex
      else .rawFields bodyOffset
    | none => .rawFields bodyOffset

/-- Where the payload is cut before it is decoded. -/
def ProtobufDecodeStrategy.bodyOffset : ProtobufDecodeStrategy → ℕ
  | .manualSchema offset _ => offset
  | .schemaRegistry _ offset _ => offset
  | .rawFields offset => offset

/-! ## What a serializer writes -/

/-- The steps of a path on the wire. -/
def encodeIndexes (path : List ℤ) : List UInt8 :=
  path.flatMap fun index => Varint.encode (Varint.zigzag index)

/-- A payload with its path written out. -/
def frame (id : UInt32) (path : List ℤ) (body : List UInt8) : List UInt8 :=
  0 :: Bytes.toBe 4 id.toNat ++ (Varint.encode (Varint.zigzag path.length) ++ (encodeIndexes path ++ body))

/-- A payload of the first message of its schema, whose path is one zero byte. -/
def shorthand (id : UInt32) (body : List UInt8) : List UInt8 := 0 :: Bytes.toBe 4 id.toNat ++ 0 :: body

/-! ## Reading what was written -/

variable {bytes body : List UInt8} {offset stop count : ℕ} {path found : List ℤ}

theorem toInt_ofNat_zigzag {n : ℤ} (hn : Varint.zigzag n < 2 ^ 64) :
    (zigzagDecode (UInt64.ofNat (Varint.zigzag n))).toInt = n := by
  rw [toInt_zigzagDecode, UInt64.toNat_ofNat', Nat.mod_eq_of_lt hn, Varint.unzigzag_zigzag]

theorem zigzag_lt {n : ℤ} (h : 0 ≤ n ∧ n < 2 ^ 31) : Varint.zigzag n < 2 ^ 64 := by
  rw [Varint.zigzag, if_pos h.1]
  omega

theorem readIndexes_encode (hpath : ∀ index ∈ path, 0 ≤ index ∧ index < 2 ^ 31)
    (hsplit : bytes.drop offset = encodeIndexes path ++ body) :
    readIndexes bytes path.length offset found =
      some (found ++ path, offset + (encodeIndexes path).length) := by
  induction path generalizing offset found with
  | nil => simp [readIndexes, encodeIndexes]
  | cons index path ih =>
    have hindex := hpath index List.mem_cons_self
    have hcons : encodeIndexes (index :: path) =
        Varint.encode (Varint.zigzag index) ++ encodeIndexes path := List.flatMap_cons
    rw [hcons, List.append_assoc] at hsplit
    have hbehind := Framing.drop_behind hsplit
    have hsigned : i32TryFrom (zigzagDecode (UInt64.ofNat (Varint.zigzag index))) = some index := by
      rw [i32TryFrom, toInt_ofNat_zigzag (zigzag_lt hindex), if_pos (by omega)]
    rw [List.length_cons, readIndexes, readVarint_encode (zigzag_lt hindex) hsplit]
    simp only [hsigned]
    rw [ih (fun i hi => hpath i (List.mem_cons_of_mem index hi)) hbehind, hcons, List.length_append,
      List.append_assoc, List.singleton_append, Nat.add_assoc]

theorem readPath_encode (hshort : path.length ≤ 32) (hne : path ≠ [])
    (hpath : ∀ index ∈ path, 0 ≤ index ∧ index < 2 ^ 31)
    (hsplit : bytes.drop offset =
      Varint.encode (Varint.zigzag path.length) ++ (encodeIndexes path ++ body)) :
    ∃ stop, readPath bytes offset = some (path, stop) ∧ bytes.drop stop = body ∧
      stop = offset + (Varint.encode (Varint.zigzag path.length)).length +
        (encodeIndexes path).length := by
  have hcount : Varint.zigzag path.length < 2 ^ 64 := zigzag_lt (by omega)
  have hpos := List.length_pos_iff.mpr hne
  have hfirst : UInt64.ofNat (Varint.zigzag path.length) ≠ 0 := by
    intro hzero
    have hnat := congrArg UInt64.toNat hzero
    rw [UInt64.toNat_ofNat', Nat.mod_eq_of_lt hcount, Varint.zigzag, if_pos (by omega)] at hnat
    change _ = 0 at hnat
    omega
  have hsize : usizeTryFrom (zigzagDecode (UInt64.ofNat (Varint.zigzag path.length))) =
      some path.length := by
    rw [usizeTryFrom, toInt_ofNat_zigzag hcount, if_pos (by omega), Int.toNat_natCast]
  have hindexes := Framing.drop_behind hsplit
  refine ⟨_, ?_, Framing.drop_behind hindexes, rfl⟩
  rw [readPath, readVarint_encode hcount hsplit]
  simp only [if_neg hfirst, hsize, if_neg (Nat.not_lt.mpr hshort), readIndexes_encode hpath hindexes,
    List.nil_append]

/-! ## What is found -/

theorem readVarint_bounds {n : UInt64} {used : ℕ} (hoffset : offset ≤ bytes.length)
    (h : readVarint bytes offset = some (n, used)) : 1 ≤ used ∧ offset + used ≤ bytes.length := by
  obtain ⟨run, hrun, rest, hsplit, -, rfl⟩ := exists_of_readVarint h
  have hread : Framing.ReadsAt varint bytes offset (some (offset + run.length)) :=
    .found hrun hsplit
  have hforward := hread.lt Varint.nil_notMem_runs
  exact ⟨by omega, hread.le hoffset⟩

theorem readIndexes_bounds (hoffset : offset ≤ bytes.length)
    (h : readIndexes bytes count offset found = some (path, stop)) :
    path.length = found.length + count ∧ offset ≤ stop ∧ stop ≤ bytes.length := by
  induction count generalizing offset found with
  | zero =>
    obtain ⟨rfl, rfl⟩ := Prod.mk.inj (Option.some.inj h)
    exact ⟨rfl, Nat.le_refl _, hoffset⟩
  | succ count ih =>
    rw [readIndexes] at h
    split at h
    · cases h
    · rename_i raw used hread
      have hused := readVarint_bounds hoffset hread
      split at h
      · cases h
      · obtain ⟨hlength, hstart, hstop⟩ := ih hused.2 h
        rw [List.length_append, List.length_singleton] at hlength
        exact ⟨by omega, by omega, hstop⟩

theorem readPath_bounds (hoffset : offset ≤ bytes.length)
    (h : readPath bytes offset = some (path, stop)) :
    path ≠ [] ∧ offset + 1 ≤ stop ∧ stop ≤ bytes.length := by
  rw [readPath] at h
  split at h
  · cases h
  · rename_i first used hread
    have hused := readVarint_bounds hoffset hread
    split_ifs at h with hfirst
    · obtain ⟨rfl, rfl⟩ := Prod.mk.inj (Option.some.inj h)
      exact ⟨by simp, by omega, hused.2⟩
    · split at h
      · cases h
      · rename_i count hsize
        split_ifs at h with hmany
        obtain ⟨hlength, hstart, hstop⟩ := readIndexes_bounds hused.2 h
        have hcount : count ≠ 0 := by
          rintro rfl
          rw [usizeTryFrom, toInt_zigzagDecode] at hsize
          split_ifs at hsize with hsign
          have hzero : Varint.unzigzag first.toNat = 0 := by
            have := Option.some.inj hsize
            omega
          exact hfirst (UInt64.toNat_inj.mp (Varint.unzigzag_eq_zero_iff.mp hzero))
        refine ⟨?_, by omega, hstop⟩
        apply List.ne_nil_of_length_pos
        rw [hlength]
        omega

theorem detectConfluentHeader_eq (id : UInt32) (rest : List UInt8) :
    detectConfluentHeader (0 :: Bytes.toBe 4 id.toNat ++ rest) =
      (readPath (0 :: Bytes.toBe 4 id.toNat ++ rest) 5).map fun (messageIndex, offset) =>
        { schemaId := id, messageIndex, bodyOffset := offset } := by
  have hid : UInt32.ofNat (Bytes.fromBe (Bytes.toBe 4 id.toNat)) = id := by
    rw [Bytes.fromBe_toBe (by exact id.toNat_lt), UInt32.ofNat_toNat]
  simp only [Bytes.toBe, List.cons_append, List.nil_append] at hid ⊢
  simp only [detectConfluentHeader, ne_eq, not_true, if_false, fromBeBytes, hid]

theorem detectConfluentHeader_frame (id : UInt32) (hshort : path.length ≤ 32) (hne : path ≠ [])
    (hpath : ∀ index ∈ path, 0 ≤ index ∧ index < 2 ^ 31) :
    ∃ offset, detectConfluentHeader (frame id path body) = some ⟨id, path, offset⟩ ∧
      (frame id path body).drop offset = body ∧
      offset + body.length = (frame id path body).length := by
  have hsplit : (frame id path body).drop 5 =
      Varint.encode (Varint.zigzag path.length) ++ (encodeIndexes path ++ body) := rfl
  obtain ⟨stop, hread, hbody, hstop⟩ := readPath_encode hshort hne hpath hsplit
  refine ⟨stop, ?_, hbody, ?_⟩
  · rw [frame, detectConfluentHeader_eq, ← frame, hread]
    rfl
  · simp only [frame, List.length_append, List.length_cons, Bytes.length_toBe]
    omega

theorem detectConfluentHeader_shorthand (id : UInt32) (body : List UInt8) :
    detectConfluentHeader (shorthand id body) = some ⟨id, [0], 6⟩ ∧
      (shorthand id body).drop 6 = body := by
  refine ⟨?_, rfl⟩
  have hread : readPath (shorthand id body) 5 = some ([0], 6) := rfl
  rw [shorthand, detectConfluentHeader_eq, ← shorthand, hread]
  rfl

theorem detectConfluentHeader_bounds {header : ConfluentHeader}
    (h : detectConfluentHeader bytes = some header) :
    header.messageIndex ≠ [] ∧ 6 ≤ header.bodyOffset ∧ header.bodyOffset ≤ bytes.length := by
  unfold detectConfluentHeader at h
  split at h
  · split_ifs at h with hmagic
    obtain ⟨⟨found, stop⟩, hread, rfl⟩ := Option.map_eq_some_iff.mp h
    refine readPath_bounds ?_ hread
    simp only [List.length_cons]
    omega
  · cases h

theorem head_ne_zero_of_mem_message {magic : UInt8} {rest : List UInt8}
    (h : magic :: rest ∈ message) : magic ≠ 0 := by
  rintro rfl
  obtain ⟨word, ⟨wireType, run, hrun, payload, -, rfl⟩, s, -, hsplit⟩ :=
    Framing.exists_of_mem_kstar h (List.cons_ne_nil _ _)
  cases run with
  | nil => exact Varint.nil_notMem_runs hrun.1
  | cons b run =>
    obtain ⟨rfl, -⟩ := List.cons.inj hsplit
    rcases Varint.cons_mem_runs_iff.mp hrun.1 with ⟨-, rfl⟩ | ⟨hmore, -⟩
    · exact absurd hrun.2.2 (by decide)
    · exact absurd hmore (by decide)

theorem detectConfluentHeader_message (h : bytes ∈ message) : detectConfluentHeader bytes = none := by
  unfold detectConfluentHeader
  split
  · rw [if_pos (head_ne_zero_of_mem_message h)]
  · rfl

/-! ## Strategies -/

theorem bodyOffset_decideDecodeStrategy (bytes : List UInt8) (hasManualSchema hasRegistry : Bool) :
    (decideDecodeStrategy bytes hasManualSchema hasRegistry).bodyOffset =
      ((detectConfluentHeader bytes).map (·.bodyOffset)).getD 0 := by
  unfold decideDecodeStrategy
  cases hasManualSchema with
  | true => rfl
  | false => cases detectConfluentHeader bytes <;> cases hasRegistry <;> rfl

theorem bodyOffset_le (bytes : List UInt8) (hasManualSchema hasRegistry : Bool) :
    (decideDecodeStrategy bytes hasManualSchema hasRegistry).bodyOffset ≤ bytes.length := by
  rw [bodyOffset_decideDecodeStrategy]
  cases h : detectConfluentHeader bytes with
  | none => exact Nat.zero_le _
  | some header => exact (detectConfluentHeader_bounds h).2.2

/-- **Main result.** A header that a serializer wrote is found, with its schema id, its path and the
place where the message starts; a header that is found in any bytes has a path and ends in the bytes, so
that every strategy can cut there; and what the wire decoder takes for a message has no header, so that
every strategy decodes all of it. -/
theorem confluent_header :
    (∀ (id : UInt32) (path : List ℤ) (body : List UInt8), 1 ≤ path.length → path.length ≤ 32 →
      (∀ index ∈ path, 0 ≤ index ∧ index < 2 ^ 31) →
      ∃ offset, detectConfluentHeader (frame id path body) = some ⟨id, path, offset⟩ ∧
        (frame id path body).drop offset = body ∧
        offset + body.length = (frame id path body).length) ∧
    (∀ (id : UInt32) (body : List UInt8),
      detectConfluentHeader (shorthand id body) = some ⟨id, [0], 6⟩ ∧
        (shorthand id body).drop 6 = body ∧ 6 + body.length = (shorthand id body).length) ∧
    (∀ bytes header, detectConfluentHeader bytes = some header →
      header.messageIndex ≠ [] ∧ 6 ≤ header.bodyOffset ∧ header.bodyOffset ≤ bytes.length) ∧
    (∀ bytes hasManualSchema hasRegistry,
      (decideDecodeStrategy bytes hasManualSchema hasRegistry).bodyOffset ≤ bytes.length) ∧
    ∀ (texts : Texts) (slice : Slice) (value : Value), Returns texts slice (some value) →
      detectConfluentHeader slice.bytes = none ∧ ∀ hasManualSchema hasRegistry,
        (decideDecodeStrategy slice.bytes hasManualSchema hasRegistry).bodyOffset = 0 := by
  refine ⟨fun id path body hpos hshort hpath => ?_, fun id body => ?_, fun bytes header h => ?_,
    bodyOffset_le, fun texts slice value hreturns => ?_⟩
  · exact detectConfluentHeader_frame id hshort (List.ne_nil_of_length_pos hpos) hpath
  · obtain ⟨hfound, hbody⟩ := detectConfluentHeader_shorthand id body
    refine ⟨hfound, hbody, ?_⟩
    simp only [shorthand, List.length_append, List.length_cons, Bytes.length_toBe]
    omega
  · exact detectConfluentHeader_bounds h
  · obtain ⟨result, hresult, hiff, -⟩ := decodeRaw_spec texts slice
    have hsame : result = some value := by
      have hcall := (hresult _ (Nat.le_refl _)).symm.trans (hreturns _ (Nat.le_refl _))
      exact Except.ok.inj hcall
    have hnone := detectConfluentHeader_message (hiff.mp (by rw [hsame]; rfl))
    refine ⟨hnone, fun hasManualSchema hasRegistry => ?_⟩
    rw [bodyOffset_decideDecodeStrategy, hnone]
    rfl

end OffsetExplorer.Protobuf
