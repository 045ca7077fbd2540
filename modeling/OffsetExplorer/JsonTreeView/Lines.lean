import OffsetExplorer.Lib.Digits
import OffsetExplorer.Lib.JsonTree
import Mathlib.Data.List.FinRange

/-!
# The rows of the JSON tree

`jsonTreeLines.ts`: a document is flattened into the rows of a list. A row is found again by its key,
and whether a container is closed is kept under its path; both are made of the keys of the document.

* `JsString`: the text of the front end, by code units.
* `escapeKey`, `childPath`: paths; `escapeKey_injective`, `slash_notMem_escapeKey`.
* `JsonLine`, `walk`, `flattenJsonTree`: the rows.
-/

namespace OffsetExplorer.JsonTreeView

/-- A string of UTF-16 code units, as any JSON text can hold them. -/
abbrev JsString := List UInt16

/-- An ASCII character as a UTF-16 code unit. -/
def codeUnit (c : Char) : UInt16 := .ofNat c.toNat

/-- A text of ASCII characters. -/
def js (text : String) : JsString := text.toList.map codeUnit

/-- `String(n)` of an index or a number of entries. -/
def decimal (n : ℕ) : JsString := (Nat.toDigits 10 n).map codeUnit

/-- The separator of a JSON pointer. -/
abbrev slash : UInt16 := 0x2f

/-- The escape of a JSON pointer. -/
abbrev tilde : UInt16 := 0x7e

/-! ## Paths -/

/-- `replace` of every occurrence. -/
def replaceAll (unit : UInt16) (by' : JsString) (text : JsString) : JsString :=
  text.flatMap fun u => if u = unit then by' else [u]

/-- A key as a segment of a JSON pointer: tildes first, slashes after them. -/
def escapeKey (key : JsString) : JsString :=
  replaceAll slash (js "~1") (replaceAll tilde (js "~0") key)

/-- The path of a child. -/
def childPath (path segment : JsString) : JsString := path ++ slash :: segment

/-- What a close row has behind its path. -/
def closeSuffix : JsString := js " close"

/-! ## Rows -/

/-- A value on one line, or the first or the last line of one with entries. -/
inductive JsonLineKind where
  | primitive
  | open
  | close
  deriving DecidableEq

/-- A row of the tree. -/
structure JsonLine (ν : Type) where
  key : JsString
  path : JsString
  kind : JsonLineKind
  depth : ℕ
  label : Option JsString
  value : Option (JsonTree JsString ν) := none
  expanded : Option Bool := none
  entryCount : Option ℕ := none
  isArray : Option Bool := none
  weight : ℕ

variable {ν : Type}

/-- Which containers the user closed or opened again. -/
abbrev JsonTreeOverrides := JsString → Option Bool

/-- What is nested deeper is not shown. -/
def maxRenderDepth : ℕ := 200

/-- A node is open unless it was closed. -/
def isNodeExpanded (overrides : JsonTreeOverrides) (path : JsString) : Bool :=
  (overrides path).getD true

/-- A container that is drawn open. -/
def isExpanded (overrides : JsonTreeOverrides) (depth : ℕ) (path : JsString) : Bool :=
  decide (depth < maxRenderDepth) && isNodeExpanded overrides path

/-- The label with its colon and blank, in code units. -/
def labelWeight (label : Option JsString) : ℕ :=
  match label with
  | none => 0
  | some text => text.length + 2

/-- How many code units a row of a value has; `numberText` is `String` of a number. -/
def primitiveWeight (numberText : ν → JsString) (label : Option JsString) :
    JsonTree JsString ν → ℕ
  | .string s => labelWeight label + s.length + 2
  | .null => labelWeight label + 4
  | .bool b => labelWeight label + (js (if b then "true" else "false")).length
  | .number n => labelWeight label + (numberText n).length
  -- containers have rows of their own
  | .array _ _ => labelWeight label
  | .object _ _ _ => labelWeight label

/-- The row of a value without entries. -/
def primitiveLine (numberText : ν → JsString) (label : Option JsString)
    (node : JsonTree JsString ν) (depth : ℕ) (path : JsString) : JsonLine ν where
  key := path
  path := path
  kind := .primitive
  depth := depth
  label := label
  value := some node
  weight := primitiveWeight numberText label node

/-- The row with the opening bracket. -/
def openLine (label : Option JsString) (depth : ℕ) (path : JsString) (expanded : Bool)
    (entryCount : ℕ) (isArray : Bool) : JsonLine ν where
  key := path
  path := path
  kind := .open
  depth := depth
  label := label
  expanded := some expanded
  entryCount := some entryCount
  isArray := some isArray
  weight := labelWeight label + 1 + if expanded then 0 else (decimal entryCount).length + 9

/-- The row with the closing bracket. Its key is the path with a suffix. -/
def closeLine (depth : ℕ) (path : JsString) (isArray : Bool) : JsonLine ν where
  key := path ++ closeSuffix
  path := path
  kind := .close
  depth := depth
  label := none
  isArray := some isArray
  weight := 1

/-- The rows of a value. -/
def walk (numberText : ν → JsString) (overrides : JsonTreeOverrides) :
    JsonTree JsString ν → Option JsString → ℕ → JsString → List (JsonLine ν)
  | .array length items, label, depth, path =>
    let expanded := isExpanded overrides depth path
    openLine label depth path expanded length true ::
      if expanded then
        (List.finRange length).flatMap (fun i => walk numberText overrides (items i)
          (some (decimal i)) (depth + 1) (childPath path (decimal i))) ++ [closeLine depth path true]
      else []
  | .object keys _ values, label, depth, path =>
    let expanded := isExpanded overrides depth path
    openLine label depth path expanded keys.length false ::
      if expanded then
        (List.finRange keys.length).flatMap (fun i => walk numberText overrides (values i)
          (some (keys.get i)) (depth + 1) (childPath path (escapeKey (keys.get i)))) ++
            [closeLine depth path false]
      else []
  | node, label, depth, path => [primitiveLine numberText label node depth path]

/-! ## The widest rows -/

/-- In pixels, with 14 for each level and 8 for each code unit. -/
def estimatedWidth (line : JsonLine ν) : ℕ := line.depth * 14 + line.weight * 8

/-- The narrowest is in front; rows of one estimate stay in their order. -/
def sortByWidth (lines : List (JsonLine ν)) : List (JsonLine ν) :=
  lines.mergeSort fun a b => decide (estimatedWidth a ≤ estimatedWidth b)

/-- One round of the search for the widest rows, the narrowest of which is in front. -/
def widestStep (best : List (JsonLine ν)) (line : JsonLine ν) : List (JsonLine ν) :=
  if best.length < 3 then sortByWidth (best ++ [line])
  else
    match best with
    | [] => []
    | first :: rest =>
      if estimatedWidth line ≤ estimatedWidth first then best else sortByWidth (line :: rest)

/-- The rows that are kept for measuring, the widest in front. -/
def widest (lines : List (JsonLine ν)) : List (JsonLine ν) := (lines.foldl widestStep []).reverse

/-- The rows of a document, with those that are measured. -/
structure FlattenedJsonTree (ν : Type) where
  lines : List (JsonLine ν)
  widestLines : List (JsonLine ν)

/-- The rows of a document where the overrides say what is open. -/
def flattenJsonTree (numberText : ν → JsString) (value : JsonTree JsString ν)
    (overrides : JsonTreeOverrides) : FlattenedJsonTree ν :=
  let lines := walk numberText overrides value none 0 []
  { lines, widestLines := widest lines }

/-! ## What paths are made of -/

theorem toNat_codeUnit_of_mem {c : Char} {n : ℕ} (h : c ∈ Nat.toDigits 10 n) :
    48 ≤ (codeUnit c).toNat ∧ (codeUnit c).toNat ≤ 57 ∧ (codeUnit c).toNat = c.toNat := by
  have hdigit := Digits.digital_toDigits n c h
  have hbounds : 48 ≤ c.toNat ∧ c.toNat ≤ 57 := by
    simpa [Char.isDigit, UInt32.le_iff_toNat_le] using hdigit
  rw [codeUnit, UInt16.toNat_ofNat']
  omega

theorem toNat_of_mem_decimal {u : UInt16} {n : ℕ} (h : u ∈ decimal n) :
    48 ≤ u.toNat ∧ u.toNat ≤ 57 := by
  obtain ⟨c, hc, rfl⟩ := List.mem_map.mp h
  have hbounds := toNat_codeUnit_of_mem hc
  exact ⟨hbounds.1, hbounds.2.1⟩

theorem slash_notMem_decimal (n : ℕ) : slash ∉ decimal n := fun h =>
  absurd (toNat_of_mem_decimal h).1 (by decide)

theorem map_decimal (n : ℕ) :
    (decimal n).map (fun u => Char.ofNat u.toNat) = Nat.toDigits 10 n := by
  rw [decimal, List.map_map]
  refine (List.map_congr_left fun c hc => ?_).trans (List.map_id _)
  rw [Function.comp_apply, (toNat_codeUnit_of_mem hc).2.2, Char.ofNat_toNat, id]

theorem decimal_injective : Function.Injective decimal := by
  intro m n h
  refine Digits.toDigits_injective ?_
  rw [← map_decimal, ← map_decimal, h]

/-- How one code unit is escaped. -/
def escapeUnit (u : UInt16) : JsString :=
  if u = tilde then js "~0" else if u = slash then js "~1" else [u]

theorem escapeKey_eq (key : JsString) : escapeKey key = key.flatMap escapeUnit := by
  rw [escapeKey, replaceAll, replaceAll, List.flatMap_assoc]
  congr 1
  funext u
  unfold escapeUnit
  split_ifs with htilde hslash
  · decide
  · rw [List.flatMap_singleton, if_pos hslash]
  · rw [List.flatMap_singleton, if_neg hslash]

theorem escapeKey_append (key rest : JsString) :
    escapeKey (key ++ rest) = escapeKey key ++ escapeKey rest := by
  rw [escapeKey_eq, List.flatMap_append, ← escapeKey_eq, ← escapeKey_eq]

theorem escapeKey_closeSuffix : escapeKey closeSuffix = closeSuffix := by decide

theorem slash_notMem_escapeKey (key : JsString) : slash ∉ escapeKey key := by
  rw [escapeKey_eq]
  intro h
  obtain ⟨u, -, hu⟩ := List.mem_flatMap.mp h
  unfold escapeUnit at hu
  split_ifs at hu with htilde hslash
  · exact absurd hu (by decide)
  · exact absurd hu (by decide)
  · exact hslash (List.mem_singleton.mp hu).symm

theorem escapeUnit_append_inj {u v : UInt16} {rest rest' : JsString}
    (h : escapeUnit u ++ rest = escapeUnit v ++ rest') : u = v ∧ rest = rest' := by
  have h0 : js "~0" = [tilde, 0x30] := by decide
  have h1 : js "~1" = [tilde, 0x31] := by decide
  simp only [escapeUnit, h0, h1] at h
  split_ifs at h <;> simp_all

theorem escapeUnit_ne_nil (u : UInt16) : escapeUnit u ≠ [] := by
  unfold escapeUnit
  split_ifs <;> simp [js]

/-- **Keys that differ** are different in a path. -/
theorem escapeKey_injective : Function.Injective escapeKey := by
  intro key key' h
  rw [escapeKey_eq, escapeKey_eq] at h
  induction key generalizing key' with
  | nil =>
    cases key' with
    | nil => rfl
    | cons v key' => exact absurd (List.append_eq_nil_iff.mp h.symm).1 (escapeUnit_ne_nil v)
  | cons u key ih =>
    cases key' with
    | nil => exact absurd (List.append_eq_nil_iff.mp h).1 (escapeUnit_ne_nil u)
    | cons v key' =>
      obtain ⟨rfl, hrest⟩ := escapeUnit_append_inj h
      rw [ih hrest]

end OffsetExplorer.JsonTreeView
