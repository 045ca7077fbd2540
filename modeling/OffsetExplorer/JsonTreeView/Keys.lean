import OffsetExplorer.JsonTreeView.Lines
import Mathlib.Data.List.Pairwise

/-!
# The keys of the rows

Two rows have one key when an object has a container under some key, drawn open, and another entry under
that key with ` close` behind it: the close row of the first has the key of the second.

* `Clear`: no open object has such entries.
* `containerPaths`: where the state of each container is kept.
* **`keys_distinct_iff`**: the keys are distinct for the clear documents; the paths always are.
-/

namespace OffsetExplorer.JsonTreeView

variable {ν : Type}

/-! ## Rows that share a path -/

/-- What a key below a path can be: the path of a node, its close row, or something below the node. -/
def Form (path : JsString) (isOpen : Prop) (key : JsString) : Prop :=
  key = path ∨ (key = path ++ closeSuffix ∧ isOpen) ∨ ∃ rest, key = path ++ slash :: rest

/-- Up to the next slash. -/
def head (text : JsString) : JsString := text.takeWhile (· ≠ slash)

theorem head_append {segment : JsString} (h : slash ∉ segment) (rest : JsString) :
    head (segment ++ rest) = segment ++ head rest := by
  apply List.takeWhile_append_of_pos
  intro u hu
  rw [decide_eq_true_eq]
  rintro rfl
  exact h hu

theorem Form.exists_tail {path segment key : JsString} {isOpen : Prop}
    (h : Form (childPath path segment) isOpen key) :
    ∃ tail, key = path ++ slash :: (segment ++ tail) ∧
      (head tail = [] ∨ (tail = closeSuffix ∧ isOpen)) := by
  have hchild : ∀ rest, childPath path segment ++ rest = path ++ slash :: (segment ++ rest) := by
    intro rest
    rw [childPath, List.append_assoc, List.cons_append]
  rcases h with rfl | ⟨rfl, hopen⟩ | ⟨rest, rfl⟩
  · exact ⟨[], by rw [List.append_nil, childPath], .inl rfl⟩
  · exact ⟨closeSuffix, hchild _, .inr ⟨rfl, hopen⟩⟩
  · exact ⟨slash :: rest, hchild _, .inl (by simp [head])⟩

/-- **Two children share a key** only if one is the close row of the other. -/
theorem Form.clash {path segment segment' key : JsString} {isOpen isOpen' : Prop}
    (hsegment : slash ∉ segment) (hsegment' : slash ∉ segment')
    (h : Form (childPath path segment) isOpen key)
    (h' : Form (childPath path segment') isOpen' key) :
    segment = segment' ∨ (isOpen ∧ segment' = segment ++ closeSuffix) ∨
      (isOpen' ∧ segment = segment' ++ closeSuffix) := by
  obtain ⟨tail, rfl, htail⟩ := h.exists_tail
  obtain ⟨tail', hkey, htail'⟩ := h'.exists_tail
  have hsame : segment ++ tail = segment' ++ tail' :=
    (List.cons.inj (List.append_cancel_left hkey)).2
  have hheads : segment ++ head tail = segment' ++ head tail' := by
    rw [← head_append hsegment, ← head_append hsegment', hsame]
  have hclose : head closeSuffix = closeSuffix := by decide
  rcases htail with hnone | ⟨rfl, hopen⟩
  · rcases htail' with hnone' | ⟨rfl, hopen'⟩
    · rw [hnone, hnone', List.append_nil, List.append_nil] at hheads
      exact .inl hheads
    · rw [hnone, hclose, List.append_nil] at hheads
      exact .inr (.inr ⟨hopen', hheads⟩)
  · rcases htail' with hnone' | ⟨rfl, -⟩
    · rw [hnone', hclose, List.append_nil] at hheads
      exact .inr (.inl ⟨hopen, hheads.symm⟩)
    · exact .inl (List.append_cancel_right hsame)

/-! ## The keys of a container -/

theorem nodup_flatMap_finRange {α : Type} {n : ℕ} {rows : Fin n → List α} :
    ((List.finRange n).flatMap rows).Nodup ↔
      (∀ i, (rows i).Nodup) ∧ ∀ i j, i ≠ j → ∀ key ∈ rows i, key ∉ rows j := by
  rw [List.nodup_flatMap]
  refine and_congr (by simp) ⟨fun h i j hij => ?_, fun h => ?_⟩
  · have hsymm : Std.Symm (Function.onFun List.Disjoint rows) := ⟨fun _ _ h _ hi hj => h hj hi⟩
    exact h.forall (List.mem_finRange i) (List.mem_finRange j) hij
  · exact (List.nodup_finRange n).pairwise_of_forall_ne fun i _ j _ hij => h i j hij

variable {n : ℕ} {rows : Fin n → List JsString} {segments : Fin n → JsString}
  {isOpen : Fin n → Prop} {path : JsString}

/-- The children of a container have keys of their own, if none is the close row of another. -/
theorem nodup_children (hsegments : ∀ i, slash ∉ segments i) (hinj : Function.Injective segments)
    (hforms : ∀ i, ∀ key ∈ rows i, Form (childPath path (segments i)) (isOpen i) key)
    (hrows : ∀ i, (rows i).Nodup)
    (hclear : ∀ i j, isOpen i → segments j ≠ segments i ++ closeSuffix) :
    ((List.finRange n).flatMap rows).Nodup := by
  refine nodup_flatMap_finRange.mpr ⟨hrows, fun i j hij key hi hj => ?_⟩
  rcases (hforms i key hi).clash (hsegments i) (hsegments j) (hforms j key hj) with
    hsame | ⟨hopen, hclash⟩ | ⟨hopen, hclash⟩
  · exact hij (hinj hsame)
  · exact hclear i j hopen hclash
  · exact hclear j i hopen hclash

/-- **And only if**, where every child has a row and every open one a close row. -/
theorem nodup_children_iff (hsegments : ∀ i, slash ∉ segments i)
    (hinj : Function.Injective segments)
    (hforms : ∀ i, ∀ key ∈ rows i, Form (childPath path (segments i)) (isOpen i) key)
    (hself : ∀ i, childPath path (segments i) ∈ rows i)
    (hclose : ∀ i, isOpen i → childPath path (segments i) ++ closeSuffix ∈ rows i) :
    ((List.finRange n).flatMap rows).Nodup ↔
      (∀ i, (rows i).Nodup) ∧ ∀ i j, isOpen i → segments j ≠ segments i ++ closeSuffix := by
  refine ⟨fun h => ?_, fun h => nodup_children hsegments hinj hforms h.1 h.2⟩
  obtain ⟨hrows, hdisjoint⟩ := nodup_flatMap_finRange.mp h
  refine ⟨hrows, fun i j hopen hclash => ?_⟩
  have hkey : childPath path (segments j) = childPath path (segments i) ++ closeSuffix := by
    rw [hclash, childPath, childPath, List.append_assoc, List.cons_append]
  by_cases hij : i = j
  · subst hij
    have hlength := congrArg List.length hclash
    have hsix : closeSuffix.length = 6 := by decide
    rw [List.length_append] at hlength
    omega
  · exact hdisjoint i j hij _ (hclose i hopen) (hkey ▸ hself j)

/-- The key of a container and that of its close row are not among those of its children. -/
theorem nodup_container_iff
    (hforms : ∀ i, ∀ key ∈ rows i, Form (childPath path (segments i)) (isOpen i) key) :
    (path :: ((List.finRange n).flatMap rows ++ [path ++ closeSuffix])).Nodup ↔
      ((List.finRange n).flatMap rows).Nodup := by
  have hbelow : ∀ key ∈ (List.finRange n).flatMap rows, ∃ rest, key = path ++ slash :: rest := by
    intro key hkey
    obtain ⟨i, -, hi⟩ := List.mem_flatMap.mp hkey
    obtain ⟨tail, rfl, -⟩ := (hforms i key hi).exists_tail
    exact ⟨_, rfl⟩
  have hself : path ∉ (List.finRange n).flatMap rows := by
    intro h
    obtain ⟨rest, hrest⟩ := hbelow path h
    exact absurd (List.append_cancel_left ((List.append_nil path).trans hrest)) (by simp)
  have hclose : path ++ closeSuffix ∉ (List.finRange n).flatMap rows := by
    intro h
    obtain ⟨rest, hrest⟩ := hbelow _ h
    exact absurd (List.cons.inj (List.append_cancel_left hrest)).1 (by decide)
  have hdiffer : path ≠ path ++ closeSuffix := by
    intro h
    exact absurd (List.append_cancel_left ((List.append_nil path).trans h)) (by decide)
  constructor
  · intro h
    exact (List.nodup_append.mp (List.nodup_cons.mp h).2).1
  · intro h
    refine List.nodup_cons.mpr ⟨?_, List.nodup_append.mpr ⟨h, List.nodup_singleton _, ?_⟩⟩
    · rw [List.mem_append, List.mem_singleton]
      exact fun hmem => hmem.elim hself hdiffer
    · rintro key hkey _ hlast rfl
      exact hclose (List.mem_singleton.mp hlast ▸ hkey)

/-! ## The rows of a value -/

/-- A container that is drawn open has a close row. -/
def IsOpen (overrides : JsonTreeOverrides) (node : JsonTree JsString ν) (depth : ℕ)
    (path : JsString) : Prop :=
  match node with
  | .array _ _ => isExpanded overrides depth path = true
  | .object _ _ _ => isExpanded overrides depth path = true
  | _ => False

/-- No object that is drawn open has a container drawn open under some key and another entry under that
key with ` close` behind it. -/
def Clear (overrides : JsonTreeOverrides) : JsonTree JsString ν → ℕ → JsString → Prop
  | .array _ items, depth, path =>
    isExpanded overrides depth path = true →
      ∀ i, Clear overrides (items i) (depth + 1) (childPath path (decimal i))
  | .object keys _ values, depth, path =>
    isExpanded overrides depth path = true →
      (∀ i, Clear overrides (values i) (depth + 1) (childPath path (escapeKey (keys.get i)))) ∧
      ∀ i j, IsOpen overrides (values i) (depth + 1) (childPath path (escapeKey (keys.get i))) →
        keys.get j ≠ keys.get i ++ closeSuffix
  | _, _, _ => True

/-- The paths under which the states of the containers are kept. -/
def containerPaths : JsonTree JsString ν → JsString → List JsString
  | .array length items, path =>
    path :: (List.finRange length).flatMap fun i =>
      containerPaths (items i) (childPath path (decimal i))
  | .object keys _ values, path =>
    path :: (List.finRange keys.length).flatMap fun i =>
      containerPaths (values i) (childPath path (escapeKey (keys.get i)))
  | _, _ => []

variable (numberText : ν → JsString) (overrides : JsonTreeOverrides)

/-- The keys of the rows of a value. -/
def rowKeys (node : JsonTree JsString ν) (label : Option JsString) (depth : ℕ) (path : JsString) :
    List JsString :=
  (walk numberText overrides node label depth path).map JsonLine.key

theorem rowKeys_array (length : ℕ) (items : Fin length → JsonTree JsString ν)
    (label : Option JsString) (depth : ℕ) (path : JsString) :
    rowKeys numberText overrides (.array length items) label depth path =
      path :: if isExpanded overrides depth path then
        (List.finRange length).flatMap (fun i => rowKeys numberText overrides (items i)
          (some (decimal i)) (depth + 1) (childPath path (decimal i))) ++ [path ++ closeSuffix]
      else [] := by
  rw [rowKeys, walk, List.map_cons]
  split_ifs
  · rw [List.map_append, List.map_flatMap]
    rfl
  · rfl

theorem rowKeys_object (keys : List JsString) (distinct : keys.Nodup)
    (values : Fin keys.length → JsonTree JsString ν) (label : Option JsString) (depth : ℕ)
    (path : JsString) :
    rowKeys numberText overrides (.object keys distinct values) label depth path =
      path :: if isExpanded overrides depth path then
        (List.finRange keys.length).flatMap (fun i => rowKeys numberText overrides (values i)
          (some (keys.get i)) (depth + 1) (childPath path (escapeKey (keys.get i)))) ++
            [path ++ closeSuffix]
      else [] := by
  rw [rowKeys, walk, List.map_cons]
  split_ifs
  · rw [List.map_append, List.map_flatMap]
    rfl
  · rfl

variable {overrides} {node : JsonTree JsString ν} {label : Option JsString} {depth : ℕ}

theorem self_mem_rowKeys : path ∈ rowKeys numberText overrides node label depth path := by
  cases node with
  | array length items => rw [rowKeys_array]; exact List.mem_cons_self
  | object keys distinct values => rw [rowKeys_object]; exact List.mem_cons_self
  | _ => exact List.mem_cons_self

theorem close_mem_rowKeys (h : IsOpen overrides node depth path) :
    path ++ closeSuffix ∈ rowKeys numberText overrides node label depth path := by
  cases node with
  | array length items =>
    have hexpanded : isExpanded overrides depth path = true := h
    rw [rowKeys_array, if_pos hexpanded]
    exact List.mem_cons_of_mem path List.mem_concat_self
  | object keys distinct values =>
    have hexpanded : isExpanded overrides depth path = true := h
    rw [rowKeys_object, if_pos hexpanded]
    exact List.mem_cons_of_mem path List.mem_concat_self
  | _ => cases h

theorem form_container {key : JsString}
    (hforms : ∀ i, ∀ key ∈ rows i, Form (childPath path (segments i)) (isOpen i) key)
    (h : key ∈ path :: if isExpanded overrides depth path then
      (List.finRange n).flatMap rows ++ [path ++ closeSuffix] else []) :
    Form path (isExpanded overrides depth path = true) key := by
  rcases List.mem_cons.mp h with rfl | hmem
  · exact .inl rfl
  · split_ifs at hmem with hexpanded
    · rcases List.mem_append.mp hmem with hchild | hlast
      · obtain ⟨i, -, hi⟩ := List.mem_flatMap.mp hchild
        obtain ⟨tail, rfl, -⟩ := (hforms i key hi).exists_tail
        exact .inr (.inr ⟨_, rfl⟩)
      · exact .inr (.inl ⟨List.mem_singleton.mp hlast, hexpanded⟩)
    · cases hmem

theorem form_of_mem_rowKeys {key : JsString}
    (h : key ∈ rowKeys numberText overrides node label depth path) :
    Form path (IsOpen overrides node depth path) key := by
  induction node generalizing label depth path key with
  | array length items ih =>
    rw [rowKeys_array] at h
    exact form_container (fun i key hkey => ih i hkey) h
  | object keys distinct values ih =>
    rw [rowKeys_object] at h
    exact form_container (fun i key hkey => ih i hkey) h
  | _ => exact .inl (List.mem_singleton.mp h)

/-- The keys of a container are distinct if it is closed, or if those of its children are. -/
theorem nodup_expanded_iff
    (hforms : ∀ i, ∀ key ∈ rows i, Form (childPath path (segments i)) (isOpen i) key) :
    (path :: if isExpanded overrides depth path then
      (List.finRange n).flatMap rows ++ [path ++ closeSuffix] else []).Nodup ↔
      (isExpanded overrides depth path = true → ((List.finRange n).flatMap rows).Nodup) := by
  split_ifs with hexpanded
  · rw [nodup_container_iff hforms]
    exact ⟨fun h _ => h, fun h => h hexpanded⟩
  · simp [hexpanded]

theorem space_notMem_decimal (n : ℕ) : 0x20 ∉ decimal n := fun h =>
  absurd (toNat_of_mem_decimal h).1 (by decide)

/-- **The keys of a value** are distinct exactly if it is clear. -/
theorem nodup_rowKeys_iff :
    (rowKeys numberText overrides node label depth path).Nodup ↔ Clear overrides node depth path := by
  induction node generalizing label depth path with
  | array length items ih =>
    have hnever : ∀ i j : Fin length, IsOpen overrides (items i) (depth + 1)
        (childPath path (decimal i)) → decimal j ≠ decimal i ++ closeSuffix := by
      intro i j _ hclash
      apply space_notMem_decimal j
      rw [hclash, List.mem_append]
      exact .inr (by decide)
    rw [rowKeys_array, nodup_expanded_iff fun i key hkey => form_of_mem_rowKeys numberText hkey, Clear]
    refine imp_congr_right fun _ => ?_
    rw [nodup_children_iff (fun i => slash_notMem_decimal i)
      (fun i j hij => Fin.ext (decimal_injective hij))
      (fun i key hkey => form_of_mem_rowKeys numberText hkey)
      (fun i => self_mem_rowKeys numberText) fun i hopen => close_mem_rowKeys numberText hopen]
    rw [and_iff_left hnever]
    exact forall_congr' fun i => ih i
  | object keys distinct values ih =>
    have hsuffix : ∀ i j : Fin keys.length, escapeKey (keys.get j) =
        escapeKey (keys.get i) ++ closeSuffix ↔ keys.get j = keys.get i ++ closeSuffix := by
      intro i j
      rw [← escapeKey_injective.eq_iff (b := keys.get i ++ closeSuffix), escapeKey_append,
        escapeKey_closeSuffix]
    rw [rowKeys_object, nodup_expanded_iff fun i key hkey => form_of_mem_rowKeys numberText hkey, Clear]
    refine imp_congr_right fun _ => ?_
    rw [nodup_children_iff (fun i => slash_notMem_escapeKey _)
      (fun i j hij => (List.nodup_iff_injective_get.mp distinct) (escapeKey_injective hij))
      (fun i key hkey => form_of_mem_rowKeys numberText hkey)
      (fun i => self_mem_rowKeys numberText) fun i hopen => close_mem_rowKeys numberText hopen]
    refine and_congr (forall_congr' fun i => ih i) ?_
    simp only [ne_eq, hsuffix]
  | _ => exact iff_of_true (List.nodup_singleton path) trivial

/-! ## The paths of the containers -/

theorem form_paths {key : JsString}
    (hforms : ∀ i, ∀ key ∈ rows i, Form (childPath path (segments i)) False key)
    (h : key ∈ path :: (List.finRange n).flatMap rows) : Form path False key := by
  rcases List.mem_cons.mp h with rfl | hmem
  · exact .inl rfl
  · obtain ⟨i, -, hi⟩ := List.mem_flatMap.mp hmem
    obtain ⟨tail, rfl, -⟩ := (hforms i key hi).exists_tail
    exact .inr (.inr ⟨_, rfl⟩)

theorem form_of_mem_containerPaths {key : JsString} (h : key ∈ containerPaths node path) :
    Form path False key := by
  induction node generalizing path key with
  | array length items ih => exact form_paths (fun i key hkey => ih i hkey) h
  | object keys distinct values ih => exact form_paths (fun i key hkey => ih i hkey) h
  | _ => cases h

theorem nodup_paths (hsegments : ∀ i, slash ∉ segments i) (hinj : Function.Injective segments)
    (hforms : ∀ i, ∀ key ∈ rows i, Form (childPath path (segments i)) False key)
    (hrows : ∀ i, (rows i).Nodup) : (path :: (List.finRange n).flatMap rows).Nodup := by
  have hall : (path :: ((List.finRange n).flatMap rows ++ [path ++ closeSuffix])).Nodup :=
    (nodup_container_iff hforms).mpr
      (nodup_children hsegments hinj hforms hrows fun _ _ hopen => hopen.elim)
  exact hall.sublist (List.Sublist.cons_cons path (List.sublist_append_left _ _))

/-- **The paths of the containers** are distinct in every document. -/
theorem nodup_containerPaths (node : JsonTree JsString ν) (path : JsString) :
    (containerPaths node path).Nodup := by
  induction node generalizing path with
  | array length items ih =>
    exact nodup_paths (fun i => slash_notMem_decimal i)
      (fun i j hij => Fin.ext (decimal_injective hij))
      (fun i key hkey => form_of_mem_containerPaths hkey) fun i => ih i _
  | object keys distinct values ih =>
    exact nodup_paths (fun i => slash_notMem_escapeKey _)
      (fun i j hij => (List.nodup_iff_injective_get.mp distinct) (escapeKey_injective hij))
      (fun i key hkey => form_of_mem_containerPaths hkey) fun i => ih i _
  | _ => exact List.nodup_nil

/-- **Main result.** For every document and every set of overrides, the rows have distinct keys and no
two containers share a path, if and only if no object that is drawn open has a container drawn open
under some key and another entry under that key with ` close` behind it. -/
theorem keys_distinct_iff (value : JsonTree JsString ν) (overrides : JsonTreeOverrides) :
    ((flattenJsonTree numberText value overrides).lines.map JsonLine.key).Nodup ∧
      (containerPaths value []).Nodup ↔ Clear overrides value 0 [] := by
  rw [and_iff_left (nodup_containerPaths value [])]
  exact nodup_rowKeys_iff numberText

/-- A container under `a` and an entry under `a close`. -/
def closeAndClose : JsonTree JsString Unit :=
  .object [js "a", js "a close"] (by decide) fun i =>
    match i with
    | 0 => .object [] List.nodup_nil fun i => i.elim0
    | 1 => .null

/-- The close row of `a` and the row of `a close` have one key. -/
theorem keys_clash :
    ¬ ∀ (numberText : Unit → JsString) (value : JsonTree JsString Unit)
      (overrides : JsonTreeOverrides),
      ((flattenJsonTree numberText value overrides).lines.map JsonLine.key).Nodup ∧
        (containerPaths value []).Nodup := by
  intro h
  have hkeys := (h (fun _ => []) closeAndClose fun _ => none).1
  revert hkeys
  decide

end OffsetExplorer.JsonTreeView
