import OffsetExplorer.JsonTreeView.Lines
import Mathlib.Data.List.OfFn
import Mathlib.Order.Basic

/-!
# What the rows say

With all containers open, the rows are the document: a reader that goes through them once builds it
again.

* `Bracketed`: open and close rows that belong together; `bracketed_walk`.
* `Reading`, `readRow`, `readRows`: the reader; **`readRows_walk`**: what it makes of the rows of a value.
* `Below`, `keep`, `redraw`: what closing a container does to the rows; **`walk_collapse`**.
* **`flattenJsonTree_faithful`**: the rows of a document.
-/

namespace OffsetExplorer.JsonTreeView

variable {ν : Type}

/-! ## Brackets -/

/-- Every open row that is drawn open has its close row, with the rows in between in brackets too. -/
inductive Bracketed : List (JsonLine ν) → Prop
  | nil : Bracketed []
  | plain {line : JsonLine ν} {rest : List (JsonLine ν)} :
      line.kind = .primitive ∨ line.kind = .open ∧ line.expanded = some false →
      Bracketed rest → Bracketed (line :: rest)
  | nest {first last : JsonLine ν} {inner rest : List (JsonLine ν)} :
      first.kind = .open → first.expanded = some true → last.kind = .close →
      last.path = first.path → last.depth = first.depth → last.isArray = first.isArray →
      Bracketed inner → Bracketed rest → Bracketed (first :: (inner ++ last :: rest))

theorem Bracketed.append {rows rows' : List (JsonLine ν)} (h : Bracketed rows)
    (h' : Bracketed rows') : Bracketed (rows ++ rows') := by
  induction h with
  | nil => exact h'
  | plain hline _ ih => exact .plain hline ih
  | nest hfirst hexpanded hlast hpath hdepth hkind hinner _ _ ih =>
    rw [List.cons_append, List.append_assoc, List.cons_append]
    exact .nest hfirst hexpanded hlast hpath hdepth hkind hinner ih

theorem Bracketed.flatMap {α : Type} {rows : α → List (JsonLine ν)} (h : ∀ a, Bracketed (rows a))
    (l : List α) : Bracketed (l.flatMap rows) := by
  induction l with
  | nil => exact .nil
  | cons a l ih => exact (h a).append ih

variable (numberText : ν → JsString) (overrides : JsonTreeOverrides)

/-- The rows of a container, from those of what is in it. -/
def containerRows (label : Option JsString) (depth : ℕ) (path : JsString) (entryCount : ℕ)
    (isArray : Bool) (inner : List (JsonLine ν)) : List (JsonLine ν) :=
  openLine label depth path (isExpanded overrides depth path) entryCount isArray ::
    if isExpanded overrides depth path then inner ++ [closeLine depth path isArray] else []

section

variable (label : Option JsString) (depth : ℕ) (path : JsString)

theorem walk_array (length : ℕ) (items : Fin length → JsonTree JsString ν) :
    walk numberText overrides (.array length items) label depth path =
      containerRows overrides label depth path length true ((List.finRange length).flatMap fun i =>
        walk numberText overrides (items i) (some (decimal i)) (depth + 1)
          (childPath path (decimal i))) := rfl

theorem walk_object (keys : List JsString) (distinct : keys.Nodup)
    (values : Fin keys.length → JsonTree JsString ν) :
    walk numberText overrides (.object keys distinct values) label depth path =
      containerRows overrides label depth path keys.length false
        ((List.finRange keys.length).flatMap fun i =>
          walk numberText overrides (values i) (some (keys.get i)) (depth + 1)
            (childPath path (escapeKey (keys.get i)))) := rfl

end

theorem bracketed_container {label : Option JsString} {depth entryCount : ℕ} {path : JsString}
    {isArray : Bool} {inner : List (JsonLine ν)} (h : Bracketed inner) :
    Bracketed (containerRows overrides label depth path entryCount isArray inner) := by
  unfold containerRows
  cases hexpanded : isExpanded overrides depth path with
  | false => exact .plain (.inr ⟨rfl, rfl⟩) .nil
  | true => exact .nest rfl rfl rfl rfl rfl rfl h .nil

/-- **The rows of a value** are in brackets, whatever is open. -/
theorem bracketed_walk (node : JsonTree JsString ν) (label : Option JsString) (depth : ℕ)
    (path : JsString) : Bracketed (walk numberText overrides node label depth path) := by
  induction node generalizing label depth path with
  | array length items ih =>
    rw [walk_array]
    exact bracketed_container overrides (Bracketed.flatMap (fun i => ih i _ _ _) _)
  | object keys distinct values ih =>
    rw [walk_object]
    exact bracketed_container overrides (Bracketed.flatMap (fun i => ih i _ _ _) _)
  | _ => exact .plain (.inl rfl) .nil

/-! ## Reading -/

/-- A value with its label, if it has one. -/
abbrev Member (ν : Type) := Option JsString × JsonTree JsString ν

/-- What has been read: the members of the innermost container, and the containers around it, each with
its open row and what was in front of it. -/
structure Reading (ν : Type) where
  members : List (Member ν)
  outer : List (JsonLine ν × List (Member ν))

/-- A member of the object or array that is being read. -/
def Reading.add (r : Reading ν) (member : Member ν) : Reading ν :=
  { r with members := r.members ++ [member] }

/-- A container of members; the members of an object have keys, all different. -/
def build (isArray : Option Bool) (members : List (Member ν)) : Option (JsonTree JsString ν) :=
  match isArray with
  | none => none
  | some true => some (.array members.length fun i => (members.get i).2)
  | some false =>
    let keys := members.map fun member => member.1.getD []
    if h : keys.Nodup then
      some (.object keys h fun i => (members.get (i.cast (List.length_map _))).2)
    else none

/-- One row. A close row ends the innermost container, if it is the close row of that one. -/
def readRow (r : Reading ν) (line : JsonLine ν) : Option (Reading ν) :=
  match line.kind with
  | .primitive => line.value.map fun value => r.add (line.label, value)
  | .open =>
    if line.expanded = some true then some ⟨[], (line, r.members) :: r.outer⟩ else none
  | .close =>
    match r.outer with
    | [] => none
    | (first, before) :: outer =>
      if line.path = first.path ∧ line.depth = first.depth ∧ line.isArray = first.isArray then
        (build line.isArray r.members).map fun tree => ⟨before ++ [(first.label, tree)], outer⟩
      else none

/-- The rows, read one after another. -/
def readRows (r : Reading ν) : List (JsonLine ν) → Option (Reading ν)
  | [] => some r
  | line :: rest => (readRow r line).bind fun next => readRows next rest

/-- The document of all rows: one value, without a label. -/
def readDocument (lines : List (JsonLine ν)) : Option (JsonTree JsString ν) :=
  match readRows ⟨[], []⟩ lines with
  | some ⟨[(none, value)], []⟩ => some value
  | _ => none

/-- Containers are nested at most so many deep. -/
def NestedWithin : JsonTree JsString ν → ℕ → Prop
  | .array _ items, n => 0 < n ∧ ∀ i, NestedWithin (items i) (n - 1)
  | .object _ _ values, n => 0 < n ∧ ∀ i, NestedWithin (values i) (n - 1)
  | _, _ => True

theorem build_array {length : ℕ} (labels : Fin length → JsString)
    (items : Fin length → JsonTree JsString ν) :
    build (some true) ((List.finRange length).map fun i => (some (labels i), items i)) =
      some (.array length items) := by
  have hall : ∀ (members : List (Member ν)) (h : members.length = length),
      (∀ i, (members.get (i.cast h.symm)).2 = items i) →
      JsonTree.array members.length (fun i => (members.get i).2) = .array length items := by
    rintro members rfl h
    congr 1
    funext i
    exact h i
  exact congrArg some (hall _ (by simp) (by simp))

theorem build_object {keys : List JsString} (distinct : keys.Nodup)
    (values : Fin keys.length → JsonTree JsString ν) :
    build (some false) ((List.finRange keys.length).map fun i => (some (keys.get i), values i)) =
      some (.object keys distinct values) := by
  obtain ⟨members, hmembers⟩ : ∃ members, members =
      (List.finRange keys.length).map fun i => ((some (keys.get i), values i) : Member ν) := ⟨_, rfl⟩
  have hkeys : members.map (fun member => member.1.getD []) = keys := by
    rw [hmembers, List.map_map]
    exact (List.ofFn_eq_map).symm.trans (List.ofFn_get keys)
  have hlength : members.length = keys.length := by simp [hmembers]
  have hvalues : ∀ i : Fin keys.length, (members.get (i.cast hlength.symm)).2 = values i := by
    intro i
    simp [hmembers]
  have hall : ∀ (found : List JsString) (hfound : found = keys) (h : found.Nodup)
      (hcast : found.length = members.length),
      JsonTree.object found h (fun i => (members.get (i.cast hcast)).2) =
        .object keys distinct values := by
    rintro found rfl h hcast
    congr 1
    funext i
    exact hvalues i
  rw [← hmembers, build, dif_pos (hkeys ▸ distinct)]
  exact congrArg some (hall _ hkeys _ _)

theorem readRows_append (r : Reading ν) (rows rest : List (JsonLine ν)) :
    readRows r (rows ++ rest) = (readRows r rows).bind fun next => readRows next rest := by
  induction rows generalizing r with
  | nil => rfl
  | cons line rows ih =>
    rw [List.cons_append, readRows, readRows, Option.bind_assoc]
    exact congrArg _ (funext ih)

theorem readRows_flatMap {α : Type} {rows : α → List (JsonLine ν)} {member : α → Member ν}
    (h : ∀ a r, readRows r (rows a) = some (r.add (member a))) (l : List α) (r : Reading ν) :
    readRows r (l.flatMap rows) = some { r with members := r.members ++ l.map member } := by
  induction l generalizing r with
  | nil => simp [readRows]
  | cons a l ih =>
    rw [List.flatMap_cons, readRows_append, h, Option.bind_some, ih]
    simp [Reading.add]

theorem readRows_container {label : Option JsString} {depth entryCount : ℕ} {path : JsString}
    {isArray : Bool} {inner : List (JsonLine ν)} {members : List (Member ν)}
    {tree : JsonTree JsString ν} (hexpanded : isExpanded overrides depth path = true) (r : Reading ν)
    (hinner : ∀ r : Reading ν,
      readRows r inner = some { r with members := r.members ++ members })
    (hbuild : build (some isArray) members = some tree) :
    readRows r (containerRows overrides label depth path entryCount isArray inner) =
      some (r.add (label, tree)) := by
  have hopen : readRow r (openLine label depth path true entryCount isArray) =
      some ⟨[], (openLine label depth path true entryCount isArray, r.members) :: r.outer⟩ := rfl
  have hclose : readRow ⟨members, (openLine label depth path true entryCount isArray, r.members) ::
      r.outer⟩ (closeLine depth path isArray) = some (r.add (label, tree)) := by
    change (if path = path ∧ depth = depth ∧ some isArray = some isArray then
      (build (some isArray) members).map fun tree =>
        (⟨r.members ++ [(label, tree)], r.outer⟩ : Reading ν) else none) = _
    rw [if_pos ⟨rfl, rfl, rfl⟩, hbuild]
    rfl
  rw [containerRows, hexpanded, if_pos rfl, readRows, hopen, Option.bind_some, readRows_append, hinner,
    Option.bind_some, List.nil_append,
    readRows, hclose]
  rfl

/-- **The rows of a value** add the value, where all of it is drawn open. -/
theorem readRows_walk (hopen : ∀ path, isNodeExpanded overrides path = true)
    {node : JsonTree JsString ν} {depth : ℕ} (hnested : NestedWithin node (maxRenderDepth - depth))
    (label : Option JsString) (path : JsString) (r : Reading ν) :
    readRows r (walk numberText overrides node label depth path) = some (r.add (label, node)) := by
  have hexpanded : ∀ {depth : ℕ} (path : JsString), 0 < maxRenderDepth - depth →
      isExpanded overrides depth path = true := by
    intro depth path hdepth
    rw [isExpanded, hopen, Bool.and_true, decide_eq_true_eq]
    omega
  induction node generalizing depth label path r with
  | array length items ih =>
    rw [walk_array]
    refine readRows_container overrides (hexpanded path hnested.1) r
      (fun r => readRows_flatMap (fun i r => ih i ?_ _ _ r) _ r) (build_array (fun i => decimal i) items)
    rw [show maxRenderDepth - (depth + 1) = maxRenderDepth - depth - 1 by omega]
    exact hnested.2 i
  | object keys distinct values ih =>
    rw [walk_object]
    refine readRows_container overrides (hexpanded path hnested.1) r
      (fun r => readRows_flatMap (fun i r => ih i ?_ _ _ r) _ r) (build_object distinct values)
    rw [show maxRenderDepth - (depth + 1) = maxRenderDepth - depth - 1 by omega]
    exact hnested.2 i
  | _ => rfl

/-! ## Closing a container -/

/-- Inside the container with this path. -/
def Below (path inner : JsString) : Prop := path ++ [slash] <+: inner

instance (path inner : JsString) : Decidable (Below path inner) :=
  inferInstanceAs (Decidable (_ <+: _))

/-- The click on an open container. -/
def collapse (overrides : JsonTreeOverrides) (path : JsString) : JsonTreeOverrides := fun other =>
  if other = path then some false else overrides other

/-- Neither inside the container nor its close row. -/
def keep (path : JsString) (line : JsonLine ν) : Bool :=
  !(decide (Below path line.path) || decide (line.kind = .close ∧ line.path = path))

/-- The open row of the container is drawn closed. -/
def redraw (path : JsString) (line : JsonLine ν) : JsonLine ν :=
  if line.kind = .open ∧ line.path = path then
    openLine line.label line.depth path false (line.entryCount.getD 0) (line.isArray.getD false)
  else line

section

variable {overrides} {path inner segment : JsString} {node : JsonTree JsString ν}
  {label : Option JsString} {depth entryCount : ℕ} {isArray expanded : Bool}

theorem not_below_self (path : JsString) : ¬ Below path path := by
  intro h
  have hlength := h.length_le
  rw [List.length_append, List.length_singleton] at hlength
  omega

theorem below_childPath (path segment : JsString) : Below path (childPath path segment) :=
  ⟨segment, by simp [childPath]⟩

theorem Below.trans {middle : JsString} (h : Below path middle) (h' : Below middle inner) :
    Below path inner :=
  List.IsPrefix.trans h ((List.prefix_append middle [slash]).trans h')

theorem below_of_childPath (hsegment : slash ∉ segment) (h : Below inner (childPath path segment)) :
    path = inner ∨ Below inner path := by
  obtain ⟨rest, hrest⟩ := h
  rw [childPath, List.append_assoc, List.singleton_append] at hrest
  rcases List.append_eq_append_iff.mp hrest with ⟨more, rfl, hmore⟩ | ⟨more, rfl, hmore⟩
  · cases more with
    | nil => exact .inl (List.append_nil _)
    | cons u more =>
      obtain ⟨rfl, -⟩ := List.cons.inj hmore
      exact .inr ⟨more, by simp⟩
  · cases more with
    | nil => exact .inl (List.append_nil _).symm
    | cons u more =>
      -- the slash behind the inner path would be in the segment
      obtain ⟨-, htail⟩ := List.cons.inj hmore
      exact absurd (htail ▸ List.mem_append_right more List.mem_cons_self) hsegment

theorem mem_containerRows {rows : List (JsonLine ν)} {line : JsonLine ν}
    (h : line ∈ containerRows overrides label depth path entryCount isArray rows) :
    line = openLine label depth path (isExpanded overrides depth path) entryCount isArray ∨
      isExpanded overrides depth path = true ∧
        (line ∈ rows ∨ line = closeLine depth path isArray) := by
  rcases List.mem_cons.mp h with rfl | h
  · exact .inl rfl
  · split_ifs at h with hexpanded
    · refine .inr ⟨hexpanded, (List.mem_append.mp h).imp_right List.mem_singleton.mp⟩
    · cases h

theorem below_of_mem_children {n : ℕ} {rows : Fin n → List (JsonLine ν)} {segments : Fin n → JsString}
    (hrows : ∀ i, ∀ line ∈ rows i, line.path = childPath path (segments i) ∨
      Below (childPath path (segments i)) line.path) :
    ∀ line ∈ (List.finRange n).flatMap rows, Below path line.path := by
  intro line hline
  obtain ⟨i, -, hi⟩ := List.mem_flatMap.mp hline
  rcases hrows i line hi with hpath | hbelow
  · rw [hpath]
    exact below_childPath path _
  · exact (below_childPath path _).trans hbelow

theorem path_of_mem_containerRows {rows : List (JsonLine ν)}
    (hrows : ∀ line ∈ rows, Below path line.path) :
    ∀ line ∈ containerRows overrides label depth path entryCount isArray rows,
      line.path = path ∨ Below path line.path := by
  intro line hline
  rcases mem_containerRows hline with rfl | ⟨-, hmem | rfl⟩
  · exact .inl rfl
  · exact .inr (hrows line hmem)
  · exact .inl rfl

theorem path_of_mem_walk :
    ∀ line ∈ walk numberText overrides node label depth path,
      line.path = path ∨ Below path line.path := by
  induction node generalizing label depth path with
  | array length items ih =>
    rw [walk_array]
    exact path_of_mem_containerRows (below_of_mem_children fun i => ih i)
  | object keys distinct values ih =>
    rw [walk_object]
    exact path_of_mem_containerRows (below_of_mem_children fun i => ih i)
  | _ =>
    intro line hline
    rw [List.mem_singleton.mp hline]
    exact .inl rfl

/-- **No row is deeper** than the limit. -/
theorem depth_of_mem_walk (hdepth : depth ≤ maxRenderDepth) :
    ∀ line ∈ walk numberText overrides node label depth path, line.depth ≤ maxRenderDepth := by
  have hdeeper : ∀ {depth : ℕ} {path : JsString}, isExpanded overrides depth path = true →
      depth + 1 ≤ maxRenderDepth := by
    intro depth path h
    rw [isExpanded, Bool.and_eq_true, decide_eq_true_eq] at h
    exact h.1
  induction node generalizing label depth path with
  | array length items ih =>
    intro line hline
    rw [walk_array] at hline
    rcases mem_containerRows hline with rfl | ⟨hexpanded, hmem | rfl⟩
    · exact hdepth
    · obtain ⟨i, -, hi⟩ := List.mem_flatMap.mp hmem
      exact ih i (hdeeper hexpanded) line hi
    · exact hdepth
  | object keys distinct values ih =>
    intro line hline
    rw [walk_object] at hline
    rcases mem_containerRows hline with rfl | ⟨hexpanded, hmem | rfl⟩
    · exact hdepth
    · obtain ⟨i, -, hi⟩ := List.mem_flatMap.mp hmem
      exact ih i (hdeeper hexpanded) line hi
    · exact hdepth
  | _ =>
    intro line hline
    rw [List.mem_singleton.mp hline]
    exact hdepth

/-! ## The rows without those of a closed container -/

theorem keep_eq_true_iff {line : JsonLine ν} :
    keep path line = true ↔ ¬ Below path line.path ∧ ¬ (line.kind = .close ∧ line.path = path) := by
  rw [keep, Bool.not_eq_true', Bool.or_eq_false_iff, decide_eq_false_iff_not,
    decide_eq_false_iff_not]

/-- What is left of the rows when the container with the path is closed. -/
def shut (path : JsString) (rows : List (JsonLine ν)) : List (JsonLine ν) :=
  (rows.filter (keep path)).map (redraw path)

theorem shut_append (rows rest : List (JsonLine ν)) :
    shut path (rows ++ rest) = shut path rows ++ shut path rest := by
  rw [shut, List.filter_append, List.map_append]
  rfl

theorem shut_flatMap {α : Type} (rows : α → List (JsonLine ν)) (l : List α) :
    shut path (l.flatMap rows) = l.flatMap fun a => shut path (rows a) := by
  induction l with
  | nil => rfl
  | cons a l ih => rw [List.flatMap_cons, shut_append, ih, List.flatMap_cons]

theorem shut_eq_nil {rows : List (JsonLine ν)} (h : ∀ line ∈ rows, Below path line.path) :
    shut path rows = [] := by
  rw [shut, List.map_eq_nil_iff, List.filter_eq_nil_iff]
  intro line hline hkeep
  exact (keep_eq_true_iff.mp hkeep).1 (h line hline)

theorem shut_singleton {line : JsonLine ν} (hbelow : ¬ Below path line.path)
    (hpath : line.kind = .primitive ∨ line.path ≠ path) : shut path [line] = [line] := by
  have hkeep : keep path line = true := by
    refine keep_eq_true_iff.mpr ⟨hbelow, fun h => ?_⟩
    rcases hpath with hkind | hpath
    · rw [hkind] at h
      exact absurd h.1 (by decide)
    · exact hpath h.2
  have hsame : redraw path line = line := by
    refine if_neg fun h => ?_
    rcases hpath with hkind | hpath
    · rw [hkind] at h
      exact absurd h.1 (by decide)
    · exact hpath h.2
  rw [shut, List.filter_singleton, hkeep]
  exact congrArg (fun row => [row]) hsame

theorem containerRows_collapse {closed : JsString} {rows rows' : List (JsonLine ν)}
    (hbelow : ¬ Below closed path) (hinside : ∀ line ∈ rows, Below path line.path)
    (hrows : path ≠ closed → rows' = shut closed rows) :
    containerRows (collapse overrides closed) label depth path entryCount isArray rows' =
      shut closed (containerRows overrides label depth path entryCount isArray rows) := by
  have hsplit : containerRows overrides label depth path entryCount isArray rows =
      [openLine label depth path (isExpanded overrides depth path) entryCount isArray] ++
        if isExpanded overrides depth path then rows ++ [closeLine depth path isArray] else [] := rfl
  by_cases hpath : path = closed
  · subst hpath
    have hclosed : isExpanded (collapse overrides path) depth path = false := by
      simp [isExpanded, isNodeExpanded, collapse]
    have hfirst : ∀ expanded, shut path [(openLine label depth path expanded entryCount isArray :
        JsonLine ν)] = [openLine label depth path false entryCount isArray] := by
      intro expanded
      have hkeep : keep path (openLine label depth path expanded entryCount isArray : JsonLine ν) =
          true := keep_eq_true_iff.mpr
        ⟨not_below_self path, fun h => nomatch (h.1 : JsonLineKind.open = .close)⟩
      rw [shut, List.filter_singleton, hkeep]
      exact congrArg (fun row => [row]) (if_pos ⟨rfl, rfl⟩)
    have hlast : shut path [(closeLine depth path isArray : JsonLine ν)] = [] := by
      have hkeep : keep path (closeLine depth path isArray : JsonLine ν) = false := by
        rw [Bool.eq_false_iff]
        exact fun h => (keep_eq_true_iff.mp h).2 ⟨rfl, rfl⟩
      rw [shut, List.filter_singleton, hkeep]
      rfl
    have hshut : containerRows (collapse overrides path) label depth path entryCount isArray rows' =
        [openLine label depth path false entryCount isArray] := by
      rw [containerRows, hclosed]
      rfl
    rw [hsplit, shut_append, hfirst, hshut]
    split_ifs
    · rw [shut_append, shut_eq_nil hinside, hlast]
      rfl
    · rfl
  · have hsame : isExpanded (collapse overrides closed) depth path = isExpanded overrides depth path := by
      simp [isExpanded, isNodeExpanded, collapse, hpath]
    have hfirst : ∀ expanded, shut closed [(openLine label depth path expanded entryCount isArray :
        JsonLine ν)] = [openLine label depth path expanded entryCount isArray] := fun expanded =>
      shut_singleton hbelow (.inr hpath)
    have hlast : shut closed [(closeLine depth path isArray : JsonLine ν)] =
        [closeLine depth path isArray] := shut_singleton hbelow (.inr hpath)
    rw [hsplit, shut_append, hfirst, containerRows, hsame, hrows hpath]
    split_ifs
    · rw [shut_append, hlast]
      rfl
    · rfl

/-- **Closing a container** takes its rows and its close row away, and nothing else. -/
theorem walk_collapse {closed : JsString} (hbelow : ¬ Below closed path) :
    walk numberText (collapse overrides closed) node label depth path =
      shut closed (walk numberText overrides node label depth path) := by
  have hchild : ∀ {path segment : JsString}, slash ∉ segment → ¬ Below closed path →
      path ≠ closed → ¬ Below closed (childPath path segment) := by
    intro path segment hsegment hbelow hne h
    exact (below_of_childPath hsegment h).elim hne hbelow
  induction node generalizing label depth path with
  | array length items ih =>
    rw [walk_array, walk_array]
    refine containerRows_collapse hbelow
      (below_of_mem_children fun i => path_of_mem_walk numberText) fun hne => ?_
    rw [shut_flatMap]
    refine congrArg (fun rows => (List.finRange length).flatMap rows) (funext fun i => ?_)
    exact ih i (hchild (slash_notMem_decimal i) hbelow hne)
  | object keys distinct values ih =>
    rw [walk_object, walk_object]
    refine containerRows_collapse hbelow
      (below_of_mem_children fun i => path_of_mem_walk numberText) fun hne => ?_
    rw [shut_flatMap]
    refine congrArg (fun rows => (List.finRange keys.length).flatMap rows) (funext fun i => ?_)
    exact ih i (hchild (slash_notMem_escapeKey _) hbelow hne)
  | _ => exact (shut_singleton hbelow (.inl rfl)).symm

end

/-- **Main result.** With all containers open, and none past the limit, the rows are in brackets and
read back as the document. Closing a container, whatever is open, takes away the rows inside it and its
close row, and draws its open row closed. No row is deeper than the limit. -/
theorem flattenJsonTree_faithful (value : JsonTree JsString ν) :
    ((∀ path, isNodeExpanded overrides path = true) → NestedWithin value maxRenderDepth →
      Bracketed (flattenJsonTree numberText value overrides).lines ∧
        readDocument (flattenJsonTree numberText value overrides).lines = some value) ∧
    (∀ path, (flattenJsonTree numberText value (collapse overrides path)).lines =
      ((flattenJsonTree numberText value overrides).lines.filter (keep path)).map (redraw path)) ∧
    ∀ line ∈ (flattenJsonTree numberText value overrides).lines, line.depth ≤ maxRenderDepth := by
  refine ⟨fun hopen hnested => ⟨bracketed_walk numberText overrides value none 0 [], ?_⟩,
    fun path => ?_, depth_of_mem_walk numberText (Nat.zero_le _)⟩
  · have hall : NestedWithin value (maxRenderDepth - 0) := hnested
    have hrows := readRows_walk numberText overrides hopen hall none [] ⟨[], []⟩
    rw [readDocument, flattenJsonTree, hrows]
    rfl
  · have hroot : ¬ Below path [] := by
      intro h
      exact absurd (List.prefix_nil.mp h) (by simp)
    exact walk_collapse numberText hroot

/-- A list with nothing in it, under `a`. -/
def emptyUnderA : JsonTree JsString Unit :=
  .object [js "a"] (by decide) fun _ => .array 0 fun i => i.elim0

theorem emptyUnderA_read :
    readDocument (flattenJsonTree (fun _ => []) emptyUnderA fun _ => none).lines = some emptyUnderA := by
  have hnested : NestedWithin emptyUnderA maxRenderDepth :=
    ⟨by decide, fun _ => ⟨by decide, fun i => i.elim0⟩⟩
  exact ((flattenJsonTree_faithful (fun _ => []) (fun _ => none) emptyUnderA).1 (fun _ => rfl)
    hnested).2

end OffsetExplorer.JsonTreeView
