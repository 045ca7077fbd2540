import OffsetExplorer.Lib.Json
import Mathlib.Data.List.Basic
import Mathlib.Data.List.TakeDrop
import Mathlib.Data.List.TakeWhile

/-!
# Reading JSON

A text is read as a tree in which numbers are literals and strings are items, so that nothing is lost that
only matters to whoever looks at a value. Blanks may stand between any two tokens.

* `Tree`, `read`: the tree of a text; `unescape`: the characters of a string.
* `string_append`, `number_append`: a token is read the same whatever comes behind it.
* `Spells`: a text is a layout of a tree.
* **`read_of_spells`**: every layout is read as its tree.
-/

namespace Json

/-- A document as it is written: numbers and strings are not interpreted. -/
inductive Tree where
  | null
  | bool (value : Bool)
  | number (literal : List Char)
  | string (items : List Item)
  | array (elements : List Tree)
  | object (members : List (List Item × Tree))

/-! ## Strings -/

/-- The characters of a string; half of a surrogate pair is none. -/
def unescape : List Item → Option (List Char)
  | .escape a :: .escape b :: rest =>
    if 0xD800 ≤ a ∧ a < 0xDC00 then
      if 0xDC00 ≤ b ∧ b < 0xE000 then
        (unescape rest).map (Char.ofNat (0x10000 + (a - 0xD800) * 0x400 + (b - 0xDC00)) :: ·)
      else none
    else if 0xDC00 ≤ a ∧ a < 0xE000 then none
    else (unescape (.escape b :: rest)).map (Char.ofNat a :: ·)
  | .escape a :: rest =>
    if 0xD800 ≤ a ∧ a < 0xE000 then none else (unescape rest).map (Char.ofNat a :: ·)
  | .char c :: rest => (unescape rest).map (c :: ·)
  | [] => some []

theorem string_cons {c : Char} (hquote : c ≠ '"') (hback : c ≠ '\\') (rest : List Char) :
    string (c :: rest) = if c.toNat < 0x20 then none
      else (string rest).map fun (items, rest) => (.char c :: items, rest) := by
  rw [string]
  · simp only [hback, or_false]
  · exact fun h => hquote h
  · exact fun a b c d rest h => absurd h hback
  · exact fun d rest h => absurd h hback

theorem string_append {text tail : List Char} {items : List Item} (h : string text = some (items, tail))
    (rest : List Char) : string (text ++ rest) = some (items, tail ++ rest) := by
  induction text using string.induct generalizing items tail with
  | case1 text =>
    cases h
    rfl
  | case2 a b c d text ih =>
    simp only [string, Option.bind_eq_bind, Option.bind_eq_some_iff] at h
    obtain ⟨ha, hha, hb, hhb, hc, hhc, hd, hhd, ⟨items', tail'⟩, hrest, heq⟩ := h
    cases heq
    simp only [List.cons_append, string, Option.bind_eq_bind, hha, hhb, hhc, hhd, Option.bind_some, ih hrest]
    rfl
  | case3 c text hne ih =>
    rw [string] at h
    · simp only [Option.bind_eq_bind, Option.bind_eq_some_iff] at h
      obtain ⟨short, hshort, ⟨items', tail'⟩, hrest, heq⟩ := h
      cases heq
      have hu : c ≠ 'u' := by
        rintro rfl
        cases hshort
      rw [List.cons_append, List.cons_append, string]
      · simp only [Option.bind_eq_bind, hshort, ih hrest, Option.bind_some]
        rfl
      · exact fun a b c d rest hc => absurd hc hu
    · exact hne
  | case4 c text hquote hunit hshort hc =>
    rw [string, if_pos hc] at h
    · cases h
    · exact hquote
    · exact hunit
    · exact hshort
  | case5 c text hquote hunit hshort hc ih =>
    have hback : c ≠ '\\' := fun h => hc (Or.inr h)
    have hlow : ¬ c.toNat < 0x20 := fun h => hc (Or.inl h)
    rw [string_cons hquote hback, if_neg hlow] at h
    obtain ⟨⟨items', tail'⟩, hrest, heq⟩ := Option.map_eq_some_iff.mp h
    cases heq
    rw [List.cons_append, string_cons hquote hback, if_neg hlow, ih hrest]
    rfl
  | case6 => cases h

/-! ## Numbers -/

/-- What comes after a number does not go on with it. -/
def Stops (rest : List Char) : Prop := ∀ c ∈ rest.head?, c.isDigit = false ∧ c ∉ ['.', 'e', 'E']

theorem stops_nil : Stops [] := fun _ h => by cases h

theorem digits_eq_some_iff {text found tail : List Char} : digits text = some (found, tail) ↔
    text = found ++ tail ∧ found ≠ [] ∧ (∀ c ∈ found, c.isDigit = true) ∧ ∀ c ∈ tail.head?, c.isDigit = false := by
  rw [digits, List.span_eq_takeWhile_dropWhile]
  constructor
  · intro h
    dsimp only at h
    split_ifs at h with hempty
    cases h
    refine ⟨(List.takeWhile_append_dropWhile).symm, by simpa using hempty,
      fun c hc => List.mem_takeWhile_imp hc, fun c hc => ?_⟩
    have := List.head?_dropWhile_not Char.isDigit text
    rw [hc] at this
    simpa using this
  · rintro ⟨rfl, hne, hall, hstop⟩
    have htail : tail.takeWhile Char.isDigit = [] ∧ tail.dropWhile Char.isDigit = tail := by
      cases tail with
      | nil => exact ⟨rfl, rfl⟩
      | cons c tail =>
        have hc := hstop c rfl
        exact ⟨List.takeWhile_cons_of_neg (by simp [hc]), List.dropWhile_cons_of_neg (by simp [hc])⟩
    have htake : (found ++ tail).takeWhile Char.isDigit = found := by
      rw [List.takeWhile_append_of_pos hall, htail.1, List.append_nil]
    have hdrop : (found ++ tail).dropWhile Char.isDigit = tail := by
      rw [List.dropWhile_append_of_pos hall, htail.2]
    rw [htake, hdrop]
    exact if_neg (by simpa using hne)

variable {text found tail rest : List Char}

theorem digits_append (h : digits text = some (found, tail)) (hrest : Stops rest) :
    digits (text ++ rest) = some (found, tail ++ rest) := by
  obtain ⟨rfl, hne, hall, hstop⟩ := digits_eq_some_iff.mp h
  refine digits_eq_some_iff.mpr ⟨List.append_assoc .., hne, hall, fun c hc => ?_⟩
  cases tail with
  | nil => exact (hrest c hc).1
  | cons d tail => exact hstop c hc

theorem integer_append (h : integer text = some (found, tail)) (hrest : Stops rest) :
    integer (text ++ rest) = some (found, tail ++ rest) := by
  by_cases hzero : ∃ t, text = '0' :: t
  · obtain ⟨t, rfl⟩ := hzero
    cases h
    rfl
  · have hdigits : integer text = digits text := by
      rw [integer]
      exact fun t heq => hzero ⟨t, heq⟩
    rw [hdigits] at h
    rw [integer]
    · exact digits_append h hrest
    · intro t heq
      cases text with
      | nil => cases h
      | cons c text =>
        obtain ⟨rfl, -⟩ := List.cons.inj heq
        exact hzero ⟨text, rfl⟩

theorem fraction_of_stops (hrest : Stops rest) : fraction rest = some ([], rest) := by
  cases rest with
  | nil => rfl
  | cons c rest =>
    rw [fraction]
    intro t heq
    obtain ⟨rfl, -⟩ := List.cons.inj heq
    simpa using (hrest '.' rfl).2

theorem exponent_of_stops (hrest : Stops rest) : exponent rest = some ([], rest) := by
  cases rest with
  | nil => rfl
  | cons c rest =>
    have hc : ¬ (c = 'e' ∨ c = 'E') := fun h => (hrest c rfl).2 (List.mem_cons_of_mem _ (by simpa using h))
    exact if_neg hc

theorem fraction_append (h : fraction text = some (found, tail)) (hrest : Stops rest) :
    fraction (text ++ rest) = some (found, tail ++ rest) := by
  by_cases hpoint : ∃ t, text = '.' :: t
  · obtain ⟨t, rfl⟩ := hpoint
    obtain ⟨⟨digits', tail'⟩, hdigits, heq⟩ := Option.map_eq_some_iff.mp h
    cases heq
    rw [List.cons_append, fraction, digits_append hdigits hrest]
    rfl
  · rw [fraction] at h
    · cases h
      cases text with
      | nil => exact fraction_of_stops hrest
      | cons c text =>
        rw [fraction]
        intro t heq
        obtain ⟨rfl, -⟩ := List.cons.inj heq
        exact hpoint ⟨text, rfl⟩
    · exact fun t heq => hpoint ⟨t, heq⟩

theorem exponent_append (h : exponent text = some (found, tail)) (hrest : Stops rest) :
    exponent (text ++ rest) = some (found, tail ++ rest) := by
  cases text with
  | nil =>
    cases h
    exact exponent_of_stops hrest
  | cons c text =>
    rw [List.cons_append]
    unfold exponent at h ⊢
    dsimp only at h ⊢
    split_ifs at h ⊢ with hc
    · cases text with
      | nil => cases h
      | cons sign text =>
        dsimp only [List.cons_append] at h ⊢
        split_ifs at h ⊢ with hsign
        · obtain ⟨⟨digits', tail'⟩, hdigits, heq⟩ := Option.map_eq_some_iff.mp h
          cases heq
          rw [digits_append hdigits hrest]
          rfl
        · obtain ⟨⟨digits', tail'⟩, hdigits, heq⟩ := Option.map_eq_some_iff.mp h
          cases heq
          rw [← List.cons_append, digits_append hdigits hrest]
          rfl
    · cases h
      rfl

theorem unsignedNumber_append (h : unsignedNumber text = some (found, tail)) (hrest : Stops rest) :
    unsignedNumber (text ++ rest) = some (found, tail ++ rest) := by
  simp only [unsignedNumber, Option.bind_eq_bind, Option.bind_eq_some_iff] at h
  obtain ⟨⟨whole, text₁⟩, hwhole, ⟨frac, text₂⟩, hfrac, ⟨exp, text₃⟩, hexp, heq⟩ := h
  cases heq
  simp only [unsignedNumber, Option.bind_eq_bind, integer_append hwhole hrest, fraction_append hfrac hrest,
    exponent_append hexp hrest, Option.bind_some]
  rfl

/-- A number is read the same with something behind it that does not go on with it. -/
theorem number_append (h : number text = some (found, tail)) (hrest : Stops rest) :
    number (text ++ rest) = some (found, tail ++ rest) := by
  by_cases hminus : ∃ t, text = '-' :: t
  · obtain ⟨t, rfl⟩ := hminus
    obtain ⟨⟨found', tail'⟩, hnumber, heq⟩ := Option.map_eq_some_iff.mp h
    cases heq
    rw [List.cons_append, number, unsignedNumber_append hnumber hrest]
    rfl
  · rw [number] at h
    · cases text with
      | nil => cases h
      | cons c text =>
        rw [List.cons_append, number, ← List.cons_append]
        · exact unsignedNumber_append h hrest
        · intro t heq
          obtain ⟨rfl, -⟩ := List.cons.inj heq
          exact hminus ⟨text, rfl⟩
    · exact fun t heq => hminus ⟨t, heq⟩

/-! ## Reading -/

mutual

/-- A value and the text behind it. Every character is gone over twice at most. -/
def readValue : ℕ → List Char → Option (Tree × List Char)
  | 0, _ => none
  | fuel + 1, text =>
    match skip text with
    | '{' :: rest =>
      match skip rest with
      | '}' :: rest => some (.object [], rest)
      | _ => (readMembers fuel rest).map fun (members, rest) => (.object members, rest)
    | '[' :: rest =>
      match skip rest with
      | ']' :: rest => some (.array [], rest)
      | _ => (readElements fuel rest).map fun (elements, rest) => (.array elements, rest)
    | '"' :: rest => (string rest).map fun (items, rest) => (.string items, rest)
    | 't' :: 'r' :: 'u' :: 'e' :: rest => some (.bool true, rest)
    | 'f' :: 'a' :: 'l' :: 's' :: 'e' :: rest => some (.bool false, rest)
    | 'n' :: 'u' :: 'l' :: 'l' :: rest => some (.null, rest)
    | text => (number text).map fun (literal, rest) => (.number literal, rest)

/-- Elements, one at least, and the bracket behind them. -/
def readElements : ℕ → List Char → Option (List Tree × List Char)
  | 0, _ => none
  | fuel + 1, text => do
    let (element, rest) ← readValue fuel text
    match skip rest with
    | ',' :: rest => (readElements fuel rest).map fun (elements, rest) => (element :: elements, rest)
    | ']' :: rest => some ([element], rest)
    | _ => none

/-- Members, one at least, and the brace behind them. -/
def readMembers : ℕ → List Char → Option (List (List Item × Tree) × List Char)
  | 0, _ => none
  | fuel + 1, text =>
    match skip text with
    | '"' :: rest => do
      let (name, rest) ← string rest
      match skip rest with
      | ':' :: rest => do
        let (value, rest) ← readValue fuel rest
        match skip rest with
        | ',' :: rest => (readMembers fuel rest).map fun (members, rest) => ((name, value) :: members, rest)
        | '}' :: rest => some ([(name, value)], rest)
        | _ => none
      | _ => none
    | _ => none

end

/-- The tree of a text that is one value. -/
def read (text : List Char) : Option Tree := do
  let (tree, rest) ← readValue (2 * text.length) text
  if (skip rest).isEmpty then some tree else none

/-! ## Layouts -/

/-- There are nothing but blanks in the text. -/
def Blank (text : List Char) : Prop := ∀ c ∈ text, isBlank c = true

mutual

/-- The text is a layout of the value. -/
inductive Spells : Tree → List Char → Prop
  | null : Spells .null ['n', 'u', 'l', 'l']
  | yes : Spells (.bool true) ['t', 'r', 'u', 'e']
  | no : Spells (.bool false) ['f', 'a', 'l', 's', 'e']
  | number {literal text : List Char} (h : number text = some (literal, [])) : Spells (.number literal) text
  | string {items : List Item} {text : List Char} (h : string text = some (items, [])) :
    Spells (.string items) ('"' :: text)
  | emptyArray {blank : List Char} (h : Blank blank) : Spells (.array []) ('[' :: (blank ++ [']']))
  | array {elements : List Tree} {text : List Char} (h : SpellsElements elements text) :
    Spells (.array elements) ('[' :: text)
  | emptyObject {blank : List Char} (h : Blank blank) : Spells (.object []) ('{' :: (blank ++ ['}']))
  | object {members : List (List Item × Tree)} {text : List Char} (h : SpellsMembers members text) :
    Spells (.object members) ('{' :: text)

/-- The text is a layout of the elements, with the bracket behind them. -/
inductive SpellsElements : List Tree → List Char → Prop
  | last {element : Tree} {before text after : List Char} (hbefore : Blank before) (h : Spells element text)
    (hafter : Blank after) : SpellsElements [element] (before ++ (text ++ (after ++ [']'])))
  | cons {element : Tree} {elements : List Tree} {before text after texts : List Char} (hbefore : Blank before)
    (h : Spells element text) (hafter : Blank after) (helements : SpellsElements elements texts) :
    SpellsElements (element :: elements) (before ++ (text ++ (after ++ ',' :: texts)))

/-- The text is a layout of the members, with the brace behind them. -/
inductive SpellsMembers : List (List Item × Tree) → List Char → Prop
  | last {name : List Item} {value : Tree} {front quoted back before text after : List Char} (hfront : Blank front)
    (hname : Json.string quoted = some (name, [])) (hback : Blank back) (hbefore : Blank before)
    (h : Spells value text) (hafter : Blank after) :
    SpellsMembers [(name, value)] (front ++ '"' :: (quoted ++ (back ++ ':' :: (before ++ (text ++ (after ++ ['}']))))))
  | cons {name : List Item} {value : Tree} {members : List (List Item × Tree)}
    {front quoted back before text after texts : List Char} (hfront : Blank front)
    (hname : Json.string quoted = some (name, [])) (hback : Blank back) (hbefore : Blank before)
    (h : Spells value text) (hafter : Blank after) (hmembers : SpellsMembers members texts) :
    SpellsMembers ((name, value) :: members)
      (front ++ '"' :: (quoted ++ (back ++ ':' :: (before ++ (text ++ (after ++ ',' :: texts))))))

end

variable {tree : Tree} {before after blank : List Char} {fuel : ℕ}

theorem skip_blank (h : Blank before) {c : Char} (hc : isBlank c = false) (t : List Char) :
    skip (before ++ c :: t) = c :: t := by
  rw [skip, List.dropWhile_append_of_pos h, List.dropWhile_cons_of_neg (by simp [hc])]

theorem stops_blank (h : Blank after) {c : Char} (hc : c ∈ [',', ']', '}']) (t : List Char) :
    Stops (after ++ c :: t) := by
  intro d hd
  cases after with
  | nil =>
    cases hd
    simp only [List.mem_cons, List.not_mem_nil, or_false] at hc
    rcases hc with rfl | rfl | rfl <;> decide
  | cons a after =>
    cases hd
    have hblank := h d List.mem_cons_self
    simp only [isBlank, Bool.or_eq_true, decide_eq_true_eq] at hblank
    rcases hblank with ((rfl | rfl) | rfl) | rfl <;> decide

theorem exists_head_digits (h : digits text = some (found, tail)) : ∃ c t, text = c :: t ∧ c.isDigit = true := by
  obtain ⟨rfl, hne, hall, -⟩ := digits_eq_some_iff.mp h
  cases found with
  | nil => exact absurd rfl hne
  | cons c found => exact ⟨c, found ++ tail, rfl, hall c List.mem_cons_self⟩

theorem exists_head_number (h : number text = some (found, tail)) :
    ∃ c t, text = c :: t ∧ (c = '-' ∨ c.isDigit = true) := by
  by_cases hminus : ∃ t, text = '-' :: t
  · obtain ⟨t, rfl⟩ := hminus
    exact ⟨'-', t, rfl, Or.inl rfl⟩
  · rw [number] at h
    · simp only [unsignedNumber, Option.bind_eq_bind, Option.bind_eq_some_iff] at h
      obtain ⟨⟨whole, text₁⟩, hwhole, -⟩ := h
      by_cases hzero : ∃ t, text = '0' :: t
      · obtain ⟨t, rfl⟩ := hzero
        exact ⟨'0', t, rfl, Or.inr rfl⟩
      · rw [integer] at hwhole
        · obtain ⟨c, t, rfl, hc⟩ := exists_head_digits hwhole
          exact ⟨c, t, rfl, Or.inr hc⟩
        · exact fun t heq => hzero ⟨t, heq⟩
    · exact fun t heq => hminus ⟨t, heq⟩

theorem isBlank_of_head {c : Char} (h : c = '-' ∨ c.isDigit = true) : isBlank c = false := by
  rcases h with rfl | h
  · rfl
  · by_contra hblank
    simp only [isBlank, Bool.not_eq_false, Bool.or_eq_true, decide_eq_true_eq] at hblank
    rcases hblank with ((rfl | rfl) | rfl) | rfl <;> cases h

theorem Spells.exists_head (h : Spells tree text) : ∃ c t, text = c :: t ∧ isBlank c = false ∧ c ≠ ']' := by
  cases h with
  | number h =>
    obtain ⟨c, t, rfl, hc⟩ := exists_head_number h
    refine ⟨c, t, rfl, isBlank_of_head hc, ?_⟩
    rintro rfl
    exact absurd hc (by decide)
  | _ => exact ⟨_, _, rfl, rfl, by decide⟩

theorem readValue_number {c : Char} {t : List Char} (hskip : skip text = c :: t) (hc : c = '-' ∨ c.isDigit = true) :
    readValue (fuel + 1) text = (number (c :: t)).map fun (literal, rest) => (.number literal, rest) := by
  rw [readValue, hskip]
  split <;> rename_i heq <;> first
    | rfl
    | exact absurd ((List.cons.inj heq).1 ▸ hc) (by decide)

theorem readValue_array {t : List Char} (hskip : skip text = '[' :: t) (hne : ∀ u, skip t ≠ ']' :: u) :
    readValue (fuel + 1) text = (readElements fuel t).map fun (elements, rest) => (.array elements, rest) := by
  rw [readValue, hskip]
  change (match skip t with
    | ']' :: rest => some (Tree.array [], rest)
    | _ => (readElements fuel t).map fun (elements, rest) => (Tree.array elements, rest)) = _
  split
  · rename_i u heq
    exact absurd heq (hne u)
  · rfl

theorem readValue_object {t : List Char} (hskip : skip text = '{' :: t) (hne : ∀ u, skip t ≠ '}' :: u) :
    readValue (fuel + 1) text = (readMembers fuel t).map fun (members, rest) => (.object members, rest) := by
  rw [readValue, hskip]
  change (match skip t with
    | '}' :: rest => some (Tree.object [], rest)
    | _ => (readMembers fuel t).map fun (members, rest) => (Tree.object members, rest)) = _
  split
  · rename_i u heq
    exact absurd heq (hne u)
  · rfl

theorem SpellsElements.skip_ne {elements : List Tree} (h : SpellsElements elements text) (rest u : List Char) :
    skip (text ++ rest) ≠ ']' :: u := by
  cases h with
  | last hbefore h _ | cons hbefore h _ _ =>
    obtain ⟨c, t, rfl, hc, hne⟩ := h.exists_head
    rw [List.append_assoc, List.cons_append, List.cons_append, skip_blank hbefore hc]
    exact fun heq => hne (List.cons.inj heq).1

theorem SpellsMembers.skip_ne {members : List (List Item × Tree)} (h : SpellsMembers members text)
    (rest u : List Char) : skip (text ++ rest) ≠ '}' :: u := by
  cases h with
  | last hfront _ _ _ _ _ | cons hfront _ _ _ _ _ _ =>
    rw [List.append_assoc, List.cons_append, skip_blank hfront rfl]
    exact fun heq => absurd (List.cons.inj heq).1 (by decide)

theorem exists_of_le (h : 2 * (text.length + 1) ≤ fuel) : ∃ n, fuel = n + 1 ∧ 2 * text.length + 1 ≤ n := by
  obtain ⟨n, rfl⟩ := Nat.exists_eq_add_of_le' (show 1 ≤ fuel by omega)
  exact ⟨n, rfl, by omega⟩

mutual

theorem readValue_of_spells : ∀ {tree : Tree} {text : List Char}, Spells tree text →
    ∀ {before rest : List Char} {n : ℕ}, Blank before → Stops rest → 2 * text.length ≤ n →
      readValue n (before ++ (text ++ rest)) = some (tree, rest)
  | _, _, .null, before, rest, n, hbefore, _, hfuel => by
    obtain ⟨m, rfl, -⟩ := exists_of_le hfuel
    rw [readValue, List.cons_append, skip_blank hbefore rfl]
    rfl
  | _, _, .yes, before, rest, n, hbefore, _, hfuel => by
    obtain ⟨m, rfl, -⟩ := exists_of_le hfuel
    rw [readValue, List.cons_append, skip_blank hbefore rfl]
    rfl
  | _, _, .no, before, rest, n, hbefore, _, hfuel => by
    obtain ⟨m, rfl, -⟩ := exists_of_le hfuel
    rw [readValue, List.cons_append, skip_blank hbefore rfl]
    rfl
  | _, _, .number h, before, rest, n, hbefore, hrest, hfuel => by
    obtain ⟨c, t, rfl, hc⟩ := exists_head_number h
    obtain ⟨m, rfl, -⟩ := exists_of_le hfuel
    have hskip : skip (before ++ (c :: t ++ rest)) = c :: (t ++ rest) := skip_blank hbefore (isBlank_of_head hc) _
    rw [readValue_number hskip hc, ← List.cons_append, number_append h hrest]
    rfl
  | _, _, .string h, before, rest, n, hbefore, _, hfuel => by
    obtain ⟨m, rfl, -⟩ := exists_of_le hfuel
    rw [readValue, List.cons_append, skip_blank hbefore rfl]
    simp only [string_append h, List.nil_append, Option.map_some]
  | _, _, .emptyArray h, before, rest, n, hbefore, _, hfuel => by
    obtain ⟨m, rfl, -⟩ := exists_of_le hfuel
    rw [readValue, List.cons_append, skip_blank hbefore rfl]
    simp only [List.append_assoc, List.singleton_append, skip_blank h (c := ']') rfl]
  | _, _, .array h, before, rest, n, hbefore, _, hfuel => by
    obtain ⟨m, rfl, hm⟩ := exists_of_le hfuel
    rw [List.cons_append, readValue_array (skip_blank hbefore rfl _) (h.skip_ne rest), readElements_of_spells h hm]
    rfl
  | _, _, .emptyObject h, before, rest, n, hbefore, _, hfuel => by
    obtain ⟨m, rfl, -⟩ := exists_of_le hfuel
    rw [readValue, List.cons_append, skip_blank hbefore rfl]
    simp only [List.append_assoc, List.singleton_append, skip_blank h (c := '\x7d') rfl]
  | _, _, .object h, before, rest, n, hbefore, _, hfuel => by
    obtain ⟨m, rfl, hm⟩ := exists_of_le hfuel
    rw [List.cons_append, readValue_object (skip_blank hbefore rfl _) (h.skip_ne rest), readMembers_of_spells h hm]
    rfl

theorem readElements_of_spells : ∀ {elements : List Tree} {text : List Char}, SpellsElements elements text →
    ∀ {rest : List Char} {n : ℕ}, 2 * text.length + 1 ≤ n →
      readElements n (text ++ rest) = some (elements, rest)
  | _, _, .last hbefore h hafter, rest, n, hfuel => by
    obtain ⟨m, rfl⟩ := Nat.exists_eq_add_of_le' (show 1 ≤ n by omega)
    simp only [List.length_append, List.length_singleton] at hfuel
    simp only [readElements, List.append_assoc, List.singleton_append,
      readValue_of_spells h hbefore (stops_blank hafter (c := ']') (by decide) rest) (n := m) (by omega),
      Option.bind_eq_bind, Option.bind_some, skip_blank hafter (c := ']') rfl]
  | _, _, .cons hbefore h hafter helements, rest, n, hfuel => by
    obtain ⟨m, rfl⟩ := Nat.exists_eq_add_of_le' (show 1 ≤ n by omega)
    simp only [List.length_append, List.length_cons] at hfuel
    simp only [readElements, List.append_assoc, List.cons_append,
      readValue_of_spells h hbefore (stops_blank hafter (c := ',') (by decide) _) (n := m) (by omega),
      Option.bind_eq_bind, Option.bind_some, skip_blank hafter (c := ',') rfl,
      readElements_of_spells helements (n := m) (by omega), Option.map_some]

theorem readMembers_of_spells : ∀ {members : List (List Item × Tree)} {text : List Char}, SpellsMembers members text →
    ∀ {rest : List Char} {n : ℕ}, 2 * text.length + 1 ≤ n →
      readMembers n (text ++ rest) = some (members, rest)
  | _, _, .last hfront hname hback hbefore h hafter, rest, n, hfuel => by
    obtain ⟨m, rfl⟩ := Nat.exists_eq_add_of_le' (show 1 ≤ n by omega)
    simp only [List.length_append, List.length_cons, List.length_nil] at hfuel
    simp only [readMembers, List.append_assoc, List.cons_append, List.nil_append, skip_blank hfront (c := '"') rfl,
      string_append hname, Option.bind_eq_bind, Option.bind_some, skip_blank hback (c := ':') rfl,
      readValue_of_spells h hbefore (stops_blank hafter (c := '\x7d') (by decide) rest) (n := m) (by omega),
      skip_blank hafter (c := '\x7d') rfl]
  | _, _, .cons hfront hname hback hbefore h hafter hmembers, rest, n, hfuel => by
    obtain ⟨m, rfl⟩ := Nat.exists_eq_add_of_le' (show 1 ≤ n by omega)
    simp only [List.length_append, List.length_cons] at hfuel
    simp only [readMembers, List.append_assoc, List.cons_append, List.nil_append, skip_blank hfront (c := '"') rfl,
      string_append hname, Option.bind_eq_bind, Option.bind_some, skip_blank hback (c := ':') rfl,
      readValue_of_spells h hbefore (stops_blank hafter (c := ',') (by decide) _) (n := m) (by omega),
      skip_blank hafter (c := ',') rfl, readMembers_of_spells hmembers (n := m) (by omega), Option.map_some]

end

/-- **Every layout is read as its tree**, whatever blanks stand around it. -/
theorem read_of_spells (h : Spells tree text) (hbefore : Blank before) (hafter : Blank after) :
    read (before ++ text ++ after) = some tree := by
  have hstops : Stops after := by
    cases after with
    | nil => exact stops_nil
    | cons c after =>
      intro d hd
      cases hd
      have hblank := hafter c List.mem_cons_self
      simp only [isBlank, Bool.or_eq_true, decide_eq_true_eq] at hblank
      rcases hblank with ((rfl | rfl) | rfl) | rfl <;> decide
  have hskip : skip after = [] := List.dropWhile_eq_nil_iff.mpr hafter
  have hfuel : 2 * text.length ≤ 2 * (before ++ (text ++ after)).length := by
    simp only [List.length_append]
    omega
  rw [List.append_assoc, read, readValue_of_spells h hbefore hstops hfuel]
  simp only [Option.bind_eq_bind, Option.bind_some, hskip, List.isEmpty_nil, if_true]

end Json
