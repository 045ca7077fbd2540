import OffsetExplorer.Lib.Digits
import OffsetExplorer.Lib.JsonText
import Mathlib.Data.List.Forall2

/-!
# Writing JSON

Texts with one value to a line, two blanks in for each level.

* `writeString`, `writeInteger`: tokens; `unescape_written`, `readInteger_writeInteger`: they come back.
* `writeArray`, `writeObject`: values, from the texts of the values in them.
* `spells_writeArray`, `spells_writeObject`: what is written is a layout.
-/

namespace Json

variable {text : List Char}

/-! ## Strings -/

/-- A character that has to be escaped is written with a short escape if there is one, and as `\u00…`. -/
def escapeChar (c : Char) : List Char :=
  match c with
  | '"' => ['\\', '"']
  | '\\' => ['\\', '\\']
  | '\x08' => ['\\', 'b']
  | '\x0c' => ['\\', 'f']
  | '\n' => ['\\', 'n']
  | '\r' => ['\\', 'r']
  | '\t' => ['\\', 't']
  | c =>
    if c.toNat < 0x20 then
      ['\\', 'u', '0', '0', Nat.digitChar (c.toNat / 16), Nat.digitChar (c.toNat % 16)]
    else [c]

/-- A string from after its opening quote. -/
def writeString (text : List Char) : List Char := text.flatMap escapeChar ++ ['"']

/-- What a character is read as. -/
def written (c : Char) : Item :=
  if c.toNat < 0x20 ∧ c ∉ ['\x08', '\x0c', '\n', '\r', '\t'] then .escape c.toNat else .char c

theorem hexDigit_digitChar : ∀ d < 16, hexDigit (Nat.digitChar d) = some d := by decide

theorem string_escapeChar (c : Char) (rest : List Char) :
    string (escapeChar c ++ rest) = (string rest).map fun (items, rest) => (written c :: items, rest) := by
  unfold escapeChar
  split
  iterate 7
    · cases h : string rest <;> simp [string, shortEscape, written, h]
  · rename_i hquote hback hb hf hn hr ht
    by_cases hc : c.toNat < 0x20
    · rw [if_pos hc]
      have hhigh := hexDigit_digitChar (c.toNat / 16) (by omega)
      have hlow := hexDigit_digitChar (c.toNat % 16) (by omega)
      have hzero : hexDigit '0' = some 0 := by decide
      have hunit : 0 * 4096 + 0 * 256 + c.toNat / 16 * 16 + c.toNat % 16 = c.toNat := by omega
      have hwritten : written c = .escape c.toNat := if_pos ⟨hc, by simpa using ⟨hb, hf, hn, hr, ht⟩⟩
      simp only [List.cons_append, List.nil_append, string, hhigh, hlow, hzero, Option.bind_eq_bind, Option.bind_some,
        hunit, hwritten]
      cases string rest <;> rfl
    · have hwritten : written c = .char c := if_neg fun h => hc h.1
      have hstop : ¬ (c.toNat < 0x20 ∨ c = '\\') := fun h => h.elim hc hback
      rw [if_neg hc, hwritten, List.singleton_append, string]
      · rw [if_neg hstop]
      all_goals simp_all

theorem string_writeString (text rest : List Char) :
    string (writeString text ++ rest) = some (text.map written, rest) := by
  induction text with
  | nil => rfl
  | cons c text ih =>
    have hcons : writeString (c :: text) ++ rest = escapeChar c ++ (writeString text ++ rest) := by
      simp only [writeString, List.flatMap_cons, List.append_assoc]
    rw [hcons, string_escapeChar, ih]
    rfl

/-- **What is written is read.** -/
theorem unescape_written (text : List Char) : unescape (text.map written) = some text := by
  induction text with
  | nil => rfl
  | cons c text ih =>
    rw [List.map_cons, written]
    split_ifs with hc
    · have hsurrogate : ¬ (0xD800 ≤ c.toNat ∧ c.toNat < 0xE000) := by omega
      have hlow : ¬ (0xDC00 ≤ c.toNat ∧ c.toNat < 0xE000) := by omega
      have hhigh : ¬ (0xD800 ≤ c.toNat ∧ c.toNat < 0xDC00) := by omega
      cases hrest : text.map written with
      | nil =>
        rw [hrest] at ih
        rw [unescape, if_neg hsurrogate, ih, Option.map_some, Char.ofNat_toNat]
        exact fun _ _ h => by cases h
      | cons item rest =>
        rw [hrest] at ih
        cases item with
        | char d =>
          rw [unescape, if_neg hsurrogate, ih, Option.map_some, Char.ofNat_toNat]
          exact fun _ _ h => by cases h
        | escape b => rw [unescape, if_neg hhigh, if_neg hlow, ih, Option.map_some, Char.ofNat_toNat]
    · rw [unescape, ih]
      rfl

/-! ## Integers -/

/-- An integer, with its sign if it is negative. -/
def writeInteger (n : ℤ) : List Char :=
  if n < 0 then '-' :: Nat.toDigits 10 n.natAbs else Nat.toDigits 10 n.natAbs

/-- The integer of a literal; one with a fraction or an exponent is none, and `-0` is none either. -/
def readInteger : List Char → Option ℤ
  | '-' :: text =>
    if text.all Char.isDigit ∧ Nat.ofDigitChars 10 text 0 ≠ 0 then some (-(Nat.ofDigitChars 10 text 0 : ℤ)) else none
  | text => if text.all Char.isDigit then some (Nat.ofDigitChars 10 text 0) else none

theorem unsignedNumber_toDigits (n : ℕ) : unsignedNumber (Nat.toDigits 10 n) = some (Nat.toDigits 10 n, []) := by
  have hinteger : integer (Nat.toDigits 10 n) = some (Nat.toDigits 10 n, []) := by
    have hdigits : digits (Nat.toDigits 10 n) = some (Nat.toDigits 10 n, []) :=
      digits_eq_some_iff.mpr ⟨(List.append_nil _).symm, Nat.toDigits_ne_nil, Digits.digital_toDigits n,
        fun _ h => by cases h⟩
    by_cases hzero : ∃ t, Nat.toDigits 10 n = '0' :: t
    · obtain ⟨t, ht⟩ := hzero
      have hn : n = 0 := Digits.eq_zero_of_head (by rw [ht]; rfl)
      subst hn
      rfl
    · rw [integer]
      · exact hdigits
      · exact fun t ht => hzero ⟨t, ht⟩
  have hfraction : fraction [] = some ([], []) := rfl
  have hexponent : exponent [] = some ([], []) := rfl
  simp only [unsignedNumber, hinteger, hfraction, hexponent, Option.bind_eq_bind, Option.bind_some, List.append_nil]
  rfl

theorem head_toDigits_ne {n : ℕ} (t : List Char) : Nat.toDigits 10 n ≠ '-' :: t := fun h =>
  absurd (Digits.digital_toDigits n '-' (h ▸ List.mem_cons_self)) (by decide)

theorem number_writeInteger (n : ℤ) : number (writeInteger n) = some (writeInteger n, []) := by
  rw [writeInteger]
  split_ifs
  · rw [number, unsignedNumber_toDigits]
    rfl
  · rw [number]
    · exact unsignedNumber_toDigits _
    · exact fun t h => head_toDigits_ne t h

theorem readInteger_writeInteger (n : ℤ) : readInteger (writeInteger n) = some n := by
  have hdigits : (Nat.toDigits 10 n.natAbs).all Char.isDigit = true :=
    List.all_eq_true.mpr (Digits.digital_toDigits n.natAbs)
  rw [writeInteger]
  split_ifs with hn
  · rw [readInteger, Nat.ofDigitChars_ten_toDigits, if_pos ⟨hdigits, by omega⟩]
    exact congrArg some (by omega)
  · rw [readInteger, Nat.ofDigitChars_ten_toDigits, if_pos hdigits]
    · exact congrArg some (by omega)
    · exact fun t h => head_toDigits_ne t h

/-! ## Arrays and objects -/

/-- A line of its own, two blanks in for each level. -/
def newline (level : ℕ) : List Char := '\n' :: List.replicate (2 * level) ' '

/-- What comes behind the first value: each on a line of its own, behind a comma. -/
def writeRest (level : ℕ) (texts : List (List Char)) (close : Char) : List Char :=
  (texts.flatMap fun text => ',' :: (newline (level + 1) ++ text)) ++ (newline level ++ [close])

/-- An array over several lines; an empty one is on one line. -/
def writeArray (level : ℕ) : List (List Char) → List Char
  | [] => ['[', ']']
  | text :: texts => '[' :: (newline (level + 1) ++ (text ++ writeRest level texts ']'))

/-- A member, from its quoted name. -/
def writeMember (member : List Char × List Char) : List Char :=
  '"' :: (writeString member.1 ++ (':' :: ' ' :: member.2))

/-- An object over several lines. -/
def writeObject (level : ℕ) : List (List Char × List Char) → List Char
  | [] => ['{', '}']
  | member :: members =>
    '{' :: (newline (level + 1) ++ (writeMember member ++ writeRest level (members.map writeMember) '}'))

theorem blank_newline (level : ℕ) : Blank (newline level) := by
  intro c hc
  rcases List.mem_cons.mp hc with rfl | hc
  · rfl
  · rw [List.eq_of_mem_replicate hc]
    rfl

theorem blank_nil : Blank [] := fun _ h => by cases h

theorem spells_string (text : List Char) : Spells (.string (text.map written)) ('"' :: writeString text) := by
  have h := string_writeString text []
  rw [List.append_nil] at h
  exact .string h

theorem writeRest_cons (level : ℕ) (text : List Char) (texts : List (List Char)) (close : Char) :
    writeRest level (text :: texts) close = ',' :: (newline (level + 1) ++ (text ++ writeRest level texts close)) := by
  simp only [writeRest, List.flatMap_cons, List.append_assoc, List.cons_append]

theorem spellsElements_write (level : ℕ) {element : Tree} {elements : List Tree} {texts : List (List Char)}
    (hfirst : Spells element text) (h : List.Forall₂ Spells elements texts) :
    SpellsElements (element :: elements) (newline (level + 1) ++ (text ++ writeRest level texts ']')) := by
  induction h generalizing element text with
  | nil => exact .last (blank_newline _) hfirst (blank_newline _)
  | cons hnext _ ih =>
    rw [writeRest_cons]
    exact .cons (blank_newline _) hfirst blank_nil (ih hnext)

theorem spells_writeArray (level : ℕ) {elements : List Tree} {texts : List (List Char)}
    (h : List.Forall₂ Spells elements texts) : Spells (.array elements) (writeArray level texts) := by
  cases h with
  | nil => exact .emptyArray blank_nil
  | cons hfirst h => exact .array (spellsElements_write level hfirst h)

/-- A member as it is written, and as it is read. -/
def SpellsMember (member : List Char × Tree) (text : List Char × List Char) : Prop :=
  member.1 = text.1 ∧ Spells member.2 text.2

/-- What the parser gives of a member that was written. -/
def readAs (member : List Char × Tree) : List Item × Tree := (member.1.map written, member.2)

theorem string_name (text : List Char) : string (writeString text) = some (text.map written, []) := by
  have h := string_writeString text []
  rwa [List.append_nil] at h

theorem blank_space : Blank [' '] := List.forall_mem_singleton.mpr rfl

theorem spellsMembers_write (level : ℕ) {member : List Char × Tree} {members : List (List Char × Tree)}
    {text : List Char × List Char} {texts : List (List Char × List Char)} (hfirst : SpellsMember member text)
    (h : List.Forall₂ SpellsMember members texts) :
    SpellsMembers ((member :: members).map readAs)
      (newline (level + 1) ++ (writeMember text ++ writeRest level (texts.map writeMember) '}')) := by
  induction h generalizing member text with
  | nil =>
    obtain ⟨hname, hvalue⟩ := hfirst
    have hlast := SpellsMembers.last (blank_newline (level + 1)) (string_name text.1) blank_nil blank_space hvalue
      (blank_newline level)
    rw [← hname] at hlast
    simpa [writeMember, writeRest, readAs, hname] using hlast
  | @cons _ next _ later hnext _ ih =>
    obtain ⟨hname, hvalue⟩ := hfirst
    have hcons := SpellsMembers.cons (blank_newline (level + 1)) (string_name text.1) blank_nil blank_space hvalue
      blank_nil (ih hnext)
    rw [← hname] at hcons
    rw [List.map_cons, List.map_cons (f := writeMember) (a := next), writeRest_cons]
    simpa [writeMember, readAs, hname] using hcons

theorem spells_writeObject (level : ℕ) {members : List (List Char × Tree)} {texts : List (List Char × List Char)}
    (h : List.Forall₂ SpellsMember members texts) :
    Spells (.object (members.map readAs)) (writeObject level texts) := by
  cases h with
  | nil => exact .emptyObject blank_nil
  | cons hfirst h => exact .object (spellsMembers_write level hfirst h)

/-! ## Values with their texts -/

/-- A value, as it is written and as it is read. -/
structure Spelled where
  tree : Tree
  text : List Char
  spells : Spells tree text

namespace Spelled

/-- The literal `null`. -/
def null : Spelled := ⟨.null, ['n', 'u', 'l', 'l'], .null⟩

/-- The literals `true` and `false`. -/
def bool : Bool → Spelled
  | true => ⟨.bool true, ['t', 'r', 'u', 'e'], .yes⟩
  | false => ⟨.bool false, ['f', 'a', 'l', 's', 'e'], .no⟩

/-- An integer with its tree. -/
def integer (n : ℤ) : Spelled := ⟨.number (writeInteger n), writeInteger n, .number (number_writeInteger n)⟩

/-- A text with its tree. -/
def string (text : List Char) : Spelled := ⟨.string (text.map written), '"' :: writeString text, spells_string text⟩

/-- An array with its tree, at a level of indentation. -/
def array (level : ℕ) (elements : List Spelled) : Spelled where
  tree := .array (elements.map fun element => element.tree)
  text := writeArray level (elements.map fun element => element.text)
  spells := by
    refine spells_writeArray level (List.forall₂_map_left_iff.mpr (List.forall₂_map_right_iff.mpr ?_))
    exact List.forall₂_same.mpr fun element _ => element.spells

/-- A member with its name, as it is read. -/
def member (m : List Char × Spelled) : List Item × Tree := (m.1.map written, m.2.tree)

/-- An object with its tree, at a level of indentation. -/
def object (level : ℕ) (members : List (List Char × Spelled)) : Spelled where
  tree := .object (members.map member)
  text := writeObject level (members.map fun m => (m.1, m.2.text))
  spells := by
    have h : List.Forall₂ SpellsMember (members.map fun m => (m.1, m.2.tree)) (members.map fun m => (m.1, m.2.text)) :=
      List.forall₂_map_left_iff.mpr (List.forall₂_map_right_iff.mpr
        (List.forall₂_same.mpr fun m _ => ⟨rfl, m.2.spells⟩))
    have hspells := spells_writeObject level h
    rwa [List.map_map] at hspells

end Spelled

end Json
