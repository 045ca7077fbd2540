import OffsetExplorer.Lib.MapM
import Mathlib.Data.List.Basic
import Mathlib.Data.Nat.Notation
import Mathlib.Tactic.SplitIfs

/-!
# Two decoders of base64

The alphabet is that of RFC 4648. The forgiving decoder drops white space, takes a text without its
padding and ignores unused bits; the canonical one takes none of these.

* `sextet`, `bytes`, `spare`: the value of a symbol, the bytes of a list of values, the bits of the last
  value that no byte takes.
* `decodeForgiving`, `decodeCanonical`: the decoders.
* `Canonical`, **`decodeCanonical_iff`**: what the canonical decoder takes of the texts that the
  forgiving one takes.
-/

namespace Base64

/-- The value of a symbol of the alphabet. -/
def sextet (c : Char) : Option ℕ :=
  if 'A' ≤ c ∧ c ≤ 'Z' then some (c.toNat - 65)
  else if 'a' ≤ c ∧ c ≤ 'z' then some (c.toNat - 71)
  else if '0' ≤ c ∧ c ≤ '9' then some (c.toNat + 4)
  else if c = '+' then some 62
  else if c = '/' then some 63
  else none

/-- The blanks that a forgiving decoder skips. -/
def isAsciiBlank (c : Char) : Bool :=
  c = '\t' || c = '\n' || c.toNat = 0x0C || c = '\r' || c = ' '

/-- The bytes of four values each; the unused bits of a last group of two or three are dropped. -/
def bytes : List ℕ → Option (List UInt8)
  | [] => some []
  | [_] => none
  | [a, b] => some [.ofNat (a * 4 + b / 16)]
  | [a, b, c] => some [.ofNat (a * 4 + b / 16), .ofNat (b % 16 * 16 + c / 4)]
  | a :: b :: c :: d :: rest => (bytes rest).map fun tail =>
    .ofNat (a * 4 + b / 16) :: .ofNat (b % 16 * 16 + c / 4) :: .ofNat (c % 4 * 64 + d) :: tail

/-- The bits of the last value that belong to no byte. -/
def spare : List ℕ → ℕ
  | [_, b] => b % 16
  | [_, _, c] => c % 4
  | _ :: _ :: _ :: _ :: rest => spare rest
  | _ => 0

/-- The text without one or two equals signs at its end. -/
def stripPadding (text : List Char) : List Char :=
  match text.reverse with
  | '=' :: '=' :: rest => rest.reverse
  | '=' :: rest => rest.reverse
  | _ => text

/-- The values of the symbols of a text. -/
def sextets (text : List Char) : Option (List ℕ) := text.mapM sextet

/-- The decoder of a browser: blanks, missing padding and spare bits are let through. -/
def decodeForgiving (text : List Char) : Option (List UInt8) :=
  let symbols := text.filter fun c => !isAsciiBlank c
  (sextets (if symbols.length % 4 = 0 then stripPadding symbols else symbols)).bind bytes

/-- The decoder of a back end: nothing is let through. -/
def decodeCanonical (text : List Char) : Option (List UInt8) :=
  if text.length % 4 = 0 then
    (sextets (stripPadding text)).bind fun values => if spare values = 0 then bytes values else none
  else none

/-- No white space, no padding left out, and no bits lost. -/
structure Canonical (text : List Char) : Prop where
  notBlank : ∀ c ∈ text, isAsciiBlank c = false
  padded : text.length % 4 = 0
  spare : ∀ values, sextets (stripPadding text) = some values → Base64.spare values = 0

example : decodeForgiving "YQ".toList = some [97] ∧ decodeCanonical "YQ".toList = none ∧
    decodeCanonical "YQ==".toList = some [97] := by decide

/-! ## The characters of a text -/

theorem sextet_eq_none_of_blank {c : Char} (h : isAsciiBlank c = true) : sextet c = none := by
  simp only [isAsciiBlank, Bool.or_eq_true, decide_eq_true_eq] at h
  rcases h with (((rfl | rfl) | h) | rfl) | rfl
  · decide
  · decide
  · rw [show c = Char.ofNat 0x0C from Char.ext (UInt32.toNat.inj h)]
    decide
  · decide
  · decide

theorem mem_of_mem_stripPadding {text : List Char} {c : Char} (h : c ∈ text) :
    c = '=' ∨ c ∈ stripPadding text := by
  unfold stripPadding
  have hmem := List.mem_reverse.mpr h
  split
  · rename_i rest heq
    rw [heq, List.mem_cons, List.mem_cons, ← or_assoc, or_self] at hmem
    exact hmem.imp_right List.mem_reverse.mpr
  · rename_i rest heq
    rw [heq, List.mem_cons] at hmem
    exact hmem.imp_right List.mem_reverse.mpr
  · exact Or.inr h

theorem exists_sextet {text : List Char} {values : List ℕ} (h : sextets text = some values) {c : Char}
    (hc : c ∈ text) : ∃ value, sextet c = some value := by
  have hall := MapM.mapM_isSome_iff.mp (Option.isSome_iff_exists.mpr ⟨values, h⟩)
  exact Option.isSome_iff_exists.mp (hall c hc)

theorem symbol_of_decodeCanonical {text : List Char} {b : List UInt8}
    (h : decodeCanonical text = some b) {c : Char} (hc : c ∈ text) :
    c = '=' ∨ ∃ value, sextet c = some value := by
  rw [decodeCanonical, Option.ite_none_right_eq_some] at h
  obtain ⟨values, hvalues, -⟩ := Option.bind_eq_some_iff.mp h.2
  exact (mem_of_mem_stripPadding hc).imp_right (exists_sextet hvalues)

theorem symbol_of_decodeForgiving {text : List Char} {b : List UInt8}
    (h : decodeForgiving text = some b) {c : Char} (hc : c ∈ text) :
    isAsciiBlank c = true ∨ c = '=' ∨ ∃ value, sextet c = some value := by
  cases hblank : isAsciiBlank c with
  | true => exact Or.inl rfl
  | false =>
    right
    have hmem : c ∈ text.filter fun c => !isAsciiBlank c := List.mem_filter.mpr ⟨hc, by simp [hblank]⟩
    obtain ⟨values, hvalues, -⟩ := Option.bind_eq_some_iff.mp h
    split_ifs at hvalues
    · exact (mem_of_mem_stripPadding hmem).imp_right (exists_sextet hvalues)
    · exact Or.inr (exists_sextet hvalues hmem)

/-! ## The two decoders -/

theorem decodeForgiving_of_canonical {text : List Char} (h : Canonical text) :
    decodeForgiving text = decodeCanonical text := by
  have hfilter : (text.filter fun c => !isAsciiBlank c) = text :=
    List.filter_eq_self.mpr fun c hc => by rw [h.notBlank c hc]; rfl
  simp only [decodeForgiving, decodeCanonical, hfilter, h.padded, if_true]
  refine Option.bind_congr fun values hvalues => ?_
  rw [if_pos (h.spare values hvalues)]

theorem canonical_of_decodeCanonical {text : List Char} {b : List UInt8}
    (h : decodeCanonical text = some b) : Canonical text := by
  have hsymbol := fun c (hc : c ∈ text) => symbol_of_decodeCanonical h hc
  rw [decodeCanonical, Option.ite_none_right_eq_some] at h
  obtain ⟨hpadded, h⟩ := h
  obtain ⟨values, hvalues, h⟩ := Option.bind_eq_some_iff.mp h
  rw [Option.ite_none_right_eq_some] at h
  refine ⟨fun c hc => ?_, hpadded, fun values' hvalues' => ?_⟩
  · rw [← Bool.not_eq_true]
    intro hblank
    rcases hsymbol c hc with rfl | ⟨value, hvalue⟩
    · cases hblank
    · rw [sextet_eq_none_of_blank hblank] at hvalue
      cases hvalue
  · rw [hvalues] at hvalues'
    cases hvalues'
    exact h.1

theorem length_stripPadding (text : List Char) : text.length ≤ (stripPadding text).length + 2 := by
  unfold stripPadding
  split
  · rename_i rest heq
    have hlength := congrArg List.length heq
    rw [List.length_reverse, List.length_cons, List.length_cons] at hlength
    have hrest : rest.reverse.length = rest.length := List.length_reverse
    omega
  · rename_i rest _ heq
    have hlength := congrArg List.length heq
    rw [List.length_reverse, List.length_cons] at hlength
    have hrest : rest.reverse.length = rest.length := List.length_reverse
    omega
  · omega

theorem eq_nil_of_decodeCanonical {text : List Char} (h : decodeCanonical text = some []) :
    text = [] := by
  rw [decodeCanonical, Option.ite_none_right_eq_some] at h
  obtain ⟨hpadded, h⟩ := h
  obtain ⟨values, hvalues, h⟩ := Option.bind_eq_some_iff.mp h
  rw [Option.ite_none_right_eq_some] at h
  have hnil : values = [] := by
    have hbytes := h.2
    unfold bytes at hbytes
    split at hbytes
    · rfl
    all_goals simp at hbytes
  have hlength := (MapM.mapM_eq_some_iff.mp hvalues).length_eq
  have hstrip := length_stripPadding text
  rw [hnil, List.length_nil] at hlength
  exact List.length_eq_zero_iff.mp (by omega)

/-- **The canonical decoder takes the canonical texts**, of those that the forgiving one takes, and takes
them for the same bytes. -/
theorem decodeCanonical_iff {text : List Char} {b : List UInt8} (h : decodeForgiving text = some b) :
    decodeCanonical text = some b ↔ Canonical text := by
  constructor
  · exact canonical_of_decodeCanonical
  · intro hcanonical
    rw [← decodeForgiving_of_canonical hcanonical, h]

end Base64
