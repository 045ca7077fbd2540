import Mathlib.Data.List.Basic
import Mathlib.Data.Nat.Notation

/-!
# Texts in JSON

The grammar of RFC 8259, and what parsers differ in beyond it: how deep values may be nested, which
numbers they can hold, and whether an escape may be half of a surrogate pair.

* `Content`: what a text holds of these.
* `parse`: the content of a text that the grammar takes.
* `Content.Within`: a parser with limits takes the text.
-/

namespace Json

/-- A character of a string, or an escaped UTF-16 code unit. -/
inductive Item where
  | char (c : Char)
  | escape (unit : ℕ)
  deriving DecidableEq

/-- What a text holds: how deep its arrays and objects are nested, its numbers and its strings. -/
structure Content where
  depth : ℕ := 0
  numbers : List (List Char) := []
  strings : List (List Item) := []
  deriving DecidableEq

/-- Two values side by side. -/
def Content.and (a b : Content) : Content where
  depth := max a.depth b.depth
  numbers := a.numbers ++ b.numbers
  strings := a.strings ++ b.strings

/-- A value inside an array or an object. -/
def Content.nest (a : Content) : Content := { a with depth := a.depth + 1 }

/-! ## The grammar -/

/-- The blanks between tokens. -/
def isBlank (c : Char) : Bool := c = ' ' || c = '\t' || c = '\n' || c = '\r'

/-- The text behind its leading blanks. -/
def skip (text : List Char) : List Char := text.dropWhile isBlank

/-- One digit or more. -/
def digits (text : List Char) : Option (List Char × List Char) :=
  let (found, rest) := text.span Char.isDigit
  if found.isEmpty then none else some (found, rest)

/-- The integer part of a number, without leading zeros. -/
def integer : List Char → Option (List Char × List Char)
  | '0' :: rest => some (['0'], rest)
  | text => digits text

/-- The digits behind a point, if there is one. -/
def fraction : List Char → Option (List Char × List Char)
  | '.' :: rest => (digits rest).map fun (found, rest) => ('.' :: found, rest)
  | text => some ([], text)

/-- The power of ten, if there is one. -/
def exponent : List Char → Option (List Char × List Char)
  | c :: rest =>
    if c = 'e' ∨ c = 'E' then
      match rest with
      | sign :: after =>
        if sign = '+' ∨ sign = '-' then
          (digits after).map fun (found, rest) => ('e' :: sign :: found, rest)
        else (digits rest).map fun (found, rest) => ('e' :: found, rest)
      | [] => none
    else some ([], c :: rest)
  | [] => some ([], [])

/-- A number without its sign. -/
def unsignedNumber (text : List Char) : Option (List Char × List Char) := do
  let (whole, text) ← integer text
  let (frac, text) ← fraction text
  let (exp, text) ← exponent text
  return (whole ++ frac ++ exp, text)

/-- A number, as it is written. -/
def number : List Char → Option (List Char × List Char)
  | '-' :: rest => (unsignedNumber rest).map fun (found, rest) => ('-' :: found, rest)
  | text => unsignedNumber text

/-- The value of a hexadecimal digit. -/
def hexDigit (c : Char) : Option ℕ :=
  if '0' ≤ c ∧ c ≤ '9' then some (c.toNat - 48)
  else if 'a' ≤ c ∧ c ≤ 'f' then some (c.toNat - 87)
  else if 'A' ≤ c ∧ c ≤ 'F' then some (c.toNat - 55)
  else none

/-- The character of a short escape. -/
def shortEscape : Char → Option Char
  | '"' => some '"'
  | '\\' => some '\\'
  | '/' => some '/'
  | 'b' => some (Char.ofNat 8)
  | 'f' => some (Char.ofNat 12)
  | 'n' => some '\n'
  | 'r' => some '\r'
  | 't' => some '\t'
  | _ => none

/-- A string from after its opening quote. -/
def string : List Char → Option (List Item × List Char)
  | '"' :: rest => some ([], rest)
  | '\\' :: 'u' :: a :: b :: c :: d :: rest => do
    let unit := (← hexDigit a) * 4096 + (← hexDigit b) * 256 + (← hexDigit c) * 16 + (← hexDigit d)
    let (items, rest) ← string rest
    return (.escape unit :: items, rest)
  | '\\' :: c :: rest => do
    let short ← shortEscape c
    let (items, rest) ← string rest
    return (.char short :: items, rest)
  | c :: rest =>
    if c.toNat < 0x20 ∨ c = '\\' then none
    else (string rest).map fun (items, rest) => (.char c :: items, rest)
  | [] => none

/-- Where the parser is: at a value, at an element of an array, or at a member of an object. -/
inductive Place where
  | value
  | element
  | member

/-- The rest of the grammar. Each character is gone over twice at most, so that twice the length of the
text and two is fuel enough. -/
def go : ℕ → Place → List Char → Option (Content × List Char)
  | 0, _, _ => none
  | fuel + 1, .value, text =>
    match skip text with
    | '{' :: rest =>
      match skip rest with
      | '}' :: rest => some (({} : Content).nest, rest)
      | rest => (go fuel .member rest).map fun (content, rest) => (content.nest, rest)
    | '[' :: rest =>
      match skip rest with
      | ']' :: rest => some (({} : Content).nest, rest)
      | rest => (go fuel .element rest).map fun (content, rest) => (content.nest, rest)
    | '"' :: rest => (string rest).map fun (items, rest) => ({ strings := [items] }, rest)
    | 't' :: 'r' :: 'u' :: 'e' :: rest => some ({}, rest)
    | 'f' :: 'a' :: 'l' :: 's' :: 'e' :: rest => some ({}, rest)
    | 'n' :: 'u' :: 'l' :: 'l' :: rest => some ({}, rest)
    | text => (number text).map fun (literal, rest) => ({ numbers := [literal] }, rest)
  | fuel + 1, .element, text => do
    let (content, rest) ← go fuel .value text
    match skip rest with
    | ',' :: rest => (go fuel .element rest).map fun (after, rest) => (content.and after, rest)
    | ']' :: rest => some (content, rest)
    | _ => none
  | fuel + 1, .member, text =>
    match skip text with
    | '"' :: rest => do
      let (name, rest) ← string rest
      match skip rest with
      | ':' :: rest =>
        let (value, rest) ← go fuel .value rest
        let content := ({ strings := [name] } : Content).and value
        match skip rest with
        | ',' :: rest => (go fuel .member rest).map fun (after, rest) => (content.and after, rest)
        | '}' :: rest => some (content, rest)
        | _ => none
      | _ => none
    | _ => none

/-- The content of a text that is one value. -/
def parse (text : List Char) : Option Content := do
  let (content, rest) ← go (2 * text.length + 2) .value text
  if (skip rest).isEmpty then some content else none

/-! ## Limits -/

/-- No escape is a half of a surrogate pair without the other half. -/
def paired : List Item → Bool
  | .escape a :: .escape b :: rest =>
    if 0xD800 ≤ a ∧ a < 0xDC00 then 0xDC00 ≤ b && b < 0xE000 && paired rest
    else (a < 0xDC00 || 0xE000 ≤ a) && paired (.escape b :: rest)
  | .escape a :: rest => (a < 0xD800 || 0xE000 ≤ a) && paired rest
  | .char _ :: rest => paired rest
  | [] => true

/-- A parser takes the content that nests values at most `maxDepth` deep, holds no number that
`overflows` and pairs all surrogates. -/
structure Content.Within (maxDepth : ℕ) (overflows : List Char → Bool) (content : Content) : Prop where
  depth : content.depth ≤ maxDepth
  numbers : ∀ literal ∈ content.numbers, overflows literal = false
  strings : ∀ items ∈ content.strings, paired items = true

instance (maxDepth : ℕ) (overflows : List Char → Bool) (content : Content) :
    Decidable (content.Within maxDepth overflows) :=
  decidable_of_iff (content.depth ≤ maxDepth ∧ (∀ literal ∈ content.numbers, overflows literal = false) ∧
    ∀ items ∈ content.strings, paired items = true)
    ⟨fun ⟨h1, h2, h3⟩ => ⟨h1, h2, h3⟩, fun h => ⟨h.depth, h.numbers, h.strings⟩⟩

example : parse "[1e9, [\"\\uD83D\\ude00\"], null]".toList = some
    { depth := 2, numbers := ["1e9".toList], strings := [[.escape 0xD83D, .escape 0xDE00]] } := by
  decide +kernel

example : parse "[01]".toList = none ∧ parse "[1,]".toList = none ∧ parse "\"a".toList = none := by
  decide +kernel

end Json
