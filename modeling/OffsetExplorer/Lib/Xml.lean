import Mathlib.Data.List.Infix
import Mathlib.Data.Nat.Notation

/-!
# XML without document types

The grammar of XML 1.0 for texts that begin with a tag, so without a declaration or a document type: the
only entities are the predefined ones, and every attribute is of the type `CDATA`. A rule relates a text to
what it holds and to what is left of the text.

* `Nodes`: the characters and the elements between two tags; comments and instructions are nothing.
* `AttValue`, `TagTail`, `Content`, `Document`: the grammar.
* `Nodes.WellFormed`: what holds of the nodes of every document.
* **`Document.unique`**: a text is one document at most.
-/

namespace Xml

/-- White space of the markup. -/
def isBlank (c : Char) : Bool := c = ' ' || c = '\t' || c = '\n' || c = '\r'

/-- A character that a document may hold. -/
def isChar (c : Char) : Bool :=
  0x20 ≤ c.toNat && c.toNat ≠ 0xFFFE && c.toNat ≠ 0xFFFF || c = '\t' || c = '\n' || c = '\r'

/-- A character that stands for itself. There are no carriage returns, line ends being normalised. -/
def isData (c : Char) : Bool := isChar c && c ≠ '<' && c ≠ '&' && c ≠ '\r'

/-- The character is in one of the ranges. -/
def inRanges (ranges : List (ℕ × ℕ)) (c : Char) : Bool :=
  ranges.any fun range => range.1 ≤ c.toNat && c.toNat ≤ range.2

/-- The production `NameStartChar`. -/
def nameStartRanges : List (ℕ × ℕ) :=
  [(0x3A, 0x3A), (0x41, 0x5A), (0x5F, 0x5F), (0x61, 0x7A), (0xC0, 0xD6), (0xD8, 0xF6), (0xF8, 0x2FF),
    (0x370, 0x37D), (0x37F, 0x1FFF), (0x200C, 0x200D), (0x2070, 0x218F), (0x2C00, 0x2FEF),
    (0x3001, 0xD7FF), (0xF900, 0xFDCF), (0xFDF0, 0xFFFD), (0x10000, 0xEFFFF)]

/-- A name can begin with the character. -/
def isNameStart (c : Char) : Bool := inRanges nameStartRanges c

/-- A name can go on with the character. -/
def isNameChar (c : Char) : Bool :=
  isNameStart c || inRanges [(0x2D, 0x2E), (0x30, 0x39), (0xB7, 0xB7), (0x300, 0x36F), (0x203F, 0x2040)] c

/-- The production `Name`. -/
def IsName (name : List Char) : Prop :=
  ∃ c rest, name = c :: rest ∧ isNameStart c = true ∧ ∀ d ∈ rest, isNameChar d = true

/-- The text behind its leading blanks. -/
def skip (u : List Char) : List Char := u.dropWhile isBlank

/-- A line ends with a line feed, however it ended. -/
def normalizeLineEnds : List Char → List Char
  | [] => []
  | '\r' :: '\n' :: u => '\n' :: normalizeLineEnds u
  | '\r' :: u => '\n' :: normalizeLineEnds u
  | c :: u => c :: normalizeLineEnds u

/-! ## References -/

/-- The value of a digit, decimal or hexadecimal. -/
def digitValue (c : Char) : ℕ :=
  if c.isDigit then c.toNat - 0x30 else if c.isLower then c.toNat - 0x57 else c.toNat - 0x37

/-- The character of a number. -/
def numbered (base : ℕ) (digits : List Char) : Option Char :=
  let n := digits.foldl (fun n c => n * base + digitValue c) 0
  if digits ≠ [] ∧ n.isValidChar ∧ isChar (Char.ofNat n) then some (Char.ofNat n) else none

/-- A hexadecimal digit. -/
def isHexDigit (c : Char) : Bool := c.isDigit || 'a' ≤ c && c ≤ 'f' || 'A' ≤ c && c ≤ 'F'

/-- What a reference stands for, by what is written between `&` and `;`. -/
def referenced : List Char → Option Char
  | ['l', 't'] => some '<'
  | ['g', 't'] => some '>'
  | ['a', 'm', 'p'] => some '&'
  | ['a', 'p', 'o', 's'] => some '\''
  | ['q', 'u', 'o', 't'] => some '"'
  | '#' :: 'x' :: digits => if digits.all isHexDigit then numbered 16 digits else none
  | '#' :: digits => if digits.all Char.isDigit then numbered 10 digits else none
  | _ => none

/-! ## The grammar -/

/-- The characters and the elements between two tags, in their order. -/
inductive Nodes where
  | nil
  | char (c : Char) (more : Nodes)
  | element (tagName : List Char) (attributes : List (List Char × List Char)) (childNodes more : Nodes)

/-- `text` is the text up to the first `mark`. -/
def Before (mark text : List Char) : Prop := ¬ mark <:+: text ++ mark.dropLast

/-- What stands in an instruction: a name other than `xml`, and what follows it. -/
def IsInstruction (body : List Char) : Prop :=
  ∃ target more, body = target ++ more ∧ IsName target ∧
    target.map Char.toLower ≠ ['x', 'm', 'l'] ∧ ∀ c ∈ more.head?, isBlank c = true

/-- The value of an attribute, up to its quote `q`. -/
inductive AttValue (q : Char) : List Char → List Char → List Char → Prop
  | stop {rest} : AttValue q (q :: rest) [] rest
  | char {c u value rest} (hq : c ≠ q) (hc : isData c = true) (h : AttValue q u value rest) :
      AttValue q (c :: u) ((if isBlank c then ' ' else c) :: value) rest
  | reference {body c u value rest} (hbody : ';' ∉ body) (hc : referenced body = some c)
      (h : AttValue q u value rest) : AttValue q ('&' :: (body ++ ';' :: u)) (c :: value) rest

/-- A tag after its name: its attributes, and whether it is a whole element. -/
inductive TagTail : List Char → List (List Char × List Char) → Bool → List Char → Prop
  | close {u rest} (h : skip u = '>' :: rest) : TagTail u [] false rest
  | selfClose {u rest} (h : skip u = '/' :: '>' :: rest) : TagTail u [] true rest
  | attr {u name v q w x value next attributes whole rest} (hblank : skip u ≠ u)
      (hu : skip u = name ++ v) (hname : IsName name) (hv : skip v = '=' :: w)
      (hw : skip w = q :: x) (hq : q = '"' ∨ q = '\'') (hvalue : AttValue q x value next)
      (h : TagTail next attributes whole rest) (hnew : name ∉ attributes.map Prod.fst) :
      TagTail u ((name, value) :: attributes) whole rest

/-- What stands between two tags, up to the name of the tag that ends it, or, outside the root element, up
to the end of the text. -/
inductive Content : Bool → List Char → Nodes → List Char → Prop
  | finish : Content false [] .nil []
  | stop {rest} : Content true ('<' :: '/' :: rest) .nil rest
  | blank {c u nodes rest} (hc : isBlank c = true) (h : Content false u nodes rest) :
      Content false (c :: u) nodes rest
  | char {c u nodes rest} (hc : isData c = true) (hend : ¬ [']', ']', '>'] <+: c :: u)
      (h : Content true u nodes rest) : Content true (c :: u) (.char c nodes) rest
  | reference {body c u nodes rest} (hbody : ';' ∉ body) (hc : referenced body = some c)
      (h : Content true u nodes rest) : Content true ('&' :: (body ++ ';' :: u)) (.char c nodes) rest
  | cdata {body u nodes rest} (hbody : ∀ c ∈ body, isChar c = true)
      (hend : Before [']', ']', '>'] body) (h : Content true u nodes rest) :
      Content true ('<' :: '!' :: '[' :: 'C' :: 'D' :: 'A' :: 'T' :: 'A' :: '[' ::
        (body ++ ([']', ']', '>'] ++ u))) (body.foldr .char nodes) rest
  | comment {inside body u nodes rest} (hbody : ∀ c ∈ body, isChar c = true)
      (hend : Before ['-', '-'] body) (h : Content inside u nodes rest) :
      Content inside ('<' :: '!' :: '-' :: '-' :: (body ++ (['-', '-'] ++ '>' :: u))) nodes rest
  | instruction {inside body u nodes rest} (hbody : ∀ c ∈ body, isChar c = true)
      (hname : IsInstruction body) (hend : Before ['?', '>'] body) (h : Content inside u nodes rest) :
      Content inside ('<' :: '?' :: (body ++ (['?', '>'] ++ u))) nodes rest
  | element {inside tag v attributes w kids x y more rest} (htag : IsName tag)
      (htail : TagTail v attributes false w) (hkids : Content true w kids (tag ++ x))
      (hx : skip x = '>' :: y) (h : Content inside y more rest) :
      Content inside ('<' :: (tag ++ v)) (.element tag attributes kids more) rest
  | whole {inside tag v attributes w more rest} (htag : IsName tag)
      (htail : TagTail v attributes true w) (h : Content inside w more rest) :
      Content inside ('<' :: (tag ++ v)) (.element tag attributes .nil more) rest

/-- An element: its name, its attributes and what is in it. -/
structure Element where
  tagName : List Char
  attributes : List (List Char × List Char)
  childNodes : Nodes

/-- The element as a list of one node. -/
def Element.nodes (root : Element) : Nodes :=
  .element root.tagName root.attributes root.childNodes .nil

/-- The text, with its line ends normalised, is a document of one root element. -/
def Document (u : List Char) (root : Element) : Prop := Content false u root.nodes []

/-- The text has a start tag in front: there is no declaration and no document type. -/
def StartsWithTag (text : List Char) : Prop := ∃ c rest, text = '<' :: c :: rest ∧ isNameStart c = true

/-! ## What holds of every document -/

namespace Nodes

/-- Names are names, no attribute is there twice, and every character is one of XML. -/
def WellFormed : Nodes → Prop
  | nil => True
  | char c more => isChar c = true ∧ more.WellFormed
  | element tag attributes kids more => IsName tag ∧ (attributes.map Prod.fst).Nodup ∧
      (∀ a ∈ attributes, IsName a.1 ∧ ∀ c ∈ a.2, isChar c = true) ∧ kids.WellFormed ∧ more.WellFormed

/-- The tags and the attributes alone. -/
def markup : Nodes → Nodes
  | nil => nil
  | char _ more => more.markup
  | element tag attributes kids more => element tag attributes kids.markup more.markup

/-- The characters among the nodes. -/
def chars : Nodes → List Char
  | nil => []
  | char c more => c :: more.chars
  | element _ _ _ more => more.chars

/-- The nodes, and others behind them. -/
def append : Nodes → Nodes → Nodes
  | nil, after => after
  | char c more, after => char c (more.append after)
  | element tag attributes kids more, after => element tag attributes kids (more.append after)

/-- A text as nodes. -/
def ofChars (text : List Char) : Nodes := text.foldr char nil

@[simp] theorem append_nil (nodes : Nodes) : nodes.append nil = nodes := by
  induction nodes with
  | nil => rfl
  | char c _ ih => rw [append, ih]
  | element _ _ _ _ _ ih => rw [append, ih]

@[simp] theorem append_assoc (nodes after rest : Nodes) :
    (nodes.append after).append rest = nodes.append (after.append rest) := by
  induction nodes with
  | nil => rfl
  | char c _ ih => exact congrArg (char c) ih
  | element tag attributes kids _ _ ih => exact congrArg (element tag attributes kids) ih

theorem markup_ofChars (text : List Char) : (ofChars text).markup = nil := by
  induction text with
  | nil => rfl
  | cons _ _ ih => exact ih

theorem markup_append (nodes after : Nodes) :
    (nodes.append after).markup = nodes.markup.append after.markup := by
  induction nodes with
  | nil => rfl
  | char _ _ ih => exact ih
  | element _ _ _ _ _ ih => rw [append, markup, ih, markup, append]

end Nodes

theorem normalizeLineEnds_eq_self {u : List Char} (h : '\r' ∉ u) : normalizeLineEnds u = u := by
  induction u with
  | nil => rfl
  | cons c u ih =>
    have hc : c ≠ '\r' := fun heq => h (heq ▸ List.mem_cons_self)
    rw [normalizeLineEnds, ih fun hu => h (List.mem_cons_of_mem c hu)]
    · intro v heq
      exact absurd heq hc
    · exact hc

/-! ## A text is one document at most -/

theorem isNameChar_of_isNameStart {c : Char} (h : isNameStart c = true) : isNameChar c = true := by
  rw [isNameChar, h, Bool.true_or]

theorem IsName.all {name : List Char} (h : IsName name) : ∀ c ∈ name, isNameChar c = true := by
  obtain ⟨c, rest, rfl, hc, hrest⟩ := h
  exact List.forall_mem_cons.mpr ⟨isNameChar_of_isNameStart hc, hrest⟩

theorem isNameChar_of_isBlank {c : Char} (h : isBlank c = true) : isNameChar c = false := by
  simp only [isBlank, Bool.or_eq_true, decide_eq_true_eq] at h
  rcases h with ((rfl | rfl) | rfl) | rfl <;> decide

/-- What follows a name: not one of its characters. -/
def NameEnds (u : List Char) : Prop := ∀ c ∈ u.head?, isNameChar c = false

theorem nameEnds_of_skip {u rest : List Char} {c : Char} (h : skip u = c :: rest)
    (hc : isNameChar c = false) : NameEnds u := by
  intro d hd
  rcases u with _ | ⟨e, u⟩
  · cases hd
  · obtain rfl : e = d := Option.some.inj hd
    cases hblank : isBlank e with
    | true => exact isNameChar_of_isBlank hblank
    | false =>
      rw [skip, List.dropWhile_cons, hblank] at h
      cases h
      exact hc

theorem name_unique {name other u v : List Char} (hname : IsName name) (hother : IsName other)
    (hu : NameEnds u) (hv : NameEnds v) (h : name ++ u = other ++ v) : name = other ∧ u = v := by
  have hspan : ∀ {l r : List Char}, IsName l → NameEnds r → (l ++ r).takeWhile isNameChar = l := by
    intro l r hl hr
    rw [List.takeWhile_append_of_pos hl.all]
    rcases r with _ | ⟨c, r⟩
    · simp
    · rw [List.takeWhile_cons_of_neg (by rw [hr c rfl]; exact Bool.false_ne_true), List.append_nil]
  have heq : name = other := by rw [← hspan hname hu, h, hspan hother hv]
  subst heq
  exact ⟨rfl, List.append_cancel_left h⟩

theorem reference_unique {body other u v : List Char} (hbody : ';' ∉ body) (hother : ';' ∉ other)
    (h : body ++ ';' :: u = other ++ ';' :: v) : body = other ∧ u = v := by
  have hspan : ∀ {l r : List Char}, ';' ∉ l → (l ++ ';' :: r).takeWhile (· ≠ ';') = l := by
    intro l r hl
    have hne : ∀ c ∈ l, c ≠ ';' := fun c hc heq => hl (heq ▸ hc)
    rw [List.takeWhile_append_of_pos fun c hc => decide_eq_true (hne c hc)]
    simp
  have heq : body = other := by rw [← hspan hbody, h, hspan hother]
  subst heq
  exact ⟨rfl, (List.cons.inj (List.append_cancel_left h)).2⟩

theorem before_unique {mark text other u v : List Char} (hmark : mark ≠ []) (htext : Before mark text)
    (hother : Before mark other) (h : text ++ (mark ++ u) = other ++ (mark ++ v)) :
    text = other ∧ u = v := by
  have hle : ∀ {a b u v : List Char}, Before mark b → a ++ (mark ++ u) = b ++ (mark ++ v) →
      b.length ≤ a.length := by
    intro a b u v hb h
    by_contra hlt
    have hdrop : mark.length = mark.dropLast.length + 1 := by
      rw [List.length_dropLast, Nat.sub_add_cancel (List.length_pos_iff.mpr hmark)]
    have hsplit : b ++ (mark ++ v) = (b ++ mark.dropLast) ++ (mark.getLast hmark :: v) := by
      conv_lhs => rw [← List.dropLast_append_getLast hmark]
      simp
    have hleft : a ++ mark <+: b ++ (mark ++ v) := ⟨u, by rw [List.append_assoc, h]⟩
    have hright : b ++ mark.dropLast <+: b ++ (mark ++ v) := ⟨_, hsplit.symm⟩
    have hlength : (a ++ mark).length ≤ (b ++ mark.dropLast).length := by
      rw [List.length_append, List.length_append]
      omega
    have hstart := List.prefix_of_prefix_length_le hleft hright hlength
    exact hb ((List.suffix_append a mark).isInfix.trans hstart.isInfix)
  have hlength := Nat.le_antisymm (hle htext h.symm) (hle hother h)
  obtain ⟨heq, hrest⟩ := List.append_inj h hlength
  exact ⟨heq, List.append_cancel_left hrest⟩

theorem AttValue.unique {q : Char} {u value rest : List Char} (h : AttValue q u value rest)
    {value' rest' : List Char} (hq : q ≠ '&') (h' : AttValue q u value' rest') :
    value = value' ∧ rest = rest' := by
  induction h generalizing value' with
  | stop =>
    cases h' with
    | stop => exact ⟨rfl, rfl⟩
    | char hne => exact absurd rfl hne
    | reference => exact absurd rfl hq
  | char hne hc _ ih =>
    cases h' with
    | stop => exact absurd rfl hne
    | char _ _ h' =>
      obtain ⟨rfl, rfl⟩ := ih h'
      exact ⟨rfl, rfl⟩
    | reference => exact absurd hc (by decide)
  | @reference body c u value rest hbody hc _ ih =>
    generalize htext : '&' :: (body ++ ';' :: u) = text at h'
    cases h' with
    | stop => exact absurd (List.cons.inj htext).1.symm hq
    | char _ hdata =>
      rw [← (List.cons.inj htext).1] at hdata
      exact absurd hdata (by decide)
    | reference hbody' hc' h' =>
      obtain ⟨rfl, rfl⟩ := reference_unique hbody hbody' (List.cons.inj htext).2
      obtain ⟨rfl, rfl⟩ := ih h'
      rw [hc] at hc'
      cases hc'
      exact ⟨rfl, rfl⟩

theorem IsName.start {name v w : List Char} {c : Char} (hname : IsName name)
    (h : name ++ v = c :: w) : isNameStart c = true := by
  obtain ⟨d, rest, rfl, hd, -⟩ := hname
  cases h
  exact hd

theorem nameEnds_of_blank {u : List Char} (h : skip u ≠ u) : NameEnds u := by
  intro c hc
  rcases u with _ | ⟨d, u⟩
  · cases hc
  · obtain rfl : d = c := Option.some.inj hc
    cases hblank : isBlank d with
    | true => exact isNameChar_of_isBlank hblank
    | false => exact absurd (List.dropWhile_cons_of_neg (by simp [hblank])) h

theorem TagTail.nameEnds {u rest : List Char} {attributes : List (List Char × List Char)} {whole : Bool}
    (h : TagTail u attributes whole rest) : NameEnds u := by
  cases h with
  | close h => exact nameEnds_of_skip h (by decide)
  | selfClose h => exact nameEnds_of_skip h (by decide)
  | attr hblank => exact nameEnds_of_blank hblank

theorem TagTail.unique {u rest : List Char} {attributes : List (List Char × List Char)} {whole : Bool}
    (h : TagTail u attributes whole rest) {attributes' : List (List Char × List Char)} {whole' : Bool}
    {rest' : List Char} (h' : TagTail u attributes' whole' rest') :
    attributes = attributes' ∧ whole = whole' ∧ rest = rest' := by
  induction h generalizing attributes' with
  | close hu =>
    cases h' with
    | close hu' =>
      rw [hu] at hu'
      exact ⟨rfl, rfl, (List.cons.inj hu').2⟩
    | selfClose hu' =>
      rw [hu] at hu'
      exact absurd (List.cons.inj hu').1 (by decide)
    | attr _ hu' hname =>
      exact absurd (hname.start (hu'.symm.trans hu)) (by decide)
  | selfClose hu =>
    cases h' with
    | close hu' =>
      rw [hu] at hu'
      exact absurd (List.cons.inj hu').1 (by decide)
    | selfClose hu' =>
      rw [hu] at hu'
      exact ⟨rfl, rfl, (List.cons.inj (List.cons.inj hu').2).2⟩
    | attr _ hu' hname =>
      exact absurd (hname.start (hu'.symm.trans hu)) (by decide)
  | attr _ hu hname hv hw hq hvalue _ _ ih =>
    cases h' with
    | close hu' => exact absurd (hname.start (hu.symm.trans hu')) (by decide)
    | selfClose hu' => exact absurd (hname.start (hu.symm.trans hu')) (by decide)
    | attr _ hu' hname' hv' hw' _ hvalue' h' =>
      obtain ⟨rfl, rfl⟩ := name_unique hname hname' (nameEnds_of_skip hv (by decide))
        (nameEnds_of_skip hv' (by decide)) (hu.symm.trans hu')
      rw [hv] at hv'
      obtain rfl := (List.cons.inj hv').2
      rw [hw] at hw'
      obtain ⟨rfl, rfl⟩ := List.cons.inj hw'
      obtain ⟨rfl, rfl⟩ := hvalue.unique (by rcases hq with rfl | rfl <;> decide) hvalue'
      obtain ⟨rfl, rfl, rfl⟩ := ih h'
      exact ⟨rfl, rfl, rfl⟩

/-- A text with a tag in front is read as an element. -/
inductive TagFirst (inside : Bool) (tag v : List Char) (nodes : Nodes) (rest : List Char) : Prop
  | element {attributes w kids x y more} (htail : TagTail v attributes false w)
      (hkids : Content true w kids (tag ++ x)) (hx : skip x = '>' :: y)
      (hnodes : nodes = .element tag attributes kids more) (h : Content inside y more rest)
  | whole {attributes w more} (htail : TagTail v attributes true w)
      (hnodes : nodes = .element tag attributes .nil more) (h : Content inside w more rest)

theorem Content.tag_cases {inside : Bool} {tag v rest : List Char} {nodes : Nodes}
    (h : Content inside ('<' :: (tag ++ v)) nodes rest) (htag : IsName tag) (hv : NameEnds v) :
    TagFirst inside tag v nodes rest := by
  generalize htext : '<' :: (tag ++ v) = text at h
  cases h with
  | blank hc | char hc =>
    rw [← (List.cons.inj htext).1] at hc
    exact absurd hc (by decide)
  | element htag' htail hkids hx h =>
    obtain ⟨rfl, rfl⟩ := name_unique htag htag' hv htail.nameEnds (List.cons.inj htext).2
    exact .element htail hkids hx rfl h
  | whole htag' htail h =>
    obtain ⟨rfl, rfl⟩ := name_unique htag htag' hv htail.nameEnds (List.cons.inj htext).2
    exact .whole htail rfl h
  | finish => cases htext
  | reference => exact absurd (List.cons.inj htext).1 (by decide)
  | stop | cdata | comment | instruction =>
    exact absurd (htag.start (List.cons.inj htext).2) (by decide)

/-- **What a text holds between two tags** is one thing. -/
theorem Content.unique {inside : Bool} {u rest : List Char} {nodes : Nodes}
    (h : Content inside u nodes rest) {nodes' : Nodes} {rest' : List Char}
    (h' : Content inside u nodes' rest') : nodes = nodes' ∧ rest = rest' := by
  induction h generalizing nodes' rest' with
  | finish =>
    cases h'
    exact ⟨rfl, rfl⟩
  | stop =>
    generalize htext : '<' :: '/' :: _ = text at h'
    cases h' with
    | stop =>
      cases htext
      exact ⟨rfl, rfl⟩
    | char hc =>
      rw [← (List.cons.inj htext).1] at hc
      exact absurd hc (by decide)
    | element htag | whole htag =>
      exact absurd (htag.start (List.cons.inj htext).2.symm) (by decide)
    | _ => simp at htext
  | blank hc _ ih =>
    generalize htext : _ :: _ = text at h'
    cases h' with
    | finish => cases htext
    | blank hc' h' =>
      cases htext
      exact ih h'
    | _ =>
      rw [(List.cons.inj htext).1] at hc
      exact absurd hc (by decide)
  | char hc _ _ ih =>
    generalize htext : _ :: _ = text at h'
    cases h' with
    | char _ _ h' =>
      cases htext
      obtain ⟨rfl, rfl⟩ := ih h'
      exact ⟨rfl, rfl⟩
    | _ =>
      rw [(List.cons.inj htext).1] at hc
      exact absurd hc (by decide)
  | reference hbody hc _ ih =>
    generalize htext : '&' :: _ = text at h'
    cases h' with
    | char hc' =>
      rw [← (List.cons.inj htext).1] at hc'
      exact absurd hc' (by decide)
    | reference hbody' hc' h' =>
      obtain ⟨rfl, rfl⟩ := reference_unique hbody hbody' (List.cons.inj htext).2
      obtain ⟨rfl, rfl⟩ := ih h'
      rw [hc] at hc'
      cases hc'
      exact ⟨rfl, rfl⟩
    | _ => exact absurd (List.cons.inj htext).1 (by decide)
  | cdata _ hend _ ih =>
    generalize htext : '<' :: '!' :: '[' :: _ = text at h'
    cases h' with
    | char hc =>
      rw [← (List.cons.inj htext).1] at hc
      exact absurd hc (by decide)
    | cdata _ hend' h' =>
      obtain ⟨rfl, rfl⟩ := before_unique (by decide) hend hend' (by simpa using htext)
      obtain ⟨rfl, rfl⟩ := ih h'
      exact ⟨rfl, rfl⟩
    | element htag | whole htag =>
      exact absurd (htag.start (List.cons.inj htext).2.symm) (by decide)
    | _ => simp at htext
  | comment _ hend _ ih =>
    generalize htext : '<' :: '!' :: '-' :: _ = text at h'
    cases h' with
    | blank hc | char hc =>
      rw [← (List.cons.inj htext).1] at hc
      exact absurd hc (by decide)
    | comment _ hend' h' =>
      obtain ⟨rfl, hu⟩ := before_unique (by decide) hend hend' (by simpa using htext)
      cases hu
      obtain ⟨rfl, rfl⟩ := ih h'
      exact ⟨rfl, rfl⟩
    | element htag | whole htag =>
      exact absurd (htag.start (List.cons.inj htext).2.symm) (by decide)
    | _ => simp at htext
  | instruction _ _ hend _ ih =>
    generalize htext : '<' :: '?' :: _ = text at h'
    cases h' with
    | blank hc | char hc =>
      rw [← (List.cons.inj htext).1] at hc
      exact absurd hc (by decide)
    | instruction _ _ hend' h' =>
      obtain ⟨rfl, rfl⟩ := before_unique (by decide) hend hend' (by simpa using htext)
      obtain ⟨rfl, rfl⟩ := ih h'
      exact ⟨rfl, rfl⟩
    | element htag | whole htag =>
      exact absurd (htag.start (List.cons.inj htext).2.symm) (by decide)
    | _ => simp at htext
  | element htag htail _ hx _ ihkids ih =>
    rcases h'.tag_cases htag htail.nameEnds with ⟨htail', hkids', hx', rfl, hmore⟩ | ⟨htail', -, -⟩
    · obtain ⟨rfl, -, rfl⟩ := htail.unique htail'
      obtain ⟨rfl, hrest⟩ := ihkids hkids'
      obtain rfl := List.append_cancel_left hrest
      rw [hx] at hx'
      obtain ⟨rfl, rfl⟩ := ih ((List.cons.inj hx').2 ▸ hmore)
      exact ⟨rfl, rfl⟩
    · exact absurd (htail.unique htail').2.1 (by decide)
  | whole htag htail _ ih =>
    rcases h'.tag_cases htag htail.nameEnds with ⟨htail', -, -, -, -⟩ | ⟨htail', rfl, hmore⟩
    · exact absurd (htail.unique htail').2.1 (by decide)
    · obtain ⟨rfl, -, rfl⟩ := htail.unique htail'
      obtain ⟨rfl, rfl⟩ := ih hmore
      exact ⟨rfl, rfl⟩

/-- **A text is one document** at most. -/
theorem Document.unique {u : List Char} {root root' : Element} (h : Document u root)
    (h' : Document u root') : root = root' := by
  obtain ⟨heq, -⟩ := Content.unique h h'
  cases root
  cases root'
  cases heq
  rfl

/-! ## What a text holds is well formed -/

theorem isChar_of_isData {c : Char} (h : isData c = true) : isChar c = true := by
  simp only [isData, Bool.and_eq_true] at h
  exact h.1.1.1

theorem isChar_of_numbered {base : ℕ} {digits : List Char} {c : Char}
    (h : numbered base digits = some c) : isChar c = true := by
  unfold numbered at h
  simp only at h
  split_ifs at h with hnumber
  cases h
  exact hnumber.2.2

theorem isChar_of_referenced {body : List Char} {c : Char} (h : referenced body = some c) :
    isChar c = true := by
  unfold referenced at h
  split at h
  case h_6 | h_7 =>
    split_ifs at h
    exact isChar_of_numbered h
  case h_8 => cases h
  all_goals
    cases h
    decide

theorem AttValue.isChar {q : Char} {u value rest : List Char} (h : AttValue q u value rest) :
    ∀ c ∈ value, isChar c = true := by
  induction h with
  | stop => exact List.forall_mem_nil _
  | char _ hc _ ih =>
    refine List.forall_mem_cons.mpr ⟨?_, ih⟩
    split_ifs
    · decide
    · exact isChar_of_isData hc
  | reference _ hc _ ih => exact List.forall_mem_cons.mpr ⟨isChar_of_referenced hc, ih⟩

theorem TagTail.wellFormed {u rest : List Char} {attributes : List (List Char × List Char)} {whole : Bool}
    (h : TagTail u attributes whole rest) : (attributes.map Prod.fst).Nodup ∧
      ∀ a ∈ attributes, IsName a.1 ∧ ∀ c ∈ a.2, isChar c = true := by
  induction h with
  | close | selfClose => exact ⟨List.nodup_nil, List.forall_mem_nil _⟩
  | attr _ _ hname _ _ _ hvalue _ hnew ih =>
    exact ⟨List.nodup_cons.mpr ⟨hnew, ih.1⟩, List.forall_mem_cons.mpr ⟨⟨hname, hvalue.isChar⟩, ih.2⟩⟩

theorem Content.wellFormed {inside : Bool} {u rest : List Char} {nodes : Nodes}
    (h : Content inside u nodes rest) : nodes.WellFormed := by
  induction h with
  | finish | stop => trivial
  | blank _ _ ih => exact ih
  | char hc _ _ ih => exact ⟨isChar_of_isData hc, ih⟩
  | reference _ hc _ ih => exact ⟨isChar_of_referenced hc, ih⟩
  | @cdata body _ _ _ hbody _ _ ih =>
    clear * - hbody ih
    induction body with
    | nil => exact ih
    | cons c body ihbody =>
      exact ⟨hbody c List.mem_cons_self, ihbody fun d hd => hbody d (List.mem_cons_of_mem c hd)⟩
  | comment _ _ _ ih => exact ih
  | instruction _ _ _ _ ih => exact ih
  | element htag htail _ _ _ ihkids ih =>
    exact ⟨htag, htail.wellFormed.1, htail.wellFormed.2, ihkids, ih⟩
  | whole htag htail _ ih => exact ⟨htag, htail.wellFormed.1, htail.wellFormed.2, trivial, ih⟩

/-! ## Parsers -/

/-- A parser that knows about name spaces. Of every text it gives well-formed elements; of a text that
begins with a tag it gives what the grammar says, unless its names, the condition `named`, are wrong.
Left out are the documents in which a browser's parser reports an error, which are `none` here, and the rule
of name spaces that the target of an instruction has no colon. -/
structure StandardParser (named : Nodes → Prop) (parse : List Char → Option Element) : Prop where
  wellFormed {text root} (h : parse text = some root) : root.nodes.WellFormed ∧ named root.nodes.markup
  document {text root} (h : StartsWithTag text) :
    parse text = some root ↔ Document (normalizeLineEnds text) root ∧ named root.nodes.markup

open Classical in
/-- The parser of the grammar alone, for names without name spaces. -/
noncomputable def grammarParser (text : List Char) : Option Element :=
  if h : StartsWithTag text ∧ ∃ root, Document (normalizeLineEnds text) root then some h.2.choose else none

theorem standardParser_grammar : StandardParser (fun _ => True) grammarParser := by
  have hdocument : ∀ {text root}, grammarParser text = some root →
      Document (normalizeLineEnds text) root := by
    intro text root h
    rw [grammarParser] at h
    split_ifs at h with hroot
    cases h
    exact hroot.2.choose_spec
  refine ⟨fun h => ⟨(hdocument h).wellFormed, trivial⟩, fun {text root} htag =>
    ⟨fun h => ⟨hdocument h, trivial⟩, fun h => ?_⟩⟩
  have hroot : StartsWithTag text ∧ ∃ root, Document (normalizeLineEnds text) root :=
    ⟨htag, root, h.1⟩
  rw [grammarParser, dif_pos hroot, Document.unique hroot.2.choose_spec h.1]

end Xml
