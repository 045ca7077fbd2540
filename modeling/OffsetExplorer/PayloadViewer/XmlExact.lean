import OffsetExplorer.PayloadViewer.Xml
import Mathlib.Algebra.Order.BigOperators.Group.List
import Mathlib.Algebra.Order.Group.Nat
import Mathlib.Algebra.Ring.Nat

/-!
# Which documents are written as themselves

What is written of a tree is the shortest text of it: every other way to say the same has more characters
that are no blanks. A text with the same tree says everything in the shortest way, so that no character is
markup where it is written.

* `weigh`: the length without blanks, with two for an apostrophe.
* **`content_weigh`**: what is read weighs no more than the text, and is plain where it weighs as much.
* **`formatXmlNode_reparses_iff`**: when a written document is read back.
-/

namespace OffsetExplorer.PayloadViewer

open Xml

/-! ## The weight of a text -/

/-- What a character adds to the length of a text. -/
def weight (c : Char) : ℕ := if isBlank c then 0 else if c = '\'' then 2 else 1

/-- The length of a text in this measure. -/
def weigh (u : List Char) : ℕ := (u.map weight).sum

@[simp] theorem weigh_nil : weigh [] = 0 := rfl

@[simp] theorem weigh_cons (c : Char) (u : List Char) : weigh (c :: u) = weight c + weigh u := List.sum_cons

@[simp] theorem weigh_append (u v : List Char) : weigh (u ++ v) = weigh u + weigh v := by
  rw [weigh, List.map_append, List.sum_append, weigh, weigh]

theorem weight_of_isBlank {c : Char} (h : isBlank c = true) : weight c = 0 := if_pos h

theorem weight_le (c : Char) : weight c ≤ 2 := by
  unfold weight
  split_ifs <;> omega

@[simp] theorem weigh_skip (u : List Char) : weigh (skip u) = weigh u := by
  induction u with
  | nil => rfl
  | cons c u ih =>
    cases hblank : isBlank c with
    | true =>
      rw [skip, List.dropWhile_cons_of_pos hblank, weigh_cons, weight_of_isBlank hblank, Nat.zero_add]
      exact ih
    | false => rw [skip, List.dropWhile_cons_of_neg (by rw [hblank]; exact Bool.false_ne_true)]

theorem weigh_of_skip {u v : List Char} (h : skip u = v) : weigh u = weigh v := by
  rw [← h, weigh_skip]

theorem weigh_normalizeLineEnds (u : List Char) : weigh (normalizeLineEnds u) = weigh u := by
  induction u using normalizeLineEnds.induct with
  | case1 => rfl
  | case2 u ih =>
    rw [normalizeLineEnds, weigh_cons, weigh_cons, weigh_cons, ih]
    exact (Nat.zero_add _).symm
  | case3 u hu ih => rw [normalizeLineEnds, weigh_cons, weigh_cons, ih]; exacts [rfl, hu]
  | case4 c u hcrlf hcr ih => rw [normalizeLineEnds, weigh_cons, weigh_cons, ih]; exacts [hcrlf, hcr]

theorem weigh_trim_le (text : List Char) : weigh (trim text) ≤ weigh text := by
  have hsub : (trim text).Sublist text := by
    rw [trim_eq]
    exact (List.rdropWhile_prefix isJsBlank _).sublist.trans (List.dropWhile_sublist isJsBlank)
  exact (hsub.map weight).sum_le_sum fun _ _ => Nat.zero_le _

@[simp] theorem weigh_replicate (n : ℕ) : weigh (List.replicate n ' ') = 0 := by
  induction n with
  | zero => rfl
  | succ n ih =>
    rw [List.replicate_succ, weigh_cons, ih]
    rfl

theorem weight_lt_reference {body : List Char} {c : Char} (h : referenced body = some c) (u : List Char) :
    weight c + weigh u < weigh ('&' :: (body ++ ';' :: u)) := by
  have hbody : 0 < weigh body := by
    unfold referenced at h
    split at h
    case h_8 => cases h
    all_goals
      rw [weigh_cons]
      exact Nat.add_pos_left (by decide) _
  have hc := weight_le c
  have hamp : weight '&' = 1 := rfl
  have hsemi : weight ';' = 1 := rfl
  simp only [weigh_cons, weigh_append, hamp, hsemi]
  omega

/-! ## What is read weighs no more than the text -/

/-- A value weighs no more than what it is read from, and as much only if it stands there as it is. -/
theorem attValue_weigh {q : Char} {u value rest : List Char} (h : AttValue q u value rest)
    (hq : isBlank q = false) :
    weigh rest + weigh value + weight q ≤ weigh u ∧
      (weigh u = weigh rest + weigh value + weight q →
        ∀ c ∈ value, c ≠ q ∧ c ∉ ['<', '&', '\t', '\n', '\r']) := by
  induction h with
  | stop =>
    rw [weigh_cons, weigh_nil, Nat.add_zero, Nat.add_comm]
    exact ⟨Nat.le_refl _, fun _ => List.forall_mem_nil _⟩
  | @char c u value rest hne hc _ ih =>
    have hself : weight (if isBlank c then ' ' else c) = weight c := by
      split_ifs with hblank
      · exact (weight_of_isBlank hblank).symm
      · rfl
    have hplain : (if isBlank c then ' ' else c) ≠ q ∧
        (if isBlank c then ' ' else c) ∉ ['<', '&', '\t', '\n', '\r'] := by
      simp only [isData, Bool.and_eq_true, decide_eq_true_eq] at hc
      split_ifs with hblank
      · refine ⟨?_, by decide⟩
        rintro rfl
        cases hq
      · simp only [isBlank, Bool.or_eq_true, decide_eq_true_eq, not_or] at hblank
        simp [hne, hc, hblank]
    rw [weigh_cons, weigh_cons, hself]
    exact ⟨by omega, fun heq => List.forall_mem_cons.mpr ⟨hplain, ih.2 (by omega)⟩⟩
  | @reference body c u value rest _ hc _ ih =>
    have hless := weight_lt_reference hc u
    rw [weigh_cons c value]
    exact ⟨by omega, fun heq => by omega⟩

theorem tagTail_weigh {u rest : List Char} {attributes : List (List Char × List Char)} {whole : Bool}
    (h : TagTail u attributes whole rest) :
    weigh rest + weigh (attributes.flatMap formatAttribute) + (if whole then 2 else 1) ≤ weigh u ∧
      (weigh u = weigh rest + weigh (attributes.flatMap formatAttribute) + (if whole then 2 else 1) →
        ∀ a ∈ attributes, PlainValue a.2) := by
  induction h with
  | close h =>
    rw [weigh_of_skip h, weigh_cons, show weight '>' = 1 from rfl, Nat.add_comm]
    exact ⟨Nat.le_refl _, fun _ => List.forall_mem_nil _⟩
  | selfClose h =>
    rw [weigh_of_skip h, weigh_cons, weigh_cons, show weight '>' = 1 from rfl, show weight '/' = 1 from rfl,
      ← Nat.add_assoc, Nat.add_comm]
    exact ⟨Nat.le_refl _, fun _ => List.forall_mem_nil _⟩
  | @attr u name v q w x value next attributes whole rest _ hu _ hv hw hq hvalue _ _ ih =>
    have hblank : isBlank q = false := by rcases hq with rfl | rfl <;> rfl
    obtain ⟨hle, hplain⟩ := attValue_weigh hvalue hblank
    have hformat : weigh (((name, value) :: attributes).flatMap formatAttribute) =
        weigh name + weigh value + 3 + weigh (attributes.flatMap formatAttribute) := by
      rw [List.flatMap_cons, formatAttribute]
      simp only [weigh_append, weigh_cons, weigh_nil, show weight ' ' = 0 from rfl,
        show weight '=' = 1 from rfl, show weight '"' = 1 from rfl]
      omega
    have htext : weigh u = weigh name + 1 + weight q + weigh x := by
      rw [weigh_of_skip hu, weigh_append, weigh_of_skip hv, weigh_cons, weigh_of_skip hw, weigh_cons,
        show weight '=' = 1 from rfl]
      omega
    have hquote : 1 ≤ weight q ∧ (weight q = 1 → q = '"') := by
      rcases hq with rfl | rfl <;> decide
    rw [hformat, htext]
    refine ⟨by omega, fun heq => List.forall_mem_cons.mpr ⟨fun c hc => ?_, ih.2 (by omega)⟩⟩
    obtain rfl := hquote.2 (by omega)
    have := hplain (by omega) c hc
    simp only [List.mem_cons, List.not_mem_nil, or_false, not_or] at this ⊢
    tauto

/-! ## The lines of a document -/

/-- The lines that are written of the elements among the nodes. -/
def lines (nodes : Nodes) (depth : ℕ) : List Char :=
  (childrenToNodes nodes).flatMap fun child => '\n' :: formatXmlNode child depth

theorem weigh_lines_element (tag : List Char) (attributes : List (List Char × List Char))
    (kids more : Nodes) (depth : ℕ) :
    weigh (lines (.element tag attributes kids more) depth) =
      1 + weigh tag + weigh (attributes.flatMap formatAttribute) + weigh (afterAttributes tag kids depth) +
        weigh (lines more depth) := by
  rw [lines, childrenToNodes, List.flatMap_cons, formatXmlNode_nodeOf]
  simp only [List.cons_append, weigh_cons, weigh_append, weigh_replicate, lines,
    show weight '\n' = 0 from rfl, show weight '<' = 1 from rfl]
  omega

theorem weigh_afterAttributes (tag : List Char) (kids : Nodes) (depth : ℕ) :
    weigh (afterAttributes tag kids depth) =
      if childrenToNodes kids = [] then
        if trim (textContent kids) = [] then 2 else weigh (trim (textContent kids)) + weigh tag + 4
      else weigh (lines kids (depth + 1)) + weigh tag + 4 := by
  unfold afterAttributes lines
  split_ifs
  · rfl
  all_goals
    simp only [weigh_cons, weigh_append, weigh_replicate, weigh_nil, show weight '\n' = 0 from rfl,
      show weight '<' = 1 from rfl, show weight '>' = 1 from rfl, show weight '/' = 1 from rfl]
    omega

theorem childrenToNodes_eq_nil_iff {nodes : Nodes} :
    childrenToNodes nodes = [] ↔ childElements nodes = [] := by
  rw [childrenToNodes_eq, List.map_eq_nil_iff]

theorem textContent_eq_chars {nodes : Nodes} (h : childElements nodes = []) :
    textContent nodes = nodes.chars := by
  induction nodes with
  | nil => rfl
  | char c _ ih => exact congrArg (c :: ·) (ih h)
  | element => cases h

theorem weigh_afterAttributes_le (tag : List Char) (kids : Nodes) (depth : ℕ) :
    weigh (afterAttributes tag kids depth) ≤
      weigh (lines kids (depth + 1)) + weigh kids.chars + weigh tag + 4 := by
  rw [weigh_afterAttributes]
  split_ifs with hleaf
  · omega
  · rw [textContent_eq_chars (childrenToNodes_eq_nil_iff.mp hleaf)]
    have := weigh_trim_le kids.chars
    omega
  · omega

theorem PlainText.trim {text : List Char} (h : PlainText text) : PlainText (trim text) := by
  refine ⟨fun c hc => h.1 c (mem_of_mem_trim hc), fun hpart => h.2 (hpart.trans ?_)⟩
  rw [trim_eq]
  exact (List.rdropWhile_prefix isJsBlank _).isInfix.trans (List.dropWhile_suffix isJsBlank).isInfix

@[simp] theorem chars_foldr_char (body : List Char) (nodes : Nodes) :
    (body.foldr Nodes.char nodes).chars = body ++ nodes.chars := by
  induction body with
  | nil => rfl
  | cons c _ ih => exact congrArg (c :: ·) ih

@[simp] theorem lines_foldr_char (body : List Char) (nodes : Nodes) (depth : ℕ) :
    lines (body.foldr Nodes.char nodes) depth = lines nodes depth := by
  induction body with
  | nil => rfl
  | cons _ _ ih => exact ih

/-- The nodes stand in the text as they are. -/
def Verbatim (inside : Bool) (u : List Char) (nodes : Nodes) : Prop :=
  Plain nodes ∧ (inside = true → childElements nodes = [] → nodes.chars <+: u ∧ PlainText nodes.chars)

theorem verbatim_nil (inside : Bool) (u : List Char) : Verbatim inside u .nil :=
  ⟨trivial, fun _ _ => ⟨List.nil_prefix, List.forall_mem_nil _, by decide⟩⟩

/-- **What is read weighs no more than the text**, and stands in it as it is where it weighs as much. -/
theorem content_weigh {inside : Bool} {u rest : List Char} {nodes : Nodes}
    (h : Content inside u nodes rest) (depth : ℕ) :
    weigh rest + (if inside then 2 else 0) + weigh (lines nodes depth) + weigh nodes.chars ≤ weigh u ∧
      (weigh u = weigh rest + (if inside then 2 else 0) + weigh (lines nodes depth) + weigh nodes.chars →
        Verbatim inside u nodes) := by
  induction h generalizing depth with
  | finish => exact ⟨Nat.zero_le _, fun _ => verbatim_nil _ _⟩
  | @stop rest =>
    refine ⟨?_, fun _ => verbatim_nil _ _⟩
    have hlines : weigh (lines .nil depth) = 0 := rfl
    have hchars : weigh Nodes.nil.chars = 0 := rfl
    rw [weigh_cons, weigh_cons, show weight '<' = 1 from rfl, show weight '/' = 1 from rfl, hlines, hchars,
      if_pos rfl]
    omega
  | blank hc _ ih =>
    rw [weigh_cons, weight_of_isBlank hc, Nat.zero_add]
    exact ⟨(ih depth).1, fun heq => ⟨((ih depth).2 heq).1, fun h => by cases h⟩⟩
  | @char c u nodes rest hc hend _ ih =>
    obtain ⟨hle, hverbatim⟩ := ih depth
    rw [weigh_cons, Nodes.chars, weigh_cons]
    refine ⟨by simp only [lines, childrenToNodes] at hle ⊢; omega, fun heq => ?_⟩
    obtain ⟨hplain, hbare⟩ := hverbatim (by simp only [lines, childrenToNodes] at heq ⊢; omega)
    refine ⟨hplain, fun _ hnone => ?_⟩
    obtain ⟨hstart, hmarks, hmark⟩ := hbare rfl hnone
    simp only [isData, Bool.and_eq_true, decide_eq_true_eq] at hc
    refine ⟨List.cons_prefix_cons.mpr ⟨rfl, hstart⟩, List.forall_mem_cons.mpr ⟨by simp [hc], hmarks⟩, ?_⟩
    rw [Nodes.chars, List.infix_cons_iff, not_or]
    exact ⟨fun h => hend (h.trans (List.cons_prefix_cons.mpr ⟨rfl, hstart⟩)), hmark⟩
  | @reference body c u nodes rest _ hc _ ih =>
    have hless := weight_lt_reference hc u
    have hle := (ih depth).1
    rw [Nodes.chars, weigh_cons c nodes.chars]
    simp only [lines, childrenToNodes] at hle ⊢
    exact ⟨by omega, fun heq => by omega⟩
  | cdata _ _ _ ih =>
    have hle := (ih depth).1
    rw [chars_foldr_char, lines_foldr_char]
    simp only [weigh_cons, weigh_append, show weight '<' = 1 from rfl] at hle ⊢
    exact ⟨by omega, fun heq => by omega⟩
  | comment _ _ _ ih | instruction _ _ _ _ ih =>
    have hle := (ih depth).1
    simp only [weigh_cons, show weight '<' = 1 from rfl, weigh_append] at hle ⊢
    exact ⟨by omega, fun heq => by omega⟩
  | @element inside tag v attributes w kids x y more rest _ htail _ hx _ ihkids ih =>
    obtain ⟨hle, hverbatim⟩ := ih depth
    obtain ⟨hkids, hinner⟩ := ihkids (depth + 1)
    obtain ⟨htag, hvalues⟩ := tagTail_weigh htail
    have hafter := weigh_afterAttributes_le tag kids depth
    rw [weigh_append, weigh_of_skip hx, weigh_cons, show weight '>' = 1 from rfl] at hkids hinner
    rw [weigh_cons, weigh_append, show weight '<' = 1 from rfl, weigh_lines_element, Nodes.chars]
    simp only [if_true, Bool.false_eq_true, if_false] at htag hvalues hkids hinner
    refine ⟨by omega, fun heq => ?_⟩
    obtain ⟨hplain, hbare⟩ := hinner (by omega)
    refine ⟨⟨hvalues (by omega), fun hnone => ?_, hplain, (hverbatim (by omega)).1⟩,
      fun _ hnone => by cases hnone⟩
    rw [textContent_eq_chars hnone]
    exact (hbare rfl hnone).2.trim
  | @whole inside tag v attributes w more rest _ htail _ ih =>
    obtain ⟨hle, hverbatim⟩ := ih depth
    obtain ⟨htag, hvalues⟩ := tagTail_weigh htail
    have hinner : weigh (afterAttributes tag .nil depth) = 2 := rfl
    rw [weigh_cons, weigh_append, show weight '<' = 1 from rfl, weigh_lines_element, hinner, Nodes.chars]
    simp only [if_true] at htag hvalues
    refine ⟨by omega, fun heq => ⟨⟨hvalues (by omega), fun _ => ?_, trivial, (hverbatim (by omega)).1⟩,
      fun _ hnone => by cases hnone⟩⟩
    exact ⟨List.forall_mem_nil _, by decide⟩

/-! ## Which documents are written as themselves -/

theorem exists_of_childrenToNodes {nodes : Nodes} {child : XmlElementNode} {children : List XmlElementNode}
    (h : childrenToNodes nodes = child :: children) :
    ∃ tag attributes kids more, child = nodeOf tag attributes kids (childrenToNodes kids) ∧
      childrenToNodes more = children ∧ (Plain nodes → Plain (.element tag attributes kids more)) := by
  induction nodes with
  | nil => cases h
  | char _ _ ih => exact ih h
  | element tag attributes kids more =>
    cases h
    exact ⟨tag, attributes, kids, more, rfl, rfl, id⟩

theorem plain_of_childrenToNodes {nodes other : Nodes} (h : childrenToNodes nodes = childrenToNodes other)
    (hplain : Plain nodes) : Plain other := by
  induction other generalizing nodes with
  | nil => trivial
  | char _ _ ih => exact ih h hplain
  | element tag attributes kids more ihkids ih =>
    obtain ⟨tag', attributes', kids', more', hnode, hmore, himp⟩ := exists_of_childrenToNodes h
    obtain ⟨hvalues, htext, hkids, hlast⟩ := himp hplain
    simp only [nodeOf, XmlElementNode.mk.injEq] at hnode
    obtain ⟨rfl, rfl, hchildren, hcontent⟩ := hnode
    refine ⟨hvalues, fun hnone => ?_, ihkids hchildren.symm hkids, ih hmore hlast⟩
    have hnone' := childrenToNodes_eq_nil_iff.mpr hnone
    rw [hnone'] at hchildren hcontent
    rw [← hchildren] at hcontent
    have heq : trim (textContent kids) = trim (textContent kids') := by
      simp only [List.isEmpty_nil, if_true, orNull] at hcontent
      split_ifs at hcontent with hempty hempty'
      · rw [hempty, hempty']
      · exact Option.some.inj hcontent
    rw [heq]
    exact htext (childrenToNodes_eq_nil_iff.mp hchildren.symm)

/-- Where a written document is read back, nothing in it is markup where it is written. -/
theorem plain_of_document {root written : Element}
    (h : Document (normalizeLineEnds (formatXmlNode (elementToNode root) 0)) written)
    (htree : elementToNode written = elementToNode root) : Plain root.nodes := by
  have hnodes : childrenToNodes written.nodes = childrenToNodes root.nodes := congrArg (fun n => [n]) htree
  refine plain_of_childrenToNodes hnodes ((content_weigh h 0).2 ?_).1
  rw [weigh_normalizeLineEnds, lines, hnodes, Element.nodes]
  simp [childrenToNodes, elementToNode, Element.nodes, Nodes.chars, weight, isBlank]

/-- **When a written document is read back**: with a standard parser, of every text that the viewer takes,
what is written of its tree is read as the same tree exactly when no attribute value in the document holds
`<`, `&`, `"`, a tab or a line end and no text that is kept holds `<`, `&`, a carriage return or the end of
a character data section. -/
theorem formatXmlNode_reparses_iff {named : Nodes → Prop} {parseFromString : List Char → Option Element}
    (hparse : StandardParser named parseFromString) {text : List Char} {root : Element}
    {node : XmlElementNode} (hroot : parseFromString text = some root)
    (hnode : tryParseXml parseFromString text = some node) :
    tryParseXml parseFromString (formatXmlNode node 0) = some node ↔ Plain root.nodes := by
  obtain ⟨hwf, hnamed⟩ := hparse.wellFormed hroot
  rw [tryParseXml] at hnode
  split_ifs at hnode with htrim
  rw [hroot] at hnode
  simp only at hnode
  split_ifs at hnode with hselects
  obtain rfl := Option.some.inj hnode
  refine ⟨fun h => ?_, tryParseXml_format hparse hwf hnamed (Bool.not_eq_true _ ▸ hselects)⟩
  obtain ⟨written, hdocument, -, -, htree⟩ := (tryParseXml_format_iff hparse hwf).mp h
  exact plain_of_document hdocument htree

theorem grammarParser_letter {body : List Char} {nodes : Nodes}
    (h : Content true (body ++ ['<', '/', 'a', '>']) nodes ['a', '>']) (hbody : '\r' ∉ body) :
    grammarParser ('<' :: 'a' :: '>' :: (body ++ ['<', '/', 'a', '>'])) = some ⟨['a'], [], nodes⟩ := by
  have hname : IsName ['a'] := ⟨'a', [], rfl, by decide, List.forall_mem_nil _⟩
  refine (standardParser_grammar.document ⟨'a', _, rfl, by decide⟩).mpr ⟨?_, trivial⟩
  rw [normalizeLineEnds_eq_self (by simpa using hbody)]
  exact Content.element (v := '>' :: (body ++ ['<', '/', 'a', '>'])) (x := ['>']) hname (.close rfl) h rfl
    .finish

/-- The reference in `<a>&amp;</a>` is written as a lone `&`. -/
theorem ampersand_not_reparsed : ∃ node,
    tryParseXml grammarParser ['<', 'a', '>', '&', 'a', 'm', 'p', ';', '<', '/', 'a', '>'] = some node ∧
      tryParseXml grammarParser (formatXmlNode node 0) ≠ some node := by
  have hread : Content true (['&', 'a', 'm', 'p', ';'] ++ ['<', '/', 'a', '>']) (.char '&' .nil)
      ['a', '>'] :=
    @Content.reference ['a', 'm', 'p'] _ _ _ _ (by decide) rfl .stop
  have hroot := grammarParser_letter hread (by decide)
  have hwf := (standardParser_grammar.wellFormed hroot).1
  refine ⟨elementToNode ⟨['a'], [], .char '&' .nil⟩, ?_, fun h => ?_⟩
  · rw [tryParseXml, if_neg (by decide)]
    simp only [List.cons_append, List.nil_append] at hroot
    rw [hroot]
    rfl
  · obtain ⟨written, hdocument, -, -, htree⟩ := (tryParseXml_format_iff standardParser_grammar hwf).mp h
    obtain ⟨-, htext, -⟩ := plain_of_document hdocument htree
    have hmarks := (htext rfl).1 '&' (by decide)
    exact hmarks (by decide)

/-- The document `<a x="1"><b>c</b></a>`. -/
def nestedText : List Char :=
  ['<', 'a', ' ', 'x', '=', '"', '1', '"', '>', '<', 'b', '>', 'c', '<', '/', 'b', '>', '<', '/', 'a', '>']

/-- The element that it is. -/
def nestedRoot : Element := ⟨['a'], [(['x'], ['1'])], .element ['b'] [] (.char 'c' .nil) .nil⟩

theorem grammarParser_nested : grammarParser nestedText = some nestedRoot := by
  have ha : IsName ['a'] := ⟨'a', [], rfl, by decide, List.forall_mem_nil _⟩
  have hb : IsName ['b'] := ⟨'b', [], rfl, by decide, List.forall_mem_nil _⟩
  have hx : IsName ['x'] := ⟨'x', [], rfl, by decide, List.forall_mem_nil _⟩
  have hvalue : AttValue '"' ('1' :: '"' :: nestedText.drop 8) ['1'] (nestedText.drop 8) :=
    .char (by decide) (by decide) .stop
  have htail : TagTail (nestedText.drop 2) [(['x'], ['1'])] false (nestedText.drop 9) :=
    .attr (by decide) rfl hx rfl rfl (.inl rfl) hvalue (.close rfl) List.not_mem_nil
  have hletter : Content true (nestedText.drop 12) (.char 'c' .nil) (['b'] ++ nestedText.drop 16) :=
    .char (by decide) (by decide) .stop
  have hkids : Content true (nestedText.drop 9) nestedRoot.childNodes (['a'] ++ ['>']) :=
    .element (v := nestedText.drop 11) hb (.close rfl) hletter rfl .stop
  refine (standardParser_grammar.document ⟨'a', _, rfl, by decide⟩).mpr ⟨?_, trivial⟩
  rw [normalizeLineEnds_eq_self (by decide)]
  exact .element (v := nestedText.drop 2) ha htail hkids rfl .finish

theorem nested_reparsed : tryParseXml grammarParser (formatXmlNode (elementToNode nestedRoot) 0) =
    some (elementToNode nestedRoot) := by
  have htrim : trim (textContent (.char 'c' .nil)) = ['c'] := by decide
  have hplain : PlainText (trim (textContent (.char 'c' .nil))) := by
    rw [htrim]
    exact ⟨List.forall_mem_singleton.mpr (by decide), by decide⟩
  refine (formatXmlNode_reparses_iff standardParser_grammar grammarParser_nested ?_).mpr
    ⟨List.forall_mem_singleton.mpr (by simp [PlainValue]), nofun,
      ⟨List.forall_mem_nil _, fun _ => hplain, trivial, trivial⟩, trivial⟩
  rw [tryParseXml, if_neg (by decide), grammarParser_nested]
  rfl

end OffsetExplorer.PayloadViewer
