import OffsetExplorer.Lib.Xml
import OffsetExplorer.Text

/-!
# A payload as XML

The viewer reads a payload into a tree of elements and writes the tree as indented text. It writes the
characters as they are in the tree, where no reference stands for them any more.

* `tryParseXml`, `formatXmlNode`: reading and writing.
* `Plain`: no character of the tree is markup where it is written.
* **`content_format`**: what is written of plain nodes is read as the same tree.
-/

namespace OffsetExplorer.PayloadViewer

open Xml

/-! ## Reading -/

/-- An element of the tree; only an element without elements in it has a text. -/
inductive XmlElementNode where
  | mk (tag : List Char) (attributes : List (List Char × List Char)) (children : List XmlElementNode)
      (text : Option (List Char))

/-- `String.prototype.trim`. -/
def trim (text : List Char) : List Char := (jsTrim (String.ofList text)).toList

/-- `textContent`: all characters, those of the elements within among them. -/
def textContent : Nodes → List Char
  | .nil => []
  | .char c more => c :: textContent more
  | .element _ _ kids more => textContent kids ++ textContent more

/-- `children`: the elements alone. -/
def childElements : Nodes → List Element
  | .nil => []
  | .char _ more => childElements more
  | .element tag attributes kids more => ⟨tag, attributes, kids⟩ :: childElements more

/-- A text that is there and not empty. -/
def orNull (text : List Char) : Option (List Char) := if text = [] then none else some text

/-- The element with the nodes in it, of which `children` is what the elements among them have become. -/
def nodeOf (tag : List Char) (attributes : List (List Char × List Char)) (childNodes : Nodes)
    (children : List XmlElementNode) : XmlElementNode :=
  .mk tag attributes children (if children.isEmpty then orNull (trim (textContent childNodes)) else none)

/-- `childElements.map(elementToNode)`. -/
def childrenToNodes : Nodes → List XmlElementNode
  | .nil => []
  | .char _ more => childrenToNodes more
  | .element tag attributes kids more =>
    nodeOf tag attributes kids (childrenToNodes kids) :: childrenToNodes more

/-- The node of an element and of all elements in it. -/
def elementToNode (el : Element) : XmlElementNode :=
  nodeOf el.tagName el.attributes el.childNodes (childrenToNodes el.childNodes)

theorem childrenToNodes_eq (nodes : Nodes) :
    childrenToNodes nodes = (childElements nodes).map elementToNode := by
  induction nodes with
  | nil => rfl
  | char _ _ ih => exact ih
  | element _ _ _ _ _ ih => rw [childrenToNodes, ih, childElements, List.map_cons, elementToNode]

/-- A name without its prefix. -/
def localName (name : List Char) : List Char :=
  match name.dropWhile (· ≠ ':') with
  | _ :: rest => rest
  | [] => name

/-- `querySelector`: some element has the local name. -/
def selects (name : List Char) : Nodes → Bool
  | .nil => false
  | .char _ more => selects name more
  | .element tag _ kids more => localName tag = name || selects name kids || selects name more

/-- A text that is no XML document is `undefined`, and so is one in which an error is reported. -/
def tryParseXml (parseFromString : List Char → Option Element) (text : List Char) :
    Option XmlElementNode :=
  if trim text = [] then none
  else match parseFromString text with
    | none => none
    | some root => if selects "parsererror".toList root.nodes then none else some (elementToNode root)

/-! ## Writing -/

/-- An attribute as the viewer writes it: nothing is escaped. -/
def formatAttribute : List Char × List Char → List Char
  | (key, value) => ' ' :: key ++ '=' :: '"' :: value ++ ['"']

mutual

/-- A node as the viewer writes it, with two blanks of indentation for each level. -/
def formatXmlNode : XmlElementNode → ℕ → List Char
  | .mk tag attributes children text, depth =>
    let indent := List.replicate (2 * depth) ' '
    let attrs := attributes.flatMap formatAttribute
    if children.isEmpty then
      -- no text and an empty one are the same to the test
      if text.getD [] ≠ [] then
        indent ++ '<' :: tag ++ attrs ++ '>' :: text.getD [] ++ '<' :: '/' :: tag ++ ['>']
      else indent ++ '<' :: tag ++ attrs ++ ['/', '>']
    else
      indent ++ '<' :: tag ++ attrs ++ ['>', '\n'] ++
        ['\n'].intercalate (formatXmlNodes children (depth + 1)) ++ '\n' :: indent ++
        '<' :: '/' :: tag ++ ['>']

/-- `children.map((child) => formatXmlNode(child, depth))`. -/
def formatXmlNodes : List XmlElementNode → ℕ → List (List Char)
  | [], _ => []
  | child :: children, depth => formatXmlNode child depth :: formatXmlNodes children depth

end

/-! ## What is written is read back -/

/-- The value of an attribute is between two quotes what it is in the tree. -/
def PlainValue (value : List Char) : Prop := ∀ c ∈ value, c ∉ ['<', '&', '"', '\t', '\n', '\r']

/-- A text is between two tags what it is in the tree. -/
def PlainText (text : List Char) : Prop :=
  (∀ c ∈ text, c ∉ ['<', '&', '\r']) ∧ ¬ [']', ']', '>'] <:+: text

/-- The values of attributes are plain, and the texts of elements without elements in them. -/
def Plain : Nodes → Prop
  | .nil => True
  | .char _ more => Plain more
  | .element _ attributes kids more => (∀ a ∈ attributes, PlainValue a.2) ∧
      (childElements kids = [] → PlainText (trim (textContent kids))) ∧ Plain kids ∧ Plain more

/-- What is written of an element after its attributes. -/
def afterAttributes (tag : List Char) (kids : Nodes) (depth : ℕ) : List Char :=
  if childrenToNodes kids = [] then
    if trim (textContent kids) = [] then ['/', '>']
    else '>' :: (trim (textContent kids) ++ '<' :: '/' :: (tag ++ ['>']))
  else
    '>' :: ((childrenToNodes kids).flatMap (fun child => '\n' :: formatXmlNode child (depth + 1)) ++
      '\n' :: (List.replicate (2 * depth) ' ' ++ '<' :: '/' :: (tag ++ ['>'])))

theorem intercalate_cons {lines : List (List Char)} (h : lines ≠ []) :
    '\n' :: ['\n'].intercalate lines = lines.flatMap ('\n' :: ·) := by
  induction lines with
  | nil => exact absurd rfl h
  | cons line lines ih =>
    rcases lines with _ | ⟨next, lines⟩
    · simp
    · rw [List.intercalate_cons_cons, List.flatMap_cons, ← ih (List.cons_ne_nil next lines)]
      simp

theorem formatXmlNodes_eq (children : List XmlElementNode) (depth : ℕ) :
    formatXmlNodes children depth = children.map fun child => formatXmlNode child depth := by
  induction children with
  | nil => rw [formatXmlNodes, List.map_nil]
  | cons child children ih => rw [formatXmlNodes, ih, List.map_cons]

theorem formatXmlNode_nodeOf (tag : List Char) (attributes : List (List Char × List Char)) (kids : Nodes)
    (depth : ℕ) :
    formatXmlNode (nodeOf tag attributes kids (childrenToNodes kids)) depth =
      List.replicate (2 * depth) ' ' ++
        '<' :: (tag ++ (attributes.flatMap formatAttribute ++ afterAttributes tag kids depth)) := by
  rw [nodeOf, formatXmlNode, afterAttributes]
  by_cases hkids : childrenToNodes kids = []
  · rw [if_pos hkids, hkids]
    by_cases htext : trim (textContent kids) = []
    · simp [orNull, htext]
    · simp [orNull, htext]
  · have hlines : (childrenToNodes kids).map (fun child => formatXmlNode child (depth + 1)) ≠ [] := by
      simpa using hkids
    have hjoin := intercalate_cons hlines
    rw [List.flatMap_map] at hjoin
    simp [hkids, formatXmlNodes_eq, ← hjoin]

/-! ## Blanks around a text -/

/-- A blank for JavaScript, which counts the byte order mark. -/
def isJsBlank (c : Char) : Bool := isCommonBlank c || c.toNat = 0xFEFF

theorem trim_eq (text : List Char) : trim text = (text.dropWhile isJsBlank).rdropWhile isJsBlank := by
  rw [trim, jsTrim, toList_trimWhere, String.toList_ofList]
  rfl

theorem trim_trim (text : List Char) : trim (trim text) = trim text := by
  rw [trim, trim, String.ofList_toList]
  exact congrArg String.toList (trimWhere_trimWhere _ _)

theorem mem_of_mem_trim {text : List Char} {c : Char} (h : c ∈ trim text) : c ∈ text := by
  rw [trim_eq] at h
  exact List.dropWhile_subset isJsBlank ((List.rdropWhile_prefix isJsBlank _).subset h)

/-! ## What is written is read back -/

@[simp] theorem childrenToNodes_append (nodes after : Nodes) :
    childrenToNodes (nodes.append after) = childrenToNodes nodes ++ childrenToNodes after := by
  induction nodes with
  | nil => rfl
  | char _ _ ih => exact ih
  | element _ _ _ _ _ ih => simp [Nodes.append, childrenToNodes, ih]

@[simp] theorem childrenToNodes_ofChars (text : List Char) : childrenToNodes (.ofChars text) = [] := by
  induction text with
  | nil => rfl
  | cons _ _ ih => exact ih

@[simp] theorem textContent_ofChars (text : List Char) : textContent (.ofChars text) = text := by
  induction text with
  | nil => rfl
  | cons c _ ih => exact congrArg (c :: ·) ih

theorem textContent_isChar {nodes : Nodes} (h : nodes.WellFormed) :
    ∀ c ∈ textContent nodes, isChar c = true := by
  induction nodes with
  | nil => exact List.forall_mem_nil _
  | char c more ih => exact List.forall_mem_cons.mpr ⟨h.1, ih h.2⟩
  | element _ _ _ _ ihkids ih =>
    obtain ⟨-, -, -, hkids, hmore⟩ := h
    exact List.forall_mem_append.mpr ⟨ihkids hkids, ih hmore⟩

theorem markup_of_childrenToNodes {nodes : Nodes} (h : childrenToNodes nodes = []) :
    nodes.markup = .nil := by
  induction nodes with
  | nil => rfl
  | char _ _ ih => exact ih h
  | element => cases h

theorem attValue_plain {value : List Char} (hplain : PlainValue value)
    (hchars : ∀ c ∈ value, isChar c = true) (rest : List Char) :
    AttValue '"' (value ++ '"' :: rest) value rest := by
  induction value with
  | nil => exact .stop
  | cons c value ih =>
    obtain ⟨hc, hvalue⟩ := List.forall_mem_cons.mp hplain
    obtain ⟨hchar, hchars⟩ := List.forall_mem_cons.mp hchars
    simp only [List.mem_cons, List.not_mem_nil, or_false, not_or] at hc
    have hself : (if isBlank c then ' ' else c) = c := by
      split_ifs with hblank
      · simp only [isBlank, Bool.or_eq_true, decide_eq_true_eq] at hblank
        tauto
      · rfl
    have hread := AttValue.char hc.2.2.1 (by simp [isData, hchar, hc]) (ih hvalue hchars)
    rw [hself] at hread
    exact hread

theorem skip_name {name : List Char} (hname : IsName name) (v : List Char) :
    skip (name ++ v) = name ++ v := by
  obtain ⟨c, rest, rfl, hc, -⟩ := hname
  refine List.dropWhile_cons_of_neg fun hblank => ?_
  have := isNameChar_of_isBlank hblank
  rw [isNameChar_of_isNameStart hc] at this
  cases this

theorem tagTail_format {attributes : List (List Char × List Char)} {v rest : List Char} {whole : Bool}
    (hnew : (attributes.map Prod.fst).Nodup)
    (hnames : ∀ a ∈ attributes, IsName a.1 ∧ ∀ c ∈ a.2, isChar c = true)
    (hplain : ∀ a ∈ attributes, PlainValue a.2) (h : TagTail v [] whole rest) :
    TagTail (attributes.flatMap formatAttribute ++ v) attributes whole rest := by
  induction attributes with
  | nil => exact h
  | cons a attributes ih =>
    obtain ⟨key, value⟩ := a
    obtain ⟨ha, hnames⟩ := List.forall_mem_cons.mp hnames
    obtain ⟨hvalue, hplain⟩ := List.forall_mem_cons.mp hplain
    obtain ⟨hkey, hnew⟩ := List.nodup_cons.mp hnew
    have htext : (((key, value) :: attributes).flatMap formatAttribute ++ v) =
        ' ' :: (key ++ '=' :: '"' :: (value ++ '"' :: (attributes.flatMap formatAttribute ++ v))) := by
      simp [formatAttribute]
    rw [htext]
    refine .attr ?_ (skip_name ha.1 _) ha.1 rfl rfl (.inl rfl) (attValue_plain hvalue ha.2 _)
      (ih hnew hnames hplain) hkey
    intro hskip
    have hlength := List.length_dropWhile_le isBlank
      (key ++ '=' :: '"' :: (value ++ '"' :: (attributes.flatMap formatAttribute ++ v)))
    have := congrArg List.length hskip
    rw [skip, List.dropWhile_cons_of_pos (by decide)] at this
    simp only [List.length_cons] at this hlength
    omega

theorem content_text {text v rest : List Char} {nodes : Nodes}
    (hdata : ∀ c ∈ text, isData c = true) (hend : ¬ [']', ']', '>'] <:+: text)
    (h : Content true ('<' :: v) nodes rest) :
    Content true (text ++ '<' :: v) ((Nodes.ofChars text).append nodes) rest := by
  induction text with
  | nil => exact h
  | cons c text ih =>
    obtain ⟨hc, hdata⟩ := List.forall_mem_cons.mp hdata
    refine .char hc ?_ (ih hdata fun hpart => hend (hpart.trans (List.suffix_cons c text).isInfix))
    intro hstart
    refine hend (List.IsPrefix.isInfix ?_)
    match text, hstart with
    | [], hstart => simp [List.cons_prefix_cons] at hstart
    | [_], hstart => simp [List.cons_prefix_cons] at hstart
    | _ :: _ :: _, hstart => simpa [List.cons_prefix_cons] using hstart

theorem content_indent {v rest : List Char} {nodes : Nodes} (width : ℕ)
    (h : Content true ('<' :: v) nodes rest) :
    Content true ('\n' :: (List.replicate width ' ' ++ '<' :: v))
      ((Nodes.ofChars ('\n' :: List.replicate width ' ')).append nodes) rest := by
  have hblank : ∀ c ∈ '\n' :: List.replicate width ' ', c = '\n' ∨ c = ' ' := by
    simp [List.mem_replicate]
  rw [← List.cons_append]
  refine content_text (fun c hc => ?_) (fun hpart => ?_) h
  · rcases hblank c hc with rfl | rfl <;> decide
  · have := hblank ']' (hpart.subset List.mem_cons_self)
    simp at this

/-- The lines of the elements among the nodes are read as the same elements. -/
def ReadBack (nodes : Nodes) (depth : ℕ) : Prop :=
  ∃ lines : Nodes, childrenToNodes lines = childrenToNodes nodes ∧ lines.markup = nodes.markup ∧
    ∀ {v rest : List Char} {after : Nodes}, Content true v after rest →
      Content true ((childrenToNodes nodes).flatMap (fun child => '\n' :: formatXmlNode child depth) ++ v)
        (lines.append after) rest

theorem content_element {tag : List Char} {attributes : List (List Char × List Char)} {kids more : Nodes}
    (hwf : (Nodes.element tag attributes kids more).WellFormed)
    (hplain : Plain (.element tag attributes kids more)) (depth : ℕ) (hkids : ReadBack kids (depth + 1)) :
    ∃ inner : Nodes,
      nodeOf tag attributes inner (childrenToNodes inner) =
        nodeOf tag attributes kids (childrenToNodes kids) ∧
      inner.markup = kids.markup ∧
      ∀ {inside : Bool} {v rest : List Char} {after : Nodes}, Content inside v after rest →
        Content inside
          ('<' :: (tag ++ (attributes.flatMap formatAttribute ++ afterAttributes tag kids depth)) ++ v)
          (.element tag attributes inner after) rest := by
  obtain ⟨htag, hnew, hnames, hwf, -⟩ := hwf
  obtain ⟨hvalues, htext, -, -⟩ := hplain
  unfold afterAttributes
  by_cases hleaf : childrenToNodes kids = []
  · have hplain : PlainText (trim (textContent kids)) := by
      refine htext ?_
      rw [childrenToNodes_eq] at hleaf
      exact List.map_eq_nil_iff.mp hleaf
    have hdata : ∀ c ∈ trim (textContent kids), isData c = true := by
      intro c hc
      have := hplain.1 c hc
      simp only [List.mem_cons, List.not_mem_nil, or_false, not_or] at this
      simp [isData, textContent_isChar hwf c (mem_of_mem_trim hc), this]
    rw [if_pos hleaf]
    by_cases hempty : trim (textContent kids) = []
    · refine ⟨.nil, ?_, (markup_of_childrenToNodes hleaf).symm, fun {inside v rest after} h => ?_⟩
      · simp [nodeOf, hleaf, hempty, childrenToNodes, textContent, trim_eq]
      · rw [if_pos hempty]
        have htail : TagTail (attributes.flatMap formatAttribute ++ '/' :: '>' :: v) attributes true v :=
          tagTail_format hnew hnames hvalues (.selfClose rfl)
        simpa using Content.whole htag htail h
    · refine ⟨.ofChars (trim (textContent kids)), ?_, ?_, fun {inside v rest after} h => ?_⟩
      · simp [nodeOf, hleaf, trim_trim]
      · rw [Nodes.markup_ofChars, markup_of_childrenToNodes hleaf]
      · rw [if_neg hempty]
        have htail : TagTail (attributes.flatMap formatAttribute ++ '>' ::
            (trim (textContent kids) ++ '<' :: '/' :: (tag ++ '>' :: v))) attributes false
            (trim (textContent kids) ++ '<' :: '/' :: (tag ++ '>' :: v)) :=
          tagTail_format hnew hnames hvalues (.close rfl)
        have hinner := content_text hdata hplain.2 (@Content.stop (tag ++ '>' :: v))
        rw [Nodes.append_nil] at hinner
        simpa using Content.element htag htail hinner rfl h
  · obtain ⟨lines, hlines, hmarkup, hread⟩ := hkids
    refine ⟨lines.append (.ofChars ('\n' :: List.replicate (2 * depth) ' ')), ?_, ?_,
      fun {inside v rest after} h => ?_⟩
    · simp [nodeOf, hlines, hleaf]
    · rw [Nodes.markup_append, Nodes.markup_ofChars, Nodes.append_nil, hmarkup]
    · rw [if_neg hleaf]
      have hinner := hread (content_indent (2 * depth) (@Content.stop (tag ++ '>' :: v)))
      rw [Nodes.append_nil] at hinner
      have htail := fun w => tagTail_format hnew hnames hvalues (@TagTail.close ('>' :: w) w rfl)
      simpa using Content.element htag (htail _) hinner rfl h

/-- **What is written is read back**, at any depth. -/
theorem readBack {nodes : Nodes} (hwf : nodes.WellFormed) (hplain : Plain nodes) (depth : ℕ) :
    ReadBack nodes depth := by
  induction nodes generalizing depth with
  | nil => exact ⟨.nil, rfl, rfl, fun h => h⟩
  | char _ _ ih => exact ih hwf.2 hplain depth
  | element tag attributes kids more ihkids ih =>
    obtain ⟨inner, hinner, hmarkup, hread⟩ :=
      content_element hwf hplain depth (ihkids hwf.2.2.2.1 hplain.2.2.1 (depth + 1))
    obtain ⟨lines, hlines, hmore, hlast⟩ := ih hwf.2.2.2.2 hplain.2.2.2 depth
    refine ⟨(Nodes.ofChars ('\n' :: List.replicate (2 * depth) ' ')).append
      (.element tag attributes inner lines), ?_, ?_, fun {v rest after} h => ?_⟩
    · simp [childrenToNodes, hinner, hlines]
    · simp [Nodes.markup_append, Nodes.markup_ofChars, Nodes.append, Nodes.markup, hmarkup, hmore]
    · have hline := content_indent (2 * depth) (hread (hlast h))
      simpa [childrenToNodes, formatXmlNode_nodeOf, Nodes.append] using hline

theorem document_format {root : Element} (hwf : root.nodes.WellFormed) (hplain : Plain root.nodes) :
    ∃ written, Document (formatXmlNode (elementToNode root) 0) written ∧
      elementToNode written = elementToNode root ∧ written.nodes.markup = root.nodes.markup := by
  obtain ⟨inner, hinner, hmarkup, hread⟩ :=
    content_element hwf hplain 0 (readBack hwf.2.2.2.1 hplain.2.2.1 1)
  refine ⟨⟨root.tagName, root.attributes, inner⟩, ?_, hinner, ?_⟩
  · simpa [Document, elementToNode, formatXmlNode_nodeOf, Element.nodes] using hread .finish
  · simp [Element.nodes, Nodes.markup, hmarkup]

theorem return_notMem {tag : List Char} {attributes : List (List Char × List Char)} {kids more : Nodes}
    (hwf : (Nodes.element tag attributes kids more).WellFormed)
    (hplain : Plain (.element tag attributes kids more)) (depth : ℕ)
    (hkids : ∀ child ∈ childrenToNodes kids, '\r' ∉ formatXmlNode child (depth + 1)) :
    '\r' ∉ formatXmlNode (nodeOf tag attributes kids (childrenToNodes kids)) depth := by
  obtain ⟨htag, -, hnames, -, -⟩ := hwf
  obtain ⟨hvalues, htext, -, -⟩ := hplain
  have hname : ∀ {name : List Char}, IsName name → '\r' ∉ name := fun hname hmem =>
    absurd (hname.all '\r' hmem) (by decide)
  have hattributes : '\r' ∉ attributes.flatMap formatAttribute := by
    intro hmem
    obtain ⟨⟨key, value⟩, ha, hmem⟩ := List.mem_flatMap.mp hmem
    have hkey := hname (hnames _ ha).1
    have hvalue : '\r' ∉ value := fun hmem => hvalues _ ha '\r' hmem (by decide)
    simp [formatAttribute, hkey, hvalue] at hmem
  have hinner : '\r' ∉ afterAttributes tag kids depth := by
    unfold afterAttributes
    split_ifs with hleaf
    · decide
    · have hplain := (htext (List.map_eq_nil_iff.mp (childrenToNodes_eq kids ▸ hleaf))).1
      have hreturn : '\r' ∉ trim (textContent kids) := fun hmem => hplain '\r' hmem (by decide)
      simp [hname htag, hreturn]
    · simp [hname htag, List.mem_replicate]
      exact hkids
  rw [formatXmlNode_nodeOf]
  simp [hname htag, hattributes, hinner, List.mem_replicate]

theorem return_notMem_children {nodes : Nodes} (hwf : nodes.WellFormed) (hplain : Plain nodes) (depth : ℕ) :
    ∀ child ∈ childrenToNodes nodes, '\r' ∉ formatXmlNode child depth := by
  induction nodes generalizing depth with
  | nil => exact List.forall_mem_nil _
  | char _ _ ih => exact ih hwf.2 hplain depth
  | element tag attributes kids more ihkids ih =>
    exact List.forall_mem_cons.mpr
      ⟨return_notMem hwf hplain depth (ihkids hwf.2.2.2.1 hplain.2.2.1 (depth + 1)),
        ih hwf.2.2.2.2 hplain.2.2.2 depth⟩

theorem selects_markup (name : List Char) (nodes : Nodes) :
    selects name nodes.markup = selects name nodes := by
  induction nodes with
  | nil => rfl
  | char _ _ ih => exact ih
  | element _ _ _ _ ihkids ih => rw [Nodes.markup, selects, ihkids, ih, selects]

/-! ## What the viewer does with a text that is written -/

theorem formatXmlNode_starts {root : Element} (hwf : root.nodes.WellFormed) :
    StartsWithTag (formatXmlNode (elementToNode root) 0) ∧
      trim (formatXmlNode (elementToNode root) 0) ≠ [] := by
  obtain ⟨⟨c, rest, hname, hc, -⟩, -⟩ := hwf
  have hformat : ∃ v, formatXmlNode (elementToNode root) 0 = '<' :: c :: v := by
    refine ⟨rest ++ (root.attributes.flatMap formatAttribute ++
      afterAttributes root.tagName root.childNodes 0), ?_⟩
    rw [elementToNode, formatXmlNode_nodeOf, hname]
    rfl
  obtain ⟨v, hv⟩ := hformat
  refine ⟨⟨c, v, hv, hc⟩, ?_⟩
  rw [hv]
  refine List.ne_nil_of_mem (a := '<') (mem_trimWhere ?_ (by decide))
  simp

theorem tryParseXml_format_iff {named : Nodes → Prop} {parse : List Char → Option Element}
    (hparse : StandardParser named parse) {root : Element} (hwf : root.nodes.WellFormed)
    {node : XmlElementNode} :
    tryParseXml parse (formatXmlNode (elementToNode root) 0) = some node ↔
      ∃ written, Document (normalizeLineEnds (formatXmlNode (elementToNode root) 0)) written ∧
        named written.nodes.markup ∧ selects "parsererror".toList written.nodes = false ∧
        elementToNode written = node := by
  obtain ⟨htag, htrim⟩ := formatXmlNode_starts hwf
  rw [tryParseXml, if_neg htrim]
  constructor
  · intro h
    split at h
    · cases h
    · rename_i written hwritten
      obtain ⟨hdocument, hnamed⟩ := (hparse.document htag).mp hwritten
      split_ifs at h with hselects
      exact ⟨written, hdocument, hnamed, Bool.not_eq_true _ ▸ hselects, Option.some.inj h⟩
  · rintro ⟨written, hdocument, hnamed, hselects, rfl⟩
    rw [(hparse.document htag).mpr ⟨hdocument, hnamed⟩]
    exact if_neg (by rw [hselects]; exact Bool.false_ne_true)

/-- **A plain document is written as a text of the same tree.** -/
theorem tryParseXml_format {named : Nodes → Prop} {parse : List Char → Option Element}
    (hparse : StandardParser named parse) {root : Element} (hwf : root.nodes.WellFormed)
    (hnamed : named root.nodes.markup) (hselects : selects "parsererror".toList root.nodes = false)
    (hplain : Plain root.nodes) :
    tryParseXml parse (formatXmlNode (elementToNode root) 0) = some (elementToNode root) := by
  obtain ⟨written, hdocument, htree, hmarkup⟩ := document_format hwf hplain
  refine (tryParseXml_format_iff hparse hwf).mpr ⟨written, ?_, hmarkup ▸ hnamed, ?_, htree⟩
  · have hreturn := return_notMem_children hwf hplain 0 (elementToNode root) List.mem_cons_self
    rwa [normalizeLineEnds_eq_self hreturn]
  · rw [← selects_markup, hmarkup, selects_markup, hselects]

end OffsetExplorer.PayloadViewer
