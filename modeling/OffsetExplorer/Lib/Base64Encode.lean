import OffsetExplorer.Lib.Base64
import Mathlib.Data.List.TakeWhile
import Mathlib.Tactic.IntervalCases

/-!
# The encoder of base64

Three bytes are four symbols; a last group of one or two bytes is padded to four.

* `symbol`, `encode`: the symbol of a value, and the text of a list of bytes.
* **`decodeCanonical_encode`**: what was encoded is decoded, by both decoders.
* `take_encode`: a cut of the text after whole groups of symbols is a cut of the bytes.
* `length_encode`, `two_suffix_encode`, `one_suffix_encode`: how long a text is, and how it ends.
-/

namespace Base64

/-- The symbol with this value. -/
def symbol (n : ℕ) : Char :=
  if n < 26 then Char.ofNat (n + 65)
  else if n < 52 then Char.ofNat (n + 71)
  else if n < 62 then Char.ofNat (n - 4)
  else if n = 62 then '+'
  else '/'

/-- Three bytes at a time make four symbols. -/
def encode : List UInt8 → List Char
  | [] => []
  | [a] => [symbol (a.toNat / 4), symbol (a.toNat % 4 * 16), '=', '=']
  | [a, b] =>
    [symbol (a.toNat / 4), symbol (a.toNat % 4 * 16 + b.toNat / 16), symbol (b.toNat % 16 * 4), '=']
  | a :: b :: c :: rest =>
    symbol (a.toNat / 4) :: symbol (a.toNat % 4 * 16 + b.toNat / 16) ::
      symbol (b.toNat % 16 * 4 + c.toNat / 64) :: symbol (c.toNat % 64) :: encode rest

/-! ## One symbol -/

variable {n : ℕ} {data rest : List UInt8}

theorem sextet_symbol (h : n < 64) : sextet (symbol n) = some n := by
  interval_cases n <;> rfl

theorem symbol_ne_padding (h : n < 64) : symbol n ≠ '=' := by
  intro heq
  have hsextet := sextet_symbol h
  rw [heq] at hsextet
  cases hsextet

theorem isAsciiBlank_symbol (h : n < 64) : isAsciiBlank (symbol n) = false := by
  rw [← Bool.not_eq_true]
  intro hblank
  have hsextet := sextet_symbol h
  rw [sextet_eq_none_of_blank hblank] at hsextet
  cases hsextet

/-! ## The values of a list of bytes -/

/-- The values of the symbols, without the padding. -/
def split : List UInt8 → List ℕ
  | [] => []
  | [a] => [a.toNat / 4, a.toNat % 4 * 16]
  | [a, b] => [a.toNat / 4, a.toNat % 4 * 16 + b.toNat / 16, b.toNat % 16 * 4]
  | a :: b :: c :: rest =>
    a.toNat / 4 :: (a.toNat % 4 * 16 + b.toNat / 16) :: (b.toNat % 16 * 4 + c.toNat / 64) ::
      c.toNat % 64 :: split rest

/-- The padding of a list of bytes. -/
def padding : List UInt8 → List Char
  | [_] => ['=', '=']
  | [_, _] => ['=']
  | _ :: _ :: _ :: rest => padding rest
  | [] => []

theorem encode_eq (data : List UInt8) : encode data = (split data).map symbol ++ padding data := by
  fun_induction encode data with
  | case1 => rfl
  | case2 a => rfl
  | case3 a b => rfl
  | case4 a b c rest ih => rw [ih, split, padding]; rfl

theorem split_lt (data : List UInt8) : ∀ n ∈ split data, n < 64 := by
  fun_induction split data with
  | case1 => intro n hn; cases hn
  | case2 a =>
    have ha := a.toNat_lt
    simp only [List.mem_cons, List.not_mem_nil, or_false, forall_eq_or_imp, forall_eq]
    omega
  | case3 a b =>
    have ha := a.toNat_lt
    have hb := b.toNat_lt
    simp only [List.mem_cons, List.not_mem_nil, or_false, forall_eq_or_imp, forall_eq]
    omega
  | case4 a b c rest ih =>
    have ha := a.toNat_lt
    have hb := b.toNat_lt
    have hc := c.toNat_lt
    simp only [List.mem_cons, forall_eq_or_imp]
    exact ⟨by omega, by omega, by omega, by omega, ih⟩

theorem sextets_map_symbol {values : List ℕ} (h : ∀ n ∈ values, n < 64) :
    sextets (values.map symbol) = some values := by
  induction values with
  | nil => rfl
  | cons n values ih =>
    obtain ⟨hn, hvalues⟩ := List.forall_mem_cons.mp h
    have hrest := ih hvalues
    rw [sextets] at hrest ⊢
    rw [List.map_cons, List.mapM_cons, sextet_symbol hn, hrest]
    rfl

theorem bytes_split (data : List UInt8) : bytes (split data) = some data := by
  fun_induction split data with
  | case1 => rfl
  | case2 a =>
    have ha := a.toNat_lt
    rw [bytes, show a.toNat / 4 * 4 + a.toNat % 4 * 16 / 16 = a.toNat by omega, UInt8.ofNat_toNat]
  | case3 a b =>
    have ha := a.toNat_lt
    have hb := b.toNat_lt
    rw [bytes, show a.toNat / 4 * 4 + (a.toNat % 4 * 16 + b.toNat / 16) / 16 = a.toNat by omega,
      show (a.toNat % 4 * 16 + b.toNat / 16) % 16 * 16 + b.toNat % 16 * 4 / 4 = b.toNat by omega,
      UInt8.ofNat_toNat, UInt8.ofNat_toNat]
  | case4 a b c rest ih =>
    have ha := a.toNat_lt
    have hb := b.toNat_lt
    have hc := c.toNat_lt
    rw [bytes, ih, show a.toNat / 4 * 4 + (a.toNat % 4 * 16 + b.toNat / 16) / 16 = a.toNat by omega,
      show (a.toNat % 4 * 16 + b.toNat / 16) % 16 * 16 + (b.toNat % 16 * 4 + c.toNat / 64) / 4 =
        b.toNat by omega,
      show (b.toNat % 16 * 4 + c.toNat / 64) % 4 * 64 + c.toNat % 64 = c.toNat by omega,
      UInt8.ofNat_toNat, UInt8.ofNat_toNat, UInt8.ofNat_toNat]
    rfl

theorem spare_split (data : List UInt8) : spare (split data) = 0 := by
  fun_induction split data with
  | case1 => rfl
  | case2 a =>
    rw [spare]
    omega
  | case3 a b =>
    rw [spare]
    omega
  | case4 a b c rest ih => rw [spare, ih]

/-! ## The text and its padding -/

theorem length_encode (data : List UInt8) : (encode data).length = (data.length + 2) / 3 * 4 := by
  fun_induction encode data with
  | case1 => rfl
  | case2 a => simp only [List.length_cons, List.length_nil]
  | case3 a b => simp only [List.length_cons, List.length_nil]
  | case4 a b c rest ih =>
    simp only [List.length_cons, ih]
    omega

theorem padding_eq (data : List UInt8) : padding data = List.replicate ((3 - data.length % 3) % 3) '=' := by
  fun_induction padding data with
  | case1 a => rfl
  | case2 a b => rfl
  | case3 a b c rest ih =>
    rw [ih, List.length_cons, List.length_cons, List.length_cons,
      show (rest.length + 1 + 1 + 1) % 3 = rest.length % 3 by omega]
  | case4 => rfl

theorem reverse_encode (data : List UInt8) :
    (data.length % 3 = 0 ∧ encode data = (split data).map symbol ∧
      ∀ rest, (encode data).reverse ≠ '=' :: rest) ∨
    (data.length % 3 = 2 ∧ ∃ c rest, c ≠ '=' ∧ (split data).map symbol = (c :: rest).reverse ∧
      (encode data).reverse = '=' :: c :: rest) ∨
    (data.length % 3 = 1 ∧
      (encode data).reverse = '=' :: '=' :: ((split data).map symbol).reverse) := by
  have hlast : ∀ n ∈ (split data).reverse, symbol n ≠ '=' := fun n hn =>
    symbol_ne_padding (split_lt data n (List.mem_reverse.mp hn))
  have hnil : split data = [] → data = [] := fun h => by
    have hbytes := bytes_split data
    rw [h, bytes] at hbytes
    exact (Option.some.inj hbytes).symm
  have hencode := encode_eq data
  rw [padding_eq] at hencode
  have hcases : data.length % 3 = 0 ∨ data.length % 3 = 2 ∨ data.length % 3 = 1 := by omega
  rcases hcases with hmod | hmod | hmod
  · refine Or.inl ⟨hmod, ?_, fun rest h => ?_⟩
    · rw [hencode, hmod]
      exact List.append_nil _
    · rw [hencode, hmod, List.replicate_zero, List.append_nil, ← List.map_reverse] at h
      obtain ⟨n, values, hvalues, hn, -⟩ := List.map_eq_cons_iff.mp h
      exact hlast n (hvalues ▸ List.mem_cons_self) hn
  · refine Or.inr (Or.inl ⟨hmod, ?_⟩)
    rw [hmod] at hencode
    cases hvalues : (split data).reverse with
    | nil =>
      rw [hnil (List.reverse_eq_nil_iff.mp hvalues)] at hmod
      cases hmod
    | cons n values =>
      have hmap : (split data).map symbol = (symbol n :: values.map symbol).reverse := by
        rw [← List.map_cons, ← hvalues, List.map_reverse, List.reverse_reverse]
      refine ⟨symbol n, values.map symbol, hlast n (hvalues ▸ List.mem_cons_self), hmap, ?_⟩
      rw [hencode, hmap, List.reverse_append, List.reverse_reverse]
      rfl
  · refine Or.inr (Or.inr ⟨hmod, ?_⟩)
    rw [hencode, hmod, List.reverse_append]
    rfl

theorem stripPadding_encode (data : List UInt8) :
    stripPadding (encode data) = (split data).map symbol := by
  rw [stripPadding]
  rcases reverse_encode data with ⟨-, hself, hne⟩ | ⟨-, c, rest, hc, hmap, hreverse⟩ | ⟨-, hreverse⟩
  · split
    · rename_i heq
      exact absurd heq (hne _)
    · rename_i heq
      exact absurd heq (hne _)
    · exact hself
  · rw [hreverse, hmap]
    split
    · rename_i heq
      exact absurd (List.cons.inj (List.cons.inj heq).2).1 hc
    · rename_i heq
      rw [(List.cons.inj heq).2]
    · rename_i hone
      exact absurd rfl (hone _)
  · rw [hreverse]
    exact List.reverse_reverse _

theorem filter_encode (data : List UInt8) :
    ((encode data).filter fun c => !isAsciiBlank c) = encode data := by
  refine List.filter_eq_self.mpr fun c hc => ?_
  rw [encode_eq, padding_eq, List.mem_append, List.mem_map] at hc
  rcases hc with ⟨n, hn, rfl⟩ | hc
  · rw [isAsciiBlank_symbol (split_lt data n hn)]
    rfl
  · rw [(List.mem_replicate.mp hc).2]
    rfl

/-! ## Both decoders -/

/-- **What was encoded is decoded.** -/
theorem decodeCanonical_encode (data : List UInt8) : decodeCanonical (encode data) = some data := by
  have hlength : (encode data).length % 4 = 0 := by
    rw [length_encode]
    omega
  rw [decodeCanonical, if_pos hlength, stripPadding_encode, sextets_map_symbol (split_lt data),
    Option.bind_some, if_pos (spare_split data), bytes_split]

theorem canonical_encode (data : List UInt8) : Canonical (encode data) :=
  canonical_of_decodeCanonical (decodeCanonical_encode data)

@[simp] theorem decodeForgiving_encode (data : List UInt8) : decodeForgiving (encode data) = some data := by
  rw [decodeForgiving_of_canonical (canonical_encode data), decodeCanonical_encode]

theorem decodeForgiving_of_filter {text : List Char}
    (h : (text.filter fun c => !isAsciiBlank c) = encode data) : decodeForgiving text = some data := by
  have hself := decodeForgiving_encode data
  rw [decodeForgiving, filter_encode] at hself
  rw [decodeForgiving, h]
  exact hself

/-! ## Cuts -/

theorem take_encode (groups : ℕ) (data : List UInt8) :
    (encode data).take (groups * 4) = encode (data.take (groups * 3)) := by
  induction groups generalizing data with
  | zero => simp only [Nat.zero_mul, List.take_zero, encode]
  | succ groups ih =>
    rw [show (groups + 1) * 4 = groups * 4 + 4 by omega, show (groups + 1) * 3 = groups * 3 + 3 by omega]
    match data with
    | [] => simp only [encode, List.take_nil]
    | [a] => simp only [encode, List.take_succ_cons, List.take_nil]
    | [a, b] => simp only [encode, List.take_succ_cons, List.take_nil]
    | a :: b :: c :: rest => simp only [encode, List.take_succ_cons, ih]

/-! ## The end of a text -/

theorem two_suffix_encode (data : List UInt8) : ['=', '='] <:+ encode data ↔ data.length % 3 = 1 := by
  rw [← List.reverse_prefix, show ['=', '='].reverse = ['=', '='] from rfl]
  rcases reverse_encode data with ⟨hmod, -, hne⟩ | ⟨hmod, c, rest, hc, -, hreverse⟩ | ⟨hmod, hreverse⟩
  · refine iff_of_false ?_ (by omega)
    rintro ⟨rest, hrest⟩
    exact hne _ hrest.symm
  · rw [hreverse, List.cons_prefix_cons, List.cons_prefix_cons]
    exact iff_of_false (fun h => hc h.2.1.symm) (by omega)
  · rw [hreverse, List.cons_prefix_cons, List.cons_prefix_cons]
    exact iff_of_true ⟨rfl, rfl, List.nil_prefix⟩ hmod

theorem one_suffix_encode (data : List UInt8) : ['='] <:+ encode data ↔ data.length % 3 ≠ 0 := by
  rw [← List.reverse_prefix, show ['='].reverse = ['='] from rfl]
  rcases reverse_encode data with ⟨hmod, -, hne⟩ | ⟨hmod, c, rest, hc, -, hreverse⟩ | ⟨hmod, hreverse⟩
  · refine iff_of_false ?_ (by omega)
    rintro ⟨rest, hrest⟩
    exact hne _ hrest.symm
  · rw [hreverse, List.cons_prefix_cons]
    exact iff_of_true ⟨rfl, List.nil_prefix⟩ (by omega)
  · rw [hreverse, List.cons_prefix_cons]
    exact iff_of_true ⟨rfl, List.nil_prefix⟩ (by omega)

end Base64
