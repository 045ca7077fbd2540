import OffsetExplorer.Lib.Framing
import Mathlib.Algebra.BigOperators.Fin
import Mathlib.Tactic.Ring

/-!
# Numbers in groups of seven bits

A number is written as a run of bytes, seven bits in each, lowest first. The high bit of a byte says
that another one follows.

* `value`: the number that a run writes; `value_eq_sum`: each group at its place.
* `runs`: the runs of at most so many bytes; `takeRun`: the run at the start of an input.
* `encode`: the shortest run of a number; `value_encode`, `encode_mem_runs`, `length_encode_value_le`.
* `zigzag`, `unzigzag`: numbers with a sign, those near zero first.
* `exists_of_takeRun`, `takeRun_append`, `prefixFree_runs`: a run is found exactly when there is one, and
  there is one at most.
-/

namespace Varint

/-- The number whose groups of seven bits are in the bytes, lowest first. -/
def value : List UInt8 → ℕ
  | [] => 0
  | b :: rest => b.toNat % 128 + 128 * value rest

theorem value_append (init rest : List UInt8) :
    value (init ++ rest) = value init + 128 ^ init.length * value rest := by
  induction init with
  | nil => simp [value]
  | cons b init ih =>
    rw [List.cons_append, value, value, ih, List.length_cons, Nat.pow_succ]
    ring

theorem value_lt (run : List UInt8) : value run < 128 ^ run.length := by
  induction run with
  | nil => simp [value]
  | cons b run ih =>
    rw [value, List.length_cons, Nat.pow_succ]
    omega

theorem value_eq_sum (run : List UInt8) :
    value run = ∑ i : Fin run.length, run[i].toNat % 128 * 2 ^ (7 * i.val) := by
  induction run with
  | nil => rfl
  | cons b run ih =>
    have hplace : ∀ i : ℕ, 2 ^ (7 * (i + 1)) = 128 * 2 ^ (7 * i) := by
      intro i
      rw [Nat.mul_add, Nat.pow_add, Nat.mul_comm]
    have htail : 128 * value run =
        ∑ i : Fin run.length, run[i].toNat % 128 * 2 ^ (7 * (i.val + 1)) := by
      rw [ih, Finset.mul_sum]
      refine Finset.sum_congr rfl fun i _ => ?_
      rw [hplace, Nat.mul_left_comm]
    calc value (b :: run)
        = b.toNat % 128 + ∑ i : Fin run.length, run[i].toNat % 128 * 2 ^ (7 * (i.val + 1)) := by
          rw [value, htail]
      _ = ∑ i : Fin (run.length + 1), (b :: run)[i].toNat % 128 * 2 ^ (7 * i.val) := by
          rw [Fin.sum_univ_succ]
          simp

/-- The runs of at most `limit` bytes of which only the last has its high bit clear. -/
def runs (limit : ℕ) : Language UInt8 :=
  {run | run.length ≤ limit ∧
    ∃ init last, run = init ++ [last] ∧ (∀ b ∈ init, 128 ≤ b.toNat) ∧ last.toNat < 128}

variable {limit : ℕ} {b : UInt8} {run rest input : List UInt8}

theorem nil_notMem_runs : [] ∉ runs limit := by
  rintro ⟨-, init, last, hsplit, -⟩
  simp at hsplit

theorem cons_mem_runs_iff :
    b :: rest ∈ runs (limit + 1) ↔
      b.toNat < 128 ∧ rest = [] ∨ 128 ≤ b.toNat ∧ rest ∈ runs limit := by
  constructor
  · rintro ⟨hlength, init, last, hsplit, hinit, hlast⟩
    cases init with
    | nil =>
      obtain ⟨rfl, rfl⟩ := List.cons.inj hsplit
      exact .inl ⟨hlast, rfl⟩
    | cons c init =>
      obtain ⟨rfl, rfl⟩ := List.cons.inj hsplit
      rw [List.length_cons] at hlength
      refine .inr ⟨hinit b List.mem_cons_self, by omega, init, last, rfl, fun c hc => ?_, hlast⟩
      exact hinit c (List.mem_cons_of_mem b hc)
  · rintro (⟨hb, rfl⟩ | ⟨hb, hlength, init, last, rfl, hinit, hlast⟩)
    · exact ⟨by simp, [], b, rfl, by simp, hb⟩
    · refine ⟨by rw [List.length_cons]; omega, b :: init, last, rfl, ?_, hlast⟩
      exact List.forall_mem_cons.mpr ⟨hb, hinit⟩

/-- The run at the start of the input. -/
def takeRun : ℕ → List UInt8 → Option (List UInt8)
  | 0, _ => none
  | _ + 1, [] => none
  | limit + 1, b :: rest =>
    if b.toNat < 128 then some [b] else (takeRun limit rest).map (b :: ·)

theorem takeRun_append (h : run ∈ runs limit) : takeRun limit (run ++ rest) = some run := by
  induction run generalizing limit with
  | nil => exact absurd h nil_notMem_runs
  | cons b run ih =>
    cases limit with
    | zero => exact absurd h.1 (by simp)
    | succ limit =>
      rw [List.cons_append, takeRun]
      rcases cons_mem_runs_iff.mp h with ⟨hb, rfl⟩ | ⟨hb, hrun⟩
      · rw [if_pos hb]
      · rw [if_neg (by omega), ih hrun, Option.map_some]

theorem exists_of_takeRun (h : takeRun limit input = some run) :
    run ∈ runs limit ∧ ∃ rest, input = run ++ rest := by
  induction input generalizing limit run with
  | nil => cases limit <;> simp [takeRun] at h
  | cons b input ih =>
    cases limit with
    | zero => simp [takeRun] at h
    | succ limit =>
      rw [takeRun] at h
      split_ifs at h with hb
      · obtain rfl := Option.some.inj h
        exact ⟨cons_mem_runs_iff.mpr (.inl ⟨hb, rfl⟩), input, rfl⟩
      · obtain ⟨tail, htail, rfl⟩ := Option.map_eq_some_iff.mp h
        obtain ⟨hrun, rest, rfl⟩ := ih htail
        exact ⟨cons_mem_runs_iff.mpr (.inr ⟨by omega, hrun⟩), rest, rfl⟩

theorem prefixFree_runs : Framing.PrefixFree (runs limit) := by
  intro x y s t hx hy h
  have hfound : takeRun limit (x ++ s) = some x := takeRun_append hx
  rw [h, takeRun_append hy] at hfound
  exact (Option.some.inj hfound).symm

/-! ## Writing -/

/-- The shortest run that writes a number. -/
def encode (n : ℕ) : List UInt8 :=
  if n < 128 then [.ofNat n] else .ofNat (128 + n % 128) :: encode (n / 128)

theorem toNat_ofNat_of_lt {n : ℕ} (h : n < 256) : (UInt8.ofNat n).toNat = n := by
  rw [UInt8.toNat_ofNat']
  omega

theorem value_encode (n : ℕ) : value (encode n) = n := by
  induction n using Nat.strongRecOn with
  | ind n ih =>
    rw [encode]
    split_ifs with h
    · rw [value, value, toNat_ofNat_of_lt (by omega)]
      omega
    · rw [value, ih (n / 128) (by omega), toNat_ofNat_of_lt (by omega)]
      omega

theorem encode_mem_runs {n : ℕ} (h : n < 128 ^ (limit + 1)) : encode n ∈ runs (limit + 1) := by
  induction limit generalizing n with
  | zero =>
    rw [encode, if_pos (by simpa using h)]
    exact cons_mem_runs_iff.mpr (.inl ⟨by rw [toNat_ofNat_of_lt] <;> omega, rfl⟩)
  | succ limit ih =>
    rw [encode]
    split_ifs with hn
    · exact cons_mem_runs_iff.mpr (.inl ⟨by rw [toNat_ofNat_of_lt (by omega)]; exact hn, rfl⟩)
    · refine cons_mem_runs_iff.mpr (.inr ⟨by rw [toNat_ofNat_of_lt (by omega)]; omega, ih ?_⟩)
      rw [Nat.pow_succ] at h
      exact Nat.div_lt_of_lt_mul (by rwa [Nat.mul_comm] at h)

theorem length_encode_value_le (h : run ∈ runs limit) :
    (encode (value run)).length ≤ run.length := by
  obtain ⟨length, hlength⟩ : ∃ length, run.length = length + 1 := by
    refine Nat.exists_eq_succ_of_ne_zero fun hzero => ?_
    rw [List.length_eq_zero_iff.mp hzero] at h
    exact nil_notMem_runs h
  have hroom := value_lt run
  rw [hlength] at hroom ⊢
  exact (encode_mem_runs hroom).1

/-! ## Signs -/

/-- 0, -1, 1, -2 and so on are 0, 1, 2, 3 and so on. -/
def zigzag (n : ℤ) : ℕ := if 0 ≤ n then (2 * n).toNat else (-2 * n - 1).toNat

/-- The integer of a zigzag number: the even ones are not negative. -/
def unzigzag (n : ℕ) : ℤ := if n % 2 = 0 then (n / 2 : ℕ) else -((n / 2 : ℕ) : ℤ) - 1

theorem unzigzag_zigzag (n : ℤ) : unzigzag (zigzag n) = n := by
  unfold zigzag unzigzag
  split_ifs <;> omega

theorem zigzag_unzigzag (n : ℕ) : zigzag (unzigzag n) = n := by
  unfold zigzag unzigzag
  split_ifs <;> omega

theorem zigzag_lt_iff {n : ℤ} {bits : ℕ} : zigzag n < 2 ^ (bits + 1) ↔ -2 ^ bits ≤ n ∧ n < 2 ^ bits := by
  have hcast : ((2 ^ bits : ℕ) : ℤ) = 2 ^ bits := by push_cast; rfl
  rw [zigzag, Nat.pow_succ, ← hcast]
  split_ifs <;> omega

theorem unzigzag_eq_zero_iff {n : ℕ} : unzigzag n = 0 ↔ n = 0 := by
  unfold unzigzag
  split_ifs <;> omega

end Varint
