import Mathlib.Data.List.Nodup
import Mathlib.Logic.ExistsUnique

/-!
# Dealing in turn

Cards are dealt to so many seats, one at a time and round the table.

* `deal`: the hands after each card went to the seat whose turn it was; `hand`: the cards of one seat.
* `getElem?_deal`: each seat holds its hand behind what it held before; `getElem?_deal_replicate`: no
  more than its hand, if it held nothing.
* `mem_hand_iff`: the cards of a seat are those at its places.
* **`existsUnique_seat`**, `hand_ne_nil`: each card is at one seat, and with a card for each seat nobody
  is without one.
-/

namespace RoundRobin

variable {α : Type*} {seats seat position : ℕ} {cards : List α} {card : α}

/-- The card at a position goes behind the hand of the seat whose turn it is. -/
def deal (seats : ℕ) : List (List α) → ℕ → List α → List (List α)
  | hands, _, [] => hands
  | hands, position, card :: cards =>
    deal seats (hands.modify (position % seats) (· ++ [card])) (position + 1) cards

/-- What a seat is dealt of the cards from a position on. -/
def hand (seats seat : ℕ) : ℕ → List α → List α
  | _, [] => []
  | position, card :: cards =>
    if position % seats = seat then card :: hand seats seat (position + 1) cards
    else hand seats seat (position + 1) cards

theorem getElem?_deal (hands : List (List α)) :
    (deal seats hands position cards)[seat]? =
      hands[seat]?.map (· ++ hand seats seat position cards) := by
  induction cards generalizing hands position with
  | nil => simp [deal, hand]
  | cons card cards ih =>
    rw [deal, ih, List.getElem?_modify, Option.map_eq_map, hand]
    split_ifs with hturn
    · rw [Option.map_map]
      congr 1
      funext held
      rw [Function.comp_apply, List.append_assoc, List.singleton_append]
    · rw [Option.map_id']

theorem length_deal (hands : List (List α)) :
    (deal seats hands position cards).length = hands.length := by
  induction cards generalizing hands position with
  | nil => rfl
  | cons card cards ih => rw [deal, ih, List.length_modify]

theorem getElem?_deal_replicate :
    (deal seats (List.replicate seats []) position cards)[seat]? =
      if seat < seats then some (hand seats seat position cards) else none := by
  rw [getElem?_deal, List.getElem?_replicate]
  split_ifs
  · rw [Option.map_some, List.nil_append]
  · rfl

theorem mem_hand_iff :
    card ∈ hand seats seat position cards ↔
      ∃ place, cards[place]? = some card ∧ (position + place) % seats = seat := by
  induction cards generalizing position with
  | nil => simp [hand]
  | cons first cards ih =>
    have hbehind : card ∈ hand seats seat (position + 1) cards ↔
        ∃ place, (first :: cards)[place + 1]? = some card ∧
          (position + (place + 1)) % seats = seat := by
      rw [ih]
      simp only [List.getElem?_cons_succ, Nat.add_assoc, Nat.add_comm 1]
    rw [← Nat.or_exists_add_one, hand]
    simp only [List.getElem?_cons_zero, Option.some.injEq, Nat.add_zero]
    rw [← hbehind]
    split_ifs with hturn
    · rw [List.mem_cons, eq_comm, and_iff_left hturn]
    · rw [or_iff_right fun h => hturn h.2]

theorem mem_of_mem_hand (h : card ∈ hand seats seat position cards) : card ∈ cards := by
  obtain ⟨place, hplace, -⟩ := mem_hand_iff.mp h
  exact List.mem_of_getElem? hplace

theorem nodup_hand (h : cards.Nodup) : (hand seats seat position cards).Nodup := by
  induction cards generalizing position with
  | nil => exact List.nodup_nil
  | cons card cards ih =>
    obtain ⟨hcard, hcards⟩ := List.nodup_cons.mp h
    rw [hand]
    split_ifs
    · exact List.nodup_cons.mpr ⟨fun hmem => hcard (mem_of_mem_hand hmem), ih hcards⟩
    · exact ih hcards

theorem existsUnique_seat (hseats : 0 < seats) (hcards : cards.Nodup) (h : card ∈ cards) :
    ∃! seat, seat < seats ∧ card ∈ hand seats seat position cards := by
  obtain ⟨place, hplace⟩ := List.mem_iff_getElem?.mp h
  refine ⟨(position + place) % seats, ⟨Nat.mod_lt _ hseats, mem_hand_iff.mpr ⟨place, hplace, rfl⟩⟩, ?_⟩
  rintro seat ⟨-, hmem⟩
  obtain ⟨other, hother, rfl⟩ := mem_hand_iff.mp hmem
  have hlt : place < cards.length := (List.getElem?_eq_some_iff.mp hplace).1
  rw [(List.getElem?_inj hlt hcards).mp (hplace.trans hother.symm)]

theorem hand_ne_nil (hseat : seat < seats) (hcards : seats ≤ cards.length) :
    hand seats seat 0 cards ≠ [] := by
  have hplace : cards[seat]? = some cards[seat] := List.getElem?_eq_getElem (by omega)
  refine List.ne_nil_of_mem (mem_hand_iff.mpr ⟨seat, hplace, ?_⟩)
  rw [Nat.zero_add, Nat.mod_eq_of_lt hseat]

theorem map_hand {β : Type*} (f : α → β) :
    (hand seats seat position cards).map f = hand seats seat position (cards.map f) := by
  induction cards generalizing position with
  | nil => rfl
  | cons card cards ih =>
    rw [List.map_cons, hand, hand]
    split_ifs
    · rw [List.map_cons, ih]
    · exact ih

end RoundRobin
