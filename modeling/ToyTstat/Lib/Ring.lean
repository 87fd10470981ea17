import Mathlib.Data.List.Basic
import Mathlib.Data.Nat.ModEq

/-!
# Circular buffers

A ring is the first `n` slots of an array. `head` counts the items taken out so far: it is not
reduced modulo `n`.
-/

namespace CLib

variable {α : Type*} {n head : Nat} {slots items : List α} {x : α}

/-- From the slot of `head` on, the ring holds `items`. -/
structure RingHolds (n : Nat) (slots : List α) (head : Nat) (items : List α) : Prop where
  ring : n ≤ slots.length
  fits : items.length ≤ n
  slot : ∀ i < items.length, slots[(head + i) % n]? = items[i]?

theorem ring_slot_inj (head : Nat) {i j : Nat} (hi : i < n) (hj : j < n) (h : (head + i) % n = (head + j) % n) :
    i = j := by
  have hmod : i ≡ j [MOD n] := Nat.ModEq.add_left_cancel' head h
  exact Nat.ModEq.eq_of_lt_of_lt hmod hi hj

theorem ring_slot_free (head : Nat) {m i : Nat} (hroom : m < n) (hi : i < m) : (head + m) % n ≠ (head + i) % n := by
  intro heq
  have := ring_slot_inj head hroom (hi.trans hroom) heq
  omega

namespace RingHolds

theorem nil (hring : n ≤ slots.length) (head : Nat) : RingHolds n slots head [] :=
  ⟨hring, Nat.zero_le _, fun i hi => absurd hi (Nat.not_lt_zero i)⟩

theorem front (h : RingHolds n slots head (x :: items)) : slots[head % n]? = some x := by
  have := h.slot 0 (Nat.zero_lt_succ _)
  rwa [Nat.add_zero, List.getElem?_cons_zero] at this

theorem pop (h : RingHolds n slots head (x :: items)) : RingHolds n slots (head + 1) items := by
  refine ⟨h.ring, (Nat.le_succ _).trans h.fits, fun i hi => ?_⟩
  have := h.slot (i + 1) (Nat.succ_lt_succ hi)
  rwa [List.getElem?_cons_succ, Nat.add_comm i 1, ← Nat.add_assoc] at this

theorem push (h : RingHolds n slots head items) (hroom : items.length < n) :
    RingHolds n (slots.set ((head + items.length) % n) x) head (items ++ [x]) := by
  refine ⟨h.ring.trans_eq List.length_set.symm, ?_, fun i hi => ?_⟩
  · rw [List.length_append]
    exact hroom
  · rw [List.length_append, List.length_singleton] at hi
    rcases Nat.lt_succ_iff_lt_or_eq.mp hi with hlt | rfl
    · rw [List.getElem?_set_ne (ring_slot_free head hroom hlt), List.getElem?_append_left hlt]
      exact h.slot i hlt
    · have hlt : (head + items.length) % n < slots.length :=
        (Nat.mod_lt _ ((Nat.zero_le _).trans_lt hroom)).trans_le h.ring
      rw [List.getElem?_set_self hlt, List.getElem?_concat_length]

/-- The items, read slot by slot. -/
theorem items_eq (h : RingHolds n slots head items) (x : α) :
    (List.range items.length).map (fun i => slots[(head + i) % n]?.getD x) = items := by
  apply List.ext_getElem
  · simp
  · intro i _ hi
    rw [List.getElem_map, List.getElem_range, h.slot i hi, List.getElem?_eq_getElem hi, Option.getD_some]

end RingHolds

end CLib
