import Mathlib.Algebra.Order.Group.Unbundled.Int
import ToyTstat.Code.MuSched
import ToyTstat.Lib.Window

/-!
# The order of times around a base time

The counter of the times wraps. Relative times that are less than half of its range apart order the times.
-/

open CLib ToyTstat.Code

namespace ToyTstat.Mulib

variable {t : mu_time_abs_t} {a b c : mu_time_rel_t}

theorem difference_offset (t : mu_time_abs_t) (a b : mu_time_rel_t) :
    mu_time_difference (mu_time_offset t a) (mu_time_offset t b) = a - b := by
  have hcancel : t + a.toUInt64 - (t + b.toUInt64) = a.toUInt64 - b.toUInt64 := by grind
  unfold mu_time_difference mu_time_offset
  rw [hcancel, UInt64.toInt64_sub, Int64.toInt64_toUInt64, Int64.toInt64_toUInt64]

theorem toInt_sub_of_near (h : |a.toInt - b.toInt| < 2 ^ 63) : (a - b).toInt = a.toInt - b.toInt := by
  obtain ⟨hlow, hhigh⟩ := abs_lt.mp h
  rw [Int64.toInt_sub]
  exact Int.bmod_eq_of_le (by omega) (by omega)

theorem precedes_offset (t : mu_time_abs_t) (h : |a.toInt - b.toInt| < 2 ^ 63) :
    mu_time_precedes (mu_time_offset t a) (mu_time_offset t b) ↔ a < b := by
  unfold mu_time_precedes
  rw [difference_offset, decide_eq_true_iff, Int64.lt_iff_toInt_lt, Int64.lt_iff_toInt_lt, toInt_sub_of_near h,
    Int64.toInt_zero]
  omega

theorem follows_offset (t : mu_time_abs_t) (h : |a.toInt - b.toInt| < 2 ^ 63) :
    mu_time_follows (mu_time_offset t a) (mu_time_offset t b) ↔ a > b := by
  unfold mu_time_follows
  rw [difference_offset, decide_eq_true_iff, gt_iff_lt, gt_iff_lt, Int64.lt_iff_toInt_lt, Int64.lt_iff_toInt_lt,
    toInt_sub_of_near h, Int64.toInt_zero]
  omega

theorem equals_offset (t : mu_time_abs_t) (a b : mu_time_rel_t) :
    mu_time_equals (mu_time_offset t a) (mu_time_offset t b) ↔ a = b := by
  unfold mu_time_equals mu_time_offset
  rw [decide_eq_true_iff, UInt64.add_right_inj]
  refine ⟨fun h => ?_, congrArg Int64.toUInt64⟩
  rw [← Int64.toInt64_toUInt64 a, h, Int64.toInt64_toUInt64]

/-- Where the order ends: half of the circle apart, each of two times precedes the other. -/
theorem precede_each_other_iff (t1 t2 : mu_time_abs_t) :
    mu_time_precedes t1 t2 ∧ mu_time_precedes t2 t1 ↔ offset t2 t1 = halfCircle := by
  unfold mu_time_precedes mu_time_difference offset halfCircle
  rw [decide_eq_true_iff, decide_eq_true_iff, Int64.lt_iff_toInt_lt, Int64.lt_iff_toInt_lt, Int64.toInt_zero,
    toInt_toInt64, toInt_toInt64]
  have hlt1 := t1.toNat_lt
  have hlt2 := t2.toNat_lt
  simp only [UInt64.toNat_sub]
  split <;> split <;> omega

/-! ## Times in a window -/

/-- Two times around `t` compare as their relative times do. -/
structure ComparesAs (t : mu_time_abs_t) (a b : mu_time_rel_t) : Prop where
  precedes : mu_time_precedes (mu_time_offset t a) (mu_time_offset t b) ↔ a < b
  follows : mu_time_follows (mu_time_offset t a) (mu_time_offset t b) ↔ a > b
  equals : mu_time_equals (mu_time_offset t a) (mu_time_offset t b) ↔ a = b
  difference : (mu_time_difference (mu_time_offset t a) (mu_time_offset t b)).toInt = a.toInt - b.toInt

/-- `mu_time_precedes` is a strict total order of the times. -/
structure TotallyOrdered (times : List mu_time_abs_t) : Prop where
  irreflexive : ∀ x ∈ times, ¬ mu_time_precedes x x
  transitive : ∀ x ∈ times, ∀ y ∈ times, ∀ z ∈ times,
    mu_time_precedes x y → mu_time_precedes y z → mu_time_precedes x z
  total : ∀ x ∈ times, ∀ y ∈ times, mu_time_precedes x y ∨ x = y ∨ mu_time_precedes y x

theorem compares_as (t : mu_time_abs_t) (h : |a.toInt - b.toInt| < 2 ^ 63) : ComparesAs t a b where
  precedes := precedes_offset t h
  follows := follows_offset t h
  equals := equals_offset t a b
  difference := by rw [difference_offset, toInt_sub_of_near h]

theorem totally_ordered {rels : List mu_time_rel_t} (h : ∀ a ∈ rels, ∀ b ∈ rels, ComparesAs t a b) :
    TotallyOrdered (rels.map (mu_time_offset t)) := by
  constructor
  · intro x hx
    obtain ⟨a, ha, rfl⟩ := List.mem_map.mp hx
    rw [(h a ha a ha).precedes]
    exact Int64.lt_irrefl
  · intro x hx y hy z hz
    obtain ⟨a, ha, rfl⟩ := List.mem_map.mp hx
    obtain ⟨b, hb, rfl⟩ := List.mem_map.mp hy
    obtain ⟨c, hc, rfl⟩ := List.mem_map.mp hz
    rw [(h a ha b hb).precedes, (h b hb c hc).precedes, (h a ha c hc).precedes]
    exact Int64.lt_trans
  · intro x hx y hy
    obtain ⟨a, ha, rfl⟩ := List.mem_map.mp hx
    obtain ⟨b, hb, rfl⟩ := List.mem_map.mp hy
    rw [(h a ha b hb).precedes, (h b hb a ha).precedes]
    rw [Int64.lt_iff_toInt_lt, Int64.lt_iff_toInt_lt]
    rcases lt_trichotomy a.toInt b.toInt with hlt | heq | hgt
    · exact Or.inl hlt
    · exact Or.inr (Or.inl (congrArg _ (Int64.toInt_inj.mp heq)))
    · exact Or.inr (Or.inr hgt)

/-- Around any base time, relative times that are near each other order the times. -/
theorem time_order (t : mu_time_abs_t) (a b c : mu_time_rel_t) (hab : |a.toInt - b.toInt| < 2 ^ 63)
    (hac : |a.toInt - c.toInt| < 2 ^ 63) (hbc : |b.toInt - c.toInt| < 2 ^ 63) :
    (∀ x ∈ [a, b, c], ∀ y ∈ [a, b, c], ComparesAs t x y) ∧
      TotallyOrdered ([a, b, c].map (mu_time_offset t)) := by
  have hcompares : ∀ x ∈ [a, b, c], ∀ y ∈ [a, b, c], ComparesAs t x y := by
    intro x hx y hy
    refine compares_as t ?_
    have hself (x : mu_time_rel_t) : |x.toInt - x.toInt| < 2 ^ 63 := by
      rw [sub_self, abs_zero]
      decide
    have hsymm {x y : mu_time_rel_t} (h : |x.toInt - y.toInt| < 2 ^ 63) : |y.toInt - x.toInt| < 2 ^ 63 := by
      rwa [abs_sub_comm]
    simp only [List.mem_cons, List.not_mem_nil, or_false] at hx hy
    rcases hx with rfl | rfl | rfl
    · rcases hy with rfl | rfl | rfl
      · exact hself _
      · exact hab
      · exact hac
    · rcases hy with rfl | rfl | rfl
      · exact hsymm hab
      · exact hself _
      · exact hbc
    · rcases hy with rfl | rfl | rfl
      · exact hsymm hac
      · exact hsymm hbc
      · exact hself _
  exact ⟨hcompares, totally_ordered hcompares⟩

/-- The counter wraps between the first and the second of the times. -/
theorem time_order_wraps :
    (∀ x ∈ [(-5 : Int64), 3, 0x7ffffffffffffff0], ∀ y ∈ [(-5 : Int64), 3, 0x7ffffffffffffff0], ComparesAs 2 x y) ∧
      TotallyOrdered ([(-5 : Int64), 3, 0x7ffffffffffffff0].map (mu_time_offset 2)) :=
  time_order 2 (-5) 3 0x7ffffffffffffff0 (by decide) (by decide) (by decide)

end ToyTstat.Mulib
