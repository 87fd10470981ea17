import Mathlib.Algebra.Group.Nat.Defs
import Mathlib.Tactic.Common

/-!
# Times on a circle

Times are 64-bit numbers that wrap around. Inside a window that is less than half of the circle,
the signed difference of two times compares them.
-/

namespace CLib

/-- How far `t` lies behind `base`, going forward. -/
def offset (base t : UInt64) : Nat := (t - base).toNat

/-- Half of the circle. -/
def halfCircle : Nat := 0x8000000000000000

/-- All of `times` lie in one half of the circle. -/
def InWindow (base : UInt64) (times : List UInt64) : Prop := ∀ t ∈ times, offset base t < halfCircle

instance (base : UInt64) (times : List UInt64) : Decidable (InWindow base times) :=
  List.decidableBAll (fun t => offset base t < halfCircle) times

theorem toInt_toInt64 (t : UInt64) :
    t.toInt64.toInt = if 2 * t.toNat < 2 ^ 64 then (t.toNat : Int) else (t.toNat : Int) - (2 ^ 64 : Nat) :=
  BitVec.toInt_eq_toNat_cond t.toBitVec

theorem signed_difference {base t1 t2 : UInt64} (h1 : offset base t1 < halfCircle)
    (h2 : offset base t2 < halfCircle) :
    (t1 - t2).toInt64.toInt = (offset base t1 : Int) - offset base t2 := by
  have ht2 := t2.toNat_lt
  unfold offset halfCircle at h1 h2
  unfold offset
  rw [toInt_toInt64]
  simp only [UInt64.toNat_sub] at h1 h2 ⊢
  split <;> omega

theorem offset_advance {base t d : UInt64} (ht : offset base t < halfCircle) (hd : d.toNat < halfCircle) :
    offset base (t + d) = offset base t + d.toNat := by
  unfold offset halfCircle at *
  simp only [UInt64.toNat_sub, UInt64.toNat_add] at *
  omega

theorem eq_of_offset_eq {base t1 t2 : UInt64} (h : offset base t1 = offset base t2) : t1 = t2 :=
  UInt64.sub_left_inj base |>.mp (UInt64.toNat_inj.mp h)

end CLib
