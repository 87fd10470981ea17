import Mathlib.Algebra.Order.Ring.Int
import Mathlib.Tactic.Ring

/-!
# C integer types

A type is known by its width and its signedness. Arithmetic is done in the promoted type: a signed
result that this type cannot hold has no value, an unsigned one wraps around.
-/

namespace CLib

structure IntType where
  bits : Nat
  signed : Bool
deriving DecidableEq, Repr

namespace IntType

def lowest (t : IntType) : Int := if t.signed then -2 ^ (t.bits - 1) else 0

def highest (t : IntType) : Int := if t.signed then 2 ^ (t.bits - 1) - 1 else 2 ^ t.bits - 1

def InRange (t : IntType) (x : Int) : Prop := t.lowest ≤ x ∧ x ≤ t.highest

instance (t : IntType) (x : Int) : Decidable (t.InRange x) := inferInstanceAs (Decidable (_ ∧ _))

/-- Conversion keeps the low bits. -/
def convert (t : IntType) (x : Int) : Int :=
  if t.signed then (x + 2 ^ (t.bits - 1)) % 2 ^ t.bits - 2 ^ (t.bits - 1) else x % 2 ^ t.bits

/-- A type that is narrower than `int` is promoted to `int`. -/
def promote (t : IntType) : IntType := if t.bits < 32 then ⟨32, true⟩ else t

/-- What an operation on values of the type yields, if its exact result is `x`. -/
def arith (t : IntType) (x : Int) : Option Int :=
  if t.promote.InRange x then some x
  else if t.promote.signed then none
  else some (t.promote.convert x)

variable {t : IntType} {x : Int}

theorem two_pow_bits (ht : 0 < t.bits) : (2 : Int) ^ t.bits = 2 * 2 ^ (t.bits - 1) := by
  obtain ⟨k, hk⟩ := Nat.exists_eq_add_of_lt ht
  rw [hk, Nat.zero_add, Nat.add_sub_cancel]
  ring

theorem convert_of_inRange (ht : 0 < t.bits) (h : t.InRange x) : t.convert x = x := by
  unfold InRange lowest highest at h
  unfold convert
  split at h
  case isTrue hsigned =>
    rw [if_pos hsigned]
    have hpow := two_pow_bits ht
    rw [Int.emod_eq_of_lt (by omega) (by omega)]
    omega
  case isFalse hsigned =>
    rw [if_neg hsigned]
    exact Int.emod_eq_of_lt h.1 (by omega)

theorem arith_of_inRange (h : t.promote.InRange x) : t.arith x = some x := if_pos h

theorem lowest_le_zero (t : IntType) : t.lowest ≤ 0 := by
  have hpow : (0 : Int) < 2 ^ (t.bits - 1) := Int.pow_pos (by decide)
  unfold lowest
  split <;> omega

theorem highest_nonneg (t : IntType) : 0 ≤ t.highest := by
  have hpow : (0 : Int) < 2 ^ (t.bits - 1) := Int.pow_pos (by decide)
  have hpow' : (0 : Int) < 2 ^ t.bits := Int.pow_pos (by decide)
  unfold highest
  split <;> omega

theorem highest_lt (t : IntType) : t.highest < 2 ^ t.bits := by
  have hpow : (2 : Int) ^ (t.bits - 1) ≤ 2 ^ t.bits := pow_le_pow_right₀ (by decide) (Nat.sub_le _ _)
  unfold highest
  split <;> omega

theorem highest_le_promote (t : IntType) : t.highest ≤ t.promote.highest := by
  unfold promote
  split
  case isTrue hnarrow =>
    have hpow : (2 : Int) ^ t.bits ≤ 2 ^ 31 := pow_le_pow_right₀ (by decide) (by omega)
    have hlt := t.highest_lt
    have hint : (⟨32, true⟩ : IntType).highest = 2 ^ 31 - 1 := rfl
    omega
  case isFalse => exact Int.le_refl _

theorem lowest_eq (hsigned : t.signed) : t.lowest = -(t.highest + 1) := by
  rw [lowest, highest, if_pos hsigned, if_pos hsigned]
  omega

theorem promote_signed (hsigned : t.signed) : t.promote.signed := by
  unfold promote
  split
  case isTrue => rfl
  case isFalse => exact hsigned

theorem highest_succ_le_promote (hsigned : t.signed) (hnarrow : t.bits < 32) : t.highest + 1 ≤ t.promote.highest := by
  have hpow : (2 : Int) ^ (t.bits - 1) ≤ 2 ^ 30 := pow_le_pow_right₀ (by decide) (by omega)
  have hint : (⟨32, true⟩ : IntType).highest = 2 ^ 31 - 1 := rfl
  rw [promote, if_pos hnarrow, hint, highest, if_pos hsigned]
  omega

theorem inRange_of_nonneg (hx : 0 ≤ x) (h : x ≤ t.highest) : t.InRange x := ⟨Int.le_trans t.lowest_le_zero hx, h⟩

theorem convert_past_highest (ht : 0 < t.bits) (hsigned : t.signed) : t.convert (t.highest + 1) = t.lowest := by
  have hpow := two_pow_bits ht
  unfold convert highest lowest
  rw [if_pos hsigned, if_pos hsigned, if_pos hsigned, Int.sub_add_cancel,
    show (2 : Int) ^ (t.bits - 1) + 2 ^ (t.bits - 1) = 2 ^ t.bits by omega, Int.emod_self, Int.zero_sub]

theorem arith_overflow (hsigned : t.promote.signed) (h : ¬ t.promote.InRange x) : t.arith x = none := by
  rw [arith, if_neg h, if_pos hsigned]

end IntType

def ptrdiff_t : IntType := ⟨64, true⟩

def INT_MAX : Nat := 2 ^ 31 - 1

def PTRDIFF_MAX : Nat := 2 ^ 63 - 1

/-- `i++` for an `int`. -/
def int_inc (i : Nat) : Option Nat := if i < INT_MAX then some (i + 1) else none

theorem int_inc_of_lt {i : Nat} (h : i < INT_MAX) : int_inc i = some (i + 1) := if_pos h

end CLib
