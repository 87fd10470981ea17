import ToyTstat.Lib.Decimal

/-! # Doubles, by their exact values -/

namespace CLib

/-- A finite double: a 53-bit number times a power of two. -/
structure Double where
  val : ℚ
  isDouble : ∃ m e : ℤ, |m| < 2 ^ 53 ∧ val = m * 2 ^ e

/-- Every `int` is a double. -/
def Double.ofInt32 (i : Int32) : Double where
  val := i.toInt
  isDouble := by
    have h1 := i.le_toInt
    have h2 := i.toInt_lt
    refine ⟨i.toInt, 0, ?_, by simp⟩
    rw [abs_lt]
    omega

/-- Conversion to an integer drops the fraction. -/
def truncate (q : ℚ) : ℤ := if 0 ≤ q then ⌊q⌋ else ⌈q⌉

theorem truncate_intCast (i : ℤ) : truncate i = i := by
  unfold truncate
  split <;> simp

/-- The nearest integer to `q ≥ 0`, the even one of two. -/
def roundHalfEven (q : ℚ) : ℕ :=
  let n := ⌊q⌋.toNat
  if q - n < 1 / 2 then n else if 1 / 2 < q - n then n + 1 else if n % 2 = 0 then n else n + 1

/-- What `%lf` prints: six digits after the point. -/
def fixedPoint (q : ℚ) : List Byte :=
  let n := roundHalfEven (|q| * 10 ^ 6)
  let frac := decimal (n % 10 ^ 6)
  (if q < 0 then [ch '-'] else []) ++ decimal (n / 10 ^ 6) ++ [ch '.'] ++
    List.replicate (6 - frac.length) (ch '0') ++ frac

theorem fixedPoint_ne_zero (q : ℚ) : 0 ∉ fixedPoint q := by
  have hdecimal (n : Nat) : 0 ∉ decimal n := by
    intro hzero
    have hdigit := decimal_isDigit n 0 hzero
    revert hdigit
    decide
  have hsign : 0 ∉ (if q < 0 then [ch '-'] else []) := by
    split <;> decide
  have hzeros (k : Nat) : 0 ∉ List.replicate k (ch '0') := by
    intro hzero
    have heq := List.eq_of_mem_replicate hzero
    revert heq
    decide
  unfold fixedPoint
  simp only [List.mem_append, not_or]
  exact ⟨⟨⟨⟨hsign, hdecimal _⟩, by decide⟩, hzeros _⟩, hdecimal _⟩

end CLib
