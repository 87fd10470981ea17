import ToyTstat.Lib.CString

/-!
# The order of byte strings

Bytes are compared as unsigned numbers. A proper prefix is smaller.
-/

namespace CLib

/-- The difference of the first bytes that differ, or else of the lengths. -/
def lexDifference : List Byte → List Byte → Int
  | a :: s, b :: t => if a = b then lexDifference s t else a.toNat - b.toNat
  | s, t => s.length - t.length

theorem lexDifference_swap (s t : List Byte) : lexDifference t s = -lexDifference s t := by
  induction s generalizing t with
  | nil => cases t <;> simp [lexDifference]
  | cons a s ih =>
    cases t with
    | nil => simp [lexDifference]
    | cons b t =>
      rw [lexDifference, lexDifference]
      by_cases hab : a = b
      · rw [if_pos hab, if_pos hab.symm, ih]
      · rw [if_neg hab, if_neg (Ne.symm hab)]
        omega

theorem lexDifference_eq_zero_iff (s t : List Byte) : lexDifference s t = 0 ↔ s = t := by
  induction s generalizing t with
  | nil => cases t <;> simp [lexDifference]; omega
  | cons a s ih =>
    cases t with
    | nil => simp [lexDifference]; omega
    | cons b t =>
      rw [lexDifference, List.cons.injEq]
      by_cases hab : a = b
      · rw [if_pos hab, ih, and_iff_right hab]
      · have hne : (a.toNat : Int) - b.toNat ≠ 0 := fun h => hab (UInt8.toNat.inj (by omega))
        rw [if_neg hab]
        exact iff_of_false hne fun h => hab h.1

theorem lexDifference_neg_iff (s t : List Byte) : lexDifference s t < 0 ↔ s < t := by
  induction s generalizing t with
  | nil =>
    cases t with
    | nil => simp [lexDifference]
    | cons b t =>
      refine iff_of_true ?_ (List.nil_lt_cons b t)
      simp only [lexDifference, List.length_nil, List.length_cons]
      omega
  | cons a s ih =>
    cases t with
    | nil =>
      refine iff_of_false ?_ (List.not_lt_nil _)
      simp only [lexDifference, List.length_nil, List.length_cons]
      omega
    | cons b t =>
      rw [lexDifference, List.cons_lt_cons_iff]
      by_cases hab : a = b
      · subst hab
        rw [if_pos rfl, ih, and_iff_right rfl, or_iff_right (UInt8.lt_irrefl a)]
      · rw [if_neg hab, UInt8.lt_iff_toNat_lt]
        simp only [hab, false_and, or_false]
        omega

theorem lexDifference_le_iff (s t : List Byte) : lexDifference s t ≤ 0 ↔ s < t ∨ s = t := by
  rw [Int.le_iff_lt_or_eq, lexDifference_neg_iff, lexDifference_eq_zero_iff]

theorem lexDifference_pos_iff (s t : List Byte) : 0 < lexDifference s t ↔ t < s := by
  rw [← lexDifference_neg_iff, lexDifference_swap]
  omega

end CLib
