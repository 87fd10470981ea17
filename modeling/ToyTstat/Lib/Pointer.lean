import ToyTstat.Lib.CString

/-!
# Pointers to read-only bytes

A pointer is an object and an index, which may lie outside the object as long as nothing is read there.
-/

namespace CLib

structure Pointer where
  object : List Byte
  index : Int
deriving DecidableEq, Repr

namespace Pointer

/-- `p[i]` -/
def read (p : Pointer) (i : Int) : Option Byte := rd p.object (p.index + i)

/-- `&p[i]` -/
def add (p : Pointer) (i : Int) : Pointer := { p with index := p.index + i }

/-- The bytes of `s` can be read from `p` on. What lies around them is not known. -/
def Holds (p : Pointer) (s : List Byte) : Prop := ∀ i, (h : i < s.length) → p.read i = some s[i]

@[simp]
theorem read_add (p : Pointer) (i j : Int) : (p.add i).read j = p.read (i + j) := by
  rw [read, read, add, Int.add_assoc]

theorem add_add (p : Pointer) (i j : Int) : (p.add i).add j = p.add (i + j) := by
  rw [add, add, add, Int.add_assoc]

theorem Holds.add {p : Pointer} {s : List Byte} (h : p.Holds s) (k : Nat) : (p.add k).Holds (s.drop k) := by
  intro i hi
  rw [List.length_drop] at hi
  rw [read_add, ← Int.natCast_add, h (k + i) (by omega), List.getElem_drop]

theorem Holds.take {p : Pointer} {s : List Byte} (h : p.Holds s) (k : Nat) : p.Holds (s.take k) := by
  intro i hi
  rw [List.length_take] at hi
  rw [h i (by omega), List.getElem_take]

theorem Holds.tail {p : Pointer} {b : Byte} {s : List Byte} (h : p.Holds (b :: s)) : (p.add 1).Holds s := h.add 1

theorem Holds.left {p : Pointer} {s r : List Byte} (h : p.Holds (s ++ r)) : p.Holds s := by
  intro i hi
  rw [h i (by rw [List.length_append]; omega), List.getElem_append_left hi]

theorem holds_append (before s after : List Byte) : Holds ⟨before ++ (s ++ after), before.length⟩ s := by
  intro i hi
  rw [read, ← Int.natCast_add, rd_natCast, List.getElem?_append_right (Nat.le_add_right _ _),
    Nat.add_sub_cancel_left, List.getElem?_append_left hi, List.getElem?_eq_getElem hi]

theorem read_past_end (s : List Byte) : Pointer.read ⟨s, 0⟩ s.length = none := by
  rw [read, Int.zero_add, rd_natCast, List.getElem?_eq_none (Nat.le_refl _)]

end Pointer

end CLib
