import Mathlib.Data.List.Basic
import Mathlib.Tactic.TypeStar

/-!
# Moving slots

The first `count` slots of an array hold a list. A slot is opened in it or closed by `memmove`.
-/

namespace CLib

variable {α : Type*}

/-- `n` slots from `src` on are copied to `dst`, as if through a buffer. -/
def memmove (slots : List α) (dst src n : Nat) : List α :=
  slots.take dst ++ ((slots.drop src).take n ++ slots.drop (dst + n))

variable {slots : List α} {i count : Nat} {x : α}

theorem length_memmove {dst src n : Nat} (hdst : dst + n ≤ slots.length) (hsrc : src + n ≤ slots.length) :
    (memmove slots dst src n).length = slots.length := by
  simp only [memmove, List.length_append, List.length_take, List.length_drop]
  omega

theorem memmove_zero (dst src : Nat) : memmove slots dst src 0 = slots := by
  rw [memmove, List.take_zero, List.nil_append, Nat.add_zero, List.take_append_drop]

theorem take_memmove {dst k : Nat} (src n : Nat) (hk : k ≤ dst) (hdst : dst ≤ slots.length) :
    (memmove slots dst src n).take k = slots.take k := by
  rw [memmove, List.take_append_of_le_length (by rw [List.length_take]; omega), List.take_take, Nat.min_eq_left hk]

theorem drop_memmove {dst : Nat} (src n : Nat) (hdst : dst ≤ slots.length) :
    (memmove slots dst src n).drop dst = (slots.drop src).take n ++ slots.drop (dst + n) := by
  rw [memmove, List.drop_left' (by rw [List.length_take]; omega)]

theorem take_open_slot (hi : i ≤ count) (hcount : count < slots.length) :
    ((memmove slots (i + 1) i (count - i)).set i x).take (count + 1) =
      slots.take i ++ x :: (slots.take count).drop i := by
  have hlen : i < (memmove slots (i + 1) i (count - i)).length := by
    rw [length_memmove (by omega) (by omega)]
    omega
  have hfirst : (slots.take i).length = i := by
    rw [List.length_take]
    omega
  have hmoved : ((slots.drop i).take (count - i)).length = count - i := by
    rw [List.length_take, List.length_drop]
    omega
  have hsplit : count + 1 = (slots.take i).length + (count - i + 1) := by omega
  rw [List.set_eq_take_append_cons_drop, if_pos hlen, take_memmove _ _ (Nat.le_succ i) (by omega),
    drop_memmove _ _ (by omega), hsplit, List.take_length_add_append, List.take_succ_cons, List.take_left' hmoved,
    List.drop_take]

end CLib
