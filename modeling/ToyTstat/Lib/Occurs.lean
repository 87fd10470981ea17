import Mathlib.Data.List.Infix
import Mathlib.Order.Bounds.Basic

/-!
# Where a list occurs in another

The lists are compared by reading them element by element, and a read may have no value.
-/

namespace CLib

variable {α : Type*}

/-! ## Occurrences -/

/-- The indexes at which all of `needle` is in `hay`. -/
def occurrences (needle hay : List α) : Set Nat := {i | i + needle.length ≤ hay.length ∧ needle <+: hay.drop i}

variable {needle hay : List α} {i : Nat}

theorem occurrences_nil (hay : List α) : occurrences [] hay = Set.Iic hay.length := by
  ext i
  simp [occurrences]

theorem occurrences_of_longer (h : hay.length < needle.length) : occurrences needle hay = ∅ := by
  ext i
  simp only [occurrences, Set.mem_ofPred_eq, Set.mem_empty_iff_false, iff_false, not_and]
  intro hi
  omega

theorem mem_occurrences_last (h : needle.length ≤ hay.length) :
    hay.length - needle.length ∈ occurrences needle hay ↔ needle <:+ hay := by
  have hlen : (hay.drop (hay.length - needle.length)).length = needle.length := by
    rw [List.length_drop]
    omega
  rw [List.suffix_iff_eq_drop]
  constructor
  · intro ⟨_, hpre⟩
    exact hpre.eq_of_length hlen.symm
  · intro heq
    exact ⟨by omega, by rw [← heq]⟩

/-! ## Reading -/

/-- Reading `f` yields the elements of `u`. What it yields behind them is not known. -/
def Reads (f : Nat → Option α) (u : List α) : Prop := ∀ i, (h : i < u.length) → f i = some u[i]

variable [DecidableEq α]

/-- Where two readings first differ, if they do so in the next `left` steps. -/
def agree (f g : Nat → Option α) : Nat → Nat → Option Nat
  | 0, i => some i
  | left + 1, i => (f i).bind fun a => (g i).bind fun b => if a ≠ b then some i else agree f g left (i + 1)

variable {f g : Nat → Option α} {u v : List α}

/-- The second list is read up to its end exactly if it is a prefix of the first. -/
theorem agree_spec (hf : Reads f u) (hg : Reads g v) (huv : v.length ≤ u.length) (left i : Nat)
    (hleft : i + left = v.length) :
    ∃ k, agree f g left i = some k ∧ (k = v.length ↔ v.drop i <+: u.drop i) := by
  induction left generalizing i with
  | zero =>
    have hi : i = v.length := hleft
    refine ⟨i, rfl, ?_⟩
    rw [List.drop_eq_nil_of_le (Nat.le_of_eq hi.symm)]
    simpa using hi
  | succ left ih =>
    have hi : i < v.length := by omega
    rw [agree, hf i (by omega), hg i hi, List.drop_eq_getElem_cons hi,
      List.drop_eq_getElem_cons (Nat.lt_of_lt_of_le hi huv), List.cons_prefix_cons]
    by_cases hne : u[i] ≠ v[i]
    · refine ⟨i, by simp [hne], ?_⟩
      simp [Ne.symm hne, Nat.ne_of_lt hi]
    · obtain ⟨k, hk, hiff⟩ := ih (i + 1) (by omega)
      rw [not_not] at hne
      exact ⟨k, by simp [hne, hk], by simp [hne, hiff]⟩

theorem agree_longer (hf : f u.length = none) (left i : Nat) (hi : i ≤ u.length) (hlong : u.length < i + left) :
    agree f g left i ≠ some (i + left) := by
  induction left generalizing i with
  | zero => omega
  | succ left ih =>
    rw [agree]
    rcases Nat.lt_or_eq_of_le hi with hlt | rfl
    · rcases f i with _ | a
      · simp
      rcases g i with _ | b
      · simp
      have := ih (i + 1) hlt (by omega)
      by_cases hne : a ≠ b
      · simp [hne]
      · rw [not_not] at hne
        simpa [hne, Nat.add_assoc, Nat.add_comm 1] using this
    · simp [hf]

end CLib
