import Mathlib.Data.List.Infix

/-!
# Trimming lists

What is left of a list when the elements that satisfy a predicate are taken off one end or both.
-/

namespace CLib

variable {α : Type*} {p : α → Bool} {s t a c : List α} {b : α}

/-- The longest suffix whose first element fails `p`, where the empty one has none. -/
def LongestSuffix (p : α → Bool) (s t : List α) : Prop :=
  (t <:+ s ∧ ∀ x ∈ t.head?, p x = false) ∧ ∀ u, u <:+ s → (∀ x ∈ u.head?, p x = false) → u.length ≤ t.length

/-- The longest prefix whose last element fails `p`, where the empty one has none. -/
def LongestPrefix (p : α → Bool) (s t : List α) : Prop :=
  (t <+: s ∧ ∀ x ∈ t.getLast?, p x = false) ∧ ∀ u, u <+: s → (∀ x ∈ u.getLast?, p x = false) → u.length ≤ t.length

/-- From the first to the last element that fails `p`, or nothing if none does. -/
def FirstToLast (p : α → Bool) (s t : List α) : Prop :=
  (t = [] ∧ ∀ x ∈ s, p x) ∨
    ∃ a c, s = a ++ (t ++ c) ∧ (∀ x ∈ a, p x) ∧ (∀ x ∈ c, p x) ∧
      (∃ x ∈ t.head?, p x = false) ∧ ∃ x ∈ t.getLast?, p x = false

theorem suffix_length_le (ha : ∀ x ∈ a, p x) {u : List α} (hu : u <:+ a ++ c) (hhead : ∀ x ∈ u.head?, p x = false) :
    u.length ≤ c.length := by
  -- no suffix that begins with a failing element is longer than the one that begins with the first of them
  obtain ⟨v, hv⟩ := hu
  rcases List.append_eq_append_iff.mp hv with ⟨w, rfl, rfl⟩ | ⟨w, rfl, rfl⟩
  · cases w with
    | nil => exact Nat.le_refl _
    | cons x w =>
      have hx : p x = true := ha x (by simp)
      rw [hhead x rfl] at hx
      cases hx
  · rw [List.length_append]
    exact Nat.le_add_left _ _

theorem longestSuffix_iff (ha : ∀ x ∈ a, p x) (hb : p b = false) : LongestSuffix p (a ++ b :: c) t ↔ t = b :: c := by
  have hcut : b :: c <:+ a ++ b :: c := List.suffix_append _ _
  have hhead : ∀ x ∈ (b :: c).head?, p x = false := by
    intro x hx
    obtain rfl : b = x := Option.some.inj hx
    exact hb
  constructor
  · rintro ⟨⟨hsuffix, ht⟩, hlongest⟩
    have hlen : t.length = (b :: c).length :=
      Nat.le_antisymm (suffix_length_le ha hsuffix ht) (hlongest _ hcut hhead)
    exact (List.suffix_of_suffix_length_le hsuffix hcut (Nat.le_of_eq hlen)).eq_of_length hlen
  · rintro rfl
    exact ⟨⟨hcut, hhead⟩, fun u hu hx => suffix_length_le ha hu hx⟩

theorem longestSuffix_all (hs : ∀ x ∈ s, p x) : LongestSuffix p s t ↔ t = [] := by
  have hnil (u : List α) (hu : u <:+ s) (hhead : ∀ x ∈ u.head?, p x = false) : u.length ≤ 0 :=
    suffix_length_le (c := []) hs (by rwa [List.append_nil]) hhead
  constructor
  · rintro ⟨⟨hsuffix, ht⟩, -⟩
    exact List.length_eq_zero_iff.mp (Nat.le_zero.mp (hnil t hsuffix ht))
  · rintro rfl
    exact ⟨⟨List.nil_suffix, by simp⟩, hnil⟩

theorem longestPrefix_reverse : LongestPrefix p s t ↔ LongestSuffix p s.reverse t.reverse := by
  have hlen (l : List α) : l.length = l.reverse.length := List.length_reverse.symm
  constructor
  · rintro ⟨⟨hpre, ht⟩, hlongest⟩
    refine ⟨⟨List.reverse_suffix.mpr hpre, by rwa [List.head?_reverse]⟩, fun u hu hx => ?_⟩
    rw [List.length_reverse, hlen u]
    apply hlongest
    · rwa [← List.reverse_suffix, List.reverse_reverse]
    · rwa [List.getLast?_reverse]
  · rintro ⟨⟨hsuf, ht⟩, hlongest⟩
    refine ⟨⟨List.reverse_suffix.mp hsuf, by rwa [← List.head?_reverse]⟩, fun u hu hx => ?_⟩
    rw [hlen u, hlen t]
    exact hlongest _ (List.reverse_suffix.mpr hu) (by rwa [List.head?_reverse])

theorem longestPrefix_iff (hc : ∀ x ∈ c, p x) (hb : p b = false) :
    LongestPrefix p (a ++ b :: c) t ↔ t = a ++ [b] := by
  have hrev : (a ++ b :: c).reverse = c.reverse ++ b :: a.reverse := by simp
  have ht : t = a ++ [b] ↔ t.reverse = b :: a.reverse := by
    rw [← List.reverse_inj, List.reverse_append]
    rfl
  rw [longestPrefix_reverse, hrev, longestSuffix_iff (fun x hx => hc x (List.mem_reverse.mp hx)) hb, ht]

theorem longestPrefix_all (hs : ∀ x ∈ s, p x) : LongestPrefix p s t ↔ t = [] := by
  rw [longestPrefix_reverse, longestSuffix_all (fun x hx => hs x (List.mem_reverse.mp hx)), List.reverse_eq_nil_iff]

theorem FirstToLast.countP_eq (h : FirstToLast p s t) : t.countP (fun x => !p x) = s.countP (fun x => !p x) := by
  have hzero {l : List α} (hl : ∀ x ∈ l, p x) : l.countP (fun x => !p x) = 0 := by
    rw [List.countP_eq_zero]
    intro x hx
    simp [hl x hx]
  rcases h with ⟨rfl, hs⟩ | ⟨a, c, rfl, ha, hc, -, -⟩
  · rw [hzero hs, List.countP_nil]
  · rw [List.countP_append, List.countP_append, hzero ha, hzero hc, Nat.zero_add, Nat.add_zero]

theorem firstToLast_all (hs : ∀ x ∈ s, p x) : FirstToLast p s t ↔ t = [] := by
  constructor
  · rintro (⟨rfl, -⟩ | ⟨a, c, rfl, -, -, ⟨x, hx, hfails⟩, -⟩)
    · rfl
    · have hmem : x ∈ a ++ (t ++ c) := by simp [List.mem_of_mem_head? hx]
      rw [hs x hmem] at hfails
      cases hfails
  · rintro rfl
    exact Or.inl ⟨rfl, hs⟩

end CLib
