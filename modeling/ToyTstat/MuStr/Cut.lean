import ToyTstat.MuStr.Search

/-!
# Cutting a string in two

The same search with both values of `skip_substr` gives the two ends of the needle, and the slices up to
the first and from the second on are what is before it and what is behind it.
-/

open CLib ToyTstat.Code

namespace ToyTstat.MuStr

variable {h n : mu_str_t} {hay needle : List Byte} {i : Nat}

theorem occurrences_split (hi : i ∈ occurrences needle hay) :
    hay = hay.take i ++ needle ++ hay.drop (i + needle.length) := by
  obtain ⟨rest, hrest⟩ := hi.2
  have hdrop : hay.drop (i + needle.length) = rest := by
    rw [← List.drop_drop, ← hrest, List.drop_left]
  rw [hdrop, List.append_assoc, hrest, List.take_append_drop]

theorem occurrences_of_split {s t : List Byte} (hsplit : hay = s ++ needle ++ t) :
    s.length ∈ occurrences needle hay := by
  subst hsplit
  refine ⟨by simp only [List.length_append]; omega, ?_⟩
  rw [List.append_assoc, List.drop_left]
  exact List.prefix_append needle t

/-- The search and the slices cut the haystack at the occurrence that `Pick` singles out. -/
def CutsAt (Pick : Set Nat → Nat → Prop) (find : mu_str_t → mu_str_t → Bool → Option Nat) (h n : mu_str_t)
    (hay needle : List Byte) : Prop :=
  ∃ i j before after s t, find h n false = some i ∧ find h n true = some j ∧
    mu_str_slice h 0 (Int64.ofNat i) = some before ∧ Text before s ∧
    mu_str_slice h (Int64.ofNat j) MU_STR_END = some after ∧ Text after t ∧
    hay = s ++ needle ++ t ∧ Pick (occurrences needle hay) s.length

/-- The haystack is cut, or it does not have the needle in it and both searches say so. -/
def Cuts (Pick : Set Nat → Nat → Prop) (find : mu_str_t → mu_str_t → Bool → Option Nat) (h n : mu_str_t)
    (hay needle : List Byte) : Prop :=
  CutsAt Pick find h n hay needle ∨
    (find h n false = some MU_STR_NOT_FOUND ∧ find h n true = some MU_STR_NOT_FOUND ∧
      ∀ s t, hay ≠ s ++ needle ++ t)

theorem cuts_at {Pick : Set Nat → Nat → Prop} {find : mu_str_t → mu_str_t → Bool → Option Nat} (hh : Text h hay)
    (hhay : hay.length ≤ INT_MAX) (hmem : i ∈ occurrences needle hay) (hpick : Pick (occurrences needle hay) i)
    (hbegin : find h n false = some i) (hend : find h n true = some (i + needle.length)) :
    CutsAt Pick find h n hay needle := by
  have hroom := hmem.1
  have hlen : h.len < 2 ^ 63 - 1 := by
    rw [hh.len]
    unfold INT_MAX at hhay
    omega
  have hbefore := hh.subView (s := 0) (show i ≤ hay.length by omega)
  have hafter := hh.subView (s := i + needle.length) (e := h.len) hh.len.le
  rw [List.drop_zero] at hbefore
  rw [hh.len, List.take_length] at hafter
  refine ⟨i, _, _, _, _, _, hbegin, hend, ?_, hbefore, ?_, hafter, occurrences_split hmem, ?_⟩
  · exact slice_between hlen (Nat.zero_le i) (by rw [hh.len]; omega)
  · rw [← hh.len]
    exact slice_to_end hlen (by rw [hh.len]; exact hroom)
  · rwa [List.length_take_of_le (by omega)]

theorem cuts_of_searches {Pick : Set Nat → Nat → Prop} {find : mu_str_t → mu_str_t → Bool → Option Nat}
    (hmem : ∀ S i, Pick S i → i ∈ S) (hunique : ∀ S i j, Pick S i → Pick S j → i = j) (hh : Text h hay)
    (hhay : hay.length ≤ INT_MAX)
    (hfind : ∀ skip, ∃ r, find h n skip = some r ∧ SearchResult Pick needle hay skip r) :
    Cuts Pick find h n hay needle := by
  obtain ⟨r, hr, hfirst⟩ := hfind false
  obtain ⟨r', hr', hsecond⟩ := hfind true
  rcases hfirst with ⟨i, hi, rfl⟩ | ⟨hnone, rfl⟩
  · rcases hsecond with ⟨j, hj, rfl⟩ | ⟨hnone, -⟩
    · obtain rfl := hunique _ _ _ hi hj
      exact .inl (cuts_at hh hhay (hmem _ _ hi) hi hr hr')
    · have hin := hmem _ _ hi
      rw [hnone] at hin
      exact absurd hin (Set.notMem_empty _)
  · rcases hsecond with ⟨j, hj, -⟩ | ⟨-, rfl⟩
    · have hin := hmem _ _ hj
      rw [hnone] at hin
      exact absurd hin (Set.notMem_empty _)
    · refine .inr ⟨hr, hr', fun s t hsplit => ?_⟩
      have hin := occurrences_of_split hsplit
      rw [hnone] at hin
      exact absurd hin (Set.notMem_empty s.length)

/-- `mu_str_find` cuts at the first occurrence, and `mu_str_rfind` at the last one. -/
theorem searches_cut (h n : mu_str_t) (hay needle : List Byte) (hh : Text h hay) (hn : Text n needle)
    (hhay : hay.length ≤ INT_MAX) (hneedle : needle.length ≤ hay.length) :
    Cuts IsLeast mu_str_find h n hay needle ∧ Cuts IsGreatest mu_str_rfind h n hay needle := by
  constructor
  · refine cuts_of_searches (fun _ _ hi => hi.1) (fun _ _ _ hi hj => hi.unique hj) hh hhay fun skip => ?_
    exact find_aux_spec hh hn hhay hneedle skip
  · refine cuts_of_searches (fun _ _ hi => hi.1) (fun _ _ _ hi hj => hi.unique hj) hh hhay fun skip => ?_
    exact rfind_aux_spec hh hn hhay (hneedle.trans hhay) skip

/-- A key and a value. -/
theorem searches_cut_key :
    Cuts IsLeast mu_str_find ⟨⟨ascii "mode=a=b", 0⟩, 8⟩ ⟨⟨ascii "=", 0⟩, 1⟩ (ascii "mode=a=b") (ascii "=") ∧
      Cuts IsGreatest mu_str_rfind ⟨⟨ascii "mode=a=b", 0⟩, 8⟩ ⟨⟨ascii "=", 0⟩, 1⟩ (ascii "mode=a=b") (ascii "=") :=
  searches_cut _ _ _ _ (text_alone (ascii "mode=a=b")) (text_alone (ascii "=")) (by decide) (by decide)

end ToyTstat.MuStr
