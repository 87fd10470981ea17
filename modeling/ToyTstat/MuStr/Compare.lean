import ToyTstat.Lib.ByteOrder
import ToyTstat.MuStr.Search

/-!
# Comparing

`mu_str_compare` yields the difference of the first bytes that differ, or else of the lengths. The prefix
and suffix tests are comparisons with a slice.
-/

open CLib ToyTstat.Code

namespace ToyTstat.MuStr

variable {a b c : mu_str_t} {s t u : List Byte}

theorem compare_loop_spec (ha : Text a s) (hb : Text b t) (hs : s.length ≤ INT_MAX) (left i : Nat)
    (hi : i + left = min s.length t.length) :
    ∃ d, compare_loop a.bytes b.bytes left i = some d ∧
      (if d ≠ 0 then d else (s.length : Int) - t.length) = lexDifference (s.drop i) (t.drop i) := by
  -- from index `i` on, when the bytes before it are equal
  induction left generalizing i with
  | zero =>
    refine ⟨0, rfl, ?_⟩
    have hend : lexDifference (s.drop i) (t.drop i) = ((s.drop i).length : Int) - (t.drop i).length := by
      have hnil : s.drop i = [] ∨ t.drop i = [] := by
        rw [List.drop_eq_nil_iff, List.drop_eq_nil_iff]
        omega
      rcases hnil with hnil | hnil <;> rw [hnil] <;> simp [lexDifference]
    rw [hend, List.length_drop, List.length_drop, if_neg (by simp)]
    omega
  | succ left ih =>
    have hsi : i < s.length := by omega
    have hti : i < t.length := by omega
    rw [compare_loop, ha.bytes i hsi, hb.bytes i hti, int_inc_of_lt (by omega), List.drop_eq_getElem_cons hsi,
      List.drop_eq_getElem_cons hti, lexDifference]
    by_cases heq : s[i] = t[i]
    · obtain ⟨d, hd, hvalue⟩ := ih (i + 1) (by omega)
      exact ⟨d, by simp [heq, hd], by rw [if_pos heq, hvalue]⟩
    · have hne : (s[i].toNat : Int) - t[i].toNat ≠ 0 := fun h => heq (UInt8.toNat.inj (by omega))
      exact ⟨(s[i].toNat : Int) - t[i].toNat, by simp [hne], by rw [if_pos hne, if_neg heq]⟩

theorem compare_eq (ha : Text a s) (hb : Text b t) (hs : s.length ≤ INT_MAX) (ht : t.length ≤ INT_MAX) :
    mu_str_compare a b = some (lexDifference s t) := by
  have hmin : (if s.length < t.length then s.length else t.length) = min s.length t.length := by
    split <;> omega
  obtain ⟨d, hd, hvalue⟩ := compare_loop_spec ha hb hs (min s.length t.length) 0 (Nat.zero_add _)
  rw [List.drop_zero, List.drop_zero] at hvalue
  rw [mu_str_compare, str_compare_aux, mu_str_bytes, mu_str_bytes, mu_str_length, mu_str_length, ha.len, hb.len]
  simp only [hmin, hd, int_sub_lengths hs ht, hvalue, Option.bind_eq_bind, Option.bind_some]
  rfl

/-! ## Comparing with a slice -/

theorem compare_zero_iff (ha : Text a s) (hb : Text b t) (hs : s.length ≤ INT_MAX) (ht : t.length ≤ INT_MAX) :
    mu_str_compare a b = some 0 ↔ s = t := by
  rw [compare_eq ha hb hs ht, Option.some.injEq, lexDifference_eq_zero_iff]

theorem prefix_iff_slice (ha : Text a s) (hb : Text b t) (hs : s.length ≤ INT_MAX) (ht : t.length ≤ INT_MAX) :
    t <+: s ↔ b.len ≤ a.len ∧
      ∃ dst, mu_str_slice a 0 (Int64.ofNat b.len) = some dst ∧ mu_str_compare b dst = some 0 := by
  have hlen : a.len < 2 ^ 63 - 1 := by
    rw [ha.len]
    unfold INT_MAX at hs
    omega
  rw [ha.len, hb.len]
  constructor
  · intro hpre
    have hroom := hpre.length_le
    refine ⟨hroom, _, slice_between hlen (Nat.zero_le _) (by rwa [ha.len]), ?_⟩
    have htext := ha.subView (s := 0) hroom
    rw [List.drop_zero, ← List.prefix_iff_eq_take.mp hpre] at htext
    exact (compare_zero_iff hb htext ht ht).mpr rfl
  · rintro ⟨hroom, dst, hdst, hzero⟩
    obtain rfl := Option.some.inj ((slice_between hlen (Nat.zero_le _) (by rwa [ha.len])).symm.trans hdst)
    have htext := ha.subView (s := 0) hroom
    rw [List.drop_zero] at htext
    have htake : (s.take t.length).length ≤ INT_MAX := by
      rw [List.length_take]
      omega
    exact List.prefix_iff_eq_take.mpr ((compare_zero_iff hb htext ht htake).mp hzero)

theorem suffix_iff_slice (ha : Text a s) (hb : Text b t) (hs : s.length ≤ INT_MAX) (ht : t.length ≤ INT_MAX) :
    t <:+ s ↔ b.len ≤ a.len ∧
      ∃ dst, mu_str_slice a (Int64.ofNat (a.len - b.len)) MU_STR_END = some dst ∧ mu_str_compare b dst = some 0 := by
  have hlen : a.len < 2 ^ 63 - 1 := by
    rw [ha.len]
    unfold INT_MAX at hs
    omega
  have htext := ha.subView (s := a.len - b.len) (e := a.len) (Nat.le_of_eq ha.len)
  rw [show s.take a.len = s by rw [ha.len, List.take_length], ha.len, hb.len] at htext
  rw [ha.len, hb.len]
  have hcut : mu_str_slice a (Int64.ofNat (s.length - t.length)) MU_STR_END =
      some (subView a (s.length - t.length) s.length) := by
    rw [slice_to_end hlen (by rw [ha.len]; omega), ha.len]
  rw [hcut]
  constructor
  · intro hsuffix
    refine ⟨hsuffix.length_le, _, rfl, ?_⟩
    rw [← List.suffix_iff_eq_drop.mp hsuffix] at htext
    exact (compare_zero_iff hb htext ht ht).mpr rfl
  · rintro ⟨hroom, dst, hdst, hzero⟩
    obtain rfl := Option.some.inj hdst
    have hdrop : (s.drop (s.length - t.length)).length ≤ INT_MAX := by
      rw [List.length_drop]
      omega
    exact List.suffix_iff_eq_drop.mpr ((compare_zero_iff hb htext ht hdrop).mp hzero)

/-! ## One order -/

/-- The comparison is the order of byte strings, and the tests for a prefix and a suffix agree with it. -/
structure CompareCorrect (a b c : mu_str_t) (s t u : List Byte) : Prop where
  order : ∃ r, mu_str_compare a b = some r ∧ (r < 0 ↔ s < t) ∧ (r = 0 ↔ s = t) ∧ (0 < r ↔ t < s)
  antisymmetric : ∀ r r', mu_str_compare a b = some r → mu_str_compare b a = some r' → r'.sign = -r.sign
  transitive : ∀ r r' r'', mu_str_compare a b = some r → mu_str_compare b c = some r' →
    mu_str_compare a c = some r'' → (r < 0 → r' < 0 → r'' < 0) ∧ (r ≤ 0 → r' ≤ 0 → r'' ≤ 0)
  has_prefix : ∃ v, mu_str_has_prefix a b = some v ∧ (v = true ↔ b.len ≤ a.len ∧
    ∃ dst, mu_str_slice a 0 (Int64.ofNat b.len) = some dst ∧ mu_str_compare b dst = some 0)
  has_suffix : ∃ v, mu_str_has_suffix a b = some v ∧ (v = true ↔ b.len ≤ a.len ∧
    ∃ dst, mu_str_slice a (Int64.ofNat (a.len - b.len)) MU_STR_END = some dst ∧ mu_str_compare b dst = some 0)

theorem compare_correct (a b c : mu_str_t) (s t u : List Byte) (ha : Text a s) (hb : Text b t) (hc : Text c u)
    (hs : s.length ≤ INT_MAX) (ht : t.length ≤ INT_MAX) (hu : u.length ≤ INT_MAX) : CompareCorrect a b c s t u := by
  constructor
  case order =>
    exact ⟨_, compare_eq ha hb hs ht, lexDifference_neg_iff s t, lexDifference_eq_zero_iff s t,
      lexDifference_pos_iff s t⟩
  case antisymmetric =>
    intro r r' hr hr'
    obtain rfl := Option.some.inj ((compare_eq ha hb hs ht).symm.trans hr)
    obtain rfl := Option.some.inj ((compare_eq hb ha ht hs).symm.trans hr')
    rw [lexDifference_swap, Int.sign_neg]
  case transitive =>
    intro r r' r'' hr hr' hr''
    obtain rfl := Option.some.inj ((compare_eq ha hb hs ht).symm.trans hr)
    obtain rfl := Option.some.inj ((compare_eq hb hc ht hu).symm.trans hr')
    obtain rfl := Option.some.inj ((compare_eq ha hc hs hu).symm.trans hr'')
    simp only [lexDifference_neg_iff, lexDifference_le_iff]
    refine ⟨List.lt_trans, ?_⟩
    rintro (hst | rfl) htu
    · rcases htu with htu | rfl
      · exact Or.inl (List.lt_trans hst htu)
      · exact Or.inl hst
    · exact htu
  case has_prefix =>
    refine ⟨_, has_prefix_eq ha hb, ?_⟩
    rw [decide_eq_true_eq]
    exact prefix_iff_slice ha hb hs ht
  case has_suffix =>
    refine ⟨_, has_suffix_eq ha hb, ?_⟩
    rw [decide_eq_true_eq]
    exact suffix_iff_slice ha hb hs ht

theorem compare_correct_ab :
    CompareCorrect ⟨⟨ascii "ab", 0⟩, 2⟩ ⟨⟨ascii "b", 0⟩, 1⟩ ⟨⟨ascii "ba", 0⟩, 2⟩ (ascii "ab") (ascii "b")
      (ascii "ba") :=
  compare_correct _ _ _ _ _ _ (text_alone (ascii "ab")) (text_alone (ascii "b")) (text_alone (ascii "ba"))
    (by decide) (by decide) (by decide)

end ToyTstat.MuStr
