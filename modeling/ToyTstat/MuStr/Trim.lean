import ToyTstat.Lib.Trim
import ToyTstat.MuStr.Slice

/-!
# Matching and trimming

`mu_str_match` and `mu_str_rmatch` find the first and the last byte for which the predicate answers
`break_if`. The trimming functions cut the string there.
-/

open CLib ToyTstat.Code

namespace ToyTstat.MuStr

variable {α : Type} (predicate : Byte → α → Bool) (arg : α) (break_if : Bool)

/-! ## Matching -/

theorem match_loop_spec {bytes : Pointer} (before rest : List Byte) (hbytes : bytes.Holds (before ++ rest))
    (hbefore : ∀ x ∈ before, predicate x arg ≠ break_if) :
    (∃ a b c, before ++ rest = a ++ b :: c ∧ predicate b arg = break_if ∧ (∀ x ∈ a, predicate x arg ≠ break_if) ∧
      match_loop predicate arg bytes break_if rest.length before.length = some a.length) ∨
    ((∀ x ∈ before ++ rest, predicate x arg ≠ break_if) ∧
      match_loop predicate arg bytes break_if rest.length before.length = some MU_STR_NOT_FOUND) := by
  -- the first byte that answers `break_if`, or that there is none, when the bytes of `before` do not
  induction rest generalizing before with
  | nil =>
    rw [List.append_nil]
    exact Or.inr ⟨hbefore, rfl⟩
  | cons b rest ih =>
    have hread : bytes.read before.length = some b := by
      rw [hbytes before.length (by simp)]
      simp
    by_cases hb : predicate b arg = break_if
    · refine Or.inl ⟨before, b, rest, rfl, hb, hbefore, ?_⟩
      rw [List.length_cons, match_loop, hread]
      simp [hb]
    · have hnext := ih (before ++ [b]) (by simpa using hbytes) (by
        intro x hx
        rcases List.mem_append.mp hx with hx | hx
        · exact hbefore x hx
        · rwa [List.mem_singleton.mp hx])
      have hstep : match_loop predicate arg bytes break_if (b :: rest).length before.length =
          match_loop predicate arg bytes break_if rest.length (before ++ [b]).length := by
        rw [List.length_cons, match_loop, hread]
        simp [hb]
      rwa [hstep, List.append_cons]

theorem rmatch_loop_spec {bytes : Pointer} (rest after : List Byte) (hbytes : bytes.Holds (rest ++ after))
    (hafter : ∀ x ∈ after, predicate x arg ≠ break_if) :
    (∃ a b c, rest ++ after = a ++ b :: c ∧ predicate b arg = break_if ∧ (∀ x ∈ c, predicate x arg ≠ break_if) ∧
      rmatch_loop predicate arg bytes break_if rest.length = some a.length) ∨
    ((∀ x ∈ rest ++ after, predicate x arg ≠ break_if) ∧
      rmatch_loop predicate arg bytes break_if rest.length = some MU_STR_NOT_FOUND) := by
  -- the last byte that answers `break_if`, or that there is none, when the bytes of `after` do not
  induction rest using List.reverseRecOn generalizing after with
  | nil => exact Or.inr ⟨hafter, rfl⟩
  | append_singleton rest b ih =>
    rw [List.append_assoc, List.singleton_append] at hbytes
    have hread : bytes.read rest.length = some b := by
      rw [hbytes rest.length (by simp)]
      simp
    rw [List.length_append, List.length_singleton, List.append_assoc, List.singleton_append, rmatch_loop, hread]
    by_cases hb : predicate b arg = break_if
    · exact Or.inl ⟨rest, b, after, rfl, hb, hafter, by simp [hb]⟩
    · have hnext := ih (b :: after) hbytes (by
        intro x hx
        rcases List.mem_cons.mp hx with rfl | hx
        · exact hb
        · exact hafter x hx)
      simpa [hb] using hnext

/-! ## Trimming -/

variable {str : mu_str_t} {s : List Byte}

theorem not_found_of_lt (hlen : s.length < 2 ^ 63 - 1) {i : Nat} (hi : i ≤ s.length) : i ≠ MU_STR_NOT_FOUND := by
  unfold MU_STR_NOT_FOUND PTRDIFF_MAX
  omega

section

variable (h : Text str s) (hlen : s.length < 2 ^ 63 - 1)
include h hlen

theorem ltrim_spec :
    (∃ a b c, s = a ++ b :: c ∧ predicate b arg = false ∧ (∀ x ∈ a, predicate x arg = true) ∧
      ∃ dst, mu_str_ltrim predicate arg str = some dst ∧ Text dst (b :: c)) ∨
    (∀ x ∈ s, predicate x arg = true) ∧ mu_str_ltrim predicate arg str = some str := by
  have hmatch := match_loop_spec predicate arg false [] s h.bytes (by simp)
  rw [List.nil_append, List.length_nil, ← h.len] at hmatch
  simp only [ne_eq, Bool.not_eq_false] at hmatch
  rcases hmatch with ⟨a, b, c, rfl, hb, ha, hidx⟩ | ⟨hall, hidx⟩
  · have hi : a.length ≤ (a ++ b :: c).length := by simp
    refine Or.inl ⟨a, b, c, rfl, hb, ha, subView str a.length str.len, ?_, ?_⟩
    · rw [mu_str_ltrim, mu_str_match, mu_str_length, mu_str_bytes, hidx]
      simp only [Option.bind_eq_bind, Option.bind_some, if_neg (not_found_of_lt hlen hi)]
      exact slice_to_end (by rwa [h.len]) (by rwa [h.len])
    · have htext := h.subView (s := a.length) (e := str.len) (by rw [h.len])
      rwa [h.len, List.take_length, List.drop_left, ← h.len] at htext
  · refine Or.inr ⟨hall, ?_⟩
    rw [mu_str_ltrim, mu_str_match, mu_str_length, mu_str_bytes, hidx]
    rfl

theorem rtrim_spec :
    (∃ a b c, s = a ++ b :: c ∧ predicate b arg = false ∧ (∀ x ∈ c, predicate x arg = true) ∧
      ∃ dst, mu_str_rtrim predicate arg str = some dst ∧ Text dst a) ∨
    (∀ x ∈ s, predicate x arg = true) ∧ mu_str_rtrim predicate arg str = some str := by
  have hmatch := rmatch_loop_spec predicate arg false s []
    (by rw [List.append_nil]; exact h.bytes) (by simp)
  rw [List.append_nil, ← h.len] at hmatch
  simp only [ne_eq, Bool.not_eq_false] at hmatch
  rcases hmatch with ⟨a, b, c, rfl, hb, hc, hidx⟩ | ⟨hall, hidx⟩
  · have hi : a.length ≤ (a ++ b :: c).length := by simp
    refine Or.inl ⟨a, b, c, rfl, hb, hc, subView str 0 a.length, ?_, ?_⟩
    · rw [mu_str_rtrim, mu_str_rmatch, mu_str_length, mu_str_bytes, hidx]
      simp only [Option.bind_eq_bind, Option.bind_some, if_neg (not_found_of_lt hlen hi)]
      exact slice_between (by rwa [h.len]) (Nat.zero_le _) (by rwa [h.len])
    · have htext := h.subView (s := 0) hi
      rwa [List.take_left, List.drop_zero] at htext
  · refine Or.inr ⟨hall, ?_⟩
    rw [mu_str_rtrim, mu_str_rmatch, mu_str_length, mu_str_bytes, hidx]
    rfl

end

/-! ## Left trim -/

/-- The longest suffix whose first byte fails the predicate is left. -/
def LtrimCorrect (predicate : Byte → α → Bool) (arg : α) (str : mu_str_t) (s : List Byte) : Prop :=
  ∃ dst t, mu_str_ltrim predicate arg str = some dst ∧ Text dst t ∧ LongestSuffix (predicate · arg) s t

/-- Left trim is right unless there are bytes and all of them are to be trimmed. -/
theorem ltrim_correct_iff (predicate : Byte → α → Bool) (arg : α) (str : mu_str_t) (s : List Byte) (h : Text str s)
    (hlen : s.length < 2 ^ 63 - 1) :
    LtrimCorrect predicate arg str s ↔ s = [] ∨ ∃ b ∈ s, predicate b arg = false := by
  rcases ltrim_spec predicate arg h hlen with
    ⟨a, b, c, rfl, hb, ha, dst, hdst, htext⟩ | ⟨hall, hstr⟩
  · have hcut := (longestSuffix_iff (p := (predicate · arg)) (c := c) ha hb).mpr rfl
    exact iff_of_true ⟨dst, _, hdst, htext, hcut⟩ (Or.inr ⟨b, by simp, hb⟩)
  · constructor
    · rintro ⟨dst, t, hdst, htext, hsuffix⟩
      rw [hstr, Option.some.injEq] at hdst
      subst hdst
      rw [longestSuffix_all hall] at hsuffix
      exact Or.inl ((h.unique htext).trans hsuffix)
    · rintro (rfl | ⟨b, hmem, hb⟩)
      · exact ⟨str, [], hstr, h, (longestSuffix_all hall).mpr rfl⟩
      · rw [hall b hmem] at hb
        cases hb

/-- The predicates of the tests and of the counterexamples. -/
def spaceByte (byte : Byte) (_ : Unit) : Bool := byte = ch ' '

theorem ltrim_correct_abcde : LtrimCorrect spaceByte () ⟨⟨ascii "  abcde  ", 0⟩, 9⟩ (ascii "  abcde  ") :=
  (ltrim_correct_iff spaceByte () ⟨⟨ascii "  abcde  ", 0⟩, 9⟩ (ascii "  abcde  ") (text_alone _) (by decide)).mpr
    (by decide)

/-- Two spaces stay. -/
theorem ltrim_not_correct : ¬ LtrimCorrect spaceByte () ⟨⟨ascii "  ", 0⟩, 2⟩ (ascii "  ") := by
  rintro ⟨dst, t, hdst, htext, hsuffix⟩
  have hstays : mu_str_ltrim spaceByte () ⟨⟨ascii "  ", 0⟩, 2⟩ = some ⟨⟨ascii "  ", 0⟩, 2⟩ := by decide +kernel
  rw [hstays, Option.some.injEq] at hdst
  have hall : ∀ x ∈ ascii "  ", spaceByte x () = true := by decide +kernel
  rw [← hdst, (longestSuffix_all hall).mp hsuffix] at htext
  exact absurd htext.len (by decide)

/-! ## Right trim and full trim -/

/-- The longest prefix whose last byte fails the predicate is left, or what lies between the first and the last. -/
structure TrimCorrect (predicate : Byte → α → Bool) (arg : α) (str : mu_str_t) (s : List Byte) : Prop where
  rtrim : ∃ dst t, mu_str_rtrim predicate arg str = some dst ∧ Text dst t ∧ LongestPrefix (predicate · arg) s t
  trim : ∃ dst t, mu_str_trim predicate arg str = some dst ∧ Text dst t ∧ FirstToLast (predicate · arg) s t
  rtrim_again : ∃ dst, mu_str_rtrim predicate arg str = some dst ∧ mu_str_rtrim predicate arg dst = some dst
  trim_again : ∃ dst, mu_str_trim predicate arg str = some dst ∧ mu_str_trim predicate arg dst = some dst

theorem rtrim_wrong (h : Text str s) (hlen : s.length < 2 ^ 63 - 1) {dst : mu_str_t} {t : List Byte}
    (hdst : mu_str_rtrim predicate arg str = some dst) (htext : Text dst t)
    (hpre : LongestPrefix (predicate · arg) s t) : s = [] := by
  rcases rtrim_spec predicate arg h hlen with
    ⟨a, b, c, rfl, hb, hc, d, hd, hdtext⟩ | ⟨hall, hstr⟩
  · rw [hd, Option.some.injEq] at hdst
    subst hdst
    rw [longestPrefix_iff hc hb, hdtext.unique htext] at hpre
    exact absurd (congrArg List.length hpre) (by simp)
  · rw [hstr, Option.some.injEq] at hdst
    subst hdst
    rw [longestPrefix_all hall] at hpre
    exact (h.unique htext).trans hpre

theorem trim_wrong (h : Text str s) (hlen : s.length < 2 ^ 63 - 1) {dst : mu_str_t} {t : List Byte}
    (hdst : mu_str_trim predicate arg str = some dst) (htext : Text dst t)
    (hspan : FirstToLast (predicate · arg) s t) : s = [] := by
  rcases ltrim_spec predicate arg h hlen with
    ⟨a, b, c, rfl, hb, ha, d, hd, hdtext⟩ | ⟨hall, hstr⟩
  · rw [mu_str_trim, hd, Option.bind_eq_bind, Option.bind_some] at hdst
    rw [List.length_append] at hlen
    rcases rtrim_spec predicate arg hdtext (by omega) with
      ⟨a', b', c', heq, hb', hc', d', hd', hdtext'⟩ | ⟨hall, -⟩
    · rw [hd', Option.some.injEq] at hdst
      subst hdst
      -- one failing byte less than the string has
      have hcount := hspan.countP_eq
      rw [heq, ← hdtext'.unique htext] at hcount
      simp only [List.countP_append, List.countP_cons, hb', Bool.not_false, if_true] at hcount
      omega
    · rw [hall b List.mem_cons_self] at hb
      cases hb
  · rw [mu_str_trim, hstr, Option.bind_eq_bind, Option.bind_some] at hdst
    rcases rtrim_spec predicate arg h hlen with
      ⟨a, b, c, rfl, hb, -, -⟩ | ⟨-, hstr'⟩
    · rw [hall b (by simp)] at hb
      cases hb
    · rw [hstr', Option.some.injEq] at hdst
      subst hdst
      rw [firstToLast_all hall] at hspan
      exact (h.unique htext).trans hspan

theorem ltrim_nil (h : Text str []) : mu_str_ltrim predicate arg str = some str := by
  rcases ltrim_spec predicate arg h (by decide) with ⟨a, b, c, hnil, -⟩ | ⟨-, hstr⟩
  · simp at hnil
  · exact hstr

theorem rtrim_nil (h : Text str []) : mu_str_rtrim predicate arg str = some str := by
  rcases rtrim_spec predicate arg h (by decide) with ⟨a, b, c, hnil, -⟩ | ⟨-, hstr⟩
  · simp at hnil
  · exact hstr

theorem trim_nil (h : Text str []) : mu_str_trim predicate arg str = some str := by
  rw [mu_str_trim, ltrim_nil predicate arg h, Option.bind_eq_bind, Option.bind_some, rtrim_nil predicate arg h]

/-- Right trim and full trim are right for the empty string only. -/
theorem trim_correct_iff (predicate : Byte → α → Bool) (arg : α) (str : mu_str_t) (s : List Byte) (h : Text str s)
    (hlen : s.length < 2 ^ 63 - 1) : TrimCorrect predicate arg str s ↔ s = [] := by
  constructor
  · intro hcorrect
    obtain ⟨dst, t, hdst, htext, hpre⟩ := hcorrect.rtrim
    exact rtrim_wrong predicate arg h hlen hdst htext hpre
  · rintro rfl
    have hrtrim := rtrim_nil predicate arg h
    have htrim := trim_nil predicate arg h
    have hall : ∀ x ∈ ([] : List Byte), predicate x arg = true := by simp
    exact ⟨⟨str, [], hrtrim, h, (longestPrefix_all hall).mpr rfl⟩, ⟨str, [], htrim, h, (firstToLast_all hall).mpr rfl⟩,
      ⟨str, hrtrim, hrtrim⟩, ⟨str, htrim, htrim⟩⟩

theorem trim_correct_empty : TrimCorrect spaceByte () ⟨⟨[], 0⟩, 0⟩ [] :=
  (trim_correct_iff spaceByte () ⟨⟨[], 0⟩, 0⟩ [] (text_alone []) (by decide)).mpr rfl

/-- `ab` comes out as `a`. -/
theorem trim_not_correct : ¬ TrimCorrect spaceByte () ⟨⟨ascii "ab", 0⟩, 2⟩ (ascii "ab") := by
  intro hcorrect
  obtain ⟨dst, t, hdst, htext, hpre⟩ := hcorrect.rtrim
  have hlost : mu_str_rtrim spaceByte () ⟨⟨ascii "ab", 0⟩, 2⟩ = some ⟨⟨ascii "ab", 0⟩, 1⟩ := by decide +kernel
  have hwhole := hpre.2 (ascii "ab") List.prefix_rfl (by decide +kernel)
  rw [hlost, Option.some.injEq] at hdst
  rw [← htext.len, ← hdst] at hwhole
  exact absurd hwhole (by decide)

end ToyTstat.MuStr
