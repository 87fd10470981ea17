import ToyTstat.MuStr.Slice

/-!
# Prefixes, suffixes and searching

All loops that compare two strings are one loop over two readers. `int` counters hold all indexes of
strings that are not longer than `INT_MAX`.
-/

open CLib ToyTstat.Code

namespace ToyTstat.MuStr

/-! ## The loops that compare -/

theorem prefix_loop_eq (s1 s2 : Pointer) (left idx : Nat) :
    prefix_loop s1 s2 left idx = agree (fun i => s1.read i) (fun i => s2.read i) left idx := by
  induction left generalizing idx with
  | zero => rfl
  | succ left ih =>
    simp only [prefix_loop, agree, ih]
    rfl

theorem suffix_loop_eq (s1 s2 : Pointer) (left idx : Nat) :
    suffix_loop s1 s2 left idx = agree (fun i => s1.read (-1 - i)) (fun i => s2.read (-1 - i)) left idx := by
  induction left generalizing idx with
  | zero => rfl
  | succ left ih =>
    simp only [suffix_loop, agree, ih]
    rfl

theorem rest_loop_eq (h2 needle : Pointer) {left j : Nat} (hj : j + left ≤ INT_MAX) :
    rest_loop h2 needle left j = agree (fun i => h2.read i) (fun i => needle.read i) left j := by
  induction left generalizing j with
  | zero => rfl
  | succ left ih =>
    rw [rest_loop, int_inc_of_lt (by omega), agree]
    simp only [Option.bind_eq_bind, Option.bind_some, ih (j := j + 1) (by omega)]
    rfl

variable {h n : mu_str_t} {hay needle : List Byte} {skip_substr : Bool} {i : Nat}

theorem has_prefix_eq (hh : Text h hay) (hn : Text n needle) :
    mu_str_has_prefix h n = some (decide (needle <+: hay)) := by
  unfold mu_str_has_prefix has_prefix mu_str_bytes mu_str_length
  rw [hh.len, hn.len]
  split
  case isTrue hnil =>
    rw [List.length_eq_zero_iff.mp hnil]
    simp
  split
  case isTrue hlong =>
    have hnot : ¬ needle <+: hay := fun hpre => absurd hpre.length_le (by omega)
    simp [hnot]
  case isFalse hroom =>
    obtain ⟨k, hk, hiff⟩ := agree_spec hh.bytes hn.bytes (by omega) (min hay.length needle.length) 0 (by omega)
    rw [prefix_loop_eq, hk]
    simpa using hiff

theorem has_suffix_eq (hh : Text h hay) (hn : Text n needle) :
    mu_str_has_suffix h n = some (decide (needle <:+ hay)) := by
  have hback := hh.reads_back
  have nback := hn.reads_back
  rw [hh.len] at hback
  rw [hn.len] at nback
  simp only [mu_str_has_suffix, has_suffix, mu_str_bytes, mu_str_length, hh.len, hn.len]
  split
  case isTrue hnil =>
    rw [List.length_eq_zero_iff.mp hnil]
    simp
  split
  case isTrue hlong =>
    have hnot : ¬ needle <:+ hay := fun hsuf => absurd hsuf.length_le (by omega)
    simp [hnot]
  case isFalse hroom =>
    obtain ⟨k, hk, hiff⟩ := agree_spec hback nback (by simp; omega) (min hay.length needle.length) 0
      (by simp; omega)
    rw [suffix_loop_eq, hk]
    simpa using hiff

/-! ## One place -/

theorem matches_at_eq (hh : Text h hay) (hn : Text n needle) (hpos : 0 < needle.length)
    (hmax : needle.length ≤ INT_MAX) (hroom : i + needle.length ≤ hay.length) :
    matches_at (h.bytes.add i) n.bytes n.len = some (decide (needle <+: hay.drop i)) := by
  have hhay := hh.reads i
  have hlen : (hay.drop i).length = hay.length - i := List.length_drop
  obtain ⟨k, hk, hiff⟩ := agree_spec hhay hn.bytes (by omega) (needle.length - 1) 1 (by omega)
  have h0 : (h.bytes.add i).read 0 = some (hay.drop i)[0] := hhay 0 (by omega)
  have n0 : n.bytes.read 0 = some needle[0] := hn.bytes 0 hpos
  -- the first bytes are compared before the loop
  have hsplit : needle <+: hay.drop i ↔ (hay.drop i)[0] = needle[0] ∧ needle.drop 1 <+: (hay.drop i).drop 1 := by
    conv_lhs =>
      rw [← List.drop_zero (l := needle), ← List.drop_zero (l := hay.drop i), List.drop_eq_getElem_cons hpos,
        List.drop_eq_getElem_cons (i := 0) (by omega), List.cons_prefix_cons]
    rw [eq_comm]
  rw [matches_at, h0, n0, hn.len, rest_loop_eq _ _ (by omega), hk]
  simp only [Option.bind_eq_bind, Option.bind_some]
  split
  case isTrue hfirst =>
    have hall : k = needle.length ↔ needle <+: hay.drop i := by
      rw [hsplit, hiff]
      exact (and_iff_right hfirst).symm
    simp [hall]
  case isFalse hfirst =>
    rw [decide_eq_false fun hpre => hfirst (hsplit.mp hpre).1]
    rfl

/-- What a search returns: the occurrence that `Pick` singles out, or its end, or that there is none. -/
def SearchResult (Pick : Set Nat → Nat → Prop) (needle hay : List Byte) (skip_substr : Bool) (r : Nat) : Prop :=
  (∃ i, Pick (occurrences needle hay) i ∧ r = if skip_substr then i + needle.length else i) ∨
    occurrences needle hay = ∅ ∧ r = MU_STR_NOT_FOUND

/-! ## Searching backward -/

theorem rfind_loop_spec (hh : Text h hay) (hn : Text n needle) (hpos : 0 < needle.length)
    (hmax : hay.length ≤ INT_MAX) (hi : i + needle.length ≤ hay.length + 1)
    (hnone : ∀ j ∈ occurrences needle hay, j < i) :
    ∃ r, rfind_loop h.bytes n.bytes n.len skip_substr i = some r ∧
      SearchResult IsGreatest needle hay skip_substr r := by
  -- from `i - 1` down, when the needle does not occur at `i` or later
  induction i with
  | zero =>
    refine ⟨_, rfl, Or.inr ⟨?_, rfl⟩⟩
    exact Set.eq_empty_of_forall_notMem fun j hj => absurd (hnone j hj) (Nat.not_lt_zero j)
  | succ i ih =>
    rw [rfind_loop, matches_at_eq hh hn hpos (by omega) (by omega)]
    by_cases hoccurs : needle <+: hay.drop i
    · have hsize : usize (i + needle.length) = i + needle.length := usize_of_lt (by unfold INT_MAX at hmax; omega)
      refine ⟨_, by simp [hoccurs, hn.len, hsize], Or.inl ⟨i, ⟨⟨by omega, hoccurs⟩, ?_⟩, rfl⟩⟩
      exact fun j hj => Nat.le_of_lt_succ (hnone j hj)
    · obtain ⟨r, hr, hresult⟩ := ih (by omega) (by
        intro j hj
        rcases Nat.lt_succ_iff_lt_or_eq.mp (hnone j hj) with hlt | rfl
        · exact hlt
        · exact absurd hj.2 hoccurs)
      exact ⟨r, by simp [hoccurs, hr], hresult⟩

theorem int_sub_lengths {a b : Nat} (ha : a ≤ INT_MAX) (hb : b ≤ INT_MAX) : i32 (usize (a - b)) = a - b := by
  unfold INT_MAX at ha hb
  unfold i32 usize
  omega

theorem rfind_aux_spec (hh : Text h hay) (hn : Text n needle) (hhay : hay.length ≤ INT_MAX)
    (hneedle : needle.length ≤ INT_MAX) (skip_substr : Bool) :
    ∃ r, mu_str_rfind_aux h.bytes h.len n.bytes n.len skip_substr = some r ∧
      SearchResult IsGreatest needle hay skip_substr r := by
  rw [mu_str_rfind_aux]
  split
  case isTrue hnil =>
    rw [hn.len, List.length_eq_zero_iff] at hnil
    refine ⟨_, rfl, Or.inl ⟨hay.length, ?_, ?_⟩⟩
    · rw [hnil, occurrences_nil]
      exact isGreatest_Iic
    · rw [hnil, hh.len]
      simp
  case isFalse hpos =>
    rw [hn.len] at hpos
    dsimp only
    rw [hh.len, hn.len, int_sub_lengths hhay hneedle, ← hn.len]
    by_cases hroom : needle.length ≤ hay.length
    · apply rfind_loop_spec hh hn (Nat.pos_of_ne_zero hpos) hhay (by rw [hn.len]; omega)
      intro j hj
      have := hj.1
      rw [hn.len]
      omega
    · refine ⟨MU_STR_NOT_FOUND, ?_, Or.inr ⟨occurrences_of_longer (Nat.not_le.mp hroom), rfl⟩⟩
      rw [show ((hay.length : Int) - n.len + 1).toNat = 0 by rw [hn.len]; omega]
      rfl

theorem text_cstr (s m : List Byte) : Text ⟨⟨s ++ 0 :: m, 0⟩, s.length⟩ s :=
  ⟨rfl, Pointer.holds_append [] s (0 :: m)⟩

/-- The right answer for every string that holds `hay`, whatever lies around it: nothing else is read. -/
def SearchCorrect (Pick : Set Nat → Nat → Prop) (find : mu_str_t → mu_str_t → Bool → Option Nat)
    (find_cstr : mu_str_t → List Byte → Bool → Option Nat) (hay needle : List Byte) (skip_substr : Bool) : Prop :=
  ∀ h, Text h hay →
    (∀ n, Text n needle → ∃ r, find h n skip_substr = some r ∧ SearchResult Pick needle hay skip_substr r) ∧
    (0 ∉ needle → ∀ m, ∃ r, find_cstr h (needle ++ 0 :: m) skip_substr = some r ∧
      SearchResult Pick needle hay skip_substr r)

theorem rfind_search_correct (hhay : hay.length ≤ INT_MAX) (hneedle : needle.length ≤ INT_MAX) (skip_substr : Bool) :
    SearchCorrect IsGreatest mu_str_rfind mu_str_rfind_cstr hay needle skip_substr := by
  refine fun h hh => ⟨fun n hn => rfind_aux_spec hh hn hhay hneedle skip_substr, fun h0 m => ?_⟩
  obtain ⟨r, hr, hresult⟩ := rfind_aux_spec hh (text_cstr needle m) hhay hneedle skip_substr
  exact ⟨r, by simpa [mu_str_rfind_cstr, mu_str_bytes, mu_str_length, strlen_append_zero needle m h0] using hr, hresult⟩

theorem greatest_end_iff {r : Nat} (hhay : hay.length ≤ INT_MAX)
    (hresult : SearchResult IsGreatest needle hay true r) : r = hay.length ↔ needle <:+ hay := by
  rcases hresult with ⟨i, ⟨hi, hgreatest⟩, rfl⟩ | ⟨hnone, rfl⟩
  · have hroom : needle.length ≤ hay.length := Nat.le_trans (Nat.le_add_left _ _) hi.1
    rw [if_pos rfl, ← mem_occurrences_last hroom]
    constructor
    · intro hend
      rwa [show hay.length - needle.length = i by omega]
    · intro hlast
      have := hgreatest hlast
      have := hi.1
      omega
  · constructor
    · intro hend
      rw [← hend] at hhay
      exact absurd hhay (by decide)
    · intro hsuffix
      have hlast := (mem_occurrences_last hsuffix.length_le).mpr hsuffix
      rw [hnone] at hlast
      exact absurd hlast (Set.notMem_empty _)

/-- The right answers, and an occurrence at the end exactly if the needle is a suffix. -/
def RfindCorrect (hay needle : List Byte) : Prop :=
  (∀ skip_substr, SearchCorrect IsGreatest mu_str_rfind mu_str_rfind_cstr hay needle skip_substr) ∧
  ∀ h n, Text h hay → Text n needle →
    (mu_str_rfind h n true = some (mu_str_length h) ↔ mu_str_has_suffix h n = some true)

/-- Backward search is right for all sizes. -/
theorem rfind_correct (hay needle : List Byte) (hhay : hay.length ≤ INT_MAX) (hneedle : needle.length ≤ INT_MAX) :
    RfindCorrect hay needle := by
  refine ⟨rfind_search_correct hhay hneedle, fun h n hh hn => ?_⟩
  obtain ⟨r, hr, hresult⟩ := (rfind_search_correct hhay hneedle true h hh).1 n hn
  rw [hr, has_suffix_eq hh hn, mu_str_length, hh.len, Option.some.injEq, Option.some.injEq, decide_eq_true_eq]
  exact greatest_end_iff hhay hresult

/-- A needle that is longer than the haystack. -/
theorem rfind_correct_longer : RfindCorrect (ascii "ab") (ascii "cdX") :=
  rfind_correct (ascii "ab") (ascii "cdX") (by decide) (by decide)

/-! ## Searching forward -/

theorem find_loop_spec (hh : Text h hay) (hn : Text n needle) (hpos : 0 < needle.length)
    (hmax : hay.length ≤ INT_MAX) {left : Nat} (hi : i + left + needle.length = hay.length + 1)
    (hnone : ∀ j ∈ occurrences needle hay, i ≤ j) :
    ∃ r, find_loop h.bytes n.bytes n.len skip_substr left i = some r ∧
      SearchResult IsLeast needle hay skip_substr r := by
  -- from `i` up, when the needle does not occur before `i`
  induction left generalizing i with
  | zero =>
    refine ⟨_, rfl, Or.inr ⟨?_, rfl⟩⟩
    refine Set.eq_empty_of_forall_notMem fun j hj => ?_
    have := hnone j hj
    have := hj.1
    omega
  | succ left ih =>
    rw [find_loop, matches_at_eq hh hn hpos (by omega) (by omega)]
    by_cases hoccurs : needle <+: hay.drop i
    · have hsize : usize (i + needle.length) = i + needle.length := usize_of_lt (by unfold INT_MAX at hmax; omega)
      exact ⟨_, by simp [hoccurs, hn.len, hsize], Or.inl ⟨i, ⟨⟨by omega, hoccurs⟩, hnone⟩, rfl⟩⟩
    · obtain ⟨r, hr, hresult⟩ := ih (i := i + 1) (by omega) (by
        intro j hj
        rcases Nat.lt_or_eq_of_le (hnone j hj) with hlt | rfl
        · exact hlt
        · exact absurd hj.2 hoccurs)
      exact ⟨r, by simp [hoccurs, int_inc_of_lt (show i < INT_MAX by omega), hr], hresult⟩

theorem find_aux_spec (hh : Text h hay) (hn : Text n needle) (hhay : hay.length ≤ INT_MAX)
    (hroom : needle.length ≤ hay.length) (skip_substr : Bool) :
    ∃ r, mu_str_find_aux h.bytes h.len n.bytes n.len skip_substr = some r ∧
      SearchResult IsLeast needle hay skip_substr r := by
  rw [mu_str_find_aux]
  split
  case isTrue hnil =>
    rw [hn.len, List.length_eq_zero_iff] at hnil
    refine ⟨_, rfl, Or.inl ⟨0, ?_, ?_⟩⟩
    · rw [hnil, occurrences_nil]
      exact ⟨Nat.zero_le _, fun j _ => Nat.zero_le j⟩
    · rw [hnil]
      simp
  case isFalse hpos =>
    have hsize : usize ((h.len : Int) - n.len) = hay.length - needle.length := by
      rw [hh.len, hn.len]
      exact usize_sub (by unfold INT_MAX at hhay; omega) hroom
    rw [hn.len] at hpos
    rw [hsize]
    exact find_loop_spec hh hn (Nat.pos_of_ne_zero hpos) hhay (by omega) fun j _ => Nat.zero_le j

/-- A needle too long for the rest of its object is not matched there, but it may be read past the end. -/
theorem matches_at_longer (hn : Text n needle) (hlong : hay.length < i + needle.length) (hi : i ≤ hay.length)
    (hmax : needle.length ≤ INT_MAX) : matches_at (Pointer.add ⟨hay, 0⟩ i) n.bytes n.len ≠ some true := by
  have hend : (Pointer.add ⟨hay, 0⟩ i).read (hay.drop i).length = none := by
    rw [Pointer.read_add, List.length_drop, ← Int.natCast_add, Nat.add_sub_cancel' hi, Pointer.read_past_end]
  have hlen : (hay.drop i).length = hay.length - i := List.length_drop
  rw [matches_at]
  rcases hfirst : (Pointer.add ⟨hay, 0⟩ i).read 0 with _ | a
  · simp
  -- the first byte is there, so the comparison starts in the string
  have hsome : 1 ≤ (hay.drop i).length := by
    rcases Nat.eq_zero_or_pos (hay.drop i).length with hzero | hpos
    · rw [hzero, Nat.cast_zero, hfirst] at hend
      cases hend
    · exact hpos
  have hnot := agree_longer (g := fun j => n.bytes.read j) (f := fun j => (Pointer.add ⟨hay, 0⟩ i).read j) hend
    (needle.length - 1) 1 hsome (by omega)
  rw [show 1 + (needle.length - 1) = needle.length by omega] at hnot
  rw [rest_loop_eq _ _ (by rw [hn.len]; omega), hn.len]
  rcases n.bytes.read 0 with _ | b
  · simp
  rcases hagree : agree (fun j => (Pointer.add ⟨hay, 0⟩ i).read j) (fun j => n.bytes.read j)
    (needle.length - 1) 1 with _ | k
  · by_cases hab : a = b <;> simp [hab]
  · rw [hagree] at hnot
    have hk : k ≠ needle.length := fun h => hnot (congrArg some h)
    by_cases hab : a = b <;> simp [hab, hk]

theorem find_loop_longer (hn : Text n needle) (hlong : hay.length < needle.length) (hmax : needle.length ≤ INT_MAX)
    (left : Nat) (skip_substr : Bool) (hi : i ≤ hay.length) (hleft : hay.length < i + left) :
    find_loop ⟨hay, 0⟩ n.bytes n.len skip_substr left i = none := by
  induction left generalizing i with
  | zero => omega
  | succ left ih =>
    rw [find_loop]
    rcases hmatch : matches_at (Pointer.add ⟨hay, 0⟩ i) n.bytes n.len with _ | _ | _
    · rfl
    · rcases Nat.lt_or_eq_of_le hi with hlt | rfl
      · simp [int_inc_of_lt (show i < INT_MAX by omega), ih hlt (by omega)]
      -- the first byte behind the haystack was read
      · rw [matches_at, Pointer.read_add, Int.add_zero, Pointer.read_past_end] at hmatch
        cases hmatch
    · exact absurd hmatch (matches_at_longer hn (by omega) hi hmax)

/-- Forward search is right exactly if the needle is no longer than the haystack. -/
theorem find_correct_iff (hay needle : List Byte) (hhay : hay.length ≤ INT_MAX) (hneedle : needle.length ≤ INT_MAX)
    (skip_substr : Bool) :
    SearchCorrect IsLeast mu_str_find mu_str_find_cstr hay needle skip_substr ↔ needle.length ≤ hay.length := by
  constructor
  · intro hcorrect
    by_contra hlong
    obtain ⟨r, hr, -⟩ := (hcorrect _ (text_alone hay)).1 _ (text_alone needle)
    have hpos : needle.length ≠ 0 := by omega
    have hnone := find_loop_longer (text_alone needle) (Nat.not_le.mp hlong) hneedle
      (usize ((hay.length : Int) - needle.length) + 1) skip_substr (Nat.zero_le _)
      (by unfold INT_MAX at hhay hneedle; unfold usize; omega)
    rw [mu_str_find, mu_str_bytes, mu_str_length, mu_str_bytes, mu_str_length, mu_str_find_aux,
      if_neg hpos, hnone] at hr
    cases hr
  · intro hroom h hh
    refine ⟨fun n hn => find_aux_spec hh hn hhay hroom skip_substr, fun h0 m => ?_⟩
    obtain ⟨r, hr, hresult⟩ := find_aux_spec hh (text_cstr needle m) hhay hroom skip_substr
    exact ⟨r, by simpa [mu_str_find_cstr, mu_str_bytes, mu_str_length, strlen_append_zero needle m h0] using hr,
      hresult⟩

theorem find_correct_cd :
    SearchCorrect IsLeast mu_str_find mu_str_find_cstr (ascii "abXcdabYcd") (ascii "cd") true :=
  (find_correct_iff (ascii "abXcdabYcd") (ascii "cd") (by decide) (by decide) true).mpr (by decide)

/-- `abc` is looked for in `ab`, with nothing behind it. -/
theorem find_not_correct :
    ¬ SearchCorrect IsLeast mu_str_find mu_str_find_cstr (ascii "ab") (ascii "abc") false := by
  intro hcorrect
  obtain ⟨r, hr, -⟩ := (hcorrect _ (text_alone (ascii "ab"))).1 _ (text_alone (ascii "abc"))
  have hread : mu_str_find ⟨⟨ascii "ab", 0⟩, 2⟩ ⟨⟨ascii "abc", 0⟩, 3⟩ false = none := by decide +kernel
  exact absurd (hread.symm.trans hr) (by simp)

end ToyTstat.MuStr
