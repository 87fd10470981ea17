import ToyTstat.MuStr.Compare

/-!
# C strings

A string is copied to a buffer with a NUL behind it, and a C string is a string up to its NUL. What is
copied is read back up to the first NUL in it.
-/

open CLib ToyTstat.Code

namespace ToyTstat.MuStr

variable {str : mu_str_t} {s buf : List Byte} {capacity : Nat}

/-! ## Reading -/

theorem init_cstr_eq (s m : List Byte) (h : 0 ∉ s) :
    mu_str_init_cstr (s ++ 0 :: m) = some ⟨⟨s ++ 0 :: m, 0⟩, s.length⟩ := by
  unfold mu_str_init_cstr
  rw [strlen_append_zero s m h]
  rfl

theorem compare_cstr_eq (str : mu_str_t) (cstr : List Byte) :
    mu_str_compare_cstr str cstr = (mu_str_init_cstr cstr).bind (mu_str_compare str) := by
  unfold mu_str_compare_cstr mu_str_init_cstr
  cases strlen cstr <;> rfl

theorem has_prefix_cstr_eq (str : mu_str_t) (cstr : List Byte) :
    mu_str_has_prefix_cstr str cstr = (mu_str_init_cstr cstr).bind ( mu_str_has_prefix str) := by
  unfold mu_str_has_prefix_cstr mu_str_init_cstr
  cases strlen cstr <;> rfl

/-! ## Writing -/

theorem to_cstr_loop_spec (h : Text str s) (hs : s.length ≤ INT_MAX) (hbuf : s.length ≤ buf.length) (left i : Nat)
    (hi : i + left = s.length) :
    to_cstr_loop str.bytes left i (s.take i ++ buf.drop i) = some (s ++ buf.drop s.length) := by
  -- from index `i` on
  induction left generalizing i with
  | zero =>
    obtain rfl : i = s.length := hi
    rw [to_cstr_loop, List.take_length]
  | succ left ih =>
    have hlt : i < s.length := by omega
    have hbyte : str.bytes.read i = some s[i] := h.bytes i hlt
    have hlength : (s.take i).length = i := List.length_take_of_le hlt.le
    have hroom : i < (s.take i ++ buf.drop i).length := by
      rw [List.length_append, List.length_drop, hlength]
      omega
    have hset : (s.take i ++ buf.drop i).set i s[i] = s.take (i + 1) ++ buf.drop (i + 1) := by
      rw [List.set_append_right i s[i] hlength.le, hlength, Nat.sub_self, List.drop_eq_getElem_cons (by omega),
        List.set_cons_zero, List.take_succ_eq_append_getElem hlt, List.append_assoc, List.singleton_append]
    unfold to_cstr_loop
    simp only [hbyte, Option.bind_eq_bind, Option.bind_some, if_pos hroom, int_inc_of_lt (show i < INT_MAX by omega)]
    rw [hset]
    exact ih (i + 1) (by omega)

theorem to_cstr_fits (h : Text str s) (hs : s.length ≤ INT_MAX) (hfits : s.length < capacity)
    (hbuf : capacity ≤ buf.length) :
    mu_str_to_cstr str buf capacity = some (true, s ++ 0 :: buf.drop (s.length + 1)) := by
  have hloop := to_cstr_loop_spec h hs (show s.length ≤ buf.length by omega) s.length 0 (Nat.zero_add _)
  have hroom : s.length < (s ++ buf.drop s.length).length := by
    rw [List.length_append, List.length_drop]
    omega
  rw [List.take_zero, List.nil_append, List.drop_zero] at hloop
  unfold mu_str_to_cstr mu_str_length mu_str_bytes
  rw [h.len, if_neg (Nat.not_le.mpr hfits), hloop]
  simp only [Option.bind_eq_bind, Option.bind_some, if_pos hroom]
  rw [List.set_append_right _ _ le_rfl, Nat.sub_self, List.drop_eq_getElem_cons (by omega), List.set_cons_zero]
  rfl

theorem to_cstr_full (h : Text str s) (hfull : capacity ≤ s.length) :
    mu_str_to_cstr str buf capacity = some (false, buf) := by
  unfold mu_str_to_cstr mu_str_length
  rw [h.len]
  exact if_pos hfull

/-! ## Both -/

def beforeNul (s : List Byte) : List Byte := s.takeWhile (· ≠ 0)

theorem beforeNul_eq_iff : beforeNul s = s ↔ 0 ∉ s := by
  unfold beforeNul
  rw [List.takeWhile_eq_self_iff]
  constructor
  · intro hall hmem
    simpa using hall 0 hmem
  · intro hnul byte hbyte
    have hne : byte ≠ 0 := fun heq => hnul (heq ▸ hbyte)
    simpa using hne

theorem nul_not_mem_beforeNul (s : List Byte) : 0 ∉ beforeNul s := by
  intro hmem
  simpa using List.mem_takeWhile_imp hmem

theorem beforeNul_split (s m : List Byte) : ∃ rest, s ++ 0 :: m = beforeNul s ++ 0 :: rest := by
  have hsplit : beforeNul s ++ s.dropWhile (· ≠ 0) = s := List.takeWhile_append_dropWhile
  cases hdrop : s.dropWhile (· ≠ 0) with
  | nil =>
    rw [hdrop, List.append_nil] at hsplit
    exact ⟨m, by rw [hsplit]⟩
  | cons byte rest =>
    have hfirst := List.head?_dropWhile_not (fun byte : Byte => decide (byte ≠ 0)) s
    rw [hdrop] at hfirst
    obtain rfl : byte = 0 := by simpa using hfirst
    refine ⟨rest ++ 0 :: m, ?_⟩
    rw [hdrop] at hsplit
    rw [← List.cons_append, ← List.append_assoc, hsplit]

theorem init_cstr_beforeNul (s m : List Byte) :
    ∃ view, mu_str_init_cstr (s ++ 0 :: m) = some view ∧ Text view (beforeNul s) := by
  obtain ⟨rest, hsplit⟩ := beforeNul_split s m
  rw [hsplit, init_cstr_eq _ _ (nul_not_mem_beforeNul s)]
  exact ⟨_, rfl, text_cstr _ _⟩

/-- What `mu_str_to_cstr` returns and leaves in the buffer, and what the functions for C strings make of it. -/
structure Copied (str : mu_str_t) (s buf : List Byte) (capacity : Nat) (ok : Bool) (after : List Byte) : Prop where
  fits : ok = true ↔ s.length < capacity
  refused : ok = false → after = buf
  outside : ∀ i, s.length < i → after[i]? = buf[i]?
  view : ok = true → ∃ view, mu_str_init_cstr after = some view ∧ Text view (beforeNul s)
  same : ok = true → (mu_str_compare_cstr str after = some 0 ↔ 0 ∉ s)
  has_prefix : ok = true → mu_str_has_prefix_cstr str after = some true

/-- Every text, NUL bytes included, and every capacity that the buffer has. -/
theorem to_cstr_copies (str : mu_str_t) (s buf : List Byte) (capacity : Nat) (h : Text str s)
    (hs : s.length ≤ INT_MAX) (hbuf : capacity ≤ buf.length) :
    ∃ ok after, mu_str_to_cstr str buf capacity = some (ok, after) ∧ Copied str s buf capacity ok after := by
  by_cases hfits : s.length < capacity
  · obtain ⟨view, hview, htext⟩ := init_cstr_beforeNul s (buf.drop (s.length + 1))
    have hshort : (beforeNul s).length ≤ INT_MAX := (List.takeWhile_prefix _).length_le.trans hs
    refine ⟨true, _, to_cstr_fits h hs hfits hbuf, ⟨iff_of_true rfl hfits, ?_, ?_, ?_, ?_, ?_⟩⟩
    · exact fun hno => absurd hno.symm Bool.false_ne_true
    · intro i hi
      rw [List.getElem?_append_right hi.le, show i - s.length = (i - (s.length + 1)) + 1 by omega,
        List.getElem?_cons_succ, List.getElem?_drop, Nat.add_sub_of_le hi]
    · exact fun _ => ⟨view, hview, htext⟩
    · intro _
      rw [compare_cstr_eq, hview, Option.bind_some, compare_zero_iff h htext hs hshort, ← beforeNul_eq_iff, eq_comm]
    · intro _
      rw [has_prefix_cstr_eq, hview, Option.bind_some, has_prefix_eq h htext]
      simp [beforeNul, List.takeWhile_prefix]
  · refine ⟨false, buf, to_cstr_full h (not_lt.mp hfits), ⟨iff_of_false Bool.false_ne_true hfits, ?_, ?_, ?_, ?_, ?_⟩⟩
    · exact fun _ => rfl
    · exact fun _ _ => rfl
    · exact fun hok => absurd hok Bool.false_ne_true
    · exact fun hok => absurd hok Bool.false_ne_true
    · exact fun hok => absurd hok Bool.false_ne_true

/-- A NUL in the text is copied, and only what is before it is read back. -/
theorem to_cstr_copies_nul :
    ∃ ok after, mu_str_to_cstr ⟨⟨[97, 0, 98], 0⟩, 3⟩ (List.replicate 6 120) 4 = some (ok, after) ∧
      Copied ⟨⟨[97, 0, 98], 0⟩, 3⟩ [97, 0, 98] (List.replicate 6 120) 4 ok after :=
  to_cstr_copies _ _ _ _ (text_alone [97, 0, 98]) (by decide) (by decide)

end ToyTstat.MuStr
