import ToyTstat.Jems.Spec

/-!
# What each function of `jems.c` writes

`Emits` composes like the calls do: the texts are appended.
-/

open CLib ToyTstat.Code

namespace ToyTstat.Jems

variable {σ : Type} {w : Byte → σ → Option σ} {m : Nat}

/-! ## Writing a text -/

theorem writeAll_append (s t : List Byte) (arg : σ) :
    writeAll w (s ++ t) arg = (writeAll w s arg).bind (writeAll w t) := by
  induction s generalizing arg with
  | nil => rfl
  | cons b s ih =>
    rw [List.cons_append, writeAll, writeAll, Option.bind_assoc]
    congr 1
    funext arg
    exact ih arg

/-- From the state `S`, `f` writes `text` and leaves the state `S'`. The states are given up to what
the writer's argument points to. -/
def Emits (w : Byte → σ → Option σ) (f : jems_t σ → Option (jems_t σ)) (S : σ → jems_t σ) (text : List Byte)
    (S' : σ → jems_t σ) : Prop :=
  ∀ arg, f (S arg) = (writeAll w text arg).map S'

variable {f g : jems_t σ → Option (jems_t σ)} {S S' S'' : σ → jems_t σ} {s t : List Byte}

theorem Emits.bind (hf : Emits w f S s S') (hg : Emits w g S' t S'') :
    Emits w (fun jems => (f jems).bind g) S (s ++ t) S'' := by
  intro arg
  dsimp only
  rw [hf arg, writeAll_append]
  cases writeAll w s arg with
  | none => rfl
  | some arg => exact hg arg

theorem Emits.map {h : jems_t σ → jems_t σ} (hf : Emits w f S s S') (hh : ∀ arg, h (S' arg) = S'' arg) :
    Emits w (fun jems => (f jems).map h) S s S'' := by
  intro arg
  dsimp only
  rw [hf arg]
  cases writeAll w s arg with
  | none => rfl
  | some arg => exact congrArg some (hh arg)

/-! ## The level stack -/

abbrev state (w : Byte → σ → Option σ) (m : Nat) (below : List jems_level_t) (level : jems_level_t)
    (deeper : List jems_level_t) (arg : σ) : jems_t σ :=
  ⟨below ++ level :: deeper, m, below.length, w, arg⟩

def counted (level : jems_level_t) : jems_level_t := { level with item_count := usize (level.item_count + 1) }

variable {below deeper : List jems_level_t} {level unused : jems_level_t}

theorem level_ref_state (arg : σ) : level_ref (state w m below level deeper arg) = some level := by
  simp [level_ref]

theorem set_level_state (level' : jems_level_t) (arg : σ) :
    set_level (state w m below level deeper arg) level' = state w m below level' deeper arg := by
  simp [set_level]

theorem push_level_eq (is_object : Bool) (hm : m < 2 ^ 64) (hlevel : below.length + 1 < m) (arg : σ) :
    push_level (state w m below level (unused :: deeper) arg) is_object =
      some (state w m (below ++ [level]) ⟨0, is_object⟩ deeper arg) := by
  have hstate : (⟨below ++ level :: unused :: deeper, m, below.length + 1, w, arg⟩ : jems_t σ) =
      state w m (below ++ [level]) unused deeper arg := by
    simp
  have hlast : usize (m - 1) = m - 1 := by
    rw [show (m : Int) - 1 = ((m - 1 : Nat) : Int) by omega, usize_of_lt (by omega)]
  rw [push_level, if_pos (by dsimp only; omega)]
  dsimp only
  rw [hstate, level_ref_state, Option.map_some, set_level_state]

theorem pop_level_eq (arg : σ) :
    pop_level (state w m (below ++ [level]) unused deeper arg) = state w m below level (unused :: deeper) arg := by
  simp [pop_level, state]

/-! ## Private functions -/

theorem emit_char_emits (c : Byte) :
    Emits w (fun jems => emit_char jems c) (state w m below level deeper) [c] (state w m below level deeper) := by
  intro arg
  dsimp only
  rw [writeAll, emit_char]
  dsimp only
  cases w c arg <;> rfl

theorem emit_string_emits (s : List Byte) (hs : 0 ∉ s) :
    Emits w (fun jems => emit_string jems (s ++ [0])) (state w m below level deeper) s
      (state w m below level deeper) := by
  induction s with
  | nil => exact fun arg => rfl
  | cons b s ih =>
    rw [List.mem_cons, not_or] at hs
    have h := (emit_char_emits b).bind (ih hs.2)
    simp only [List.cons_append, emit_string, if_neg (Ne.symm hs.1)]
    exact h

theorem sprintf_u04x_eq (byte : Byte) :
    sprintf_u04x byte = ascii "\\u00" ++ [hexDigit (byte.toNat / 16), hexDigit (byte.toNat % 16)] ++ [0] := rfl

theorem hexDigit_ne_zero : ∀ d, d < 16 → hexDigit d ≠ 0 := by decide

theorem emit_quoted_byte_emits (byte : Byte) :
    Emits w (fun jems => emit_quoted_byte jems byte) (state w m below level deeper) (escape byte)
      (state w m below level deeper) := by
  have hprint : ∀ byte : Byte, byte = ch '\\' ∨ byte = ch '"' → 32 ≤ byte.toNat ∧ byte.toNat < 127 := by
    decide +kernel
  have hlt := byte.toNat_lt
  unfold emit_quoted_byte escape
  by_cases hq : byte = ch '\\' ∨ byte = ch '"'
  · have := hprint byte hq
    simp only [if_pos hq, if_pos hq.symm, if_neg (show ¬(byte.toNat < 0x20 ∨ 127 ≤ byte.toNat) by omega)]
    exact (emit_char_emits (ch '\\')).bind (emit_char_emits byte)
  · simp only [if_neg hq, if_neg (mt Or.symm hq)]
    by_cases hp : 32 ≤ byte.toNat ∧ byte.toNat < 127
    · simp only [if_pos hp, if_neg (show ¬(byte.toNat < 0x20 ∨ 127 ≤ byte.toNat) by omega)]
      exact emit_char_emits byte
    · simp only [if_neg hp, if_pos (show byte.toNat < 0x20 ∨ 127 ≤ byte.toNat by omega), sprintf_u04x_eq]
      apply emit_string_emits
      have h1 := hexDigit_ne_zero (byte.toNat / 16) (by omega)
      have h2 := hexDigit_ne_zero (byte.toNat % 16) (by omega)
      simp only [List.mem_append, List.mem_cons, List.not_mem_nil, or_false, not_or]
      exact ⟨by decide, h1.symm, h2.symm⟩

theorem emit_quoted_string_emits (s : List Byte) (hs : 0 ∉ s) :
    Emits w (fun jems => emit_quoted_string jems (s ++ [0])) (state w m below level deeper) (s.flatMap escape)
      (state w m below level deeper) := by
  induction s with
  | nil => exact fun arg => rfl
  | cons b s ih =>
    rw [List.mem_cons, not_or] at hs
    have h := (emit_quoted_byte_emits b).bind (ih hs.2)
    simp only [List.cons_append, emit_quoted_string, if_neg (Ne.symm hs.1), List.flatMap_cons]
    exact h

theorem separator_ne_zero (level : jems_level_t) : 0 ∉ separator level := by
  unfold separator
  split
  · simp
  · split <;> decide

theorem commify_emits :
    Emits w commify (state w m below level deeper) (separator level)
      (state w m below (counted level) deeper) := by
  have hstring : Emits w (fun jems => emit_string jems (separator level ++ [0])) (state w m below level deeper)
      (separator level) (state w m below level deeper) := emit_string_emits _ (separator_ne_zero level)
  intro arg
  have h := hstring arg
  dsimp only at h
  rw [commify, level_ref_state, Option.bind_some, h, Option.map_map]
  congr 1
  funext arg
  exact set_level_state (counted level) arg

/-! ## Public functions -/

theorem text_emits (text : List Byte) (htext : 0 ∉ text) :
    Emits w (fun jems => (commify jems).bind fun jems => emit_string jems (text ++ [0]))
      (state w m below level deeper) (separator level ++ text) (state w m below (counted level) deeper) :=
  commify_emits.bind (emit_string_emits text htext)

theorem jems_null_emits :
    Emits w jems_null (state w m below level deeper) (separator level ++ ascii "null")
      (state w m below (counted level) deeper) :=
  text_emits _ (by decide)

theorem jems_bool_emits (boolean : Bool) :
    Emits w (fun jems => jems_bool jems boolean) (state w m below level deeper)
      (separator level ++ ascii (if boolean then "true" else "false"))
      (state w m below (counted level) deeper) :=
  text_emits _ (by cases boolean <;> decide)

theorem jems_integer_emits (value : Int64) :
    Emits w (fun jems => jems_integer jems value) (state w m below level deeper)
      (separator level ++ decimalInt value.toInt) (state w m below (counted level) deeper) := by
  unfold jems_integer
  rw [List.take_of_length_le (decimalInt_length value)]
  exact text_emits _ (decimalInt_ne_zero value.toInt)

theorem jems_number_ofInt32 (jems : jems_t σ) (i : Int32) :
    jems_number jems (Double.ofInt32 i) = jems_integer jems i.toInt64 := by
  have hi : Int64.ofInt (truncate (Double.ofInt32 i).val) = i.toInt64 := by
    rw [Double.ofInt32, truncate_intCast, Int64.ofInt_int32ToInt]
  simp only [jems_number, hi, Int32.toInt_toInt64]
  rw [if_pos (by rfl), jems_integer, Int32.toInt_toInt64]

theorem jems_string_emits (s : CString) :
    Emits w (fun jems => jems_string jems s.memory) (state w m below level deeper)
      (separator level ++ quoted s) (state w m below (counted level) deeper) :=
  commify_emits.bind ((emit_char_emits (ch '"')).bind
    ((emit_quoted_string_emits s.bytes s.noNul).bind (emit_char_emits (ch '"'))))

theorem container_emits (below : List jems_level_t) (c : Byte) (is_object : Bool) (hm : m < 2 ^ 64)
    (hlevel : below.length + 1 < m) :
    Emits w (fun jems => (commify jems).bind fun jems => (emit_char jems c).bind fun jems =>
        push_level jems is_object)
      (state w m below level (unused :: deeper)) (separator level ++ [c])
      (state w m (below ++ [counted level]) ⟨0, is_object⟩ deeper) := by
  have hpush : Emits w (fun jems => push_level jems is_object) (state w m below (counted level) (unused :: deeper)) []
      (state w m (below ++ [counted level]) ⟨0, is_object⟩ deeper) :=
    fun arg => push_level_eq is_object hm hlevel arg
  have h := commify_emits.bind ((emit_char_emits c).bind hpush)
  rwa [List.append_nil] at h

theorem close_emits (below : List jems_level_t) (c : Byte) :
    Emits w (fun jems => (emit_char jems c).map pop_level) (state w m (below ++ [level]) unused deeper) [c]
      (state w m below level (unused :: deeper)) :=
  (emit_char_emits c).map pop_level_eq

end ToyTstat.Jems
