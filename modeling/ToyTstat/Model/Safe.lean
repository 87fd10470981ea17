import ToyTstat.Code.TstatModel
import ToyTstat.Jsmn.Safe

/-!
# Loading any text

The text may come from anywhere. As long as it is shorter than 2^31 bytes the loader returns, and
does not read behind its NUL.
-/

open CLib ToyTstat.Code ToyTstat.Code.jsmntype_t ToyTstat.Jsmn

namespace ToyTstat.Model

section Token

variable {s : CString} {key value : jsmntok_t}

theorem ptr_some (h : Placed s.bytes.length value) : ∃ p, ptr s.memory value.start = some p ∧ 0 ∈ p := by
  have hstart := h.start
  have hend := h.ordered.trans h.end_
  obtain ⟨i, hi⟩ : ∃ i : Nat, value.start = i := ⟨value.start.toNat, by omega⟩
  have hle : i ≤ s.bytes.length := by omega
  refine ⟨s.memory.drop i, ?_, ?_⟩
  · rw [hi, ptr_natCast _ _ (by rw [CString.memory, List.length_append]; omega)]
  · rw [CString.memory, List.drop_append_of_le_length hle]
    exact List.mem_append_right _ List.mem_cons_self

theorem token_len_some (hlen : s.bytes.length < 2 ^ 31) (h : Placed s.bytes.length value) :
    token_len value = some (value.end_ - value.start).toNat := by
  have hstart := h.start
  have hordered := h.ordered
  have hend := h.end_
  rw [token_len, if_pos (by omega)]
  congr 1
  unfold usize
  omega

theorem token_compare_some (h : Placed s.bytes.length value) (str : String) (len : Nat) :
    ∃ b, token_compare s.memory value str len = some b := by
  obtain ⟨p, hp, hnul⟩ := ptr_some h
  have hstr : 0 ∈ literal str := List.mem_append_right (ascii str) List.mem_cons_self
  obtain ⟨r, hr⟩ := strncmp_some hnul hstr len
  exact ⟨decide (r = 0), by rw [token_compare, hp, Option.bind_some, hr, Option.map_some]⟩

theorem token_streq_some (hlen : s.bytes.length < 2 ^ 31) (h : Placed s.bytes.length key) (str : String) :
    ∃ b, token_streq s.memory key str = some b := by
  rw [token_streq]
  split
  · exact ⟨false, rfl⟩
  · rw [token_len_some hlen h, Option.bind_some]
    exact token_compare_some h str _

theorem update_int_some (h : Placed s.bytes.length value) : ∃ r, update_int s.memory value = some r := by
  rw [update_int]
  split
  · exact ⟨none, rfl⟩
  · obtain ⟨p, hp, hnul⟩ := ptr_some h
    obtain ⟨i, hi⟩ := atoi_some hnul
    exact ⟨some i, by rw [hp, Option.bind_some, hi, Option.map_some]⟩

theorem update_bool_some (hlen : s.bytes.length < 2 ^ 31) (h : Placed s.bytes.length value) :
    ∃ r, update_bool s.memory value = some r := by
  rw [update_bool]
  split
  · exact ⟨none, rfl⟩
  obtain ⟨isTrue, htrue⟩ := token_compare_some h "true" (value.end_ - value.start).toNat
  obtain ⟨isFalse, hfalse⟩ := token_compare_some h "false" (value.end_ - value.start).toNat
  rw [token_len_some hlen h, Option.bind_some, htrue, Option.bind_some]
  split
  · exact ⟨some true, rfl⟩
  · exact ⟨_, by rw [hfalse, Option.map_some]⟩

theorem update_enum_loop_some (h : Placed s.bytes.length value) (len : Nat) (names : List (String × Int32)) :
    ∃ r, update_enum_loop s.memory value len names = some r := by
  induction names with
  | nil => exact ⟨none, rfl⟩
  | cons entry names ih =>
    obtain ⟨name, number⟩ := entry
    obtain ⟨isName, hname⟩ := token_compare_some h name len
    rw [update_enum_loop, hname, Option.bind_some]
    split
    · exact ⟨some number, rfl⟩
    · exact ih

theorem update_enum_some (hlen : s.bytes.length < 2 ^ 31) (h : Placed s.bytes.length value) (names : List String)
    (values : List Int32) : ∃ r, update_enum s.memory value names values = some r := by
  rw [update_enum, token_len_some hlen h, Option.bind_some]
  exact update_enum_loop_some h _ _

/-! ## One member -/

theorem bind_if_some {α : Type} {x : Option Bool} {y z : Option α} (hx : ∃ b, x = some b) (hy : ∃ r, y = some r)
    (hz : ∃ r, z = some r) : ∃ r, (x.bind fun b => if b then y else z) = some r := by
  obtain ⟨b, rfl⟩ := hx
  cases b with
  | true => exact hy
  | false => exact hz

theorem map_some {α β : Type} {x : Option α} (f : α → β) (hx : ∃ a, x = some a) : ∃ r, x.map f = some r := by
  obtain ⟨a, rfl⟩ := hx
  exact ⟨f a, rfl⟩

theorem load_member_some (hlen : s.bytes.length < 2 ^ 31) (hkey : Placed s.bytes.length key)
    (hvalue : Placed s.bytes.length value) (model : tstat_model_t) :
    ∃ r, load_member s.memory key value model = some r := by
  have hstreq := token_streq_some hlen hkey
  have hint := update_int_some hvalue
  have hbool := update_bool_some hlen hvalue
  rw [load_member]
  by_cases htype : key.type ≠ JSMN_STRING
  · rw [if_pos htype]
    exact ⟨_, rfl⟩
  rw [if_neg htype]
  refine bind_if_some (hstreq _) (map_some _ hint) ?_
  refine bind_if_some (hstreq _) (map_some _ hint) ?_
  refine bind_if_some (hstreq _) (map_some _ hint) ?_
  refine bind_if_some (hstreq _) (map_some _ hbool) ?_
  refine bind_if_some (hstreq _) (map_some _ hbool) ?_
  exact bind_if_some (hstreq _) (map_some _ (update_enum_some hlen hvalue _ _)) ⟨_, rfl⟩

end Token

/-! ## All of them -/

variable {s : CString} {T : List jsmntok_t}

theorem load_loop_some (hlen : s.bytes.length < 2 ^ 31) (hT : ∀ t ∈ T, Placed s.bytes.length t) {left i : Nat}
    (hi : i + 2 * left ≤ T.length) (model : tstat_model_t) : ∃ r, load_loop s.memory T left i model = some r := by
  induction left generalizing i model with
  | zero => exact ⟨_, rfl⟩
  | succ left ih =>
    have hkey : i < T.length := by omega
    have hvalue : i + 1 < T.length := by omega
    obtain ⟨⟨goesOn, model'⟩, hmember⟩ :=
      load_member_some hlen (hT _ (List.getElem_mem hkey)) (hT _ (List.getElem_mem hvalue)) model
    rw [load_loop, List.getElem?_eq_getElem hkey, List.getElem?_eq_getElem hvalue, Option.bind_some, Option.bind_some,
      hmember, Option.bind_some]
    dsimp only
    split
    · exact ih (by omega) model'
    · exact ⟨_, rfl⟩

/-- The tokens that the loader walks over are those that the parser has just filled. -/
theorem load_in_bounds (model : tstat_model_t) (s : CString) (hlen : s.bytes.length < 2 ^ 31) {fuel : Nat}
    (hfuel : s.bytes.length + 1 < fuel) :
    (∃ result parser tokens,
      jsmn_parse fuel jsmn_init s.memory s.bytes.length (some []) MAX_JSMN_TOKENS = some (result, parser, tokens) ∧
        ResultSafe s.bytes.length MAX_JSMN_TOKENS result tokens) ∧
      ∃ r, tstat_model_load_json fuel model s.memory = some r := by
  have hmemory : s.bytes.length ≤ s.memory.length := by
    rw [CString.memory, List.length_append]
    exact Nat.le_add_right _ _
  obtain ⟨result, parser, tokens, hparse, hsafe⟩ :=
    jsmn_parse_safe (n := MAX_JSMN_TOKENS) hmemory hlen (by decide) hfuel
  refine ⟨⟨result, parser, tokens, hparse, hsafe⟩, ?_⟩
  rw [tstat_model_load_json, s.strlen_memory, Option.bind_some, hparse, Option.bind_some]
  dsimp only
  by_cases hresult : result < 1
  · rw [if_pos hresult]
    exact ⟨_, rfl⟩
  rw [if_neg hresult]
  obtain hneg | ⟨T, rfl, rfl, -, hT⟩ := hsafe
  · omega
  have hfirst : 0 < T.length := by omega
  rw [Option.bind_some, List.getElem?_eq_getElem hfirst, Option.bind_some]
  split
  · exact ⟨_, rfl⟩
  split
  · exact ⟨_, rfl⟩
  · rename_i hodd
    have hodd' : (T.length : Int) % 2 = 1 := by simpa [is_odd] using hodd
    exact load_loop_some hlen hT (by omega) model

/-- A text that is no JSON. -/
theorem load_in_bounds_hostile :
    ∃ r, tstat_model_load_json 100 ⟨1, 2, 3, false, false, SYSTEM_MODE_OFF⟩
      (ascii "\x7b\"ambient\" : \"\\u12\" ,, [\x7d\x7b=\x7d" ++ [0]) = some r :=
  (load_in_bounds ⟨1, 2, 3, false, false, SYSTEM_MODE_OFF⟩
    ⟨ascii "\x7b\"ambient\" : \"\\u12\" ,, [\x7d\x7b=\x7d", by decide⟩ (by decide) (by decide)).2

end ToyTstat.Model
