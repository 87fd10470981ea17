import ToyTstat.Jsmn.Lexemes
import ToyTstat.Jsmn.TokenRange

/-!
# The parser on any text

On a text shorter than 2^31 bytes `jsmn_parse` returns, whatever the text is, and reads nothing
behind it. If it returns a count, that many tokens have been filled, each with a place in the text.
-/

open CLib ToyTstat.Code ToyTstat.Code.jsmntype_t

namespace ToyTstat.Jsmn

variable {js : List Byte} {len n : Nat}

/-! ## Filled tokens -/

/-- The token has been filled when the parser is at `pos`. The end of an open container is not known yet. -/
structure Filled (pos : Nat) (t : jsmntok_t) : Prop where
  type : t.type ≠ JSMN_UNDEFINED
  start : 0 ≤ t.start ∧ t.start ≤ pos
  end_ : t.end_ = -1 ∨ t.start ≤ t.end_ ∧ t.end_ ≤ pos

theorem Filled.mono {pos pos' : Nat} {t : jsmntok_t} (h : Filled pos t) (hle : pos ≤ pos') : Filled pos' t := by
  obtain ⟨htype, ⟨h0, hstart⟩, hend⟩ := h
  refine ⟨htype, ⟨h0, by omega⟩, ?_⟩
  rcases hend with hend | ⟨hle, hend⟩
  · exact Or.inl hend
  · exact Or.inr ⟨hle, by omega⟩

theorem Filled.with_size {pos : Nat} {t : jsmntok_t} (h : Filled pos t) (size : Int) :
    Filled pos { t with size := size } :=
  ⟨h.type, h.start, h.end_⟩

abbrev AllFilled (pos : Nat) (T : List jsmntok_t) : Prop := ∀ t ∈ T, Filled pos t

theorem allFilled_mono {pos pos' : Nat} {T : List jsmntok_t} (h : AllFilled pos T) (hle : pos ≤ pos') :
    AllFilled pos' T :=
  fun t ht => (h t ht).mono hle

theorem allFilled_snoc {pos : Nat} {T : List jsmntok_t} {t : jsmntok_t} (h : AllFilled pos T) (ht : Filled pos t) :
    AllFilled pos (T ++ [t]) := by
  intro x hx
  rcases List.mem_append.mp hx with hx | hx
  · exact h x hx
  · rw [List.mem_singleton.mp hx]
    exact ht

theorem allFilled_bump {pos : Nat} {T : List jsmntok_t} (h : AllFilled pos T) (super : Int) :
    AllFilled pos (bump super T) := by
  unfold bump
  split
  · exact h
  · exact forall_mem_modify h _ fun t ht => ht.with_size _

/-! ## The inner loops -/

theorem rd_inside (hlen : len ≤ js.length) {pos : Nat} (hpos : pos < len) : ∃ c, rd js pos = some c := by
  rw [rd_natCast]
  exact ⟨_, List.getElem?_eq_getElem (hpos.trans_le hlen)⟩

theorem primitive_loop_safe (hlen : len ≤ js.length) (hmax : len < 2 ^ 31) {pos fuel : Nat} (hpos : pos ≤ len)
    (hfuel : len - pos < fuel) :
    ∃ r, primitive_loop js len fuel pos = some r ∧ ∀ e ∈ r, pos ≤ e ∧ e ≤ len := by
  induction fuel generalizing pos with
  | zero => omega
  | succ fuel ih =>
    rw [primitive_loop]
    by_cases hend : len ≤ pos
    · rw [if_pos hend]
      exact ⟨some pos, rfl, by simpa using hpos⟩
    obtain ⟨c, hc⟩ := rd_inside hlen (not_le.mp hend)
    rw [if_neg hend, hc, Option.bind_some]
    split
    · exact ⟨some pos, rfl, by simpa using hpos⟩
    split
    · exact ⟨none, rfl, by simp⟩
    · rw [u32_of_lt (by omega)]
      obtain ⟨r, hr, hbounds⟩ := ih (show pos + 1 ≤ len by omega) (by omega)
      refine ⟨r, hr, fun e he => ?_⟩
      have := hbounds e he
      omega

theorem primitive_loop_advances (hlen : len ≤ js.length) (hmax : len < 2 ^ 31) {c : Byte} {pos fuel : Nat}
    (hpos : pos < len) (hc : rd js pos = some c) (hc0 : c ≠ 0) (hends : ¬ endsPrimitive c) (hfuel : len - pos < fuel) :
    ∃ r, primitive_loop js len fuel pos = some r ∧ ∀ e ∈ r, pos < e ∧ e ≤ len := by
  obtain ⟨fuel, rfl⟩ : ∃ f, fuel = f + 1 := ⟨fuel - 1, by omega⟩
  rw [primitive_loop, if_neg (by omega), hc, Option.bind_some, if_neg (not_or.mpr ⟨hc0, hends⟩)]
  split
  · exact ⟨none, rfl, by simp⟩
  · rw [u32_of_lt (by omega)]
    exact primitive_loop_safe hlen hmax (by omega) (by omega)

theorem hex_loop_safe (hlen : len ≤ js.length) (hmax : len < 2 ^ 31) (i : Nat) {pos : Nat} (hpos : pos ≤ len) :
    ∃ r, hex_loop js len i pos = some r ∧ ∀ e ∈ r, pos ≤ e ∧ e ≤ len := by
  induction i generalizing pos with
  | zero =>
    exact ⟨some pos, rfl, by simpa using hpos⟩
  | succ i ih =>
    have hstop : ∀ e ∈ some pos, pos ≤ e ∧ e ≤ len := by
      simpa using hpos
    rw [hex_loop]
    by_cases hend : len ≤ pos
    · rw [if_pos hend]
      exact ⟨some pos, rfl, hstop⟩
    obtain ⟨c, hc⟩ := rd_inside hlen (not_le.mp hend)
    rw [if_neg hend, hc, Option.bind_some]
    split
    · exact ⟨some pos, rfl, hstop⟩
    split
    · rw [u32_of_lt (by omega)]
      obtain ⟨r, hr, hbounds⟩ := ih (show pos + 1 ≤ len by omega)
      refine ⟨r, hr, fun e he => ?_⟩
      have := hbounds e he
      omega
    · exact ⟨none, rfl, by simp⟩

theorem string_loop_safe (hlen : len ≤ js.length) (hmax : len < 2 ^ 31) {pos fuel : Nat} (hpos : pos ≤ len)
    (hfuel : len - pos < fuel) :
    ∃ r, string_loop js len fuel pos = some r ∧ ∀ e, r = .quote e → pos ≤ e ∧ e < len := by
  induction fuel generalizing pos with
  | zero => omega
  | succ fuel ih =>
    rw [string_loop]
    by_cases hend : len ≤ pos
    · rw [if_pos hend]
      exact ⟨.part, rfl, by simp⟩
    -- each recursive call goes on at least one character behind `pos`
    have hlater {pos' : Nat} (hlt : pos < pos') (hle : pos' ≤ len) :
        ∃ r, string_loop js len fuel pos' = some r ∧ ∀ e, r = .quote e → pos ≤ e ∧ e < len := by
      obtain ⟨r, hr, hbounds⟩ := ih hle (by omega)
      refine ⟨r, hr, fun e he => ?_⟩
      have := hbounds e he
      omega
    obtain ⟨c, hc⟩ := rd_inside hlen (not_le.mp hend)
    rw [if_neg hend, hc, Option.bind_some]
    split
    · exact ⟨.part, rfl, by simp⟩
    split
    · exact ⟨.quote pos, rfl, by simpa using hend⟩
    rw [u32_of_lt (by omega)]
    split
    · rename_i hescape
      obtain ⟨e, he⟩ := rd_inside hlen hescape.2
      rw [he, Option.bind_some, u32_of_lt (by omega)]
      split
      · exact hlater (by omega) (by omega)
      split
      · obtain ⟨r, hr, hbounds⟩ := hex_loop_safe hlen hmax 4 (show pos + 1 + 1 ≤ len by omega)
        rw [hr, Option.bind_some]
        cases r with
        | none => exact ⟨.inval, rfl, by simp⟩
        | some pos' =>
          have hpos' := hbounds pos' rfl
          dsimp only
          rw [u32_pred (by omega) (by omega), u32_of_lt (by omega)]
          exact hlater (by omega) (by omega)
      · exact ⟨.inval, rfl, by simp⟩
    · exact hlater (by omega) (by omega)

/-! ## One iteration -/

/-- An iteration that goes on leaves the parser on a character of the text, with filled tokens. An
iteration that returns has found an error. -/
def FlowSafe (len n pos : Nat) : Flow → Prop
  | .ret r _ => r < 0
  | .next s => ∃ pos' T super, s = st pos' T super ∧ pos ≤ pos' ∧ pos' < len ∧ T.length ≤ n ∧ Super super T ∧
      AllFilled (pos' + 1) T

/-- From here on the parser is at `pos`, in the text, and has room for `n` tokens. -/
structure Safe (len n pos : Nat) (T : List jsmntok_t) (super : Int) : Prop where
  inside : pos < len
  length : T.length ≤ n
  super : Super super T
  filled : AllFilled pos T

variable {pos : Nat} {T : List jsmntok_t} {super : Int}

theorem Super.mono {T' : List jsmntok_t} (h : Super super T) (hle : T.length ≤ T'.length) : Super super T' := by
  rcases h with rfl | ⟨h0, hlt⟩
  · exact Or.inl rfl
  · exact Or.inr ⟨h0, by omega⟩

theorem Safe.same (h : Safe len n pos T super) : FlowSafe len n pos (.next (st pos T super)) :=
  ⟨pos, T, super, rfl, le_rfl, h.inside, h.length, h.super, allFilled_mono h.filled (Nat.le_succ pos)⟩

theorem parse_scalar_safe (h : Safe len n pos T super) {end_ : Nat} {t : jsmntok_t} (hle : pos ≤ end_)
    (hlt : end_ < len)
    (hroom : T.length < n) (ht : Filled (end_ + 1) t) :
    ∃ flow, parse_scalar (st pos T super) (0, ⟨end_, T.length + 1, super⟩, some (T ++ [t])) = some flow ∧
      FlowSafe len n pos flow := by
  have hsuper : Super super (T ++ [t]) := h.super.mono (by rw [List.length_append]; exact Nat.le_add_right _ _)
  have hfilled := allFilled_snoc (allFilled_mono h.filled (by omega : pos ≤ end_ + 1)) ht
  refine ⟨.next (st end_ (bump super (T ++ [t])) super), ?_, end_, _, super, rfl, hle, hlt, ?_, ?_, ?_⟩
  · rw [parse_scalar, if_neg (Int.lt_irrefl 0)]
    dsimp only
    rw [bump_super_eq hsuper]
    simp
  · rw [bump_length, List.length_append]
    exact hroom
  · exact hsuper.mono (bump_length _ _).ge
  · exact allFilled_bump hfilled super

theorem parse_scalar_error (s : ParseState) {r : Int} (hr : r < 0) (parser : jsmn_parser_t) (tokens : Tokens) :
    ∃ flow, parse_scalar s (r, parser, tokens) = some flow ∧ FlowSafe len n pos flow := by
  refine ⟨.ret r { s with parser, tokens }, ?_, hr⟩
  rw [parse_scalar, if_pos hr]

theorem alloc_full (hfull : n ≤ T.length) :
    jsmn_alloc_token ⟨pos, T.length, super⟩ T n = none := by
  rw [jsmn_alloc_token, if_pos hfull]

theorem alloc_room (hroom : T.length < n) :
    jsmn_alloc_token ⟨pos, T.length, super⟩ T n =
      some (⟨pos, T.length + 1, super⟩, T ++ [⟨JSMN_UNDEFINED, -1, -1, 0⟩]) := by
  rw [jsmn_alloc_token, if_neg (Nat.not_le.mpr hroom)]

theorem fill_snoc (t : jsmntok_t) (type : jsmntype_t) (start end_ : Int) :
    jsmn_fill_token (T ++ [t]) type start end_ = T ++ [⟨type, start, end_, 0⟩] := by
  rw [jsmn_fill_token, List.dropLast_concat]

theorem parse_string_safe (hlen : len ≤ js.length) (hmax : len < 2 ^ 31) (h : Safe len n pos T super) {fuel : Nat}
    (hfuel : len - pos < fuel) :
    ∃ flow, (jsmn_parse_string fuel ⟨pos, T.length, super⟩ js len (some T) n).bind (parse_scalar (st pos T super)) =
      some flow ∧ FlowSafe len n pos flow := by
  have hpos := h.inside
  obtain ⟨r, hr, hbounds⟩ := string_loop_safe hlen hmax (show pos + 1 ≤ len by omega)
    (show len - (pos + 1) < fuel by omega)
  rw [jsmn_parse_string, u32_of_lt (by dsimp only; omega), hr, Option.bind_some]
  cases r with
  | inval => exact parse_scalar_error _ (by decide : JSMN_ERROR_INVAL < 0) _ _
  | part => exact parse_scalar_error _ (by decide : JSMN_ERROR_PART < 0) _ _
  | quote e =>
    obtain ⟨hle, hlt⟩ := hbounds e rfl
    dsimp only
    by_cases hfull : n ≤ T.length
    · rw [alloc_full hfull]
      exact parse_scalar_error _ (by decide : JSMN_ERROR_NOMEM < 0) _ _
    · rw [alloc_room (not_le.mp hfull)]
      dsimp only
      rw [fill_snoc, i32_of_lt (n := pos) (by omega), show (pos : Int) + 1 = (pos + 1 : Nat) by omega,
        i32_of_lt (by omega), i32_of_lt (by omega)]
      refine parse_scalar_safe h (by omega) hlt (not_le.mp hfull) ⟨by simp, ⟨?_, ?_⟩, Or.inr ⟨?_, ?_⟩⟩
      all_goals
        dsimp only
        omega

theorem parse_primitive_safe (hlen : len ≤ js.length) (hmax : len < 2 ^ 31) (h : Safe len n pos T super) {fuel : Nat}
    (hfuel : len - pos < fuel) {c : Byte} (hc : rd js pos = some c) (hc0 : c ≠ 0) (hends : ¬ endsPrimitive c) :
    ∃ flow, (jsmn_parse_primitive fuel ⟨pos, T.length, super⟩ js len (some T) n).bind
      (parse_scalar (st pos T super)) = some flow ∧ FlowSafe len n pos flow := by
  obtain ⟨r, hr, hbounds⟩ := primitive_loop_advances hlen hmax h.inside hc hc0 hends hfuel
  rw [jsmn_parse_primitive, hr, Option.bind_some]
  cases r with
  | none => exact parse_scalar_error _ (by decide : JSMN_ERROR_INVAL < 0) _ _
  | some e =>
    obtain ⟨hlt, hle⟩ := hbounds e rfl
    dsimp only
    by_cases hfull : n ≤ T.length
    · rw [alloc_full hfull]
      exact parse_scalar_error _ (by decide : JSMN_ERROR_NOMEM < 0) _ _
    · rw [alloc_room (not_le.mp hfull)]
      dsimp only
      rw [fill_snoc, u32_pred (by omega) (by omega), i32_of_lt (by omega), i32_of_lt (by omega)]
      refine parse_scalar_safe h (by omega) (by omega) (not_le.mp hfull) ⟨by simp, ⟨?_, ?_⟩, Or.inr ⟨?_, ?_⟩⟩
      all_goals
        dsimp only
        omega

theorem parse_open_safe (hmax : len < 2 ^ 31) (hn : n < 2 ^ 31) (h : Safe len n pos T super) {type : jsmntype_t}
    (htype : type ≠ JSMN_UNDEFINED) :
    ∃ flow, parse_open (st pos T super) n type = some flow ∧ FlowSafe len n pos flow := by
  have hpos := h.inside
  have hlength := h.length
  by_cases hfull : n ≤ T.length
  · rw [parse_open]
    dsimp only
    rw [alloc_full hfull]
    exact ⟨_, rfl, (by decide : JSMN_ERROR_NOMEM < 0)⟩
  · refine ⟨_, parse_open_eq type (by omega) h.super (not_le.mp hfull) (by omega), pos, _, T.length, rfl, le_rfl, hpos,
      ?_, ?_, ?_⟩
    · rw [List.length_append, bump_length]
      exact not_le.mp hfull
    · exact Or.inr ⟨by omega, by rw [List.length_append, bump_length]; simp⟩
    · refine allFilled_snoc (allFilled_bump (allFilled_mono h.filled (Nat.le_succ pos)) super) ⟨htype, ⟨?_, ?_⟩,
        Or.inl rfl⟩
      all_goals
        dsimp only [openToken]
        omega

theorem super_lastIndex (p : jsmntok_t → Bool) (T : List jsmntok_t) : Super (lastIndex p T) T := by
  rcases lastIndex_cases p T with ⟨hnone, -⟩ | ⟨A, t, L, rfl, hindex, -⟩
  · exact Or.inl hnone
  · rw [hindex]
    refine Or.inr ⟨by omega, ?_⟩
    rw [List.length_append, List.length_cons]
    omega

theorem parse_close_safe (hmax : len < 2 ^ 31) (h : Safe len n pos T super) (type : jsmntype_t) :
    ∃ flow, parse_close (st pos T super) type = some flow ∧ FlowSafe len n pos flow := by
  have hpos := h.inside
  rcases lastIndex_cases isOpen T with ⟨hnone, -⟩ | ⟨A, t, L, rfl, hindex, hopen, hL⟩
  · rw [parse_close]
    dsimp only
    rw [scan_back_eq, hnone, Option.bind_some, if_pos rfl]
    exact ⟨_, rfl, (by decide : JSMN_ERROR_INVAL < 0)⟩
  have ht := h.filled t (List.mem_append_right A List.mem_cons_self)
  by_cases htype : t.type = type
  · subst htype
    have hlength : (A ++ { t with end_ := ((pos + 1 : Nat) : Int) } :: L).length = (A ++ t :: L).length := by
      simp
    refine ⟨_, parse_close_eq super (by omega) hopen hL, pos, A ++ { t with end_ := ((pos + 1 : Nat) : Int) } :: L,
      lastOpen A, rfl, le_rfl, hpos, ?_, ?_, ?_⟩
    · exact hlength.trans_le h.length
    · exact (super_lastIndex isOpen A).mono (by rw [List.length_append]; exact Nat.le_add_right _ _)
    · have hfilled := allFilled_mono h.filled (Nat.le_succ pos)
      intro x hx
      rcases List.mem_append.mp hx with hx | hx
      · exact hfilled x (List.mem_append_left _ hx)
      rcases List.mem_cons.mp hx with rfl | hx
      · obtain ⟨h0, hstart⟩ := ht.start
        refine ⟨ht.type, ⟨h0, ?_⟩, Or.inr ⟨?_, ?_⟩⟩
        all_goals
          dsimp only
          omega
      · exact hfilled x (List.mem_append_right _ (List.mem_cons_of_mem _ hx))
  · rw [parse_close]
    dsimp only
    rw [scan_back_eq, hindex, Option.bind_some, if_neg (by omega)]
    simp only [Int.toNat_natCast, List.getElem?_append_right le_rfl, Nat.sub_self,
      List.getElem?_cons_zero, Option.bind_some]
    rw [if_pos htype]
    exact ⟨_, rfl, (by decide : JSMN_ERROR_INVAL < 0)⟩

theorem parse_comma_safe (h : Safe len n pos T super) :
    ∃ flow, parse_comma (st pos T super) = some flow ∧ FlowSafe len n pos flow := by
  rw [parse_comma]
  dsimp only
  rcases h.super with hsuper | ⟨h0, hlt⟩
  · rw [if_pos hsuper]
    exact ⟨_, rfl, h.same⟩
  have hi : super.toNat < T.length := by omega
  rw [if_neg (by omega), if_neg (by omega), List.getElem?_eq_getElem hi, Option.bind_some]
  split
  · exact ⟨_, rfl, h.same⟩
  · rw [scan_back_eq, Option.map_some]
    split
    · exact ⟨_, rfl, h.same⟩
    · exact ⟨_, rfl, pos, T, _, rfl, le_rfl, h.inside, h.length, super_lastIndex _ T,
        allFilled_mono h.filled (Nat.le_succ pos)⟩

theorem parse_switch_safe (hlen : len ≤ js.length) (hmax : len < 2 ^ 31) (hn : n < 2 ^ 31)
    (h : Safe len n pos T super) {fuel : Nat} (hfuel : len - pos < fuel) {c : Byte} (hc : rd js pos = some c)
    (hc0 : c ≠ 0) :
    ∃ flow, parse_switch fuel js len n c (st pos T super) = some flow ∧ FlowSafe len n pos flow := by
  have hlength := h.length
  unfold parse_switch
  split
  · exact parse_open_safe hmax hn h nofun
  split
  · exact parse_open_safe hmax hn h nofun
  split
  · exact parse_close_safe hmax h _
  split
  · exact parse_close_safe hmax h _
  split
  · exact parse_string_safe hlen hmax h hfuel
  split
  · exact ⟨_, rfl, h.same⟩
  split
  · have hcolon : i32 ((T.length : Int) - 1) = (T.length : Int) - 1 := by
      unfold i32
      omega
    refine ⟨_, rfl, pos, T, i32 ((T.length : Int) - 1), rfl, le_rfl, h.inside, hlength, ?_,
      allFilled_mono h.filled (Nat.le_succ pos)⟩
    unfold Super
    omega
  split
  · exact parse_comma_safe h
  · refine parse_primitive_safe hlen hmax h hfuel hc hc0 ?_
    simp_all [endsPrimitive]

/-! ## The loop -/

/-- The token lies in a text of `len` characters. -/
structure Placed (len : Nat) (t : jsmntok_t) : Prop where
  type : t.type ≠ JSMN_UNDEFINED
  start : 0 ≤ t.start
  ordered : t.start ≤ t.end_
  end_ : t.end_ ≤ len

theorem Filled.placed {t : jsmntok_t} (h : Filled pos t) (hpos : pos ≤ len) (hclosed : isOpen t = false) :
    Placed len t := by
  obtain ⟨htype, ⟨h0, -⟩, hend⟩ := h
  have hne : t.end_ ≠ -1 := by
    intro hopen
    have hstart : t.start ≠ -1 := by omega
    simp [isOpen, hopen, hstart] at hclosed
  rcases hend with hopen | ⟨hordered, hend⟩
  · exact absurd hopen hne
  · exact ⟨htype, h0, hordered, by omega⟩

/-- The parser returns an error, or the number of tokens, each with its place. -/
def ResultSafe (len n : Nat) (r : Int) (tokens : Tokens) : Prop :=
  r < 0 ∨ ∃ T, tokens = some T ∧ r = T.length ∧ T.length ≤ n ∧ ∀ t ∈ T, Placed len t

theorem parse_end_safe (hpos : pos ≤ len) (hlength : T.length ≤ n) (hfilled : AllFilled pos T) :
    ∃ r s, parse_end (st pos T super) = some (r, s) ∧ ResultSafe len n r s.tokens := by
  rw [parse_end]
  dsimp only
  rw [scan_back_eq, Option.map_some]
  rcases lastIndex_cases isOpen T with ⟨hnone, hclosed⟩ | ⟨A, t, L, rfl, hindex, -⟩
  · rw [if_pos hnone]
    exact ⟨_, _, rfl, Or.inr ⟨T, rfl, rfl, hlength, fun t ht => (hfilled t ht).placed hpos (hclosed t ht)⟩⟩
  · rw [if_neg (by omega)]
    exact ⟨_, _, rfl, Or.inl (by decide : JSMN_ERROR_PART < 0)⟩

theorem parse_loop_safe (hlen : len ≤ js.length) (hmax : len < 2 ^ 31) (hn : n < 2 ^ 31) {fuel : Nat} (hpos : pos ≤ len)
    (hfuel : len - pos + 1 < fuel) (hlength : T.length ≤ n) (hsuper : Super super T) (hfilled : AllFilled pos T) :
    ∃ r s, parse_loop js len n fuel (st pos T super) = some (r, s) ∧ ResultSafe len n r s.tokens := by
  induction fuel generalizing pos T super with
  | zero => omega
  | succ fuel ih =>
    rw [parse_loop]
    by_cases hend : len ≤ pos
    · rw [if_pos hend]
      exact parse_end_safe hpos hlength hfilled
    obtain ⟨c, hc⟩ := rd_inside hlen (not_le.mp hend)
    rw [if_neg hend, hc, Option.bind_some]
    by_cases hc0 : c = 0
    · rw [if_pos hc0]
      exact parse_end_safe hpos hlength hfilled
    obtain ⟨flow, hflow, hsafe⟩ :=
      parse_switch_safe hlen hmax hn ⟨not_le.mp hend, hlength, hsuper, hfilled⟩ (by omega : len - pos < fuel) hc hc0
    rw [if_neg hc0, hflow, Option.bind_some]
    cases flow with
    | ret r s => exact ⟨r, s, rfl, Or.inl hsafe⟩
    | next s =>
      obtain ⟨pos', T', super', rfl, hle, hlt, hlength', hsuper', hfilled'⟩ := hsafe
      dsimp only
      rw [u32_of_lt (by omega)]
      exact ih (by omega) (by omega) hlength' hsuper' hfilled'

/-- `jsmn_parse` returns on any text of `len` characters, and reads no character behind them. -/
theorem jsmn_parse_safe (hlen : len ≤ js.length) (hmax : len < 2 ^ 31) (hn : n < 2 ^ 31) {fuel : Nat}
    (hfuel : len + 1 < fuel) :
    ∃ r parser tokens, jsmn_parse fuel jsmn_init js len (some []) n = some (r, parser, tokens) ∧
      ResultSafe len n r tokens := by
  obtain ⟨r, s, hloop, hsafe⟩ := parse_loop_safe hlen hmax hn (Nat.zero_le len)
    (show len - 0 + 1 < fuel by omega) (show ([] : List jsmntok_t).length ≤ n from Nat.zero_le n)
    (Or.inl rfl : Super (-1) []) (by simp [AllFilled])
  refine ⟨r, s.parser, s.tokens, ?_, hsafe⟩
  have hinit : (⟨jsmn_init, some [], i32 jsmn_init.toknext⟩ : ParseState) = st 0 [] (-1) := by
    simp [jsmn_init, i32]
  rw [jsmn_parse, hinit, hloop, Option.map_some]

end ToyTstat.Jsmn
