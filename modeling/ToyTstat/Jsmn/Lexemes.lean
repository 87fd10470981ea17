import ToyTstat.Jsmn.Tokens

/-! # One step of the tokenizer for each kind of lexeme -/

open CLib ToyTstat.Code ToyTstat.Code.jsmntype_t

namespace ToyTstat.Jsmn

variable {js : List Byte} {len n : Nat}

/-! ## White space and separators -/

theorem reaches_space (hmax : len < 2 ^ 31) {c : Byte} {r : List Byte} {pos : Nat} (T : List jsmntok_t)
    (super : Int) (hrest : rest js len pos = c :: r) (hc : isSpace c) :
    Reaches js len n (st pos T super) (st (pos + 1) T super) := by
  apply reaches_switch hmax (st pos T super) (st pos T super) hrest _ le_rfl (rest_lt hrest)
  · intro fuel _
    have h : ∀ c : Byte, isSpace c → c ≠ ch '{' ∧ c ≠ ch '[' ∧ c ≠ ch '}' ∧ c ≠ ch ']' ∧ c ≠ ch '"' := by
      decide +kernel
    obtain ⟨h1, h2, h3, h4, h5⟩ := h c hc
    rw [parse_switch, if_neg h1, if_neg h2, if_neg h3, if_neg h4, if_neg h5, if_pos hc]
  · rintro rfl
    simp [isSpace, ch] at hc

theorem reaches_spaces (hmax : len < 2 ^ 31) (w : List Byte) {r : List Byte} {pos : Nat} (T : List jsmntok_t)
    (super : Int) (hrest : rest js len pos = w ++ r) (hw : ∀ c ∈ w, isSpace c) :
    Reaches js len n (st pos T super) (st (pos + w.length) T super) := by
  induction w generalizing pos with
  | nil => exact Reaches.refl _
  | cons c w ih =>
    have h1 := reaches_space (n := n) hmax T super hrest (hw c List.mem_cons_self)
    have h2 := ih (rest_succ hrest) fun x hx => hw x (List.mem_cons_of_mem _ hx)
    rw [List.length_cons, Nat.add_comm w.length, ← Nat.add_assoc]
    exact h1.trans h2

theorem reaches_colon (hmax : len < 2 ^ 31) {r : List Byte} {pos : Nat} (T : List jsmntok_t) (t : jsmntok_t)
    (super : Int) (hrest : rest js len pos = ch ':' :: r) (hT : T.length < 2 ^ 31) :
    Reaches js len n (st pos (T ++ [t]) super) (st (pos + 1) (T ++ [t]) T.length) := by
  apply reaches_switch hmax (st pos (T ++ [t]) super) (st pos (T ++ [t]) T.length) hrest _ le_rfl
    (rest_lt hrest)
  · intro fuel _
    have hi : i32 ((T ++ [t]).length - 1 : Int) = T.length := by
      rw [List.length_append, List.length_singleton, Int.natCast_add, Int.natCast_one, Int.add_sub_cancel,
        i32_of_lt hT]
    rw [parse_switch, if_neg (by decide), if_neg (by decide), if_neg (by decide), if_neg (by decide),
      if_neg (by decide), if_neg (by decide), if_pos rfl]
    simp only [st, hi]
  · decide

theorem parse_switch_comma (fuel : Nat) (s : ParseState) :
    parse_switch fuel js len n (ch ',') s = parse_comma s := by
  rw [parse_switch, if_neg (by decide), if_neg (by decide), if_neg (by decide), if_neg (by decide),
    if_neg (by decide), if_neg (by decide), if_neg (by decide), if_pos rfl]

def OpenOk (T : List jsmntok_t) : Prop := ∀ t ∈ T, isOpen t → isContainer t.type

theorem scan_back_container (T : List jsmntok_t) (h : OpenOk T) :
    scan_back (fun t => isContainer t.type && isOpen t) T T.length = some (lastOpen T) := by
  rw [lastOpen, ← scan_back_eq]
  apply scan_back_congr
  apply List.map_congr_left
  intro t ht
  cases hopen : isOpen t with
  | false => simp
  | true => simp [h t ht hopen]

theorem reaches_comma (hmax : len < 2 ^ 31) {r : List Byte} {pos : Nat} (T : List jsmntok_t) (super i : Nat)
    (hrest : rest js len pos = ch ',' :: r) (hok : OpenOk T) (hi : lastOpen T = i) {t : jsmntok_t}
    (ht : T[super]? = some t) (hsuper : isContainer t.type → super = i) :
    Reaches js len n (st pos T super) (st (pos + 1) T i) := by
  -- a comma goes back to the enclosing container `i`, if the superior token is not a container already
  apply reaches_switch hmax (st pos T super) (st pos T i) hrest _ le_rfl (rest_lt hrest)
  · intro fuel _
    rw [parse_switch_comma, parse_comma]
    dsimp only
    rw [if_neg (by omega), if_neg (by omega), Int.toNat_natCast, ht]
    simp only [Option.bind_some]
    split
    · rename_i hcont
      rw [hsuper hcont]
    · rw [scan_back_container T hok, hi]
      simp only [Option.map_some]
      rw [if_neg (by omega)]
  · decide

/-! ## Scalars -/

/-- The token of a scalar that starts at `start` and ends before `end_`. -/
def scalarToken (type : jsmntype_t) (start end_ : Nat) : jsmntok_t := ⟨type, start, end_, 0⟩

theorem parse_scalar_eq {pos start end_ : Nat} {T : List jsmntok_t} {super : Int} (hsuper : Super super T)
    (type : jsmntype_t) (pos' : Nat) :
    parse_scalar (st pos T super)
        (0, ⟨pos', T.length + 1, super⟩, some (T ++ [scalarToken type start end_])) =
      some (.next (st pos' (bump super T ++ [scalarToken type start end_]) super)) := by
  have hs : Super super (T ++ [scalarToken type start end_]) := by
    rcases hsuper with h | ⟨h0, hlt⟩
    · exact Or.inl h
    · exact Or.inr ⟨h0, by simp; omega⟩
  rw [parse_scalar, if_neg (by omega)]
  simp only [st, bump_super_eq hs, bump_append hsuper, Option.map_some]
  simp

theorem reaches_string (hmax : len < 2 ^ 31) {body r : List Byte} {pos : Nat} {T : List jsmntok_t}
    (super : Int) (hrest : rest js len pos = ch '"' :: body ++ ch '"' :: r) (hbody : StringBody body)
    (hsuper : Super super T) (hn : T.length < n) :
    Reaches js len n (st pos T super)
      (st (pos + body.length + 2)
        (bump super T ++ [scalarToken JSMN_STRING (pos + 1) (pos + 1 + body.length)]) super) := by
  have hrest1 := rest_succ hrest
  have hend := rest_lt (rest_add hrest1)
  have hstep := reaches_switch (n := n) hmax (st pos T super)
    (st (pos + 1 + body.length)
      (bump super T ++ [scalarToken JSMN_STRING (pos + 1) (pos + 1 + body.length)]) super)
    hrest (by decide) (by dsimp only; omega) hend
  rw [show pos + body.length + 2 = pos + 1 + body.length + 1 by omega]
  apply hstep
  intro fuel hfuel
  rw [parse_switch, if_neg (by decide), if_neg (by decide), if_neg (by decide), if_neg (by decide),
    if_pos rfl, jsmn_parse_string]
  have hscan := string_loop_eq hmax hbody r (pos + 1) fuel hrest1 (by simp at hfuel; omega)
  dsimp only
  rw [u32_of_lt (by omega), hscan, Option.bind_some]
  dsimp only
  rw [jsmn_alloc_token, if_neg (by dsimp only; omega)]
  simp only [jsmn_fill_token, List.dropLast_concat, Option.bind_some]
  rw [show (i32 ((i32 (pos : Int)) + 1) : Int) = ((pos + 1 : Nat) : Int) by
    rw [i32_of_lt (by omega), ← Int.natCast_one, ← Int.natCast_add, i32_of_lt (by omega)],
    i32_of_lt (show pos + 1 + body.length < 2 ^ 31 by omega)]
  exact parse_scalar_eq hsuper JSMN_STRING _

/-- The text of a primitive: no separator, and not the start of something else. -/
def Primitive (a : List Byte) : Prop :=
  (∀ c ∈ a, primChar c) ∧ ∃ c s, a = c :: s ∧ c ≠ ch '{' ∧ c ≠ ch '[' ∧ c ≠ ch '"'

theorem reaches_primitive (hlen : len ≤ js.length) (hmax : len < 2 ^ 31) {a r : List Byte} {pos : Nat}
    {T : List jsmntok_t} {super : Int} (hrest : rest js len pos = a ++ r) (ha : Primitive a)
    (hstop : Stops r) (hsuper : Super super T) (hn : T.length < n) :
    Reaches js len n (st pos T super)
      (st (pos + a.length) (bump super T ++ [scalarToken JSMN_PRIMITIVE pos (pos + a.length)]) super) := by
  obtain ⟨hchars, c, s, rfl, hbrace, hbracket, hquote⟩ := ha
  have hle := rest_length js len pos hlen
  rw [hrest] at hle
  simp only [List.cons_append, List.length_cons, List.length_append] at hle
  have hc := hchars c List.mem_cons_self
  have hsep : ∀ c : Byte, primChar c →
      c ≠ 0 ∧ c ≠ ch '}' ∧ c ≠ ch ']' ∧ ¬ isSpace c ∧ c ≠ ch ':' ∧ c ≠ ch ',' := by decide +kernel
  obtain ⟨h0, h1, h2, h3, h4, h5⟩ := hsep c hc
  have hstep := reaches_switch (n := n) (r := s ++ r) hmax (st pos T super)
    (st (pos + s.length)
      (bump super T ++ [scalarToken JSMN_PRIMITIVE pos (pos + (c :: s).length)]) super)
    hrest h0 (by dsimp only; omega) (by dsimp only; omega)
  rw [List.length_cons, ← Nat.add_assoc] at *
  apply hstep
  intro fuel hfuel
  rw [parse_switch, if_neg hbrace, if_neg hbracket, if_neg h1, if_neg h2, if_neg hquote, if_neg h3,
    if_neg h4, if_neg h5, jsmn_parse_primitive]
  have hscan := primitive_loop_eq hlen hmax (c :: s) r pos fuel hrest hchars hstop
    (by simp only [List.length_append, List.length_cons] at hfuel ⊢; omega)
  dsimp only
  rw [hscan, Option.bind_some]
  dsimp only
  rw [jsmn_alloc_token, if_neg (by dsimp only; omega)]
  simp only [jsmn_fill_token, List.dropLast_concat, Option.bind_some, List.length_cons, ← Nat.add_assoc]
  rw [i32_of_lt (by omega), i32_of_lt (by omega), u32_pred (by omega) (by omega), Nat.add_sub_cancel]
  exact parse_scalar_eq hsuper JSMN_PRIMITIVE _

/-! ## Brackets -/

/-- The token of a container that starts at `start` and has not been closed. -/
def openToken (type : jsmntype_t) (start : Nat) : jsmntok_t := ⟨type, start, -1, 0⟩

theorem parse_open_eq {pos : Nat} {T : List jsmntok_t} {super : Int} (type : jsmntype_t)
    (hpos : pos < 2 ^ 31) (hsuper : Super super T) (hn : T.length < n) (hT : T.length < 2 ^ 31) :
    parse_open (st pos T super) n type =
      some (.next (st pos (bump super T ++ [openToken type pos]) T.length)) := by
  have hs : Super super (T ++ [⟨JSMN_UNDEFINED, -1, -1, 0⟩]) := by
    rcases hsuper with h | ⟨h0, hlt⟩
    · exact Or.inl h
    · exact Or.inr ⟨h0, by simp; omega⟩
  have hlast : (bump super T ++ [(⟨JSMN_UNDEFINED, -1, -1, 0⟩ : jsmntok_t)]).modify (bump super T).length
      (fun t => { t with type := type, start := i32 pos }) = bump super T ++ [openToken type pos] := by
    rw [List.modify_eq_take_cons_drop (by simp)]
    simp [openToken, i32_of_lt hpos]
  unfold parse_open
  dsimp only
  rw [jsmn_alloc_token, if_neg (by dsimp only; omega)]
  dsimp only
  rw [bump_super_eq hs, bump_append hsuper, Option.map_some, List.length_append, List.length_singleton,
    Nat.add_sub_cancel, hlast, Int.natCast_add, Int.natCast_one, Int.add_sub_cancel, i32_of_lt hT]
  simp

theorem reaches_open (hmax : len < 2 ^ 31) {c : Byte} {type : jsmntype_t} {r : List Byte} {pos : Nat}
    {T : List jsmntok_t} {super : Int} (hrest : rest js len pos = c :: r)
    (hc : (c = ch '{' ∧ type = JSMN_OBJECT) ∨ (c = ch '[' ∧ type = JSMN_ARRAY))
    (hsuper : Super super T) (hn : T.length < n) (hT : T.length < 2 ^ 31) :
    Reaches js len n (st pos T super) (st (pos + 1) (bump super T ++ [openToken type pos]) T.length) := by
  have hlt := rest_lt hrest
  apply reaches_switch hmax (st pos T super)
    (st pos (bump super T ++ [openToken type pos]) T.length) hrest _ le_rfl hlt
  · intro fuel _
    rcases hc with ⟨rfl, rfl⟩ | ⟨rfl, rfl⟩
    · rw [parse_switch, if_pos rfl]
      exact parse_open_eq _ (by omega) hsuper hn hT
    · rw [parse_switch, if_neg (by decide), if_pos rfl]
      exact parse_open_eq _ (by omega) hsuper hn hT
  · rcases hc with ⟨rfl, -⟩ | ⟨rfl, -⟩
    · decide
    · decide

def AllClosed (L : List jsmntok_t) : Prop := ∀ t ∈ L, isOpen t = false

theorem parse_close_eq {pos : Nat} {T L : List jsmntok_t} {token : jsmntok_t} (super : Int)
    (hpos : pos + 1 < 2 ^ 31) (hopen : isOpen token) (hL : AllClosed L) :
    parse_close (st pos (T ++ token :: L) super) token.type =
      some (.next (st pos (T ++ { token with end_ := (pos + 1 : Nat) } :: L) (lastOpen T))) := by
  have hlast : lastIndex isOpen (T ++ token :: L) = T.length := by
    rw [List.append_cons, lastIndex_append _ _ _ hL, lastIndex_snoc, if_pos hopen]
  have hat : (T ++ token :: L)[T.length]? = some token := by simp
  have hclosed : isOpen { token with end_ := ((pos + 1 : Nat) : Int) } = false := by
    simp only [isOpen]
    simp
    omega
  have hset : (T ++ token :: L).set T.length { token with end_ := ((pos + 1 : Nat) : Int) } =
      T ++ { token with end_ := ((pos + 1 : Nat) : Int) } :: L := by
    simp
  have hscan : scan_back isOpen (T ++ { token with end_ := ((pos + 1 : Nat) : Int) } :: L) (T.length + 1) =
      some (lastOpen T) := by
    rw [List.append_cons, scan_back_append _ _ _ _ (by simp), scan_back_snoc, hclosed]
    exact scan_back_eq _ _
  unfold parse_close
  dsimp only
  rw [scan_back_eq, hlast, Option.bind_some, if_neg (by omega), Int.toNat_natCast, hat, Option.bind_some,
    if_neg (by simp), u32_of_lt (by omega), i32_of_lt hpos, hset, hscan]
  simp

theorem reaches_close (hmax : len < 2 ^ 31) {c : Byte} {r : List Byte} {pos : Nat} {T L : List jsmntok_t}
    (token : jsmntok_t) (super : Int) (hrest : rest js len pos = c :: r)
    (hc : (c = ch '}' ∧ token.type = JSMN_OBJECT) ∨ (c = ch ']' ∧ token.type = JSMN_ARRAY))
    (hopen : isOpen token) (hL : AllClosed L) :
    Reaches js len n (st pos (T ++ token :: L) super)
      (st (pos + 1) (T ++ { token with end_ := (pos + 1 : Nat) } :: L) (lastOpen T)) := by
  have hlt := rest_lt hrest
  have hclose := parse_close_eq (T := T) super (show pos + 1 < 2 ^ 31 by omega) hopen hL
  apply reaches_switch hmax (st pos (T ++ token :: L) super)
    (st pos (T ++ { token with end_ := (pos + 1 : Nat) } :: L) (lastOpen T)) hrest _ le_rfl hlt
  · intro fuel _
    rcases hc with ⟨rfl, htype⟩ | ⟨rfl, htype⟩
    · rw [parse_switch, if_neg (by decide), if_neg (by decide), if_pos rfl, ← htype, hclose]
    · rw [parse_switch, if_neg (by decide), if_neg (by decide), if_neg (by decide), if_pos rfl, ← htype,
        hclose]
  · rcases hc with ⟨rfl, -⟩ | ⟨rfl, -⟩
    · decide
    · decide

end ToyTstat.Jsmn
