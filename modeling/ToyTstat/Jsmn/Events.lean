import ToyTstat.Jsmn.Safe

/-!
# Reading and filling

An iteration of `jsmn_parse` reads one lexeme and then works on the tokens. What it reads depends on
the text alone, what it does with that on the tokens alone.
-/

open CLib ToyTstat.Code ToyTstat.Code.jsmntype_t

namespace ToyTstat.Jsmn

/-- What one iteration reads. A scalar leaves the parser at `last`. -/
inductive Event
  | opened (type : jsmntype_t)
  | closed (type : jsmntype_t)
  | scalar (type : jsmntype_t) (start end_ : Int) (last : Nat)
  | blank
  | colon
  | comma
  | error (r : Int)
deriving DecidableEq, Repr

def stringEvent (pos : Nat) : StringEnd → Event
  | .quote e => .scalar JSMN_STRING (i32 (i32 pos + 1)) (i32 e) e
  | .inval => .error JSMN_ERROR_INVAL
  | .part => .error JSMN_ERROR_PART

def primitiveEvent (pos : Nat) : Option Nat → Event
  | some e => .scalar JSMN_PRIMITIVE (i32 pos) (i32 e) (u32 (e + (2 ^ 32 - 1)))
  | none => .error JSMN_ERROR_INVAL

def scan (fuel : Nat) (js : List Byte) (len pos : Nat) (c : Byte) : Option Event :=
  if c = ch '{' then some (.opened JSMN_OBJECT)
  else if c = ch '[' then some (.opened JSMN_ARRAY)
  else if c = ch '}' then some (.closed JSMN_OBJECT)
  else if c = ch ']' then some (.closed JSMN_ARRAY)
  else if c = ch '"' then (string_loop js len fuel (u32 (pos + 1))).map (stringEvent pos)
  else if isSpace c then some .blank
  else if c = ch ':' then some .colon
  else if c = ch ',' then some .comma
  else (primitive_loop js len fuel pos).map (primitiveEvent pos)

def actScalar (num_tokens : Nat) (s : ParseState) (type : jsmntype_t) (start end_ : Int) (last : Nat) :
    Option Flow :=
  match s.tokens with
  | none => parse_scalar s (0, { s.parser with pos := last }, none)
  | some ts =>
    match jsmn_alloc_token s.parser ts num_tokens with
    | none => parse_scalar s (JSMN_ERROR_NOMEM, s.parser, s.tokens)
    | some (parser', ts') =>
      parse_scalar s (0, { parser' with pos := last }, some (jsmn_fill_token ts' type start end_))

def act (num_tokens : Nat) (s : ParseState) : Event → Option Flow
  | .opened type => parse_open s num_tokens type
  | .closed type => parse_close s type
  | .scalar type start end_ last => actScalar num_tokens s type start end_ last
  | .blank => some (.next s)
  | .colon => some (.next { s with parser := { s.parser with toksuper := i32 (s.parser.toknext - 1) } })
  | .comma => parse_comma s
  | .error r => some (.ret r s)

variable {js : List Byte} {len n fuel pos : Nat} {s : ParseState} {c : Byte}

theorem parse_string_eq (s : ParseState) :
    (jsmn_parse_string fuel s.parser js len s.tokens n).bind (parse_scalar s) =
      (string_loop js len fuel (u32 (s.parser.pos + 1))).bind fun r => act n s (stringEvent s.parser.pos r) := by
  unfold jsmn_parse_string
  rw [Option.bind_assoc]
  congr 1
  funext r
  obtain ⟨parser, tokens, count⟩ := s
  cases r with
  | inval => rfl
  | part => rfl
  | quote e =>
    cases tokens with
    | none => rfl
    | some T =>
      unfold stringEvent act actScalar
      dsimp only
      cases jsmn_alloc_token parser T n with
      | none => rfl
      | some room => rfl

theorem parse_primitive_eq (s : ParseState) :
    (jsmn_parse_primitive fuel s.parser js len s.tokens n).bind (parse_scalar s) =
      (primitive_loop js len fuel s.parser.pos).bind fun r => act n s (primitiveEvent s.parser.pos r) := by
  unfold jsmn_parse_primitive
  rw [Option.bind_assoc]
  congr 1
  funext r
  obtain ⟨parser, tokens, count⟩ := s
  cases r with
  | none => rfl
  | some e =>
    cases tokens with
    | none => rfl
    | some T =>
      unfold primitiveEvent act actScalar
      dsimp only
      cases jsmn_alloc_token parser T n with
      | none => rfl
      | some room => rfl

/-- The `switch` reads a lexeme and acts on it. -/
theorem parse_switch_eq (c : Byte) (s : ParseState) :
    parse_switch fuel js len n c s = (scan fuel js len s.parser.pos c).bind (act n s) := by
  unfold parse_switch scan
  split_ifs
  · rfl
  · rfl
  · rfl
  · rfl
  · rw [parse_string_eq, Option.bind_map]
    rfl
  · rfl
  · rfl
  · rfl
  · rw [parse_primitive_eq, Option.bind_map]
    rfl

/-! ## What an event does -/

/-- From `st pos T super`, with room for `n` tokens. -/
inductive Acts (n pos : Nat) (T : List jsmntok_t) (super : Int) : Event → Flow → Prop
  | opened (type : jsmntype_t) : T.length < n →
      Acts n pos T super (.opened type) (.next (st pos (bump super T ++ [openToken type pos]) T.length))
  | opened_full (type : jsmntype_t) : T.length = n →
      Acts n pos T super (.opened type) (.ret JSMN_ERROR_NOMEM { st pos T super with count := T.length + 1 })
  | closed (A : List jsmntok_t) (t : jsmntok_t) (L : List jsmntok_t) : T = A ++ t :: L → isOpen t → AllClosed L →
      Acts n pos T super (.closed t.type)
        (.next (st pos (A ++ { t with end_ := (pos + 1 : Nat) } :: L) (lastOpen A)))
  | unmatched (type : jsmntype_t) : Acts n pos T super (.closed type) (.ret JSMN_ERROR_INVAL (st pos T super))
  | scalar (type : jsmntype_t) (start end_ : Int) (last : Nat) : T.length < n →
      Acts n pos T super (.scalar type start end_ last)
        (.next (st last (bump super T ++ [⟨type, start, end_, 0⟩]) super))
  | scalar_full (type : jsmntype_t) (start end_ : Int) (last : Nat) : T.length = n →
      Acts n pos T super (.scalar type start end_ last) (.ret JSMN_ERROR_NOMEM (st pos T super))
  | moved (e : Event) (super' : Int) : e = .blank ∨ e = .colon ∨ e = .comma → Super super' T →
      Acts n pos T super e (.next (st pos T super'))
  | error (r : Int) : Acts n pos T super (.error r) (.ret r (st pos T super))

variable {T : List jsmntok_t} {super : Int}

theorem act_opened (hn : n < 2 ^ 31) (hpos : pos + 1 < 2 ^ 31) (hsuper : Super super T) (hlength : T.length ≤ n)
    (type : jsmntype_t) :
    ∃ flow, act n (st pos T super) (.opened type) = some flow ∧ Acts n pos T super (.opened type) flow := by
  rcases hlength.eq_or_lt with hfull | hroom
  · refine ⟨_, ?_, .opened_full type hfull⟩
    rw [act, parse_open]
    dsimp only
    rw [alloc_full hfull.ge]
  · exact ⟨_, parse_open_eq type (by omega) hsuper hroom (by omega), .opened type hroom⟩

theorem act_closed (hpos : pos + 1 < 2 ^ 31) (type : jsmntype_t) :
    ∃ flow, act n (st pos T super) (.closed type) = some flow ∧ Acts n pos T super (.closed type) flow := by
  rcases lastIndex_cases isOpen T with ⟨hnone, -⟩ | ⟨A, t, L, rfl, hindex, hopen, hL⟩
  · refine ⟨_, ?_, .unmatched type⟩
    rw [act, parse_close]
    dsimp only
    rw [scan_back_eq, hnone, Option.bind_some, if_pos rfl]
  by_cases htype : t.type = type
  · subst htype
    exact ⟨_, parse_close_eq super hpos hopen hL, .closed A t L rfl hopen hL⟩
  · refine ⟨_, ?_, .unmatched type⟩
    rw [act, parse_close]
    dsimp only
    rw [scan_back_eq, hindex, Option.bind_some, if_neg (by omega)]
    simp only [Int.toNat_natCast, List.getElem?_append_right le_rfl, Nat.sub_self,
      List.getElem?_cons_zero, Option.bind_some]
    rw [if_pos htype]

theorem actScalar_st (hsuper : Super super T) (hlength : T.length ≤ n) (type : jsmntype_t) (start end_ : Int)
    (last : Nat) :
    ∃ flow, act n (st pos T super) (.scalar type start end_ last) = some flow ∧
      Acts n pos T super (.scalar type start end_ last) flow := by
  rcases hlength.eq_or_lt with hfull | hroom
  · refine ⟨_, ?_, .scalar_full type start end_ last hfull⟩
    rw [act, actScalar]
    dsimp only
    rw [alloc_full hfull.ge]
    rfl
  · refine ⟨_, ?_, .scalar type start end_ last hroom⟩
    have hsuper' : ∀ t, Super super (T ++ [t]) := fun t => hsuper.mono (by simp)
    rw [act, actScalar]
    dsimp only
    rw [alloc_room hroom]
    dsimp only
    rw [fill_snoc, parse_scalar, if_neg (Int.lt_irrefl 0)]
    dsimp only
    rw [bump_super_eq (hsuper' _), bump_append hsuper]
    simp

theorem act_comma (hsuper : Super super T) :
    ∃ flow, act n (st pos T super) .comma = some flow ∧ Acts n pos T super .comma flow := by
  rw [act, parse_comma]
  dsimp only
  rcases hsuper with hnone | ⟨h0, hlt⟩
  · rw [if_pos hnone]
    exact ⟨_, rfl, .moved .comma super (by simp) (.inl hnone)⟩
  have hi : super.toNat < T.length := by omega
  rw [if_neg (by omega), if_neg (by omega), List.getElem?_eq_getElem hi, Option.bind_some]
  split
  · exact ⟨_, rfl, .moved .comma super (by simp) (.inr ⟨h0, hlt⟩)⟩
  · rw [scan_back_eq, Option.map_some]
    split
    · exact ⟨_, rfl, .moved .comma super (by simp) (.inr ⟨h0, hlt⟩)⟩
    · exact ⟨_, rfl, .moved .comma _ (by simp) (super_lastIndex _ T)⟩

theorem act_st (hn : n < 2 ^ 31) (hpos : pos + 1 < 2 ^ 31) (hsuper : Super super T) (hlength : T.length ≤ n)
    (e : Event) : ∃ flow, act n (st pos T super) e = some flow ∧ Acts n pos T super e flow := by
  cases e with
  | opened type => exact act_opened hn hpos hsuper hlength type
  | closed type => exact act_closed hpos type
  | scalar type start end_ last => exact actScalar_st hsuper hlength type start end_ last
  | blank => exact ⟨_, rfl, .moved .blank super (by simp) hsuper⟩
  | colon =>
    refine ⟨_, rfl, .moved .colon _ (by simp) ?_⟩
    unfold Super i32
    dsimp only
    omega
  | comma => exact act_comma hsuper
  | error r => exact ⟨_, rfl, .error r⟩

theorem parse_switch_acts (hn : n < 2 ^ 31) (hpos : pos + 1 < 2 ^ 31) (hsuper : Super super T)
    (hlength : T.length ≤ n) {flow : Flow} (h : parse_switch fuel js len n c (st pos T super) = some flow) :
    ∃ e, scan fuel js len pos c = some e ∧ Acts n pos T super e flow := by
  rw [parse_switch_eq] at h
  obtain ⟨e, he, h⟩ := Option.bind_eq_some_iff.mp h
  obtain ⟨flow', hflow', hacts⟩ := act_st hn hpos hsuper hlength e
  obtain rfl := Option.some_inj.mp (h.symm.trans hflow')
  exact ⟨e, he, hacts⟩

theorem Acts.error_same {e : Event} {r : Int} {s : ParseState} (h : Acts n pos T super e (.ret r s)) :
    ∃ c, s = { st pos T super with count := c } := by
  cases h with
  | opened_full type hfull => exact ⟨_, rfl⟩
  | unmatched type => exact ⟨_, rfl⟩
  | scalar_full type start end_ last hfull => exact ⟨_, rfl⟩
  | error r => exact ⟨_, rfl⟩

theorem Acts.error_returns {r : Int} {s : ParseState} (h : Acts n pos T super (.error r) (.next s)) : False := by
  cases h with
  | moved e super' hkind hsuper => simp at hkind

theorem Acts.scalar_next {type : jsmntype_t} {start end_ : Int} {last : Nat} {s : ParseState}
    (h : Acts n pos T super (.scalar type start end_ last) (.next s)) :
    s = st last (bump super T ++ [⟨type, start, end_, 0⟩]) super := by
  cases h with
  | scalar type start end_ last hroom => rfl
  | moved e super' hkind hsuper => simp at hkind

end ToyTstat.Jsmn
