import ToyTstat.Jsmn.Parse
import ToyTstat.Jsmn.Safe

/-!
# A text with too many tokens

With fewer slots the parser does the same as with more, until it asks for a slot that is not there.
-/

open CLib ToyTstat.Code ToyTstat.Code.jsmntype_t

namespace ToyTstat.Jsmn

variable {js : List Byte} {len n m fuel : Nat}

theorem alloc_budget (h : n ≤ m) (parser : jsmn_parser_t) (tokens : List jsmntok_t) :
    jsmn_alloc_token parser tokens n = jsmn_alloc_token parser tokens m ∨ jsmn_alloc_token parser tokens n = none := by
  unfold jsmn_alloc_token
  by_cases hfull : n ≤ parser.toknext
  · right
    rw [if_pos hfull]
  · left
    rw [if_neg hfull, if_neg (by omega)]

/-- The result with `n` slots is the result with more, or there was no slot. -/
def Budgeted (few many : Option Flow) : Prop := few = many ∨ ∃ s, few = some (.ret JSMN_ERROR_NOMEM s)

theorem parse_open_budget (h : n ≤ m) (s : ParseState) (type : jsmntype_t) :
    Budgeted (parse_open s n type) (parse_open s m type) := by
  unfold Budgeted parse_open
  dsimp only
  cases s.tokens with
  | none => exact .inl rfl
  | some tokens =>
    dsimp only
    rcases alloc_budget h s.parser tokens with hsame | hnone
    · rw [hsame]
      exact .inl rfl
    · rw [hnone]
      exact .inr ⟨_, rfl⟩

theorem parse_string_budget (h : n ≤ m) (parser : jsmn_parser_t) (tokens : Tokens) :
    jsmn_parse_string fuel parser js len tokens n = jsmn_parse_string fuel parser js len tokens m ∨
      jsmn_parse_string fuel parser js len tokens n = some (JSMN_ERROR_NOMEM, parser, tokens) := by
  unfold jsmn_parse_string
  cases string_loop js len fuel (u32 (parser.pos + 1)) with
  | none => exact .inl rfl
  | some ending =>
    simp only [Option.bind_some]
    cases ending with
    | inval => exact .inl rfl
    | part => exact .inl rfl
    | quote pos =>
      cases tokens with
      | none => exact .inl rfl
      | some tokens =>
        dsimp only
        rcases alloc_budget h parser tokens with hsame | hnone
        · rw [hsame]
          exact .inl rfl
        · rw [hnone]
          exact .inr rfl

theorem parse_primitive_budget (h : n ≤ m) (parser : jsmn_parser_t) (tokens : Tokens) :
    jsmn_parse_primitive fuel parser js len tokens n = jsmn_parse_primitive fuel parser js len tokens m ∨
      jsmn_parse_primitive fuel parser js len tokens n = some (JSMN_ERROR_NOMEM, parser, tokens) := by
  unfold jsmn_parse_primitive
  cases primitive_loop js len fuel parser.pos with
  | none => exact .inl rfl
  | some found =>
    simp only [Option.bind_some]
    cases found with
    | none => exact .inl rfl
    | some pos =>
      cases tokens with
      | none => exact .inl rfl
      | some tokens =>
        dsimp only
        rcases alloc_budget h parser tokens with hsame | hnone
        · rw [hsame]
          exact .inl rfl
        · rw [hnone]
          exact .inr rfl

theorem parse_scalar_budget (s : ParseState) {few many : Option (Int × jsmn_parser_t × Tokens)}
    (h : few = many ∨ few = some (JSMN_ERROR_NOMEM, s.parser, s.tokens)) :
    Budgeted (few.bind (parse_scalar s)) (many.bind (parse_scalar s)) := by
  rcases h with rfl | rfl
  · exact .inl rfl
  · exact .inr ⟨_, rfl⟩

theorem parse_switch_budget (js : List Byte) (len fuel : Nat) (h : n ≤ m) (c : Byte) (s : ParseState) :
    Budgeted (parse_switch fuel js len n c s) (parse_switch fuel js len m c s) := by
  unfold parse_switch
  split
  · exact parse_open_budget h s _
  split
  · exact parse_open_budget h s _
  split
  · exact .inl rfl
  split
  · exact .inl rfl
  split
  · exact parse_scalar_budget s (parse_string_budget h s.parser s.tokens)
  split
  · exact .inl rfl
  split
  · exact .inl rfl
  split
  · exact .inl rfl
  · exact parse_scalar_budget s (parse_primitive_budget h s.parser s.tokens)

theorem parse_loop_budget (js : List Byte) (len : Nat) (h : n ≤ m) (fuel : Nat) (s : ParseState) :
    parse_loop js len n fuel s = parse_loop js len m fuel s ∨
      ∃ s', parse_loop js len n fuel s = some (JSMN_ERROR_NOMEM, s') := by
  induction fuel generalizing s with
  | zero => exact .inl rfl
  | succ fuel ih =>
    unfold parse_loop
    split
    · exact .inl rfl
    cases rd js s.parser.pos with
    | none => exact .inl rfl
    | some c =>
      simp only [Option.bind_some]
      split
      · exact .inl rfl
      rcases parse_switch_budget js len fuel h c s with hsame | ⟨s', hfull⟩
      · rw [hsame]
        cases parse_switch fuel js len m c s with
        | none => exact .inl rfl
        | some flow =>
          cases flow with
          | ret r s' => exact .inl rfl
          | next s' => exact ih _
      · rw [hfull]
        exact .inr ⟨s', rfl⟩

theorem parse_doc_full (js before after : List Byte) (d : Doc) (n fuel : Nat) (hd : d.Ok) (hbefore : Spaces before)
    (hafter : Spaces after) (hmax : (before ++ d.text ++ after).length < 2 ^ 31)
    (hjs : before ++ d.text ++ after <+: js) (hn : n < d.count)
    (hfuel : (before ++ d.text ++ after).length + 1 < fuel) :
    ∃ r parser tokens, jsmn_parse fuel jsmn_init js (before ++ d.text ++ after).length (some []) n =
      some (r, parser, tokens) ∧ r < 0 := by
  have hcount : d.count ≤ d.text.length := Doc.count_le d hd
  have htext : d.text.length ≤ (before ++ d.text ++ after).length := by
    simp only [List.length_append]
    omega
  have hmany := parse_doc js before after d d.count fuel hd hbefore hafter hmax hjs le_rfl hfuel
  obtain ⟨r, parser, tokens, hfew, hsafe⟩ := jsmn_parse_safe hjs.length_le hmax (show n < 2 ^ 31 by omega) hfuel
  refine ⟨r, parser, tokens, hfew, ?_⟩
  unfold jsmn_parse at hmany hfew
  rcases parse_loop_budget js (before ++ d.text ++ after).length hn.le fuel
    ⟨jsmn_init, some [], i32 jsmn_init.toknext⟩ with hsame | ⟨s', hfull⟩
  · -- as many tokens as that do not fit
    rw [hsame, hmany, Option.some_inj, Prod.mk.injEq] at hfew
    rcases hsafe with hneg | ⟨_, -, hr, hfits, -⟩
    · exact hneg
    · omega
  · rw [hfull, Option.map_some, Option.some_inj, Prod.mk.injEq] at hfew
    rw [← hfew.1]
    decide

end ToyTstat.Jsmn
