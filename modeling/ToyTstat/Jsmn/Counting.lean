import ToyTstat.Jsmn.Reads

/-!
# How many tokens a text needs

With `NULL` for the tokens `jsmn_parse` only counts. A caller that asks for the count first, and then
comes with so many slots, never hears that they are too few.
-/

open CLib ToyTstat.Code ToyTstat.Code.jsmntype_t

namespace ToyTstat.Jsmn

variable {js : List Byte} {len n k pos count fuel : Nat} {T : List jsmntok_t} {super : Int}

/-- The state of a parser without tokens. -/
abbrev countSt (pos count : Nat) : ParseState := ⟨⟨pos, 0, -1⟩, none, count⟩

/-- What an event does to a parser without tokens. -/
def countEvent (pos count : Nat) : Event → Flow
  | .opened _ => .next (countSt pos (count + 1))
  | .scalar _ _ _ last => .next (countSt last (count + 1))
  | .error r => .ret r (countSt pos count)
  | _ => .next (countSt pos count)

theorem act_count (k pos count : Nat) (e : Event) :
    act k (countSt pos count) e = some (countEvent pos count e) := by
  cases e with
  | opened type => rfl
  | closed type => rfl
  | scalar type start end_ last => rfl
  | blank => rfl
  | colon => rfl
  | comma => rfl
  | error r => rfl

theorem countEvent_cases {e : Event} (h : Reads js len pos e) (count : Nat) :
    (∃ r, countEvent pos count e = .ret r (countSt pos count) ∧ r < 0) ∨
      ∃ count', countEvent pos count e = .next (countSt (e.last pos) count') ∧ count ≤ count' := by
  cases h with
  | error hr =>
    left
    refine ⟨_, rfl, ?_⟩
    rcases hr with rfl | rfl <;> decide
  | opened hcontainer hc => exact .inr ⟨count + 1, rfl, Nat.le_succ count⟩
  | string hc hlt hend hbody hlast => exact .inr ⟨count + 1, rfl, Nat.le_succ count⟩
  | primitive hlt hle hchars hends => exact .inr ⟨count + 1, rfl, Nat.le_succ count⟩
  | closed hcontainer hc => exact .inr ⟨count, rfl, le_rfl⟩
  | blank => exact .inr ⟨count, rfl, le_rfl⟩
  | colon => exact .inr ⟨count, rfl, le_rfl⟩
  | comma => exact .inr ⟨count, rfl, le_rfl⟩

theorem count_loop (count : Nat) (hlen : len ≤ js.length) (hmax : len < 2 ^ 31) (hpos : pos ≤ len)
    (hfuel : len - pos + 1 < fuel) :
    ∃ c s, parse_loop js len k fuel (countSt pos count) = some (c, s) ∧ s.tokens = none ∧ (c < 0 ∨ count ≤ c) := by
  induction fuel generalizing pos count with
  | zero => omega
  | succ fuel ih =>
    rw [parse_loop]
    by_cases hend : len ≤ pos
    · rw [if_pos hend]
      exact ⟨count, _, rfl, rfl, .inr le_rfl⟩
    obtain ⟨c, hc⟩ := rd_inside hlen (not_le.mp hend)
    rw [if_neg hend, hc, Option.bind_some]
    split
    · exact ⟨count, _, rfl, rfl, .inr le_rfl⟩
    rename_i hc0
    obtain ⟨e, he, hreads⟩ := scan_reads hlen hmax (not_le.mp hend) ((rd_natCast js pos).symm.trans hc) hc0
      (show len - pos < fuel by omega)
    have hlast := hreads.last_inside (not_le.mp hend)
    rw [parse_switch_eq, he, Option.bind_some, act_count, Option.bind_some]
    rcases countEvent_cases hreads count with ⟨r, hret, hneg⟩ | ⟨count', hnext, hle⟩
    · rw [hret]
      exact ⟨r, _, rfl, rfl, .inl hneg⟩
    · rw [hnext]
      dsimp only
      rw [u32_of_lt (by omega)]
      obtain ⟨c, s, hloop, hnone, hcount⟩ := ih count' (show e.last pos + 1 ≤ len by omega) (by omega)
      refine ⟨c, s, hloop, hnone, ?_⟩
      omega

theorem Acts.counts {e : Event} {flow : Flow} (h : Acts n pos T super e flow) (hreads : Reads js len pos e)
    (hsuper : Super super T) (hlength : T.length ≤ n) :
    (∃ T' super', flow = .next (st (e.last pos) T' super') ∧ Super super' T' ∧ T'.length ≤ n ∧
      countEvent pos T.length e = .next (countSt (e.last pos) T'.length)) ∨
    ∃ r s, flow = .ret r s ∧ (r = JSMN_ERROR_INVAL ∨ r = JSMN_ERROR_PART ∨
      r = JSMN_ERROR_NOMEM ∧ countEvent pos T.length e = .next (countSt (e.last pos) (n + 1))) := by
  cases h with
  | opened type hroom =>
    refine .inl ⟨_, _, rfl, .inr ⟨by omega, ?_⟩, ?_, ?_⟩
    · simp
    · simpa using hroom
    · simp [countEvent, Event.last]
  | scalar type start end_ last hroom =>
    refine .inl ⟨_, _, rfl, hsuper.mono ?_, ?_, ?_⟩
    · simp
    · simpa using hroom
    · simp [countEvent, Event.last]
  | closed A t L hT hopen hL =>
    refine .inl ⟨_, _, rfl, (super_lastIndex isOpen A).mono ?_, ?_, ?_⟩
    · simp
    · simpa [hT] using hlength
    · simp [countEvent, Event.last, hT]
  | moved e super' hkind hsuper' =>
    refine .inl ⟨T, super', ?_⟩
    rcases hkind with rfl | rfl | rfl
    · exact ⟨rfl, hsuper', hlength, rfl⟩
    · exact ⟨rfl, hsuper', hlength, rfl⟩
    · exact ⟨rfl, hsuper', hlength, rfl⟩
  | opened_full type hfull => exact .inr ⟨_, _, rfl, .inr (.inr ⟨rfl, by rw [hfull]; rfl⟩)⟩
  | scalar_full type start end_ last hfull => exact .inr ⟨_, _, rfl, .inr (.inr ⟨rfl, by rw [hfull]; rfl⟩)⟩
  | unmatched type => exact .inr ⟨_, _, rfl, .inl rfl⟩
  | error r =>
    cases hreads with
    | error hr => exact .inr ⟨_, _, rfl, hr.imp_right .inl⟩

theorem count_agrees (hlen : len ≤ js.length) (hmax : len < 2 ^ 31) (hn : n < 2 ^ 31) (hpos : pos ≤ len)
    (hfuel : len - pos + 1 < fuel) (hsuper : Super super T) (hlength : T.length ≤ n) {r c : Int} {s s' : ParseState}
    (hparse : parse_loop js len n fuel (st pos T super) = some (r, s))
    (hcount : parse_loop js len k fuel (countSt pos T.length) = some (c, s')) :
    (0 ≤ r → r = c ∧ c ≤ n) ∧ (r = JSMN_ERROR_NOMEM → c < 0 ∨ n < c) := by
  induction fuel generalizing pos T super with
  | zero => omega
  | succ fuel ih =>
    have hend (hparse : parse_end (st pos T super) = some (r, s))
        (hcount : parse_end (countSt pos T.length) = some (c, s')) :
        (0 ≤ r → r = c ∧ c ≤ n) ∧ (r = JSMN_ERROR_NOMEM → c < 0 ∨ n < c) := by
      obtain ⟨rfl, -⟩ := Prod.mk.inj (Option.some_inj.mp hcount)
      obtain ⟨i, -, hi⟩ := Option.map_eq_some_iff.mp hparse
      split at hi
      · obtain ⟨rfl, -⟩ := Prod.mk.inj hi
        dsimp only
        refine ⟨fun _ => ⟨rfl, by omega⟩, fun hr => ?_⟩
        unfold JSMN_ERROR_NOMEM at hr
        omega
      · obtain ⟨rfl, -⟩ := Prod.mk.inj hi
        exact ⟨fun hr => absurd hr (by decide), fun hr => absurd hr (by decide)⟩
    rw [parse_loop] at hparse hcount
    by_cases hlast : len ≤ pos
    · rw [if_pos hlast] at hparse hcount
      exact hend hparse hcount
    obtain ⟨x, hx⟩ := rd_inside hlen (not_le.mp hlast)
    rw [if_neg hlast, hx, Option.bind_some] at hparse hcount
    by_cases hx0 : x = 0
    · rw [if_pos hx0] at hparse hcount
      exact hend hparse hcount
    rw [if_neg hx0] at hparse hcount
    obtain ⟨e, he, hreads⟩ := scan_reads hlen hmax (not_le.mp hlast) ((rd_natCast js pos).symm.trans hx) hx0
      (show len - pos < fuel by omega)
    have hinside := hreads.last_inside (not_le.mp hlast)
    obtain ⟨flow, hflow, hacts⟩ := act_st hn (show pos + 1 < 2 ^ 31 by omega) hsuper hlength e
    rw [parse_switch_eq, he, Option.bind_some, hflow, Option.bind_some] at hparse
    rw [parse_switch_eq, he, Option.bind_some, act_count, Option.bind_some] at hcount
    rcases hacts.counts hreads hsuper hlength with
      ⟨T', super', rfl, hsuper', hlength', hnext⟩ | ⟨r', s₁, rfl, herror⟩
    · rw [hnext] at hcount
      dsimp only at hparse hcount
      rw [u32_of_lt (by omega)] at hparse hcount
      exact ih (by omega) (by omega) hsuper' hlength' hparse hcount
    · obtain ⟨rfl, -⟩ := Prod.mk.inj (Option.some_inj.mp hparse)
      rcases herror with rfl | rfl | ⟨rfl, hnext⟩
      · exact ⟨fun hr => absurd hr (by decide), fun hr => absurd hr (by decide)⟩
      · exact ⟨fun hr => absurd hr (by decide), fun hr => absurd hr (by decide)⟩
      · refine ⟨fun hr => absurd hr (by decide), fun _ => ?_⟩
        rw [hnext] at hcount
        dsimp only at hcount
        rw [u32_of_lt (by omega)] at hcount
        obtain ⟨c', s₂, hloop, -, hle⟩ := count_loop (k := k) (n + 1) hlen hmax
          (show e.last pos + 1 ≤ len by omega) (show len - (e.last pos + 1) + 1 < fuel by omega)
        obtain ⟨rfl, -⟩ := Prod.mk.inj (Option.some_inj.mp (hloop.symm.trans hcount))
        omega

/-- The count is exact: a parse with slots gives the same number or an error, with fewer slots it always
gives an error, and with as many it never finds too few. -/
theorem count_exact (js : List Byte) (len k fuel : Nat) (hlen : len ≤ js.length) (hmax : len < 2 ^ 31)
    (hfuel : len + 1 < fuel) :
    ∃ c parser, jsmn_parse fuel jsmn_init js len none k = some (c, parser, none) ∧
      ∀ n < 2 ^ 31, ∃ r parser tokens, jsmn_parse fuel jsmn_init js len (some []) n = some (r, parser, tokens) ∧
        (0 ≤ r → r = c ∧ c ≤ n) ∧ (r = JSMN_ERROR_NOMEM → c < 0 ∨ n < c) := by
  obtain ⟨c, ⟨parser, tokens, count⟩, hcount, rfl, -⟩ := count_loop (k := k) 0 hlen hmax (Nat.zero_le len)
    (show len - 0 + 1 < fuel by omega)
  refine ⟨c, parser, ?_, fun n hn => ?_⟩
  · rw [jsmn_parse, i32_of_lt (n := jsmn_init.toknext) (by decide)]
    exact congrArg _ hcount
  obtain ⟨r, s, hparse, -⟩ := parse_loop_safe hlen hmax hn (Nat.zero_le len) (show len - 0 + 1 < fuel by omega)
    (show ([] : List jsmntok_t).length ≤ n from Nat.zero_le n) (Or.inl rfl : Super (-1) []) (by simp [AllFilled])
  refine ⟨r, s.parser, s.tokens, ?_, ?_⟩
  · rw [jsmn_parse, i32_of_lt (n := jsmn_init.toknext) (by decide)]
    exact congrArg _ hparse
  · exact count_agrees hlen hmax hn (Nat.zero_le len) (by omega) (.inl rfl)
      (show ([] : List jsmntok_t).length ≤ n from Nat.zero_le n) hparse hcount

theorem count_exact_temp :
    ∃ c parser, jsmn_parse 20 jsmn_init (ascii "\x7b\"temp\":21\x7d") 11 none 0 = some (c, parser, none) ∧
      ∀ n < 2 ^ 31, ∃ r parser tokens,
        jsmn_parse 20 jsmn_init (ascii "\x7b\"temp\":21\x7d") 11 (some []) n = some (r, parser, tokens) ∧
          (0 ≤ r → r = c ∧ c ≤ n) ∧ (r = JSMN_ERROR_NOMEM → c < 0 ∨ n < c) :=
  count_exact _ 11 0 20 (by decide) (by decide) (by decide)

end ToyTstat.Jsmn
