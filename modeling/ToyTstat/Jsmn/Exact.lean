import ToyTstat.Jsmn.Parts
import ToyTstat.Jsmn.Pattern

/-!
# What a match says

The comparison looks at one pair of tokens after the other. A text matches a pattern if it has as
many tokens, and what the scalars of the pattern ask for is in their places. How the containers are
nested plays no part.
-/

open CLib ToyTstat.Code ToyTstat.Code.jsmntype_t

namespace ToyTstat.Jsmn

variable {str patt_str : List Byte} {t p : jsmntok_t} {part patt_part : Part}

/-! ## Parts -/

/-- What a part of the pattern asks of the part of the text in its place. -/
def PartMatches (part patt_part : Part) : Prop :=
  patt_part = wildcard.part ∨ (patt_part.type ≠ JSMN_STRING ∧ patt_part.type ≠ JSMN_PRIMITIVE) ∨ part = patt_part

instance (part patt_part : Part) : Decidable (PartMatches part patt_part) :=
  inferInstanceAs (Decidable (_ ∨ (_ ∧ _) ∨ _))

theorem part_eq_iff : part = patt_part ↔ part.type = patt_part.type ∧ part.text = patt_part.text := by
  obtain ⟨type, text⟩ := part
  obtain ⟨patt_type, patt_text⟩ := patt_part
  rw [Part.mk.injEq]

theorem partMatches_scalar (hwild : patt_part ≠ wildcard.part)
    (hscalar : patt_part.type = JSMN_STRING ∨ patt_part.type = JSMN_PRIMITIVE) :
    PartMatches part patt_part ↔ part.type = patt_part.type ∧ part.text = patt_part.text := by
  unfold PartMatches
  rw [or_iff_right hwild, or_iff_right (by tauto), part_eq_iff]

theorem Patt.parts_ne_zero {p : Patt} (hp : p.Ok) (hlen : p.text.length < 2 ^ 31) :
    ∀ part ∈ p.parts, 0 ∉ part.text := by
  have hspans := @Patt.tokens_span (p.text ++ [ch ' ']) p hp 0 [ch ' '] rfl (List.cons_ne_nil _ _)
    (fun _ _ => stops_space (by decide)) hlen
  have hflipped : List.Forall₂ (fun part token => 0 ∉ part.text ∧ Spans _ token part) p.parts (p.tokens 0) :=
    (hspans.imp fun _ _ h => ⟨h.noNul, h⟩).flip
  exact ((List.forall₂_and_left _ _).mp hflipped).1

/-! ## Tokens -/

theorem strncmp_equal {s s' : List Byte} (hs : 0 ∉ s) (hlength : s.length = s'.length) (r r' : List Byte) :
    (strncmp (s ++ r) (s' ++ r') s'.length).map (fun order => decide (order = 0)) = some (decide (s = s')) := by
  induction s generalizing s' with
  | nil =>
    obtain rfl := List.length_eq_zero_iff.mp hlength.symm
    rw [List.length_nil, strncmp]
    rfl
  | cons c s ih =>
    obtain ⟨c', s', rfl⟩ := List.exists_cons_of_length_eq_add_one hlength.symm
    rw [List.mem_cons, not_or] at hs
    rw [List.cons_append, List.cons_append, List.length_cons, strncmp]
    by_cases hc : c = c'
    · subst hc
      rw [if_neg (not_not_intro rfl), if_neg (Ne.symm hs.1), ih hs.2 (Nat.succ.inj hlength)]
      simp
    · have hne : (c.toNat : Int) - c'.toNat ≠ 0 := by
        have hnat : c.toNat ≠ c'.toNat := fun h => hc (UInt8.toNat.inj h)
        omega
      rw [if_pos hc, Option.map_some, decide_eq_false hne, decide_eq_false (fun h => hc (List.cons.inj h).1)]

theorem tok_len_eq {token : jsmntok_t} (h : Covers str token part) :
    tok_len token = some (part.text.length : Int) := by
  have hshort := h.short
  unfold tok_len
  dsimp only
  rw [h.length, if_pos (by omega)]

theorem ptr_covered {token : jsmntok_t} (h : Covers str token part) :
    ∃ r, ptr str token.start = some (part.text ++ r) := by
  obtain ⟨start, r, hstart, -, hstr, hr⟩ := h.place
  exact ⟨r, hstart ▸ ptr_drop hstr (List.append_ne_nil_of_right_ne_nil _ hr)⟩

theorem is_wildcard_eq (hp : Covers patt_str p patt_part) :
    is_wildcard patt_str p = some (decide (patt_part = wildcard.part)) := by
  unfold is_wildcard
  rw [hp.type, tok_len_eq hp, Option.bind_some]
  by_cases htype : patt_part.type = JSMN_PRIMITIVE
  case neg => rw [if_pos htype, decide_eq_false fun h => htype (congrArg Part.type h)]
  rw [if_neg (not_not_intro htype)]
  by_cases hone : patt_part.text.length = 1
  case neg =>
    rw [if_pos (by omega), decide_eq_false fun h => hone (congrArg (fun part => part.text.length) h)]
  obtain ⟨c, hc⟩ := List.length_eq_one_iff.mp hone
  obtain ⟨start, r, hstart, -, hpatt, -⟩ := hp.place
  have hread : rd patt_str p.start = some c := by
    have hhead := congrArg List.head? hpatt
    rw [List.head?_drop, hc] at hhead
    rw [hstart, rd_natCast, hhead]
    rfl
  have hwild : patt_part = wildcard.part ↔ c = ch '?' := by
    rw [part_eq_iff, htype, hc]
    simp [wildcard, Lexeme.part]
  rw [if_neg (by omega), hread, Option.map_some, decide_eq_decide.mpr hwild]

theorem token_matches_eq (ht : Covers str t part) (hp : Covers patt_str p patt_part) (hnul : 0 ∉ part.text) :
    token_matches str t patt_str p = some (decide (PartMatches part patt_part)) := by
  unfold token_matches
  rw [is_wildcard_eq hp, Option.bind_some, hp.type, ht.type]
  by_cases hwild : patt_part = wildcard.part
  · rw [decide_eq_true hwild, if_pos rfl, decide_eq_true (.inl hwild)]
  rw [decide_eq_false hwild, if_neg Bool.false_ne_true]
  by_cases hscalar : patt_part.type = JSMN_STRING ∨ patt_part.type = JSMN_PRIMITIVE
  case neg => rw [if_neg hscalar, decide_eq_true (.inr (.inl (not_or.mp hscalar)))]
  have hiff : PartMatches part patt_part ↔ _ := partMatches_scalar hwild hscalar
  rw [if_pos hscalar, tok_len_eq ht, tok_len_eq hp, Option.bind_some, Option.bind_some]
  by_cases htype : part.type = patt_part.type
  case neg => rw [if_pos htype, decide_eq_false (mt hiff.mp fun h => htype h.1)]
  rw [if_neg (not_not_intro htype)]
  by_cases hlength : part.text.length = patt_part.text.length
  case neg =>
    rw [if_pos (by omega), decide_eq_false (mt hiff.mp fun h => hlength (congrArg List.length h.2))]
  obtain ⟨r, hr⟩ := ptr_covered ht
  obtain ⟨r', hr'⟩ := ptr_covered hp
  have hsize : usize (patt_part.text.length : Int) = patt_part.text.length :=
    usize_of_lt (by have := hp.short; omega)
  rw [if_neg (by omega), hr, hr', Option.bind_some, Option.bind_some, hsize, strncmp_equal hnul hlength]
  rw [decide_eq_decide.mpr (hiff.trans (and_iff_right htype))]

/-- All of them, if there are as many parts of the pattern. -/
theorem matchAll_eq {tokens patt_tokens : List jsmntok_t} {parts patt_parts : List Part}
    (ht : List.Forall₂ (Covers str) tokens parts) (hp : List.Forall₂ (Covers patt_str) patt_tokens patt_parts)
    (hnul : ∀ part ∈ parts, 0 ∉ part.text) (hlength : parts.length = patt_parts.length) :
    ∃ matched, matchAll str patt_str tokens patt_tokens = some matched ∧
      (matched = true ↔ List.Forall₂ PartMatches parts patt_parts) := by
  induction ht generalizing patt_tokens patt_parts with
  | nil =>
    obtain rfl := List.length_eq_zero_iff.mp hlength.symm
    exact ⟨true, rfl, by simp⟩
  | @cons t part tokens parts ht _ ih =>
    cases hp with
    | nil => cases hlength
    | @cons p patt_part patt_tokens patt_parts hp hps =>
      obtain ⟨hfirst, hrest⟩ := List.forall_mem_cons.mp hnul
      rw [matchAll, token_matches_eq ht hp hfirst, Option.bind_some, List.forall₂_cons]
      by_cases hpart : PartMatches part patt_part
      · obtain ⟨matched, hmatch, hiff⟩ := ih hps hrest (Nat.succ.inj hlength)
        rw [decide_eq_true hpart, if_pos rfl]
        exact ⟨matched, hmatch, hiff.trans (and_iff_right hpart).symm⟩
      · rw [decide_eq_false hpart, if_neg Bool.false_ne_true]
        exact ⟨false, rfl, iff_of_false Bool.false_ne_true fun h => hpart h.1⟩

/-! ## Texts -/

theorem Lexeme.token_covers (s : Lexeme) {pos : Nat} {r : List Byte} (h : str.drop pos = s.text ++ r) (hr : r ≠ [])
    (hlen : s.text.length < 2 ^ 31) : Covers str (s.token pos) s.part := by
  cases s with
  | prim a => exact ⟨rfl, ⟨pos, r, rfl, rfl, h, hr⟩, hlen⟩
  | str body =>
    rw [Lexeme.str_length] at hlen
    have hquote : str.drop pos = [ch '"'] ++ (body ++ ch '"' :: r) := by simpa [Lexeme.text] using h
    exact ⟨rfl, ⟨pos + 1, _, rfl, rfl, drop_add hquote, by simp⟩, Nat.lt_of_add_right_lt hlen⟩

theorem parse_covers {before after : List Byte} {p : Patt} (hp : p.Ok) (hbefore : Spaces before)
    (hafter : Spaces after) (hmax : (before ++ p.text ++ after).length < 2 ^ 31) (junk : List Byte) {n fuel : Nat}
    (hn : p.count ≤ n) (hfuel : (before ++ p.text ++ after).length + 1 < fuel) :
    ∃ parser tokens,
      jsmn_parse fuel jsmn_init (before ++ p.text ++ after ++ 0 :: junk) (before ++ p.text ++ after).length (some [])
        n = some ((p.count : Int), parser, some tokens) ∧ tokens.length = p.count ∧
      List.Forall₂ (Covers (before ++ p.text ++ after ++ 0 :: junk)) tokens p.parts := by
  refine ⟨_, _, parse_patt _ before after p n fuel hp hbefore hafter hmax (List.prefix_append _ _) hn hfuel,
    p.tokens_length _, ?_⟩
  have htext : (before ++ p.text ++ after ++ 0 :: junk).drop before.length = p.text ++ (after ++ 0 :: junk) := by
    rw [List.append_assoc, List.append_assoc, List.drop_left]
  have hmore : after ++ 0 :: junk ≠ [] := by simp
  have hlen : p.text.length < 2 ^ 31 := by
    simp only [List.length_append] at hmax
    omega
  cases p with
  | scalar s => exact .cons (s.token_covers htext hmore hlen) .nil
  | arr pad is => exact (Patt.tokens_span _ hp _ _ htext hmore nofun hlen).imp fun _ _ => Spans.covers
  | obj pad ms => exact (Patt.tokens_span _ hp _ _ htext hmore nofun hlen).imp fun _ _ => Spans.covers

theorem parse_pattern_covers {before after : List Byte} {p : Patt} (hp : p.Ok) (hbefore : Spaces before)
    (hafter : Spaces after) (hmax : (before ++ p.text ++ after).length < 2 ^ 31) (junk : List Byte) {n fuel : Nat}
    (hn : p.count ≤ n) (hfuel : (before ++ p.text ++ after).length + 1 < fuel) :
    ∃ parser tokens,
      jsmn_parse_pattern fuel (before ++ p.text ++ after ++ 0 :: junk) (some []) n =
        some ((p.count : Int), parser, some tokens) ∧ tokens.length = p.count ∧
      List.Forall₂ (Covers (before ++ p.text ++ after ++ 0 :: junk)) tokens p.parts := by
  have hnul : 0 ∉ before ++ p.text ++ after := by
    simp only [List.mem_append, not_or]
    exact ⟨⟨spaces_ne_zero hbefore, Patt.text_ne_zero _ hp⟩, spaces_ne_zero hafter⟩
  rw [jsmn_parse_pattern, strlen_append_zero _ _ hnul, Option.bind_some]
  exact parse_covers hp hbefore hafter hmax junk hn hfuel

/-- A text and a pattern, each with a NUL behind it, are parsed, and the text matches exactly if its parts do. If extra
tokens are allowed, but there are none, nothing changes. -/
def MatchesExactly (fuel n patt_count : Nat) (t p : Patt) (text patt junk patt_junk : List Byte) : Prop :=
  ∃ parser parser' tokens patt_tokens matched,
    jsmn_parse fuel jsmn_init (text ++ 0 :: junk) text.length (some []) n =
        some ((t.count : Int), parser, some tokens) ∧
      jsmn_parse_pattern fuel (patt ++ 0 :: patt_junk) (some []) patt_count =
        some ((p.count : Int), parser', some patt_tokens) ∧
      (∀ allow_extras, (allow_extras = true → t.count ≤ p.count) →
        jsmn_pattern_matches (text ++ 0 :: junk) tokens t.count (patt ++ 0 :: patt_junk) patt_tokens p.count
          allow_extras = some matched) ∧
      (matched = true ↔ List.Forall₂ PartMatches t.parts p.parts)

/-- Any text and any pattern of less than 2^31 bytes. -/
theorem matches_exactly (before after patt_before patt_after : List Byte) (t p : Patt) (ht : t.Ok) (hp : p.Ok)
    (hbefore : Spaces before) (hafter : Spaces after) (hpattbefore : Spaces patt_before)
    (hpattafter : Spaces patt_after) (hmax : (before ++ t.text ++ after).length < 2 ^ 31)
    (hpattmax : (patt_before ++ p.text ++ patt_after).length < 2 ^ 31) (junk patt_junk : List Byte)
    (n patt_count fuel : Nat) (hn : t.count ≤ n) (hcount : p.count ≤ patt_count)
    (hfuel : (before ++ t.text ++ after).length + 1 < fuel)
    (hpattfuel : (patt_before ++ p.text ++ patt_after).length + 1 < fuel) :
    MatchesExactly fuel n patt_count t p (before ++ t.text ++ after) (patt_before ++ p.text ++ patt_after) junk
      patt_junk := by
  obtain ⟨parser, tokens, hparse, hlength, hcovers⟩ := parse_covers ht hbefore hafter hmax junk hn hfuel
  obtain ⟨parser', patt_tokens, hpattparse, hpattlength, hpattcovers⟩ :=
    parse_pattern_covers hp hpattbefore hpattafter hpattmax patt_junk hcount hpattfuel
  have hparts : t.parts.length = t.count := hcovers.length_eq.symm.trans hlength
  have hpattparts : p.parts.length = p.count := hpattcovers.length_eq.symm.trans hpattlength
  by_cases hsame : t.count = p.count
  · have hlen : t.text.length < 2 ^ 31 := by
      simp only [List.length_append] at hmax
      omega
    obtain ⟨matched, hmatch, hiff⟩ := matchAll_eq hcovers hpattcovers (Patt.parts_ne_zero ht hlen) (by omega)
    refine ⟨parser, parser', tokens, patt_tokens, matched, hparse, hpattparse, fun allow_extras _ => ?_, hiff⟩
    have hfunction := pattern_matches_same (before ++ t.text ++ after ++ 0 :: junk)
      (patt_before ++ p.text ++ patt_after ++ 0 :: patt_junk) (show tokens.length = patt_tokens.length by omega)
      allow_extras
    rw [hlength, hpattlength] at hfunction
    exact hfunction.trans hmatch
  · refine ⟨parser, parser', tokens, patt_tokens, false, hparse, hpattparse, fun allow_extras hfew => ?_, ?_⟩
    · unfold jsmn_pattern_matches
      cases allow_extras with
      | false => exact if_pos ⟨Bool.false_ne_true, by omega⟩
      | true =>
        have hless := hfew rfl
        rw [if_neg (by simp), if_pos (by omega)]
    · exact iff_of_false Bool.false_ne_true fun h => hsame (by rw [← hparts, ← hpattparts, h.length_eq])

/-- The text `{"a": 1}`. -/
def oneMember : Patt := .obj [] [(⟨[], .str (ascii "a"), []⟩, ⟨[ch ' '], .scalar (.prim (ascii "1")), []⟩)]

/-- The pattern `[[], 1]`. -/
def emptyAndOne : Patt := .arr [] [⟨[], .arr [] [], []⟩, ⟨[ch ' '], .scalar (.prim (ascii "1")), []⟩]

theorem matches_exactly_nesting :
    MatchesExactly 100 3 3 oneMember emptyAndOne (ascii "\x7b\"a\": 1\x7d") (ascii "[[], 1]") [] [] := by
  have hspace : Spaces [ch ' '] := by
    intro c hc
    rw [List.mem_singleton.mp hc]
    decide
  have hone : Primitive (ascii "1") := primitive_numeral (.pos (by decide) (by decide +kernel))
  have hok : oneMember.Ok :=
    ⟨spaces_nil, ⟨spaces_nil, plain_body (by decide +kernel), spaces_nil⟩, hspace, hone, spaces_nil, trivial⟩
  have hpattok : emptyAndOne.Ok :=
    ⟨spaces_nil, spaces_nil, ⟨spaces_nil, trivial⟩, spaces_nil, hspace, hone, spaces_nil, trivial⟩
  exact matches_exactly [] [] [] [] oneMember emptyAndOne hok hpattok spaces_nil spaces_nil spaces_nil spaces_nil
    (by decide +kernel) (by decide +kernel) [] [] 3 3 100 (by decide +kernel) (by decide +kernel) (by decide +kernel)
    (by decide +kernel)

/-- They match: the list is in the place of the key. -/
example : List.Forall₂ PartMatches oneMember.parts emptyAndOne.parts := by
  have hcontainer (type : jsmntype_t) (hstring : type ≠ JSMN_STRING) (hprimitive : type ≠ JSMN_PRIMITIVE)
      (part : Part) (text : List Byte) : PartMatches part ⟨type, text⟩ := .inr (.inl ⟨hstring, hprimitive⟩)
  exact .cons (hcontainer _ (by decide) (by decide) _ _)
    (.cons (hcontainer _ (by decide) (by decide) _ _) (.cons (.inr (.inr rfl)) .nil))

end ToyTstat.Jsmn
