import ToyTstat.Code.Jsmn

/-!
# Pattern matching

The loop goes over the tokens of the text. With extra tokens it goes on behind the end of the pattern.
-/

open CLib ToyTstat.Code ToyTstat.Code.jsmntype_t

namespace ToyTstat.Jsmn

variable {str patt_str : List Byte} {tokens patt_tokens : List jsmntok_t}

/-! ## One token -/

/-- What a token of the pattern asks of the token of the text in its place: nothing if it is a `?` or a container, and
otherwise that both have the same type and the same text. -/
def Matches (str : List Byte) (t : jsmntok_t) (patt_str : List Byte) (p : jsmntok_t) : Prop :=
  (p.type = JSMN_PRIMITIVE ∧ tok_len p = some 1 ∧ rd patt_str p.start = some (ch '?')) ∨
    (p.type ≠ JSMN_STRING ∧ p.type ≠ JSMN_PRIMITIVE) ∨
    t.type = p.type ∧ ∃ n s patt, tok_len t = some n ∧ tok_len p = some n ∧ ptr str t.start = some s ∧
      ptr patt_str p.start = some patt ∧ strncmp s patt (usize n) = some 0

theorem is_wildcard_iff {p : jsmntok_t} :
    is_wildcard patt_str p = some true ↔
      p.type = JSMN_PRIMITIVE ∧ tok_len p = some 1 ∧ rd patt_str p.start = some (ch '?') := by
  unfold is_wildcard
  by_cases htype : p.type = JSMN_PRIMITIVE
  · rw [if_neg (not_not.mpr htype)]
    cases tok_len p with
    | none => simp
    | some n =>
      by_cases hn : n = 1
      · simp [hn, htype]
      · simp [hn]
  · simp [htype]

theorem same_text_iff {t p : jsmntok_t} :
    ((tok_len t).bind fun t_len => (tok_len p).bind fun p_len =>
        if t.type ≠ p.type then some false
        else if t_len ≠ p_len then some false
        else (ptr str t.start).bind fun s => (ptr patt_str p.start).bind fun patt =>
          (strncmp s patt (usize p_len)).map fun r => decide (r = 0)) = some true ↔
      t.type = p.type ∧ ∃ n s patt, tok_len t = some n ∧ tok_len p = some n ∧ ptr str t.start = some s ∧
        ptr patt_str p.start = some patt ∧ strncmp s patt (usize n) = some 0 := by
  cases tok_len t with
  | none => simp
  | some t_len =>
    cases tok_len p with
    | none => simp
    | some p_len =>
      by_cases htype : t.type = p.type
      · by_cases hlen : t_len = p_len
        · subst hlen
          cases ptr str t.start <;> cases ptr patt_str p.start <;> simp [htype]
        · have hne : ∀ n, t_len = n → ¬ p_len = n := fun n hn hn' => hlen (hn.trans hn'.symm)
          simp only [Option.bind_some, htype, hlen, ne_eq, not_true_eq_false, not_false_eq_true, if_false, if_true,
            Option.some.injEq, Bool.false_eq_true, true_and, false_iff, not_exists, not_and]
          exact fun n s patt hn hn' => absurd hn' (hne n hn)
      · simp [htype]

theorem is_wildcard_none {p : jsmntok_t} (h : is_wildcard patt_str p = none) :
    p.type = JSMN_PRIMITIVE ∧ ∀ n s patt, tok_len p = some n → ptr patt_str p.start = some patt →
      strncmp s patt (usize n) ≠ some 0 := by
  unfold is_wildcard at h
  by_cases htype : p.type = JSMN_PRIMITIVE
  · refine ⟨htype, fun n s patt hn hpatt => ?_⟩
    rw [if_neg (not_not.mpr htype), hn, Option.bind_some] at h
    split at h
    case isTrue => cases h
    case isFalse hone =>
      obtain rfl := not_not.mp hone
      rw [Option.map_eq_none_iff] at h
      unfold ptr at hpatt
      unfold rd at h
      split at hpatt
      case isTrue => cases hpatt
      case isFalse hin =>
        rw [not_or] at hin
        rw [if_neg hin.1, List.getElem?_eq_none_iff] at h
        rw [List.drop_eq_nil_of_le h, Option.some_inj] at hpatt
        subst hpatt
        cases s <;> simp [usize, strncmp]
  · rw [if_pos htype] at h
    cases h

theorem token_matches_iff {t p : jsmntok_t} :
    token_matches str t patt_str p = some true ↔ Matches str t patt_str p := by
  unfold token_matches Matches
  rw [← is_wildcard_iff]
  cases hwild : is_wildcard patt_str p with
  | none =>
    obtain ⟨htype, hread⟩ := is_wildcard_none hwild
    simp only [Option.bind_none, htype, reduceCtorEq, ne_eq, not_true_eq_false, and_false, false_or, false_iff, not_and,
      not_exists]
    intro _ n s patt _ hn _ hpatt
    exact hread n s patt hn hpatt
  | some wildcard =>
    cases wildcard with
    | true => simp
    | false =>
      by_cases htype : p.type = JSMN_STRING ∨ p.type = JSMN_PRIMITIVE
      · have hscalar : ¬ (p.type ≠ JSMN_STRING ∧ p.type ≠ JSMN_PRIMITIVE) := by tauto
        rw [Option.bind_some, if_neg Bool.false_ne_true, if_pos htype, same_text_iff]
        simp [hscalar]
      · rw [Option.bind_some, if_neg Bool.false_ne_true, if_neg htype]
        simp [not_or.mp htype]

/-! ## All the tokens -/

/-- The loop as a recursion over both arrays. The array of the pattern may be at its end too early. -/
def matchAll (str patt_str : List Byte) : List jsmntok_t → List jsmntok_t → Option Bool
  | [], _ => some true
  | _ :: _, [] => none
  | t :: tokens, p :: patt_tokens =>
    (token_matches str t patt_str p).bind fun goesOn =>
      if goesOn then matchAll str patt_str tokens patt_tokens else some false

theorem matches_loop_eq (tokens patt_tokens done patt_done : List jsmntok_t) (hdone : done.length = patt_done.length) :
    matches_loop str (done ++ tokens) patt_str (patt_done ++ patt_tokens) tokens.length done.length =
      matchAll str patt_str tokens patt_tokens := by
  induction tokens generalizing patt_tokens done patt_done with
  | nil => cases patt_tokens <;> rfl
  | cons t tokens ih =>
    rw [List.length_cons, matches_loop, List.getElem?_append_right (Nat.le_refl _), Nat.sub_self, hdone,
      List.getElem?_append_right (Nat.le_refl _), Nat.sub_self, ← hdone]
    cases patt_tokens with
    | nil => rfl
    | cons p patt_tokens =>
      have hrest := ih patt_tokens (done ++ [t]) (patt_done ++ [p]) (by simp [hdone])
      rw [List.append_assoc, List.append_assoc, List.length_append] at hrest
      simp only [List.singleton_append, List.length_singleton] at hrest
      simp only [List.getElem?_cons_zero, Option.bind_some, matchAll, hrest]

theorem matchAll_append (h : tokens.length = patt_tokens.length) (extra junk : List jsmntok_t) :
    matchAll str patt_str (tokens ++ extra) (patt_tokens ++ junk) =
      (matchAll str patt_str tokens patt_tokens).bind fun first =>
        if first then matchAll str patt_str extra junk else some false := by
  induction tokens generalizing patt_tokens with
  | nil =>
    obtain rfl := List.length_eq_zero_iff.mp h.symm
    rfl
  | cons t tokens ih =>
    cases patt_tokens with
    | nil => cases h
    | cons p patt_tokens =>
      rw [List.cons_append, List.cons_append, matchAll, matchAll, Option.bind_assoc]
      congr 1
      funext goesOn
      cases goesOn with
      | false => rfl
      | true => exact ih (Nat.succ.inj h)

theorem matchAll_iff (h : tokens.length = patt_tokens.length) :
    matchAll str patt_str tokens patt_tokens = some true ↔
      ∀ pair ∈ tokens.zip patt_tokens, Matches str pair.1 patt_str pair.2 := by
  induction tokens generalizing patt_tokens with
  | nil => simp [matchAll]
  | cons t tokens ih =>
    cases patt_tokens with
    | nil => cases h
    | cons p patt_tokens =>
      rw [matchAll, List.zip_cons_cons, List.forall_mem_cons, ← ih (Nat.succ.inj h), ← token_matches_iff]
      cases token_matches str t patt_str p with
      | none => simp
      | some goesOn => cases goesOn <;> simp

/-! ## The function -/

theorem pattern_matches_same (str patt_str : List Byte) (h : tokens.length = patt_tokens.length)
    (allow_extras : Bool) :
    jsmn_pattern_matches str tokens tokens.length patt_str patt_tokens patt_tokens.length allow_extras =
      matchAll str patt_str tokens patt_tokens := by
  rw [jsmn_pattern_matches, h, if_neg (by simp), if_neg (by omega), Int.toNat_natCast, ← h]
  exact matches_loop_eq tokens patt_tokens [] [] rfl

theorem pattern_matches_few (str patt_str : List Byte) (h : tokens.length < patt_tokens.length)
    (junk : List jsmntok_t) (allow_extras : Bool) :
    jsmn_pattern_matches str tokens tokens.length patt_str (patt_tokens ++ junk) patt_tokens.length allow_extras =
      some false := by
  unfold jsmn_pattern_matches
  split
  · rfl
  · exact if_pos (by omega)

theorem pattern_matches_extras (str patt_str : List Byte) (h : tokens.length = patt_tokens.length)
    (extra junk : List jsmntok_t) :
    jsmn_pattern_matches str (tokens ++ extra) (tokens ++ extra).length patt_str (patt_tokens ++ junk)
        patt_tokens.length true =
      (matchAll str patt_str tokens patt_tokens).bind fun first =>
        if first then matchAll str patt_str extra junk else some false := by
  have hlength : ¬ (((tokens ++ extra).length : Int) < patt_tokens.length) := by
    rw [List.length_append]
    omega
  rw [jsmn_pattern_matches, if_neg (by simp), if_neg hlength, Int.toNat_natCast, ← matchAll_append h]
  exact matches_loop_eq (tokens ++ extra) (patt_tokens ++ junk) [] [] rfl

/-! ## Extra tokens -/

/-- With extra tokens allowed, the answer is found from the first tokens of the text alone, as many as the pattern has.
What lies behind the tokens of the pattern plays no part, and nothing need lie there. -/
def ExtrasIgnored (str : List Byte) (tokens : List jsmntok_t) (patt_str : List Byte) (patt_tokens : List jsmntok_t) :
    Prop :=
  ∀ junk, jsmn_pattern_matches str tokens tokens.length patt_str (patt_tokens ++ junk) patt_tokens.length true =
    if tokens.length ≥ patt_tokens.length then
      jsmn_pattern_matches str (tokens.take patt_tokens.length) patt_tokens.length patt_str patt_tokens
        patt_tokens.length false
    else some false

theorem extras_ignored_split (str patt_str : List Byte) (h : tokens.length = patt_tokens.length)
    (extra : List jsmntok_t) :
    ExtrasIgnored str (tokens ++ extra) patt_str patt_tokens ↔
      extra = [] ∨ matchAll str patt_str tokens patt_tokens ≠ some true := by
  have hstrict := pattern_matches_same str patt_str h false
  rw [h] at hstrict
  have henough : (tokens ++ extra).length ≥ patt_tokens.length := by
    rw [List.length_append]
    omega
  have hjunk : ExtrasIgnored str (tokens ++ extra) patt_str patt_tokens ↔
      ∀ junk, ((matchAll str patt_str tokens patt_tokens).bind fun first =>
        if first then matchAll str patt_str extra junk else some false) =
          matchAll str patt_str tokens patt_tokens := by
    unfold ExtrasIgnored
    apply forall_congr'
    intro junk
    rw [pattern_matches_extras str patt_str h, if_pos henough, List.take_left' h, hstrict]
  rw [hjunk]
  cases matchAll str patt_str tokens patt_tokens with
  | none => simp
  | some first =>
    cases first with
    | false => simp
    | true =>
      constructor
      · intro hall
        -- an array of the pattern that ends with its tokens
        have hshort := hall []
        cases extra with
        | nil => exact .inl rfl
        | cons t extra => cases hshort
      · rintro (rfl | hne)
        · exact fun junk => rfl
        · exact absurd rfl hne

/-- The loop runs on behind the end of the pattern exactly when there are extra tokens and all those before them
match. -/
theorem extras_ignored_iff (str : List Byte) (tokens : List jsmntok_t) (patt_str : List Byte)
    (patt_tokens : List jsmntok_t) :
    ExtrasIgnored str tokens patt_str patt_tokens ↔
      tokens.length ≤ patt_tokens.length ∨
        ∃ pair ∈ tokens.zip patt_tokens, ¬ Matches str pair.1 patt_str pair.2 := by
  by_cases hfew : tokens.length < patt_tokens.length
  · have hignored : ExtrasIgnored str tokens patt_str patt_tokens := fun junk => by
      rw [pattern_matches_few str patt_str hfew, if_neg (Nat.not_le.mpr hfew)]
    exact iff_of_true hignored (.inl hfew.le)
  · obtain ⟨first, extra, rfl, hfirst⟩ : ∃ first extra, tokens = first ++ extra ∧ first.length = patt_tokens.length :=
      ⟨_, _, (List.take_append_drop patt_tokens.length tokens).symm, List.length_take_of_le (Nat.not_lt.mp hfew)⟩
    have hzip : (first ++ extra).zip patt_tokens = first.zip patt_tokens := by
      rw [← List.append_nil patt_tokens, List.zip_append hfirst, List.zip_nil_right, List.append_nil, List.append_nil]
    have hextra : (first ++ extra).length ≤ patt_tokens.length ↔ extra = [] := by
      rw [List.length_append, hfirst, ← List.length_eq_zero_iff]
      omega
    rw [extras_ignored_split str patt_str hfirst, hzip, hextra, ne_eq, matchAll_iff hfirst]
    simp only [not_forall, exists_prop]

/-- The text `{"a":1}, 2` has one token more than the pattern `{"a":?}`. -/
theorem extras_not_ignored :
    let str := ascii "\x7b\"a\":1\x7d, 2" ++ [0]
    let patt_str := ascii "\x7b\"a\":?\x7d" ++ [0]
    ∃ parser parser' tokens patt_tokens,
      jsmn_parse 30 jsmn_init str 10 (some []) 10 = some (4, parser, some tokens) ∧
        jsmn_parse_pattern 30 patt_str (some []) 3 = some (3, parser', some patt_tokens) ∧
        tokens.length = 4 ∧ patt_tokens.length = 3 ∧ ¬ ExtrasIgnored str tokens patt_str patt_tokens := by
  refine ⟨⟨10, 4, -1⟩, ⟨7, 3, -1⟩,
    [⟨JSMN_OBJECT, 0, 7, 1⟩, ⟨JSMN_STRING, 2, 3, 1⟩, ⟨JSMN_PRIMITIVE, 5, 6, 0⟩, ⟨JSMN_PRIMITIVE, 9, 10, 0⟩],
    [⟨JSMN_OBJECT, 0, 7, 1⟩, ⟨JSMN_STRING, 2, 3, 1⟩, ⟨JSMN_PRIMITIVE, 5, 6, 0⟩], by decide +kernel, by decide +kernel,
    rfl, rfl, fun hignored => ?_⟩
  have hshort := hignored []
  exact absurd hshort (by decide +kernel)

end ToyTstat.Jsmn
