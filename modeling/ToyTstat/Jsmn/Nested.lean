import ToyTstat.Jsmn.Reads

/-!
# The tokens of any text

Also without `JSMN_STRICT` the tokens of a text that the parser takes are a forest: in the order of
their starts, each one behind an earlier one or inside it, and each with the text of its type.
-/

open CLib ToyTstat.Code ToyTstat.Code.jsmntype_t

namespace ToyTstat.Jsmn

variable {js : List Byte} {len n pos fuel : Nat} {T : List jsmntok_t} {super : Int}

/-- The text from `start` up to `end_` is one of the type. -/
inductive SpelledAs (js : List Byte) (len : Nat) : jsmntype_t → Nat → Nat → Prop
  | container {type : jsmntype_t} {i e : Nat} : isContainer type → js[i]? = opener type → i < e → e < len →
      js[e]? = closer type → SpelledAs js len type i (e + 1)
  | string {i e : Nat} : js[i]? = some (ch '"') → i < e → e < len → StringBody (textBetween js (i + 1) e) →
      js[e]? = some (ch '"') → SpelledAs js len JSMN_STRING (i + 1) e
  | primitive {i e : Nat} : i < e → e ≤ len → (∀ x ∈ textBetween js i e, primChar x) → EndsAt js len e →
      SpelledAs js len JSMN_PRIMITIVE i e

def Spelled (js : List Byte) (len : Nat) (t : jsmntok_t) : Prop :=
  ∃ i e : Nat, t.start = i ∧ t.end_ = e ∧ SpelledAs js len t.type i e

/-- `u` begins later than `t`, and lies behind it or inside it. -/
def Later (t u : jsmntok_t) : Prop :=
  t.start < u.start ∧ (t.end_ ≤ u.start ∨ isContainer t.type ∧ u.end_ < t.end_)

/-! ## While the text is read -/

/-- Before `pos` the container has been opened, or the token is complete. -/
def GrownTo (js : List Byte) (len pos : Nat) (t : jsmntok_t) : Prop :=
  t.start < pos ∧ (t.end_ = -1 ∧ isContainer t.type ∧ (∃ i : Nat, t.start = i ∧ js[i]? = opener t.type) ∨
    t.end_ ≤ pos ∧ Spelled js len t)

/-- Nothing is known of what follows an open container. -/
def LaterOrInside (t u : jsmntok_t) : Prop :=
  t.start < u.start ∧
    (t.end_ = -1 ∨ t.end_ ≤ u.start ∨ isContainer t.type ∧ u.end_ ≠ -1 ∧ u.end_ < t.end_)

structure Forest (js : List Byte) (len pos : Nat) (T : List jsmntok_t) : Prop where
  tokens : ∀ t ∈ T, GrownTo js len pos t
  pairs : T.Pairwise LaterOrInside

theorem Forest.mono {pos' : Nat} (h : Forest js len pos T) (hle : pos ≤ pos') : Forest js len pos' T := by
  refine ⟨fun t ht => ?_, h.pairs⟩
  obtain ⟨hstart, htoken⟩ := h.tokens t ht
  refine ⟨by omega, htoken.imp_right ?_⟩
  rintro ⟨hend, hspelled⟩
  exact ⟨by omega, hspelled⟩

theorem Forest.bumped (h : Forest js len pos T) (super : Int) : Forest js len pos (bump super T) := by
  have hmap : (bump super T).map (fun t => { t with size := 0 }) = T.map fun t => { t with size := 0 } :=
    bump_map _ (fun _ _ => rfl) super T
  constructor
  · have htokens : ∀ t ∈ T.map fun t => { t with size := 0 }, GrownTo js len pos t := by
      rw [List.forall_mem_map]
      exact h.tokens
    rw [← hmap, List.forall_mem_map] at htokens
    exact htokens
  · have hpairs : (T.map fun t => { t with size := 0 }).Pairwise LaterOrInside := by
      rw [List.pairwise_map]
      exact h.pairs
    rw [← hmap, List.pairwise_map] at hpairs
    exact hpairs

theorem Forest.snoc (h : Forest js len pos T) {pos' : Nat} {t : jsmntok_t} (hpos : pos ≤ pos')
    (hstart : pos ≤ t.start) (ht : GrownTo js len pos' t) : Forest js len pos' (T ++ [t]) := by
  constructor
  · intro u hu
    rcases List.mem_append.mp hu with hu | hu
    · exact (h.mono hpos).tokens u hu
    · rw [List.mem_singleton.mp hu]
      exact ht
  · rw [List.pairwise_append]
    refine ⟨h.pairs, List.pairwise_singleton _ _, fun u hu x hx => ?_⟩
    rw [List.mem_singleton.mp hx]
    obtain ⟨hu, htoken⟩ := h.tokens u hu
    refine ⟨by omega, htoken.imp (·.1) ?_⟩
    rintro ⟨hend, -⟩
    exact .inl (by omega)

theorem isOpen_end {t : jsmntok_t} (h : isOpen t) : t.end_ = -1 := by
  simp only [isOpen, decide_eq_true_eq] at h
  exact h.2

theorem GrownTo.closed {t : jsmntok_t} (h : GrownTo js len pos t) (hclosed : isOpen t = false) :
    t.end_ ≤ pos ∧ Spelled js len t := by
  obtain ⟨-, htoken⟩ := h
  rcases htoken with ⟨hend, -, ⟨i, hi, -⟩⟩ | htoken
  · simp only [isOpen, decide_eq_false_iff_not] at hclosed
    omega
  · exact htoken

theorem Spelled.end_pos {t : jsmntok_t} (h : Spelled js len t) : t.end_ ≠ -1 := by
  obtain ⟨i, e, -, he, -⟩ := h
  omega

theorem Forest.close {A L : List jsmntok_t} {t : jsmntok_t} (h : Forest js len pos (A ++ t :: L)) (hopen : isOpen t)
    (hL : AllClosed L) (hpos : pos < len) (hc : js[pos]? = closer t.type) :
    Forest js len (pos + 1) (A ++ { t with end_ := (pos + 1 : Nat) } :: L) := by
  have hend := isOpen_end hopen
  obtain ⟨hstart, htoken⟩ := h.tokens t (by simp)
  have hunclosed : ¬ (t.end_ ≤ pos ∧ Spelled js len t) := fun hclosed => hclosed.2.end_pos hend
  obtain ⟨-, hcontainer, i, hi, hopener⟩ := htoken.resolve_right hunclosed
  obtain ⟨hA, hrest, hcross⟩ := List.pairwise_append.mp h.pairs
  obtain ⟨ht, hL'⟩ := List.pairwise_cons.mp hrest
  constructor
  · intro u hu
    rcases List.mem_append.mp hu with hu | hu
    · exact (h.mono (Nat.le_succ pos)).tokens u (by simp [hu])
    rcases List.mem_cons.mp hu with rfl | hu
    · refine ⟨by dsimp only; omega, .inr ⟨le_rfl, i, pos + 1, hi, rfl, ?_⟩⟩
      exact .container hcontainer hopener (by omega) hpos hc
    · exact (h.mono (Nat.le_succ pos)).tokens u (by simp [hu])
  · rw [List.pairwise_append, List.pairwise_cons]
    refine ⟨hA, ⟨fun u hu => ?_, hL'⟩, fun a ha u hu => ?_⟩
    · -- what follows the container is complete, so it lies inside
      obtain ⟨hle, hspelled⟩ := (h.tokens u (by simp [hu])).closed (hL u hu)
      exact ⟨(ht u hu).1, .inr (.inr ⟨hcontainer, hspelled.end_pos, by dsimp only; omega⟩)⟩
    rcases List.mem_cons.mp hu with rfl | hu
    · obtain ⟨hlt, hplace⟩ := hcross a ha t (by simp)
      refine ⟨hlt, hplace.imp_right (.imp_right ?_)⟩
      rintro ⟨-, hne, -⟩
      exact absurd hend hne
    · exact hcross a ha u (by simp [hu])

theorem Forest.step (h : Forest js len pos T) (hpos : pos < len) {e : Event} (hreads : Reads js len pos e)
    (hsuper : Super super T) (hlength : T.length ≤ n) {s : ParseState} (hacts : Acts n pos T super e (.next s)) :
    ∃ T' super', s = st (e.last pos) T' super' ∧ Forest js len (e.last pos + 1) T' ∧ Super super' T' ∧
      T'.length ≤ n := by
  cases hacts with
  | opened type hroom =>
    cases hreads with
    | opened hcontainer hc =>
      refine ⟨_, _, rfl, (h.bumped super).snoc (Nat.le_succ pos) le_rfl ?_, .inr ⟨by omega, by simp⟩, by simpa⟩
      exact ⟨by dsimp only [openToken, Event.last]; omega, .inl ⟨rfl, hcontainer, pos, rfl, hc⟩⟩
  | closed A t L hT hopen hL =>
    subst hT
    cases hreads with
    | closed hcontainer hc =>
      exact ⟨_, _, rfl, h.close hopen hL hpos hc, (super_lastIndex isOpen A).mono (by simp), by simpa using hlength⟩
  | scalar type start end_ last hroom =>
    have hsuper' : ∀ t, Super super (bump super T ++ [t]) := fun t => hsuper.mono (by simp)
    cases hreads with
    | string hc hlt hend hbody hlast =>
      refine ⟨_, _, rfl, (h.bumped super).snoc (by dsimp only [Event.last]; omega) (by dsimp only; omega) ?_,
        hsuper' _, by simpa⟩
      refine ⟨by dsimp only [Event.last]; omega, .inr ⟨by dsimp only [Event.last]; omega, ?_⟩⟩
      exact ⟨_, _, rfl, rfl, .string hc hlt hend hbody hlast⟩
    | primitive hlt hle hchars hends =>
      refine ⟨_, _, rfl, (h.bumped super).snoc (by dsimp only [Event.last]; omega) (by dsimp only; omega) ?_,
        hsuper' _, by simpa⟩
      refine ⟨by dsimp only [Event.last]; omega, .inr ⟨by dsimp only [Event.last]; omega, ?_⟩⟩
      exact ⟨_, _, rfl, rfl, .primitive hlt hle hchars hends⟩
  | moved e super' hkind hsuper' =>
    rcases hkind with rfl | rfl | rfl
    · exact ⟨_, _, rfl, h.mono (Nat.le_succ pos), hsuper', hlength⟩
    · exact ⟨_, _, rfl, h.mono (Nat.le_succ pos), hsuper', hlength⟩
    · exact ⟨_, _, rfl, h.mono (Nat.le_succ pos), hsuper', hlength⟩

/-! ## The whole text -/

theorem Forest.whole (h : Forest js len pos T) (hclosed : AllClosed T) :
    T.Pairwise Later ∧ ∀ t ∈ T, Spelled js len t := by
  have hspelled : ∀ t ∈ T, Spelled js len t := fun t ht => ((h.tokens t ht).closed (hclosed t ht)).2
  refine ⟨h.pairs.imp_of_mem fun ht hu hpair => ?_, hspelled⟩
  obtain ⟨hlt, hplace⟩ := hpair
  refine ⟨hlt, ?_⟩
  rcases hplace with hend | hbehind | ⟨hcontainer, -, hinside⟩
  · exact absurd hend (hspelled _ ht).end_pos
  · exact .inl hbehind
  · exact .inr ⟨hcontainer, hinside⟩

theorem parse_end_count {r : Int} {s : ParseState} (h : parse_end (st pos T super) = some (r, s)) (hr : 0 ≤ r) :
    r = T.length ∧ s.tokens = some T ∧ AllClosed T := by
  obtain ⟨i, hi, h⟩ := Option.map_eq_some_iff.mp h
  rw [scan_back_eq, Option.some_inj] at hi
  split at h
  · rename_i hnone
    obtain ⟨rfl, rfl⟩ := Prod.mk.inj h
    refine ⟨rfl, rfl, ?_⟩
    rcases lastIndex_cases isOpen T with ⟨-, hclosed⟩ | ⟨A, t, L, -, hindex, -⟩
    · exact hclosed
    · omega
  · obtain ⟨rfl, -⟩ := Prod.mk.inj h
    exact absurd hr (by decide)

theorem parse_loop_forest (hlen : len ≤ js.length) (hmax : len < 2 ^ 31) (hn : n < 2 ^ 31) (hpos : pos ≤ len)
    (hfuel : len - pos + 1 < fuel) (hsuper : Super super T) (hlength : T.length ≤ n) (hforest : Forest js len pos T)
    {r : Int} {s : ParseState} (h : parse_loop js len n fuel (st pos T super) = some (r, s)) (hr : 0 ≤ r) :
    ∃ T', s.tokens = some T' ∧ r = T'.length ∧ T'.Pairwise Later ∧ ∀ t ∈ T', Spelled js len t := by
  induction fuel generalizing pos T super with
  | zero => omega
  | succ fuel ih =>
    have hend (h : parse_end (st pos T super) = some (r, s)) :
        ∃ T', s.tokens = some T' ∧ r = T'.length ∧ T'.Pairwise Later ∧ ∀ t ∈ T', Spelled js len t := by
      obtain ⟨hcount, htokens, hclosed⟩ := parse_end_count h hr
      exact ⟨T, htokens, hcount, hforest.whole hclosed⟩
    rw [parse_loop] at h
    by_cases hlast : len ≤ pos
    · rw [if_pos hlast] at h
      exact hend h
    have hpos' : pos < len := not_le.mp hlast
    obtain ⟨x, hx⟩ := rd_inside hlen hpos'
    rw [if_neg hlast, hx, Option.bind_some] at h
    by_cases hx0 : x = 0
    · rw [if_pos hx0] at h
      exact hend h
    rw [if_neg hx0] at h
    obtain ⟨e, he, hreads⟩ := scan_reads hlen hmax hpos' ((rd_natCast js pos).symm.trans hx) hx0
      (show len - pos < fuel by omega)
    have hinside := hreads.last_inside hpos'
    obtain ⟨flow, hflow, hacts⟩ := act_st hn (show pos + 1 < 2 ^ 31 by omega) hsuper hlength e
    rw [parse_switch_eq, he, Option.bind_some, hflow, Option.bind_some] at h
    cases flow with
    | ret r' s' =>
      obtain ⟨rfl, -⟩ := Prod.mk.inj (Option.some_inj.mp h)
      exact absurd hr (not_le.mpr (hacts.error_neg hreads))
    | next s' =>
      obtain ⟨T', super', rfl, hforest', hsuper', hlength'⟩ := hforest.step hpos' hreads hsuper hlength hacts
      dsimp only at h
      rw [u32_of_lt (by omega)] at h
      exact ih (by omega) (by omega) hsuper' hlength' hforest' h

/-- A text that the parser takes has nested tokens, in order, each spelled as its type. -/
theorem tokens_nested (js : List Byte) (len n fuel : Nat) (hlen : len ≤ js.length) (hmax : len < 2 ^ 31)
    (hn : n < 2 ^ 31) (hfuel : len + 1 < fuel) {r : Int} {parser : jsmn_parser_t} {tokens : Tokens}
    (h : jsmn_parse fuel jsmn_init js len (some []) n = some (r, parser, tokens)) (hr : 0 ≤ r) :
    ∃ T, tokens = some T ∧ r = T.length ∧ T.Pairwise Later ∧ ∀ t ∈ T, Spelled js len t := by
  rw [jsmn_parse, i32_of_lt (n := jsmn_init.toknext) (by decide)] at h
  obtain ⟨⟨r', s⟩, hloop, hout⟩ := Option.map_eq_some_iff.mp h
  obtain ⟨rfl, rfl, rfl⟩ := hout
  exact parse_loop_forest hlen hmax hn (Nat.zero_le len) (by omega) (.inl rfl : Super (-1) []) (Nat.zero_le n)
    ⟨by simp, .nil⟩ hloop hr

theorem tokens_nested_temp : ∃ T : List jsmntok_t, T.length = 3 ∧ T.Pairwise Later ∧
    ∀ t ∈ T, Spelled (ascii "\x7b\"temp\":21\x7d") 11 t := by
  have hparse : jsmn_parse 20 jsmn_init (ascii "\x7b\"temp\":21\x7d") 11 (some []) 3 =
      some (3, ⟨11, 3, -1⟩, some [⟨JSMN_OBJECT, 0, 11, 1⟩, ⟨JSMN_STRING, 2, 6, 1⟩, ⟨JSMN_PRIMITIVE, 8, 10, 0⟩]) := by
    decide +kernel
  obtain ⟨T, -, hlength, hpairs, hspelled⟩ :=
    tokens_nested _ 11 3 20 (by decide) (by decide) (by decide) (by decide) hparse (by decide)
  exact ⟨T, by omega, hpairs, hspelled⟩

end ToyTstat.Jsmn
