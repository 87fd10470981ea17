import ToyTstat.Jsmn.Budget
import ToyTstat.Jsmn.Events
import ToyTstat.Lib.Approx

/-!
# A text that comes in pieces

A call of `jsmn_parse` that finds too little text, or too few tokens, leaves the parser where the next
call goes on. Only a primitive must not be cut: its end is taken for the end of the token.
-/

open CLib ToyTstat.Code ToyTstat.Code.jsmntype_t

namespace ToyTstat.Jsmn

variable {js a b : List Byte} {len n m fuel fuel' pos : Nat}

/-! ## More fuel -/

theorem primitive_loop_fuel (h : fuel ≤ fuel') :
    Approx (primitive_loop js len fuel pos) (primitive_loop js len fuel' pos) := by
  induction fuel generalizing pos fuel' with
  | zero => exact .none _
  | succ fuel ih =>
    obtain ⟨fuel', rfl⟩ : ∃ f, fuel' = f + 1 := ⟨fuel' - 1, by omega⟩
    unfold primitive_loop
    refine .ite (.refl _) (.bind (.refl _) fun c => ?_)
    apply Approx.ite (.refl _)
    apply Approx.ite (.refl _)
    exact ih (by omega)

theorem string_loop_fuel (h : fuel ≤ fuel') :
    Approx (string_loop js len fuel pos) (string_loop js len fuel' pos) := by
  induction fuel generalizing pos fuel' with
  | zero => exact .none _
  | succ fuel ih =>
    obtain ⟨fuel', rfl⟩ : ∃ f, fuel' = f + 1 := ⟨fuel' - 1, by omega⟩
    unfold string_loop
    refine .ite (.refl _) (.bind (.refl _) fun c => ?_)
    apply Approx.ite (.refl _)
    apply Approx.ite (.refl _)
    refine .ite (.bind (.refl _) fun e => ?_) (ih (by omega))
    apply Approx.ite (ih (by omega))
    refine .ite (.bind (.refl _) fun r => ?_) (.refl _)
    cases r with
    | none => exact .refl _
    | some pos' => exact ih (by omega)

theorem parse_switch_fuel (h : fuel ≤ fuel') (c : Byte) (s : ParseState) :
    Approx (parse_switch fuel js len n c s) (parse_switch fuel' js len n c s) := by
  unfold parse_switch
  apply Approx.ite (.refl _)
  apply Approx.ite (.refl _)
  apply Approx.ite (.refl _)
  apply Approx.ite (.refl _)
  apply Approx.ite (.bind (.bind (string_loop_fuel h) fun _ => .refl _) fun _ => .refl _)
  apply Approx.ite (.refl _)
  apply Approx.ite (.refl _)
  apply Approx.ite (.refl _)
  exact .bind (.bind (primitive_loop_fuel h) fun _ => .refl _) fun _ => .refl _

theorem parse_loop_fuel (h : fuel ≤ fuel') (s : ParseState) :
    Approx (parse_loop js len n fuel s) (parse_loop js len n fuel' s) := by
  induction fuel generalizing s fuel' with
  | zero => exact .none _
  | succ fuel ih =>
    obtain ⟨fuel', rfl⟩ : ∃ f, fuel' = f + 1 := ⟨fuel' - 1, by omega⟩
    unfold parse_loop
    refine .ite (.refl _) (.bind (.refl _) fun c => ?_)
    refine .ite (.refl _) (.bind (parse_switch_fuel (by omega) c s) fun flow => ?_)
    cases flow with
    | ret r s' => exact .refl _
    | next s' => exact ih (by omega) _

/-! ## More text -/

theorem rd_longer (h : pos < a.length) : rd (a ++ b) pos = rd a pos := by
  rw [rd_natCast, rd_natCast, List.getElem?_append_left h]

/-- A primitive that ends with the text before `b` ends there also when `b` follows. -/
def EndsToken (b : List Byte) : Prop := ∀ c ∈ b.head?, c = 0 ∨ endsPrimitive c

instance (b : List Byte) : Decidable (EndsToken b) :=
  inferInstanceAs (Decidable (∀ c ∈ b.head?, c = 0 ∨ endsPrimitive c))

theorem primitive_loop_longer (hmax : a.length < 2 ^ 31) (hpos : pos ≤ a.length) {found : Option Nat}
    (h : primitive_loop a a.length fuel pos = some found) (hends : found = some a.length → EndsToken b) :
    primitive_loop (a ++ b) (a ++ b).length fuel pos = some found := by
  induction fuel generalizing pos with
  | zero => cases h
  | succ fuel ih =>
    unfold primitive_loop at h ⊢
    rw [List.length_append]
    rcases hpos.eq_or_lt with rfl | hlt
    · rw [if_pos le_rfl, Option.some_inj] at h
      subst h
      cases b with
      | nil => rw [List.length_nil, if_pos (by omega)]
      | cons c b =>
        have hc : c = 0 ∨ endsPrimitive c := hends rfl c rfl
        rw [List.length_cons, if_neg (by omega), rd_natCast, List.getElem?_append_right le_rfl, Nat.sub_self,
          List.getElem?_cons_zero, Option.bind_some, if_pos hc]
    · rw [if_neg (by omega)] at h ⊢
      rw [rd_longer hlt]
      obtain ⟨c, hc, h⟩ := Option.bind_eq_some_iff.mp h
      rw [hc, Option.bind_some]
      split_ifs at h ⊢
      · exact h
      · exact h
      · rw [← List.length_append]
        rw [u32_of_lt (by omega)] at h ⊢
        exact ih hlt h

theorem hex_loop_longer (hmax : a.length < 2 ^ 31) {i : Nat} (hpos : pos ≤ a.length) {found : Option Nat}
    (h : hex_loop a a.length i pos = some found) :
    found = some a.length ∨ hex_loop (a ++ b) (a ++ b).length i pos = some found := by
  induction i generalizing pos with
  | zero => exact .inr h
  | succ i ih =>
    unfold hex_loop at h ⊢
    rcases hpos.eq_or_lt with rfl | hlt
    · rw [if_pos le_rfl, Option.some_inj] at h
      exact .inl h.symm
    · rw [if_neg (by omega)] at h
      rw [if_neg (by rw [List.length_append]; omega), rd_longer hlt]
      obtain ⟨c, hc, h⟩ := Option.bind_eq_some_iff.mp h
      rw [hc, Option.bind_some]
      split_ifs at h ⊢
      · exact .inr h
      · rw [u32_of_lt (by omega)] at h ⊢
        exact ih hlt h
      · exact .inr h

theorem string_loop_end {ending : StringEnd} (h : string_loop a a.length fuel a.length = some ending) :
    ending = .part := by
  cases fuel with
  | zero => cases h
  | succ fuel =>
    rw [string_loop, if_pos le_rfl, Option.some_inj] at h
    exact h.symm

theorem string_loop_longer (hmax : a.length < 2 ^ 31) (hpos : pos ≤ a.length) {ending : StringEnd}
    (h : string_loop a a.length fuel pos = some ending) (hends : ending ≠ .part) :
    string_loop (a ++ b) (a ++ b).length fuel pos = some ending := by
  induction fuel generalizing pos with
  | zero => cases h
  | succ fuel ih =>
    rcases hpos.eq_or_lt with rfl | hlt
    · exact absurd (string_loop_end h) hends
    have hlen : (a ++ b).length = a.length + b.length := List.length_append
    unfold string_loop at h ⊢
    rw [if_neg (by omega)] at h ⊢
    rw [rd_longer hlt]
    obtain ⟨c, hc, h⟩ := Option.bind_eq_some_iff.mp h
    rw [hc, Option.bind_some]
    rw [u32_of_lt (by omega)] at h ⊢
    split_ifs at h ⊢ with h0 hquote hlonger hescape hescape
    · exact h
    · exact h
    · obtain ⟨e, he, h⟩ := Option.bind_eq_some_iff.mp h
      rw [rd_longer hescape.2, he, Option.bind_some]
      rw [u32_of_lt (by omega)] at h ⊢
      split_ifs at h ⊢
      · exact ih hescape.2 h
      · obtain ⟨found, hfound, h⟩ := Option.bind_eq_some_iff.mp h
        obtain ⟨found', hfound', hbounds⟩ := hex_loop_safe le_rfl hmax 4 (show pos + 1 + 1 ≤ a.length from hescape.2)
        obtain rfl := Option.some_inj.mp (hfound.symm.trans hfound')
        rcases hex_loop_longer (b := b) hmax hescape.2 hfound with rfl | hsame
        · -- the digits may go on behind the end
          dsimp only at h
          rw [u32_pred (by omega) (by omega), u32_of_lt (by omega), Nat.sub_add_cancel (by omega)] at h
          exact absurd (string_loop_end h) hends
        · rw [hsame, Option.bind_some]
          cases found with
          | none => exact h
          | some pos' =>
            have hpos' := hbounds pos' rfl
            dsimp only at h ⊢
            rw [u32_pred (by omega) (by omega), u32_of_lt (by omega), Nat.sub_add_cancel (by omega)] at h ⊢
            exact ih hpos'.2 h
      · exact h
    · -- the backslash is the last character
      have hlast : pos + 1 = a.length := by
        have := not_and.mp hescape hlonger.1
        omega
      rw [hlast] at h
      exact absurd (string_loop_end h) hends
    · exact absurd ⟨hescape.1, by omega⟩ hlonger
    · exact ih hlt h

/-- The last token is a primitive up to the end of `a`, and `b` goes on with it. -/
def CutsPrimitive (a b : List Byte) (T : List jsmntok_t) : Prop :=
  ¬ EndsToken b ∧ ∃ t ∈ T.getLast?, t.type = JSMN_PRIMITIVE ∧ t.end_ = a.length

instance (a b : List Byte) (T : List jsmntok_t) : Decidable (CutsPrimitive a b T) :=
  inferInstanceAs (Decidable (¬ EndsToken b ∧ ∃ t ∈ T.getLast?, t.type = JSMN_PRIMITIVE ∧ t.end_ = a.length))

theorem scan_longer (hmax : a.length < 2 ^ 31) (hpos : pos < a.length) {c : Byte} {e : Event}
    (h : scan fuel a a.length pos c = some e) (hpart : e ≠ .error JSMN_ERROR_PART) :
    scan fuel (a ++ b) (a ++ b).length pos c = some e ∨
      e = primitiveEvent pos (some a.length) ∧ ¬ EndsToken b := by
  unfold scan at h ⊢
  split_ifs at h ⊢
  · exact .inl h
  · exact .inl h
  · exact .inl h
  · exact .inl h
  · obtain ⟨ending, hending, rfl⟩ := Option.map_eq_some_iff.mp h
    have hends : ending ≠ .part := by
      rintro rfl
      exact hpart rfl
    rw [u32_of_lt (by omega)] at hending ⊢
    rw [string_loop_longer hmax hpos hending hends]
    exact .inl rfl
  · exact .inl h
  · exact .inl h
  · exact .inl h
  · obtain ⟨found, hfound, rfl⟩ := Option.map_eq_some_iff.mp h
    by_cases hcut : found = some a.length ∧ ¬ EndsToken b
    · rw [hcut.1]
      exact .inr ⟨rfl, hcut.2⟩
    · rw [primitive_loop_longer hmax hpos.le hfound (by simpa using hcut)]
      exact .inl rfl

/-! ## The next call -/

variable {T : List jsmntok_t} {super : Int}

/-- A state between two calls: the parser is in the text, the tokens fit and have been filled. -/
structure Resumable (len n : Nat) (parser : jsmn_parser_t) (T : List jsmntok_t) : Prop where
  inside : parser.pos ≤ len
  toknext : parser.toknext = T.length
  length : T.length ≤ n
  super : Super parser.toksuper T
  filled : AllFilled parser.pos T

/-- The call on `a` from `s` has returned, and unless it has cut a primitive the next call goes on where it stopped. -/
def Resumes (a b : List Byte) (n m fuel : Nat) (s : ParseState) (returned : Option (Int × ParseState)) : Prop :=
  ∃ r parser T c, returned = some (r, ⟨parser, some T, c⟩) ∧ Resumable a.length n parser T ∧
    (¬ CutsPrimitive a b T → ∀ fuel', Approx
      (parse_loop (a ++ b) (a ++ b).length m fuel' ⟨parser, some T, T.length⟩)
      (parse_loop (a ++ b) (a ++ b).length m (fuel + fuel') s))

theorem resumes_here (hresume : Resumable a.length n ⟨pos, T.length, super⟩ T) (r c : Int) :
    Resumes a b n m fuel (st pos T super) (some (r, ⟨⟨pos, T.length, super⟩, some T, c⟩)) :=
  ⟨r, _, T, c, rfl, hresume, fun _ _ => parse_loop_fuel (Nat.le_add_left _ _) _⟩

theorem resumes_end (hresume : Resumable a.length n ⟨pos, T.length, super⟩ T) :
    Resumes a b n m fuel (st pos T super) (parse_end (st pos T super)) := by
  obtain ⟨r, s, hr, -⟩ := parse_end_safe hresume.inside hresume.length hresume.filled
  rw [hr, parse_end_kept hr]
  exact resumes_here hresume r _

/-- The `switch` does the same with more text and more slots, unless it has read a primitive that goes on. -/
theorem parse_switch_longer (hmax : (a ++ b).length < 2 ^ 31) (hm : m < 2 ^ 31) (hn : n ≤ m) (hpos : pos < a.length)
    (hresume : Resumable a.length n ⟨pos, T.length, super⟩ T) {c : Byte} {pos' : Nat} {T' : List jsmntok_t}
    {super' : Int} (h : parse_switch fuel a a.length n c (st pos T super) = some (.next (st pos' T' super'))) :
    parse_switch fuel (a ++ b) (a ++ b).length m c (st pos T super) = some (.next (st pos' T' super')) ∨
      pos' + 1 = a.length ∧ CutsPrimitive a b T' := by
  have hlen : (a ++ b).length = a.length + b.length := List.length_append
  have hmany : parse_switch fuel a a.length m c (st pos T super) = some (.next (st pos' T' super')) := by
    rcases parse_switch_budget a a.length fuel hn c (st pos T super) with hsame | ⟨s', hfull⟩
    · exact hsame.symm.trans h
    · rw [h] at hfull
      simp at hfull
  obtain ⟨e, he, hacts⟩ := parse_switch_acts hm (by omega) hresume.super (hresume.length.trans hn) hmany
  have hpart : e ≠ .error JSMN_ERROR_PART := by
    rintro rfl
    exact hacts.error_returns
  rcases scan_longer (by omega) hpos he hpart with hlonger | ⟨rfl, hb⟩
  · rw [← hmany, parse_switch_eq, parse_switch_eq, he, hlonger]
    exact .inl rfl
  · have hst : st pos' T' super' = st (u32 (a.length + (2 ^ 32 - 1)))
        (bump super T ++ [⟨JSMN_PRIMITIVE, i32 pos, i32 a.length, 0⟩]) super := hacts.scalar_next
    rw [u32_pred (by omega) (by omega)] at hst
    have hpos' : pos' = a.length - 1 := congrArg (fun s : ParseState => s.parser.pos) hst
    have hT' : some T' = some (bump super T ++ [⟨JSMN_PRIMITIVE, i32 pos, i32 a.length, 0⟩]) :=
      congrArg ParseState.tokens hst
    refine .inr ⟨by omega, hb, ?_⟩
    rw [Option.some_inj.mp hT', List.getLast?_concat]
    exact ⟨_, rfl, rfl, i32_of_lt (by omega)⟩

/-- From the state after one iteration to the state before it. -/
theorem resumes_next (hmax : (a ++ b).length < 2 ^ 31) (hm : m < 2 ^ 31) (hn : n ≤ m) (hpos : pos < a.length)
    (hresume : Resumable a.length n ⟨pos, T.length, super⟩ T) {c : Byte} (hc : rd a pos = some c) (hc0 : c ≠ 0)
    {pos' : Nat} {T' : List jsmntok_t} {super' : Int}
    (hflow : parse_switch fuel a a.length n c (st pos T super) = some (.next (st pos' T' super')))
    (hnext : Resumes a b n m fuel (st (pos' + 1) T' super') (parse_loop a a.length n fuel (st (pos' + 1) T' super')))
    (hpos' : pos' + 1 ≤ a.length) (hfuel : a.length - pos < fuel) :
    Resumes a b n m (fuel + 1) (st pos T super) (parse_loop a a.length n fuel (st (pos' + 1) T' super')) := by
  have hlen : (a ++ b).length = a.length + b.length := List.length_append
  obtain ⟨r, parser, T₂, count, hloop, hresume₂, hsame⟩ := hnext
  refine ⟨r, parser, T₂, count, hloop, hresume₂, fun hwhole fuel' => ?_⟩
  rcases parse_switch_longer hmax hm hn hpos hresume hflow with hswitch | ⟨hend, hcut⟩
  · intro out hout
    rw [Nat.add_right_comm, parse_loop, if_neg (by dsimp only; omega), rd_longer hpos, hc, Option.bind_some,
      if_neg hc0, parse_switch_fuel (Nat.le_add_right fuel fuel') c _ _ hswitch, Option.bind_some]
    dsimp only
    rw [u32_of_lt (by omega)]
    exact hsame hwhole fuel' out hout
  · -- the call ends behind the primitive
    obtain ⟨fuel, rfl⟩ : ∃ f, fuel = f + 1 := ⟨fuel - 1, by omega⟩
    rw [parse_loop, if_pos (by dsimp only; omega)] at hloop
    have hT₂ : some T₂ = some T' := congrArg ParseState.tokens (parse_end_kept hloop)
    rw [Option.some_inj.mp hT₂] at hwhole
    exact absurd hcut hwhole

theorem parse_loop_resume (hmax : (a ++ b).length < 2 ^ 31) (hm : m < 2 ^ 31) (hn : n ≤ m)
    (hresume : Resumable a.length n ⟨pos, T.length, super⟩ T) (hfuel : a.length - pos + 1 < fuel) :
    Resumes a b n m fuel (st pos T super) (parse_loop a a.length n fuel (st pos T super)) := by
  have hlen : (a ++ b).length = a.length + b.length := List.length_append
  induction fuel generalizing pos T super with
  | zero => omega
  | succ fuel ih =>
    rw [parse_loop]
    rcases hresume.inside.eq_or_lt with heq | hlt
    · rw [if_pos (le_of_eq heq.symm)]
      exact resumes_end hresume
    dsimp only at hlt
    obtain ⟨c, hc⟩ := rd_inside le_rfl hlt
    rw [if_neg (not_le.mpr hlt), hc, Option.bind_some]
    split
    · exact resumes_end hresume
    rename_i hc0
    have hsafe : Safe a.length n pos T super := ⟨hlt, hresume.length, hresume.super, hresume.filled⟩
    obtain ⟨flow, hflow, hnext⟩ :=
      parse_switch_safe le_rfl (by omega) (hn.trans_lt hm) hsafe (by omega : a.length - pos < fuel) hc hc0
    rw [hflow, Option.bind_some]
    cases flow with
    | ret r s' =>
      obtain ⟨e, -, hacts⟩ := parse_switch_acts (hn.trans_lt hm) (by omega) hresume.super hresume.length hflow
      obtain ⟨count, rfl⟩ := hacts.error_same
      exact resumes_here hresume r count
    | next s' =>
      obtain ⟨pos', T', super', rfl, hle, hlt', hlength', hsuper', hfilled'⟩ := hnext
      dsimp only
      rw [u32_of_lt (by omega)]
      exact resumes_next hmax hm hn hlt hresume hc hc0 hflow
        (ih ⟨hlt', rfl, hlength', hsuper', hfilled'⟩ (by omega)) hlt' (by omega)

/-! ## Any number of calls -/

/-- What a caller has after some calls: the text so far, and what the last call has left. -/
structure Feed where
  text : List Byte
  result : Int
  parser : jsmn_parser_t
  tokens : Tokens
deriving DecidableEq, Repr

def noText : Feed := ⟨[], 0, jsmn_init, some []⟩

/-- The next piece of the text has come, and there are so many slots now. -/
def feedPiece (fuel : Nat) (s : Feed) (piece : List Byte × Nat) : Option Feed :=
  (jsmn_parse fuel s.parser (s.text ++ piece.1) (s.text ++ piece.1).length s.tokens piece.2).map
    fun (result, parser, tokens) => ⟨s.text ++ piece.1, result, parser, tokens⟩

def feed (fuel : Nat) : List (List Byte × Nat) → Feed → Option Feed
  | [], s => some s
  | piece :: pieces, s => (feedPiece fuel s piece).bind (feed fuel pieces)

/-- The text of some pieces. -/
abbrev textOf (pieces : List (List Byte × Nat)) : List Byte := pieces.flatMap Prod.fst

/-- No piece goes on with a primitive for which the parser has filled a token. -/
def Unbroken (fuel : Nat) : List (List Byte × Nat) → Feed → Prop
  | [], _ => True
  | piece :: pieces, s => (∀ T ∈ s.tokens, ¬ CutsPrimitive s.text (textOf (piece :: pieces)) T) ∧
      ∀ s' ∈ feedPiece fuel s piece, Unbroken fuel pieces s'

instance decidableUnbroken (fuel : Nat) : (pieces : List (List Byte × Nat)) → (s : Feed) →
    Decidable (Unbroken fuel pieces s)
  | [], _ => isTrue trivial
  | piece :: pieces, s =>
    haveI := fun s' => decidableUnbroken fuel pieces s'
    inferInstanceAs (Decidable ((∀ T ∈ s.tokens, ¬ CutsPrimitive s.text (textOf (piece :: pieces)) T) ∧
      ∀ s' ∈ feedPiece fuel s piece, Unbroken fuel pieces s'))

theorem Resumable.mono {parser : jsmn_parser_t} {len' : Nat} (h : Resumable len n parser T) (hlen : len ≤ len')
    (hn : n ≤ m) : Resumable len' m parser T :=
  ⟨h.inside.trans hlen, h.toknext, h.length.trans hn, h.super, h.filled⟩

theorem jsmn_parse_ready {parser : jsmn_parser_t} (h : Resumable len n parser T) (hn : n < 2 ^ 31) :
    jsmn_parse fuel parser js len (some T) n =
      (parse_loop js len n fuel (st parser.pos T parser.toksuper)).map fun (r, s) => (r, s.parser, s.tokens) := by
  obtain ⟨pos, toknext, super⟩ := parser
  obtain rfl : toknext = T.length := h.toknext
  rw [jsmn_parse, i32_of_lt (h.length.trans_lt hn)]

/-- Two calls do what one call does with the text of both and the slots of the second. -/
theorem feedPiece_twice {text x y : List Byte} (result : Int) {parser : jsmn_parser_t}
    (hfuel : (text ++ x ++ y).length + 1 < fuel) (hmax : (text ++ x ++ y).length < 2 ^ 31) (hm : m < 2 ^ 31)
    (hn : n ≤ m) (h : Resumable text.length n parser T) :
    ∃ result' parser' T', feedPiece fuel ⟨text, result, parser, some T⟩ (x, n) =
        some ⟨text ++ x, result', parser', some T'⟩ ∧
      Resumable (text ++ x).length n parser' T' ∧
      (¬ CutsPrimitive (text ++ x) y T' → feedPiece fuel ⟨text ++ x, result', parser', some T'⟩ (y, m) =
        feedPiece fuel ⟨text, result, parser, some T⟩ (x ++ y, m)) := by
  have hlen : (text ++ x ++ y).length = (text ++ x).length + y.length := List.length_append
  have hx : Resumable (text ++ x).length n parser T := h.mono (by simp) le_rfl
  have hxy : Resumable (text ++ x ++ y).length m parser T := hx.mono (by omega) hn
  have htoknext := hx.toknext
  obtain ⟨pos, toknext, super⟩ := parser
  obtain rfl : toknext = T.length := htoknext
  obtain ⟨result', parser', T', c, hfirst, hready', hsame⟩ :=
    parse_loop_resume hmax hm hn hx (show (text ++ x).length - pos + 1 < fuel by omega)
  refine ⟨result', parser', T', ?_, hready', fun hwhole => ?_⟩
  · unfold feedPiece
    dsimp only
    rw [jsmn_parse_ready hx (hn.trans_lt hm), hfirst]
    rfl
  have hxy' : Resumable (text ++ x ++ y).length m parser' T' := hready'.mono (by omega) hn
  have htoknext := hxy'.toknext
  obtain ⟨pos', toknext', super'⟩ := parser'
  obtain rfl : toknext' = T'.length := htoknext
  have hsecond : parse_loop (text ++ x ++ y) (text ++ x ++ y).length m fuel (st pos' T' super') =
      parse_loop (text ++ x ++ y) (text ++ x ++ y).length m fuel (st pos T super) := by
    obtain ⟨r₁, s₁, h₁, -⟩ := parse_loop_safe le_rfl hmax hm hxy'.inside
      (show (text ++ x ++ y).length - pos' + 1 < fuel by omega) hxy'.length hxy'.super hxy'.filled
    obtain ⟨r₂, s₂, h₂, -⟩ := parse_loop_safe le_rfl hmax hm hxy.inside
      (show (text ++ x ++ y).length - pos + 1 < fuel by omega) hxy.length hxy.super hxy.filled
    have htwice := parse_loop_fuel (Nat.le_add_right fuel fuel) _ _ h₂
    rw [h₁, h₂, ← htwice, hsame hwhole fuel _ h₁]
  unfold feedPiece
  dsimp only
  rw [← List.append_assoc, jsmn_parse_ready hxy' hm, jsmn_parse_ready hxy hm, hsecond]

theorem Unbroken.head {pieces : List (List Byte × Nat)} {s : Feed} (h : Unbroken fuel pieces s) (hne : pieces ≠ [])
    (hT : s.tokens = some T) : ¬ CutsPrimitive s.text (textOf pieces) T := by
  obtain ⟨piece, pieces, rfl⟩ := List.exists_cons_of_ne_nil hne
  exact h.1 T hT

theorem feed_resumes {pieces : List (List Byte × Nat)} {last : List Byte × Nat} {text : List Byte} {result : Int}
    {parser : jsmn_parser_t} (hfuel : (text ++ textOf (pieces ++ [last])).length + 1 < fuel)
    (hmax : (text ++ textOf (pieces ++ [last])).length < 2 ^ 31) (hlast : last.2 < 2 ^ 31)
    (hslots : ((pieces ++ [last]).map Prod.snd).Pairwise (· ≤ ·)) (h : Resumable text.length n parser T)
    (hn : ∀ piece ∈ pieces ++ [last], n ≤ piece.2)
    (hunbroken : Unbroken fuel (pieces ++ [last]) ⟨text, result, parser, some T⟩) :
    feed fuel (pieces ++ [last]) ⟨text, result, parser, some T⟩ =
      feedPiece fuel ⟨text, result, parser, some T⟩ (textOf (pieces ++ [last]), last.2) := by
  induction pieces generalizing n text result parser T with
  | nil =>
    rw [List.nil_append, feed]
    simp [textOf, feed]
  | cons piece pieces ih =>
    obtain ⟨x, k⟩ := piece
    rw [List.cons_append] at *
    rw [List.map_cons, List.pairwise_cons] at hslots
    rw [textOf, List.flatMap_cons, ← List.append_assoc] at hfuel hmax
    have hk : ∀ piece ∈ pieces ++ [last], k ≤ piece.2 := fun piece hpiece => hslots.1 _ (List.mem_map_of_mem hpiece)
    have hx : Resumable text.length k parser T := h.mono le_rfl (hn _ List.mem_cons_self)
    obtain ⟨result', parser', T', hfirst, hresume, hsame⟩ :=
      feedPiece_twice result hfuel hmax hlast (hk last (by simp)) hx
    have hrest := hunbroken.2 _ hfirst
    rw [feed, hfirst, Option.bind_some, ih hfuel hmax hslots.2 hresume hk hrest,
      hsame (hrest.head (by simp) rfl), textOf, List.flatMap_cons]

theorem resumable_init (n : Nat) : Resumable ([] : List Byte).length n jsmn_init [] :=
  ⟨le_rfl, rfl, Nat.zero_le n, .inl rfl, by simp [AllFilled]⟩

/-- A text that comes in pieces, with more and more slots, is parsed as one text with the slots of the last call. -/
theorem feed_whole (pieces : List (List Byte × Nat)) (last : List Byte × Nat) (fuel : Nat)
    (hmax : (textOf (pieces ++ [last])).length < 2 ^ 31) (hlast : last.2 < 2 ^ 31)
    (hslots : ((pieces ++ [last]).map Prod.snd).Pairwise (· ≤ ·))
    (hfuel : (textOf (pieces ++ [last])).length + 1 < fuel) (hunbroken : Unbroken fuel (pieces ++ [last]) noText) :
    ∃ result parser tokens,
      jsmn_parse fuel jsmn_init (textOf (pieces ++ [last])) (textOf (pieces ++ [last])).length (some []) last.2 =
        some (result, parser, tokens) ∧
      feed fuel (pieces ++ [last]) noText = some ⟨textOf (pieces ++ [last]), result, parser, tokens⟩ := by
  obtain ⟨result, parser, tokens, hparse, -⟩ := jsmn_parse_safe le_rfl hmax hlast hfuel
  refine ⟨result, parser, tokens, hparse, ?_⟩
  rw [noText, feed_resumes hfuel hmax hlast hslots (resumable_init 0) (fun _ _ => Nat.zero_le _) hunbroken]
  unfold feedPiece
  dsimp only
  rw [List.nil_append, hparse]
  rfl

-- a number that is cut gives two tokens
example : feed 9 [(ascii "2", 2), (ascii "1", 2)] noText ≠ feedPiece 9 noText (ascii "21", 2) := by decide

/-- Neither the string nor the object is whole when the first call returns, and there are too few slots for the
second. -/
theorem feed_whole_temp :
    ∃ result parser tokens,
      jsmn_parse 20 jsmn_init (ascii "\x7b\"temp\":21\x7d") 11 (some []) 3 = some (result, parser, tokens) ∧
      feed 20 [(ascii "\x7b\"te", 1), (ascii "mp\":21", 1), (ascii "\x7d", 3)] noText =
        some ⟨ascii "\x7b\"temp\":21\x7d", result, parser, tokens⟩ :=
  feed_whole [(ascii "\x7b\"te", 1), (ascii "mp\":21", 1)] (ascii "\x7d", 3) 20 (by decide) (by decide) (by decide)
    (by decide) (by decide +kernel)

end ToyTstat.Jsmn
