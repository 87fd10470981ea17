import ToyTstat.Jsmn.Tokens

/-!
# What holds of every token

A property of a token that the writes of `jsmn_parse` keep holds of every token it leaves, on any
text.
-/

open CLib ToyTstat.Code ToyTstat.Code.jsmntype_t

namespace ToyTstat.Jsmn

/-- `P` is kept by the writes of `jsmn_parse` to a token. -/
structure Kept (P : jsmntok_t → Prop) : Prop where
  alloc : P ⟨JSMN_UNDEFINED, -1, -1, 0⟩
  fill (type : jsmntype_t) (start end_ : Int) : P ⟨type, i32 start, i32 end_, 0⟩
  open_ (t : jsmntok_t) (type : jsmntype_t) (start : Int) : P t → P { t with type := type, start := i32 start }
  close (t : jsmntok_t) (end_ : Int) : P t → P { t with end_ := i32 end_ }
  size (t : jsmntok_t) (size : Int) : P t → P { t with size := size }

def AllTokens (P : jsmntok_t → Prop) (tokens : Tokens) : Prop := ∀ T, tokens = some T → ∀ t ∈ T, P t

variable {P : jsmntok_t → Prop}

theorem allTokens_some {T : List jsmntok_t} (h : ∀ t ∈ T, P t) : AllTokens P (some T) := by
  rintro _ ⟨⟩
  exact h

theorem allTokens_none : AllTokens P none := by
  rintro _ ⟨⟩

theorem forall_mem_set {T : List jsmntok_t} (h : ∀ t ∈ T, P t) (i : Nat) {t : jsmntok_t} (ht : P t) :
    ∀ x ∈ T.set i t, P x := by
  intro x hx
  rcases List.mem_or_eq_of_mem_set hx with hx | rfl
  · exact h x hx
  · exact ht

theorem forall_mem_modify {T : List jsmntok_t} (h : ∀ t ∈ T, P t) (i : Nat) {f : jsmntok_t → jsmntok_t}
    (hf : ∀ t, P t → P (f t)) : ∀ x ∈ T.modify i f, P x := by
  intro x hx
  obtain ⟨j, hj⟩ := List.mem_iff_getElem?.mp hx
  rw [List.getElem?_modify] at hj
  obtain ⟨t, ht, rfl⟩ := Option.map_eq_some_iff.mp hj
  have htok := h t (List.mem_of_getElem? ht)
  split
  · exact hf t htok
  · exact htok

def flowState : Flow → ParseState
  | .next s => s
  | .ret _ s => s

variable (hP : Kept P)
include hP

theorem alloc_kept {parser parser' : jsmn_parser_t} {T T' : List jsmntok_t} {num_tokens : Nat}
    (hT : ∀ t ∈ T, P t) (h : jsmn_alloc_token parser T num_tokens = some (parser', T')) : ∀ t ∈ T', P t := by
  unfold jsmn_alloc_token at h
  split at h
  · cases h
  · obtain ⟨-, rfl⟩ := Prod.mk.inj (Option.some.inj h)
    intro t ht
    rcases List.mem_append.mp ht with ht | ht
    · exact hT t ht
    · rw [List.mem_singleton.mp ht]
      exact hP.alloc

theorem fill_kept {T : List jsmntok_t} (hT : ∀ t ∈ T, P t) (type : jsmntype_t) (start end_ : Int) :
    ∀ t ∈ jsmn_fill_token T type (i32 start) (i32 end_), P t := by
  intro t ht
  rcases List.mem_append.mp ht with ht | ht
  · exact hT t (List.mem_of_mem_dropLast ht)
  · rw [List.mem_singleton.mp ht]
    exact hP.fill type start end_

theorem bump_super_kept {T T' : List jsmntok_t} {toksuper : Int} (hT : ∀ t ∈ T, P t)
    (h : bump_super toksuper T = some T') : ∀ t ∈ T', P t := by
  unfold bump_super at h
  split at h
  · obtain rfl := Option.some.inj h
    exact hT
  · split at h
    · cases h
    · obtain ⟨t, ht, rfl⟩ := Option.map_eq_some_iff.mp h
      exact forall_mem_set hT _ (hP.size t _ (hT t (List.mem_of_getElem? ht)))

theorem jsmn_parse_primitive_kept {fuel len num_tokens : Nat} {parser parser' : jsmn_parser_t} {js : List Byte}
    {tokens tokens' : Tokens} {r : Int} (hT : AllTokens P tokens)
    (h : jsmn_parse_primitive fuel parser js len tokens num_tokens = some (r, parser', tokens')) :
    AllTokens P tokens' := by
  obtain ⟨found, -, h⟩ := Option.bind_eq_some_iff.mp h
  cases found with
  | none =>
    simp only [Option.some.injEq, Prod.mk.injEq] at h
    obtain ⟨-, -, rfl⟩ := h
    exact hT
  | some pos =>
    cases tokens with
    | none =>
      simp only [Option.some.injEq, Prod.mk.injEq] at h
      obtain ⟨-, -, rfl⟩ := h
      exact allTokens_none
    | some T =>
      dsimp only at h
      split at h
      · simp only [Option.some.injEq, Prod.mk.injEq] at h
        obtain ⟨-, -, rfl⟩ := h
        exact hT
      · rename_i halloc
        simp only [Option.some.injEq, Prod.mk.injEq] at h
        obtain ⟨-, -, rfl⟩ := h
        exact allTokens_some (fill_kept hP (alloc_kept hP (hT T rfl) halloc) _ _ _)

theorem jsmn_parse_string_kept {fuel len num_tokens : Nat} {parser parser' : jsmn_parser_t} {js : List Byte}
    {tokens tokens' : Tokens} {r : Int} (hT : AllTokens P tokens)
    (h : jsmn_parse_string fuel parser js len tokens num_tokens = some (r, parser', tokens')) :
    AllTokens P tokens' := by
  obtain ⟨found, -, h⟩ := Option.bind_eq_some_iff.mp h
  cases found with
  | inval =>
    cases h
    exact hT
  | part =>
    cases h
    exact hT
  | quote pos =>
    cases tokens with
    | none =>
      cases h
      exact allTokens_none
    | some T =>
      dsimp only at h
      split at h
      · cases h
        exact hT
      · rename_i halloc
        cases h
        exact allTokens_some (fill_kept hP (alloc_kept hP (hT T rfl) halloc) _ _ _)

theorem parse_open_kept {s : ParseState} {num_tokens : Nat} {type : jsmntype_t} {flow : Flow}
    (hT : AllTokens P s.tokens) (h : parse_open s num_tokens type = some flow) :
    AllTokens P (flowState flow).tokens := by
  unfold parse_open at h
  dsimp only at h
  split at h
  · cases h
    exact hT
  · rename_i T hs
    split at h
    · cases h
      exact hT
    · rename_i halloc
      obtain ⟨T', hbump, rfl⟩ := Option.map_eq_some_iff.mp h
      apply allTokens_some
      exact forall_mem_modify (bump_super_kept hP (alloc_kept hP (hT T hs) halloc) hbump) _
        fun t ht => hP.open_ t type _ ht

theorem parse_close_kept {s : ParseState} {type : jsmntype_t} {flow : Flow} (hT : AllTokens P s.tokens)
    (h : parse_close s type = some flow) : AllTokens P (flowState flow).tokens := by
  unfold parse_close at h
  split at h
  · cases h
    exact hT
  · rename_i T hs
    obtain ⟨i, -, h⟩ := Option.bind_eq_some_iff.mp h
    split at h
    · cases h
      exact hT
    · obtain ⟨token, htoken, h⟩ := Option.bind_eq_some_iff.mp h
      split at h
      · cases h
        exact hT
      · obtain ⟨super, -, rfl⟩ := Option.map_eq_some_iff.mp h
        apply allTokens_some
        exact forall_mem_set (hT T hs) _ (hP.close token _ (hT T hs token (List.mem_of_getElem? htoken)))

omit hP in
theorem parse_comma_kept {s : ParseState} {flow : Flow} (hT : AllTokens P s.tokens)
    (h : parse_comma s = some flow) : AllTokens P (flowState flow).tokens := by
  suffices h : (flowState flow).tokens = s.tokens by rwa [h]
  unfold parse_comma at h
  split at h
  · cases h
    rfl
  · split at h
    · cases h
      rfl
    · split at h
      · cases h
      · obtain ⟨token, -, h⟩ := Option.bind_eq_some_iff.mp h
        split at h
        · cases h
          rfl
        · obtain ⟨i, -, rfl⟩ := Option.map_eq_some_iff.mp h
          split <;> rfl

theorem parse_scalar_kept {s : ParseState} {r : Int × jsmn_parser_t × Tokens} {flow : Flow}
    (hT : AllTokens P r.2.2) (h : parse_scalar s r = some flow) : AllTokens P (flowState flow).tokens := by
  obtain ⟨r, parser, tokens⟩ := r
  unfold parse_scalar at h
  dsimp only at h hT
  split at h
  · cases h
    exact hT
  · cases tokens with
    | none =>
      cases h
      exact hT
    | some T =>
      obtain ⟨T', hbump, rfl⟩ := Option.map_eq_some_iff.mp h
      exact allTokens_some (bump_super_kept hP (hT T rfl) hbump)

theorem parse_switch_kept {fuel len num_tokens : Nat} {js : List Byte} {c : Byte} {s : ParseState} {flow : Flow}
    (hT : AllTokens P s.tokens) (h : parse_switch fuel js len num_tokens c s = some flow) :
    AllTokens P (flowState flow).tokens := by
  unfold parse_switch at h
  split at h
  · exact parse_open_kept hP hT h
  split at h
  · exact parse_open_kept hP hT h
  split at h
  · exact parse_close_kept hP hT h
  split at h
  · exact parse_close_kept hP hT h
  split at h
  · obtain ⟨r, hr, h⟩ := Option.bind_eq_some_iff.mp h
    exact parse_scalar_kept hP (jsmn_parse_string_kept hP hT hr) h
  split at h
  · cases h
    exact hT
  split at h
  · cases h
    exact hT
  split at h
  · exact parse_comma_kept hT h
  · obtain ⟨r, hr, h⟩ := Option.bind_eq_some_iff.mp h
    exact parse_scalar_kept hP (jsmn_parse_primitive_kept hP hT hr) h

omit hP in
theorem parse_end_kept {s s' : ParseState} {r : Int} (h : parse_end s = some (r, s')) : s' = s := by
  unfold parse_end at h
  split at h
  · cases h
    rfl
  · obtain ⟨i, -, h⟩ := Option.map_eq_some_iff.mp h
    split at h <;> (cases h; rfl)

theorem parse_loop_kept {js : List Byte} {len num_tokens fuel : Nat} {s s' : ParseState} {r : Int}
    (hT : AllTokens P s.tokens) (h : parse_loop js len num_tokens fuel s = some (r, s')) :
    AllTokens P s'.tokens := by
  induction fuel generalizing s with
  | zero => cases h
  | succ fuel ih =>
    rw [parse_loop] at h
    split at h
    · rwa [parse_end_kept h]
    · obtain ⟨c, -, h⟩ := Option.bind_eq_some_iff.mp h
      split at h
      · rwa [parse_end_kept h]
      · obtain ⟨flow, hflow, h⟩ := Option.bind_eq_some_iff.mp h
        have hkept := parse_switch_kept hP hT hflow
        cases flow with
        | ret r s =>
          cases h
          exact hkept
        | next s => exact ih (s := { s with parser := { s.parser with pos := u32 (s.parser.pos + 1) } }) hkept h

theorem jsmn_parse_kept {fuel len num_tokens : Nat} {parser parser' : jsmn_parser_t} {js : List Byte}
    {tokens tokens' : Tokens} {r : Int} (hT : AllTokens P tokens)
    (h : jsmn_parse fuel parser js len tokens num_tokens = some (r, parser', tokens')) : AllTokens P tokens' := by
  obtain ⟨⟨r, s⟩, hloop, h⟩ := Option.map_eq_some_iff.mp h
  cases h
  exact parse_loop_kept hP hT hloop

omit hP

def IntBounds (t : jsmntok_t) : Prop := (-2 ^ 31 ≤ t.start ∧ t.start < 2 ^ 31) ∧ -2 ^ 31 ≤ t.end_ ∧ t.end_ < 2 ^ 31

theorem i32_bounds (n : Int) : -2 ^ 31 ≤ i32 n ∧ i32 n < 2 ^ 31 := by
  unfold i32
  omega

theorem intBounds_kept : Kept IntBounds where
  alloc := by
    unfold IntBounds
    decide
  fill _ start end_ := ⟨i32_bounds start, i32_bounds end_⟩
  open_ _ _ start h := ⟨i32_bounds start, h.2⟩
  close _ end_ h := ⟨h.1, i32_bounds end_⟩
  size _ _ h := h

end ToyTstat.Jsmn
