import ToyTstat.Jsmn.Steps

/-!
# The token array

The backward scans of `jsmn_parse`, and one step of the parser for each kind of lexeme.
-/

open CLib ToyTstat.Code ToyTstat.Code.jsmntype_t

namespace ToyTstat.Jsmn

/-! ## Backward scans -/

/-- The index of the last token that has `p`, or -1. -/
def lastIndex (p : jsmntok_t → Bool) (T : List jsmntok_t) : Int := (scan_back p T T.length).getD (-1)

def lastOpen (T : List jsmntok_t) : Int := lastIndex isOpen T

theorem scan_back_congr {p q : jsmntok_t → Bool} {T S : List jsmntok_t} (h : T.map p = S.map q) (n : Nat) :
    scan_back p T n = scan_back q S n := by
  induction n with
  | zero => rfl
  | succ n ih =>
    have hn := congrArg (·[n]?) h
    simp only [List.getElem?_map] at hn
    rw [scan_back, scan_back, ih]
    cases ht : T[n]? with
    | none => cases hs : S[n]? with
      | none => rfl
      | some s => simp [ht, hs] at hn
    | some t => cases hs : S[n]? with
      | none => simp [ht, hs] at hn
      | some s =>
        simp only [ht, hs, Option.map_some, Option.some.injEq] at hn
        simp [hn]

theorem scan_back_append (p : jsmntok_t → Bool) (T L : List jsmntok_t) (n : Nat) (hn : n ≤ T.length) :
    scan_back p (T ++ L) n = scan_back p T n := by
  induction n with
  | zero => rfl
  | succ n ih => rw [scan_back, scan_back, ih (by omega), List.getElem?_append_left (by omega)]

theorem scan_back_snoc (p : jsmntok_t → Bool) (T : List jsmntok_t) (t : jsmntok_t) :
    scan_back p (T ++ [t]) (T.length + 1) = if p t then some (T.length : Int) else scan_back p T T.length := by
  rw [scan_back, List.getElem?_append_right (by omega), scan_back_append _ _ _ _ (by omega)]
  simp

theorem scan_back_eq (p : jsmntok_t → Bool) (T : List jsmntok_t) :
    scan_back p T T.length = some (lastIndex p T) := by
  suffices h : (scan_back p T T.length).isSome by
    rw [lastIndex]
    obtain ⟨i, hi⟩ := Option.isSome_iff_exists.mp h
    rw [hi]
    rfl
  induction T using List.reverseRecOn with
  | nil => rfl
  | append_singleton T t ih =>
    rw [List.length_append, List.length_singleton, scan_back_snoc]
    split
    · rfl
    · exact ih

theorem lastIndex_snoc (p : jsmntok_t → Bool) (T : List jsmntok_t) (t : jsmntok_t) :
    lastIndex p (T ++ [t]) = if p t then (T.length : Int) else lastIndex p T := by
  rw [lastIndex, List.length_append, List.length_singleton, scan_back_snoc]
  split
  · rfl
  · rfl

theorem lastIndex_congr {p q : jsmntok_t → Bool} {T S : List jsmntok_t} (h : T.map p = S.map q) :
    lastIndex p T = lastIndex q S := by
  have hl := congrArg List.length h
  simp only [List.length_map] at hl
  rw [lastIndex, lastIndex, scan_back_congr h, hl]

theorem lastIndex_append (p : jsmntok_t → Bool) (T L : List jsmntok_t) (hL : ∀ t ∈ L, p t = false) :
    lastIndex p (T ++ L) = lastIndex p T := by
  induction L using List.reverseRecOn with
  | nil => rw [List.append_nil]
  | append_singleton L t ih =>
    rw [← List.append_assoc, lastIndex_snoc, if_neg (by simp [hL t (by simp)])]
    exact ih fun x hx => hL x (by simp [hx])

theorem lastIndex_cases (p : jsmntok_t → Bool) (T : List jsmntok_t) :
    (lastIndex p T = -1 ∧ ∀ t ∈ T, p t = false) ∨
      ∃ A t L, T = A ++ t :: L ∧ lastIndex p T = A.length ∧ p t = true ∧ ∀ x ∈ L, p x = false := by
  induction T using List.reverseRecOn with
  | nil => exact Or.inl ⟨rfl, nofun⟩
  | append_singleton T t ih =>
    rw [lastIndex_snoc]
    by_cases ht : p t = true
    · rw [if_pos ht]
      exact Or.inr ⟨T, t, [], rfl, rfl, ht, nofun⟩
    rw [if_neg ht]
    have hsnoc {S : List jsmntok_t} (hS : ∀ x ∈ S, p x = false) : ∀ x ∈ S ++ [t], p x = false := by
      intro x hx
      rcases List.mem_append.mp hx with hx | hx
      · exact hS x hx
      · rw [List.mem_singleton.mp hx]
        exact Bool.eq_false_iff.mpr ht
    rcases ih with ⟨hnone, hall⟩ | ⟨A, x, L, rfl, hindex, hx, hL⟩
    · exact Or.inl ⟨hnone, hsnoc hall⟩
    · exact Or.inr ⟨A, x, L ++ [t], by simp, hindex, hx, hsnoc hL⟩

/-! ## Sizes -/

def addSize (i : Nat) (k : Int) (T : List jsmntok_t) : List jsmntok_t :=
  T.modify i fun t => { t with size := t.size + k }

@[simp] theorem addSize_length (i : Nat) (k : Int) (T : List jsmntok_t) : (addSize i k T).length = T.length := by
  simp [addSize]

theorem addSize_zero (i : Nat) (T : List jsmntok_t) : addSize i 0 T = T := by
  have : (fun t : jsmntok_t => { t with size := t.size + 0 }) = id := by
    funext t
    simp
  rw [addSize, this, List.modify_id]

theorem addSize_add (i : Nat) (a b : Int) (T : List jsmntok_t) :
    addSize i b (addSize i a T) = addSize i (a + b) T := by
  simp only [addSize, List.modify_modify_eq]
  congr 1
  funext t
  simp [add_assoc]

theorem addSize_append (i : Nat) (k : Int) (T L : List jsmntok_t) (hi : i < T.length) :
    addSize i k (T ++ L) = addSize i k T ++ L := by
  induction T generalizing i with
  | nil => simp at hi
  | cons t T ih =>
    cases i with
    | zero => rfl
    | succ i =>
      simp only [addSize, List.cons_append, List.modify_succ_cons] at ih ⊢
      rw [ih i (by simpa using hi)]

theorem addSize_snoc (k : Int) (T : List jsmntok_t) (t : jsmntok_t) :
    addSize T.length k (T ++ [t]) = T ++ [{ t with size := t.size + k }] := by
  induction T with
  | nil => rfl
  | cons x T ih =>
    simp only [addSize, List.length_cons, List.cons_append, List.modify_succ_cons] at ih ⊢
    rw [ih]

theorem addSize_map {α : Type} (f : jsmntok_t → α) (hf : ∀ t n, f { t with size := n } = f t) (i : Nat) (k : Int)
    (T : List jsmntok_t) : (addSize i k T).map f = T.map f := by
  apply List.ext_getElem?
  intro j
  simp only [addSize, List.getElem?_map, List.getElem?_modify]
  cases T[j]? with
  | none => rfl
  | some t => split <;> simp [hf]

/-- A value of `toksuper`: an index of the array, or -1. -/
def Super (super : Int) (T : List jsmntok_t) : Prop := super = -1 ∨ (0 ≤ super ∧ super < T.length)

/-- `tokens[toksuper].size++`, unless `toksuper` is -1. -/
def bump (super : Int) (T : List jsmntok_t) : List jsmntok_t :=
  if super = -1 then T else addSize super.toNat 1 T

@[simp] theorem bump_length (super : Int) (T : List jsmntok_t) : (bump super T).length = T.length := by
  unfold bump
  split <;> simp

theorem bump_append {super : Int} {T : List jsmntok_t} (h : Super super T) (L : List jsmntok_t) :
    bump super (T ++ L) = bump super T ++ L := by
  unfold bump
  rcases h with rfl | ⟨h0, hlt⟩
  · rfl
  · rw [if_neg (by omega), if_neg (by omega), addSize_append _ _ _ _ (by omega)]

theorem bump_natCast (i : Nat) (T : List jsmntok_t) : bump i T = addSize i 1 T := by
  rw [bump, if_neg (by omega), Int.toNat_natCast]

theorem bump_map {α : Type} (f : jsmntok_t → α) (hf : ∀ t n, f { t with size := n } = f t) (super : Int)
    (T : List jsmntok_t) : (bump super T).map f = T.map f := by
  unfold bump
  split
  · rfl
  · exact addSize_map f hf _ _ _

theorem bump_super_eq {super : Int} {T : List jsmntok_t} (h : Super super T) :
    bump_super super T = some (bump super T) := by
  unfold bump_super bump
  rcases h with rfl | ⟨h0, hlt⟩
  · rfl
  · rw [if_neg (by omega), if_neg (by omega), if_neg (by omega)]
    have hi : super.toNat < T.length := by omega
    rw [List.getElem?_eq_getElem hi, Option.map_some, addSize, List.modify_eq_take_cons_drop hi,
      List.set_eq_take_append_cons_drop, if_pos hi]

/-! ## Runs of the loop -/

/-- The state after reading up to `pos`, when `T` has been found so far. -/
abbrev st (pos : Nat) (T : List jsmntok_t) (super : Int) : ParseState :=
  ⟨⟨pos, T.length, super⟩, some T, T.length⟩

/-- With fuel for the text that is left, the loop gets from `s` to `s'` and has fuel for the text left there. -/
def Reaches (js : List Byte) (len n : Nat) (s s' : ParseState) : Prop :=
  ∀ fuel, (rest js len s.parser.pos).length + 1 < fuel →
    ∃ fuel', (rest js len s'.parser.pos).length + 1 < fuel' ∧
      parse_loop js len n fuel s = parse_loop js len n fuel' s'

variable {js : List Byte} {len n : Nat}

theorem Reaches.refl (s : ParseState) : Reaches js len n s s := fun fuel h => ⟨fuel, h, rfl⟩

theorem Reaches.trans {s₁ s₂ s₃ : ParseState} (h₁ : Reaches js len n s₁ s₂) (h₂ : Reaches js len n s₂ s₃) :
    Reaches js len n s₁ s₃ := by
  intro fuel hfuel
  obtain ⟨fuel₂, hfuel₂, heq₂⟩ := h₁ fuel hfuel
  obtain ⟨fuel₃, hfuel₃, heq₃⟩ := h₂ fuel₂ hfuel₂
  exact ⟨fuel₃, hfuel₃, heq₂.trans heq₃⟩

theorem reaches_switch (hmax : len < 2 ^ 31) {c : Byte} {r : List Byte} (s s' : ParseState)
    (hrest : rest js len s.parser.pos = c :: r) (hc : c ≠ 0) (hpos : s.parser.pos ≤ s'.parser.pos)
    (hle : s'.parser.pos < len)
    (hswitch : ∀ fuel, r.length + 1 < fuel → parse_switch fuel js len n c s = some (.next s')) :
    Reaches js len n s { s' with parser := { s'.parser with pos := s'.parser.pos + 1 } } := by
  -- one iteration that goes on. `pos` is where `parse_switch` leaves the parser, before the `pos++`
  intro fuel hfuel
  rw [hrest, List.length_cons] at hfuel
  obtain ⟨fuel, rfl⟩ : ∃ f, fuel = f + 1 := ⟨fuel - 1, by omega⟩
  refine ⟨fuel, ?_, ?_⟩
  · have hr := congrArg List.length (rest_succ hrest)
    simp only [rest, List.length_drop, List.length_take] at hr ⊢
    omega
  · have hlt := rest_lt hrest
    rw [parse_loop, if_neg (by omega), rest_rd hrest]
    simp only [Option.bind_some]
    rw [if_neg hc, hswitch fuel (by omega)]
    simp only [Option.bind_some]
    rw [u32_of_lt (by omega)]

end ToyTstat.Jsmn
