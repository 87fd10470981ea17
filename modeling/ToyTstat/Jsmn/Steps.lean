import ToyTstat.Code.Jsmn

/-!
# One iteration of `jsmn_parse`

What each loop does on the text that is left, for a text shorter than 2^31 bytes.
-/

open CLib ToyTstat.Code ToyTstat.Code.jsmntype_t

namespace ToyTstat.Jsmn

/-! ## The text that is left -/

/-- What the parser has not read yet at `pos`. -/
def rest (js : List Byte) (len pos : Nat) : List Byte := (js.take len).drop pos

theorem rest_length (js : List Byte) (len pos : Nat) (hlen : len ≤ js.length) :
    (rest js len pos).length = len - pos := by
  simp [rest, hlen]

theorem rest_add {js : List Byte} {len pos : Nat} {a r : List Byte} (h : rest js len pos = a ++ r) :
    rest js len (pos + a.length) = r := by
  have := congrArg (List.drop a.length) h
  simpa [rest, List.drop_drop] using this

theorem rest_succ {js : List Byte} {len pos : Nat} {c : Byte} {r : List Byte}
    (h : rest js len pos = c :: r) : rest js len (pos + 1) = r :=
  rest_add (a := [c]) h

theorem rest_lt {js : List Byte} {len pos : Nat} {c : Byte} {r : List Byte}
    (h : rest js len pos = c :: r) : pos < len := by
  have := congrArg List.length h
  simp only [rest, List.length_drop, List.length_take, List.length_cons] at this
  omega

theorem rest_rd {js : List Byte} {len pos : Nat} {c : Byte} {r : List Byte}
    (h : rest js len pos = c :: r) : rd js pos = some c := by
  have hlt := rest_lt h
  have := congrArg List.head? h
  rw [rest, List.head?_drop, List.getElem?_take_of_lt hlt] at this
  rw [rd_natCast, this]
  rfl

theorem rest_nil {js : List Byte} {len pos : Nat} (hlen : len ≤ js.length)
    (h : rest js len pos = []) : len ≤ pos := by
  have := congrArg List.length h
  rw [rest_length _ _ _ hlen] at this
  simp at this
  omega

/-! ## Primitives -/

def primChar (c : Byte) : Bool := 32 ≤ c.toNat ∧ c.toNat < 127 ∧ !endsPrimitive c

/-- A primitive ends here: at the end of the text, or at a character that ends primitives. -/
def Stops (r : List Byte) : Prop := ∀ c ∈ r.head?, endsPrimitive c

theorem primChar_ne_zero {c : Byte} (h : primChar c) : c ≠ 0 := by
  rintro rfl
  simp [primChar] at h

variable {js : List Byte} {len : Nat}

theorem primitive_loop_eq (hlen : len ≤ js.length) (hmax : len < 2 ^ 31) (a r : List Byte) (pos fuel : Nat)
    (hrest : rest js len pos = a ++ r) (ha : ∀ c ∈ a, primChar c) (hr : Stops r)
    (hfuel : a.length < fuel) :
    primitive_loop js len fuel pos = some (some (pos + a.length)) := by
  induction a generalizing pos fuel with
  | nil =>
    obtain ⟨fuel, rfl⟩ : ∃ f, fuel = f + 1 := ⟨fuel - 1, by omega⟩
    rw [primitive_loop]
    cases r with
    | nil => rw [if_pos (rest_nil hlen hrest)]; rfl
    | cons c r =>
      have hc : endsPrimitive c := hr c rfl
      have hlt := rest_lt hrest
      rw [if_neg (by omega), rest_rd hrest]
      simp [hc]
  | cons c a ih =>
    obtain ⟨fuel, rfl⟩ : ∃ f, fuel = f + 1 := ⟨fuel - 1, by simp at hfuel; omega⟩
    have hc : primChar c := ha c List.mem_cons_self
    have hlt := rest_lt hrest
    have hne := primChar_ne_zero hc
    simp only [primChar, decide_eq_true_eq] at hc
    obtain ⟨h32, h127, hends⟩ := hc
    rw [primitive_loop, if_neg (by omega), rest_rd hrest]
    simp only [Option.bind_some]
    rw [if_neg (by simp [hne] at hends ⊢; exact hends), if_neg (by omega), u32_of_lt (by omega)]
    rw [ih _ _ (rest_succ hrest) (fun x hx => ha x (List.mem_cons_of_mem _ hx)) (by simp at hfuel; omega)]
    rw [List.length_cons, Nat.add_assoc, Nat.add_comm 1]

/-! ## Strings -/

/-- What may stand between the quotes. -/
inductive StringBody : List Byte → Prop
  | nil : StringBody []
  | char {c : Byte} {s : List Byte} : c ≠ 0 → c ≠ ch '"' → c ≠ ch '\\' → StringBody s → StringBody (c :: s)
  | escape {e : Byte} {s : List Byte} : isEscape e → StringBody s → StringBody (ch '\\' :: e :: s)
  | unicode {h : List Byte} {s : List Byte} : h.length = 4 → (∀ c ∈ h, isHex c) → StringBody s →
      StringBody (ch '\\' :: ch 'u' :: h ++ s)

theorem hex_ne_zero {c : Byte} (h : isHex c) : c ≠ 0 := by
  rintro rfl
  simp [isHex] at h

theorem hex_loop_eq (hmax : len < 2 ^ 31) (h r : List Byte) (pos : Nat)
    (hrest : rest js len pos = h ++ r) (hhex : ∀ c ∈ h, isHex c) :
    hex_loop js len h.length pos = some (some (pos + h.length)) := by
  induction h generalizing pos with
  | nil => rfl
  | cons c h ih =>
    have hc : isHex c := hhex c List.mem_cons_self
    have hlt := rest_lt hrest
    rw [List.length_cons, hex_loop, if_neg (by omega), rest_rd hrest]
    simp only [Option.bind_some]
    rw [if_neg (hex_ne_zero hc), if_pos hc, u32_of_lt (by omega),
      ih _ (rest_succ hrest) (fun x hx => hhex x (List.mem_cons_of_mem _ hx))]
    rw [Nat.add_assoc, Nat.add_comm 1]

theorem string_loop_escape (hmax : len < 2 ^ 31) {e : Byte} {s : List Byte} {pos : Nat}
    (hrest : rest js len pos = ch '\\' :: e :: s) (he : isEscape e) (fuel : Nat) :
    string_loop js len (fuel + 1) pos = string_loop js len fuel (pos + 1 + 1) := by
  have hrest1 := rest_succ hrest
  have hlt1 := rest_lt hrest1
  rw [string_loop, if_neg (by omega), rest_rd hrest]
  simp only [Option.bind_some, if_neg (show ch '\\' ≠ 0 by decide), if_neg (show ch '\\' ≠ ch '"' by decide)]
  rw [u32_of_lt (by omega), if_pos ⟨trivial, hlt1⟩, rest_rd hrest1, Option.bind_some, if_pos he, u32_of_lt (by omega)]

theorem string_loop_unicode (hmax : len < 2 ^ 31) {h s : List Byte} {pos : Nat} (h4 : h.length = 4)
    (hhex : ∀ c ∈ h, isHex c) (hs : s ≠ []) (hrest : rest js len pos = ch '\\' :: ch 'u' :: (h ++ s)) (fuel : Nat) :
    string_loop js len (fuel + 1) pos = string_loop js len fuel (pos + 1 + 1 + 4) := by
  -- the position goes back to the last digit before the loop moves on
  have hrest1 := rest_succ hrest
  have hlt1 := rest_lt hrest1
  have hrest2 := rest_succ hrest1
  have hloop := hex_loop_eq hmax h _ _ hrest2 hhex
  have hrest6 := rest_add hrest2
  rw [h4] at hloop hrest6
  have hlt6 : pos + 1 + 1 + 4 < len := by
    obtain ⟨x, s, rfl⟩ := List.exists_cons_of_ne_nil hs
    exact rest_lt hrest6
  have hback : u32 (u32 (pos + 1 + 1 + 4 + (2 ^ 32 - 1)) + 1) = pos + 1 + 1 + 4 := by
    unfold u32
    omega
  rw [string_loop, if_neg (by omega), rest_rd hrest]
  simp only [Option.bind_some, if_neg (show ch '\\' ≠ 0 by decide), if_neg (show ch '\\' ≠ ch '"' by decide)]
  rw [u32_of_lt (by omega), if_pos ⟨trivial, hlt1⟩, rest_rd hrest1]
  simp only [Option.bind_some, if_neg (show ¬ isEscape (ch 'u') by decide), if_true]
  rw [u32_of_lt (by omega), hloop]
  simp only [Option.bind_some, hback]

theorem string_loop_eq (hmax : len < 2 ^ 31) {body : List Byte} (hbody : StringBody body) (r : List Byte)
    (pos fuel : Nat) (hrest : rest js len pos = body ++ ch '"' :: r) (hfuel : body.length < fuel) :
    string_loop js len fuel pos = some (.quote (pos + body.length)) := by
  induction hbody generalizing pos fuel with
  | nil =>
    obtain ⟨fuel, rfl⟩ : ∃ f, fuel = f + 1 := ⟨fuel - 1, by omega⟩
    have hlt := rest_lt hrest
    rw [string_loop, if_neg (by omega), rest_rd hrest]
    simp [show ch '"' ≠ 0 by decide]
  | @char c s h0 hq hb _ ih =>
    rw [List.length_cons] at hfuel
    obtain ⟨fuel, rfl⟩ : ∃ f, fuel = f + 1 := ⟨fuel - 1, by omega⟩
    have hlt := rest_lt hrest
    rw [string_loop, if_neg (by omega), rest_rd hrest]
    simp only [Option.bind_some, if_neg h0, if_neg hq, hb, false_and, if_false]
    rw [u32_of_lt (by omega), ih _ _ (rest_succ hrest) (by omega)]
    rw [List.length_cons, Nat.add_assoc, Nat.add_comm 1]
  | @escape e s he _ ih =>
    rw [List.length_cons, List.length_cons] at hfuel
    obtain ⟨fuel, rfl⟩ : ∃ f, fuel = f + 1 := ⟨fuel - 1, by omega⟩
    rw [string_loop_escape hmax hrest he, ih _ _ (rest_succ (rest_succ hrest)) (by omega)]
    simp only [List.length_cons, Option.some.injEq, StringEnd.quote.injEq]
    omega
  | @unicode h s h4 hhex _ ih =>
    simp only [List.cons_append, List.length_cons, List.length_append, h4] at hfuel
    obtain ⟨fuel, rfl⟩ : ∃ f, fuel = f + 1 := ⟨fuel - 1, by omega⟩
    have hrest' : rest js len pos = ch '\\' :: ch 'u' :: (h ++ (s ++ ch '"' :: r)) := by simpa using hrest
    have hrest6 := rest_add (rest_succ (rest_succ hrest'))
    rw [h4] at hrest6
    rw [string_loop_unicode hmax h4 hhex (by simp) hrest', ih _ _ hrest6 (by omega)]
    simp only [List.cons_append, List.length_cons, List.length_append, h4, Option.some.injEq, StringEnd.quote.injEq]
    omega

/-! ## Too long a text -/

theorem parse_loop_spaces {js : List Byte} {len n : Nat} (hlen : 2 ^ 32 ≤ len)
    (hspaces : ∀ i, i < 2 ^ 32 → js[i]? = some (ch ' ')) (fuel : Nat) (s : ParseState) (hpos : s.parser.pos < 2 ^ 32) :
    parse_loop js len n fuel s = none := by
  -- `pos` is 32 bits wide: the parser never leaves 2^32 spaces
  induction fuel generalizing s with
  | zero => rfl
  | succ fuel ih =>
    have hswitch : parse_switch fuel js len n (ch ' ') s = some (.next s) := rfl
    rw [parse_loop, if_neg (by omega), rd_natCast, hspaces _ hpos, Option.bind_some, if_neg (by decide), hswitch,
      Option.bind_some]
    exact ih _ (Nat.mod_lt _ (by decide))

end ToyTstat.Jsmn
