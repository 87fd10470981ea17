import ToyTstat.Lib.CString

/-!
# Decimal numbers in C: `%d` and `atoi`

`atoi` is `strtol` in base 10, cut to an `int`, with a 64-bit `long`.
-/

namespace CLib

/-! ## Writing -/

def decimal (n : Nat) : List Byte := (Nat.toDigits 10 n).map ch

/-- What `%d` and its wider forms print. -/
def decimalInt (i : Int) : List Byte := if i < 0 then ch '-' :: decimal i.natAbs else decimal i.natAbs

def isDigit (c : Byte) : Bool := 48 ≤ c.toNat ∧ c.toNat ≤ 57

theorem ch_digitChar : ∀ d, d < 10 → (ch (Nat.digitChar d)).toNat = 48 + d := by decide

theorem decimal_eq (n : Nat) :
    decimal n = if n < 10 then [ch (Nat.digitChar n)] else decimal (n / 10) ++ [ch (Nat.digitChar (n % 10))] := by
  unfold decimal
  rw [Nat.toDigits_eq_if (by omega)]
  split <;> simp

theorem decimal_isDigit (n : Nat) : ∀ c ∈ decimal n, isDigit c := by
  induction n using Nat.strong_induction_on with
  | _ n ih =>
    intro c hc
    rw [decimal_eq] at hc
    split at hc
    · rename_i hn
      rw [List.mem_singleton.mp hc]
      have := ch_digitChar n hn
      simp [isDigit]
      omega
    · rcases List.mem_append.mp hc with hc | hc
      · exact ih (n / 10) (by omega) c hc
      · rw [List.mem_singleton.mp hc]
        have := ch_digitChar (n % 10) (Nat.mod_lt _ (by omega))
        simp [isDigit]
        omega

theorem decimal_ne_nil (n : Nat) : decimal n ≠ [] := by
  rw [decimal_eq]
  split <;> simp

theorem decimal_length (k n : Nat) (hk : 0 < k) (hn : n < 10 ^ k) : (decimal n).length ≤ k := by
  induction k generalizing n with
  | zero => omega
  | succ k ih =>
    rw [decimal_eq]
    split
    · simp
    · have hk : 0 < k := by
        rcases Nat.eq_zero_or_pos k with rfl | hk
        · omega
        · exact hk
      have := ih (n / 10) hk (by rw [Nat.pow_succ] at hn; omega)
      simp
      omega

theorem decimalInt_ne_zero (i : Int) : 0 ∉ decimalInt i := by
  have h : 0 ∉ decimal i.natAbs := fun h => absurd (decimal_isDigit i.natAbs 0 h) (by decide)
  unfold decimalInt
  split
  · rw [List.mem_cons, not_or]
    exact ⟨by decide, h⟩
  · exact h

theorem decimalInt_length (i : Int64) : (decimalInt i.toInt).length ≤ 21 := by
  have h1 := i.le_toInt
  have h2 := i.toInt_lt
  have := decimal_length 19 i.toInt.natAbs (by omega) (by omega)
  unfold decimalInt
  split
  · rw [List.length_cons]
    omega
  · omega

/-! ## Reading -/

def digitsValue (s : List Byte) : Nat := s.foldl (fun v c => 10 * v + (c.toNat - 48)) 0

theorem digitsValue_append (s : List Byte) (c : Byte) :
    digitsValue (s ++ [c]) = 10 * digitsValue s + (c.toNat - 48) := by
  simp [digitsValue]

theorem digitsValue_decimal (n : Nat) : digitsValue (decimal n) = n := by
  induction n using Nat.strong_induction_on with
  | _ n ih =>
    rw [decimal_eq]
    split
    · rename_i hn
      simp [digitsValue, ch_digitChar n hn]
    · rw [digitsValue_append, ih (n / 10) (by omega), ch_digitChar _ (Nat.mod_lt _ (by omega))]
      omega

/-- The blanks that `strtol` skips. -/
def isBlank (c : Byte) : Bool := c = ch ' ' ∨ (9 ≤ c.toNat ∧ c.toNat ≤ 13)

def skipBlanks : List Byte → Option (List Byte)
  | [] => none
  | c :: s => if isBlank c then skipBlanks s else some (c :: s)

def readDigits : List Byte → Nat → Option Nat
  | [], _ => none
  | c :: s, v => if isDigit c then readDigits s (10 * v + (c.toNat - 48)) else some v

/-- A number that does not fit gives the nearest one that does. -/
def saturate (i : Int) : Int := max (-2 ^ 63) (min i (2 ^ 63 - 1))

def strtol (s : List Byte) : Option Int :=
  (skipBlanks s).bind fun s =>
    match s with
    | [] => none
    | c :: s =>
      if c = ch '-' then (readDigits s 0).map fun v => saturate (-v)
      else if c = ch '+' then (readDigits s 0).map fun v => saturate v
      else (readDigits (c :: s) 0).map fun v => saturate v

def atoi (s : List Byte) : Option Int32 := (strtol s).map Int32.ofInt

theorem readDigits_append (s r : List Byte) (hs : ∀ c ∈ s, isDigit c) {x : Byte} (hx : ¬ isDigit x) (v : Nat) :
    readDigits (s ++ x :: r) v = some (s.foldl (fun v c => 10 * v + (c.toNat - 48)) v) := by
  induction s generalizing v with
  | nil => simp [readDigits, hx]
  | cons c s ih =>
    rw [List.cons_append, readDigits, if_pos (hs c List.mem_cons_self),
      ih (fun y hy => hs y (List.mem_cons_of_mem _ hy)), List.foldl_cons]

theorem readDigits_stop (s : List Byte) {x y : Byte} (hx : ¬ isDigit x) (hy : ¬ isDigit y) (r r' : List Byte)
    (v : Nat) : ∃ v', readDigits (s ++ x :: r) v = some v' ∧ readDigits (s ++ y :: r') v = some v' := by
  induction s generalizing v with
  | nil => exact ⟨v, by simp [readDigits, hx], by simp [readDigits, hy]⟩
  | cons c s ih =>
    simp only [List.cons_append, readDigits]
    split
    · exact ih _
    · exact ⟨v, rfl, rfl⟩

theorem readDigits_some {s : List Byte} (hs : 0 ∈ s) (v : Nat) : ∃ v', readDigits s v = some v' := by
  induction s generalizing v with
  | nil => cases hs
  | cons c s ih =>
    rw [readDigits]
    split
    · rename_i hc
      refine ih (List.mem_of_ne_of_mem ?_ hs) _
      rintro rfl
      exact absurd hc (by decide)
    · exact ⟨v, rfl⟩

theorem skipBlanks_some {s : List Byte} (hs : 0 ∈ s) : ∃ c r, skipBlanks s = some (c :: r) ∧ 0 ∈ c :: r := by
  induction s with
  | nil => cases hs
  | cons c s ih =>
    rw [skipBlanks]
    split
    · rename_i hc
      refine ih (List.mem_of_ne_of_mem ?_ hs)
      rintro rfl
      exact absurd hc (by decide)
    · exact ⟨c, s, rfl, hs⟩

theorem atoi_some {s : List Byte} (hs : 0 ∈ s) : ∃ i, atoi s = some i := by
  obtain ⟨c, r, hskip, hr⟩ := skipBlanks_some hs
  have htail (hc : c ≠ 0) : 0 ∈ r := List.mem_of_ne_of_mem (Ne.symm hc) hr
  rw [atoi, strtol, hskip, Option.bind_some]
  dsimp only
  split
  · rename_i hc
    obtain ⟨v, hv⟩ := readDigits_some (htail (hc ▸ by decide)) 0
    exact ⟨_, by rw [hv]; rfl⟩
  split
  · rename_i hc
    obtain ⟨v, hv⟩ := readDigits_some (htail (hc ▸ by decide)) 0
    exact ⟨_, by rw [hv]; rfl⟩
  · obtain ⟨v, hv⟩ := readDigits_some hr 0
    exact ⟨_, by rw [hv]; rfl⟩

/-- What `atoi` makes of a text, when a byte that is not a digit follows. -/
def atoiText (a : List Byte) : Int32 := (atoi (a ++ [0])).getD 0

theorem atoi_append {a : List Byte} (hne : a ≠ []) (hblank : ∀ c ∈ a, ¬ isBlank c) {x : Byte} (hx : ¬ isDigit x)
    (r : List Byte) : atoi (a ++ x :: r) = some (atoiText a) := by
  obtain ⟨c, s, rfl⟩ := List.exists_cons_of_ne_nil hne
  have hc := hblank c List.mem_cons_self
  obtain ⟨v, h1, h2⟩ := readDigits_stop s hx (y := 0) (by decide) r [] 0
  obtain ⟨v', h3, h4⟩ := readDigits_stop (c :: s) hx (y := 0) (by decide) r [] 0
  rw [List.cons_append] at h3 h4
  simp only [atoiText, atoi, strtol, List.cons_append, skipBlanks, if_neg hc, Option.bind_some]
  split
  · simp [h1, h2]
  · split
    · simp [h1, h2]
    · simp [h3, h4]

/-- A number with an optional minus sign: what `atoi` reads up to a byte that is not a digit. -/
inductive Numeral : List Byte → Int → Prop
  | pos {s : List Byte} : s ≠ [] → (∀ c ∈ s, isDigit c) → Numeral s (digitsValue s)
  | neg {s : List Byte} : s ≠ [] → (∀ c ∈ s, isDigit c) → Numeral (ch '-' :: s) (-digitsValue s)

theorem atoiText_numeral {s : List Byte} {i : Int} (h : Numeral s i) (hlow : -2 ^ 31 ≤ i) (hhigh : i < 2 ^ 31) :
    atoiText s = Int32.ofInt i := by
  have hsat : saturate i = i := by
    unfold saturate
    omega
  have hnul : ¬ isDigit 0 := by decide
  suffices h : atoi (s ++ [0]) = some (Int32.ofInt i) by rw [atoiText, h, Option.getD_some]
  cases h with
  | @pos s hne hs =>
    obtain ⟨c, s, rfl⟩ := List.exists_cons_of_ne_nil hne
    have hfacts : ∀ c : Byte, isDigit c → ¬ isBlank c ∧ c ≠ ch '-' ∧ c ≠ ch '+' := by decide +kernel
    obtain ⟨h1, h2, h3⟩ := hfacts c (hs c List.mem_cons_self)
    have hread := readDigits_append (c :: s) [] hs hnul 0
    rw [atoi, strtol, List.cons_append, skipBlanks, if_neg h1]
    simp only [Option.bind_some]
    rw [if_neg h2, if_neg h3, ← List.cons_append, hread]
    exact congrArg (fun i => some (Int32.ofInt i)) hsat
  | @neg s hne hs =>
    have hread := readDigits_append s [] hs hnul 0
    rw [atoi, strtol, List.cons_append, skipBlanks, if_neg (by decide)]
    simp only [Option.bind_some, if_true]
    rw [hread]
    exact congrArg (fun i => some (Int32.ofInt i)) hsat

theorem decimalInt_numeral (i : Int) : Numeral (decimalInt i) i := by
  unfold decimalInt
  have h := digitsValue_decimal i.natAbs
  split
  · have hn := Numeral.neg (decimal_ne_nil i.natAbs) (decimal_isDigit i.natAbs)
    rw [h] at hn
    rwa [show (-(i.natAbs : Int)) = i by omega] at hn
  · have hn := Numeral.pos (decimal_ne_nil i.natAbs) (decimal_isDigit i.natAbs)
    rw [h] at hn
    rwa [show ((i.natAbs : Int)) = i by omega] at hn

end CLib
