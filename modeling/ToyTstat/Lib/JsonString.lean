import Mathlib.Data.List.Basic

/-!
# JSON strings

The characters that stand between the quotes of a JSON string, and the text that they denote. At the
end, the texts that have as many bytes as characters.
-/

namespace JsonString

def hexVal (c : Char) : Option Nat :=
  if '0' ≤ c ∧ c ≤ '9' then some (c.toNat - '0'.toNat)
  else if 'a' ≤ c ∧ c ≤ 'f' then some (c.toNat - 'a'.toNat + 10)
  else if 'A' ≤ c ∧ c ≤ 'F' then some (c.toNat - 'A'.toNat + 10)
  else none

/-- The number that four hexadecimal digits stand for. -/
def hex4 (a b c d : Char) : Option Nat :=
  (hexVal a).bind fun a => (hexVal b).bind fun b => (hexVal c).bind fun c =>
    (hexVal d).map fun d => ((a * 16 + b) * 16 + c) * 16 + d

/-- The escapes of two characters: what may follow the backslash, and what it stands for. -/
def simpleEscapes : List (Char × Char) :=
  [('"', '"'), ('\\', '\\'), ('/', '/'), ('b', '\x08'), ('f', '\x0c'), ('n', '\n'), ('r', '\r'), ('t', '\t')]

def IsHigh (n : Nat) : Prop := 0xd800 ≤ n ∧ n < 0xdc00

def IsLow (n : Nat) : Prop := 0xdc00 ≤ n ∧ n < 0xe000

/-- What the characters between the quotes denote. A `\u` escape stands for a code point, and two of them for one
that has more than 16 bits. -/
inductive Denotes : List Char → List Char → Prop
  | nil : Denotes [] []
  | plain {c : Char} {text s : List Char} : c ≠ '"' → c ≠ '\\' → 0x20 ≤ c.toNat → Denotes text s →
      Denotes (c :: text) (c :: s)
  | simple {e c : Char} {text s : List Char} : (e, c) ∈ simpleEscapes → Denotes text s →
      Denotes ('\\' :: e :: text) (c :: s)
  | unicode {a b c d : Char} {n : Nat} {text s : List Char} : hex4 a b c d = some n → ¬ IsHigh n → ¬ IsLow n →
      Denotes text s → Denotes ('\\' :: 'u' :: a :: b :: c :: d :: text) (Char.ofNat n :: s)
  | pair {a b c d a' b' c' d' : Char} {high low : Nat} {text s : List Char} : hex4 a b c d = some high →
      IsHigh high → hex4 a' b' c' d' = some low → IsLow low → Denotes text s →
      Denotes ('\\' :: 'u' :: a :: b :: c :: d :: '\\' :: 'u' :: a' :: b' :: c' :: d' :: text)
        (Char.ofNat (0x10000 + (high - 0xd800) * 0x400 + (low - 0xdc00)) :: s)

/-- A JSON string, with its quotes. -/
def Literal (text s : List Char) : Prop := ∃ inner, text = '"' :: inner ++ ['"'] ∧ Denotes inner s

variable {c e : Char} {text s t : List Char}

theorem denotes_nil : Denotes [] s ↔ s = [] := by
  constructor
  · intro h
    cases h
    rfl
  · rintro rfl
    exact .nil

theorem denotes_plain (hquote : c ≠ '"') (hbackslash : c ≠ '\\') (hcontrol : 0x20 ≤ c.toNat) :
    Denotes (c :: text) s ↔ ∃ t, s = c :: t ∧ Denotes text t := by
  constructor
  · intro h
    cases h with
    | plain _ _ _ h => exact ⟨_, rfl, h⟩
    | simple => exact absurd rfl hbackslash
    | unicode => exact absurd rfl hbackslash
    | pair => exact absurd rfl hbackslash
  · rintro ⟨t, rfl, h⟩
    exact .plain hquote hbackslash hcontrol h

theorem simpleEscapes_unique {c' : Char} (h : (e, c) ∈ simpleEscapes) (h' : (e, c') ∈ simpleEscapes) : c' = c := by
  have hall : ∀ p ∈ simpleEscapes, ∀ q ∈ simpleEscapes, p.1 = q.1 → q.2 = p.2 := by decide
  exact hall _ h _ h' rfl

theorem denotes_simple (he : (e, c) ∈ simpleEscapes) :
    Denotes ('\\' :: e :: text) s ↔ ∃ t, s = c :: t ∧ Denotes text t := by
  constructor
  · intro h
    cases h with
    | plain _ hbackslash => exact absurd rfl hbackslash
    | simple he' h =>
      obtain rfl := simpleEscapes_unique he he'
      exact ⟨_, rfl, h⟩
    | unicode => exact absurd he (by simp [simpleEscapes])
    | pair => exact absurd he (by simp [simpleEscapes])
  · rintro ⟨t, rfl, h⟩
    exact .simple he h

theorem denotes_unicode {a b c d : Char} {n : Nat} (hn : hex4 a b c d = some n) (hhigh : ¬ IsHigh n)
    (hlow : ¬ IsLow n) :
    Denotes ('\\' :: 'u' :: a :: b :: c :: d :: text) s ↔ ∃ t, s = Char.ofNat n :: t ∧ Denotes text t := by
  constructor
  · intro h
    cases h with
    | plain _ hbackslash => exact absurd rfl hbackslash
    | simple hu => exact absurd hu (by simp [simpleEscapes])
    | unicode hn' _ _ h =>
      obtain rfl := Option.some.inj (hn.symm.trans hn')
      exact ⟨_, rfl, h⟩
    | pair hn' hhigh' =>
      obtain rfl := Option.some.inj (hn.symm.trans hn')
      exact absurd hhigh' hhigh
  · rintro ⟨t, rfl, h⟩
    exact .unicode hn hhigh hlow h

theorem literal_iff {inner : List Char} : Literal ('"' :: inner ++ ['"']) s ↔ Denotes inner s := by
  constructor
  · rintro ⟨inner', htext, h⟩
    obtain rfl : inner = inner' := List.append_cancel_right (List.cons.inj htext).2
    exact h
  · intro h
    exact ⟨inner, rfl, h⟩

/-! ## UTF-8 -/

theorem utf8_ascii {c : Char} (hc : c.toNat < 128) : (String.utf8EncodeChar c).map Char.ofUInt8 = [c] := by
  have hsize : c.utf8Size = 1 := by
    rw [Char.utf8Size_eq_one_iff, UInt32.le_iff_toNat_le]
    exact Nat.le_of_lt_succ hc
  rw [String.utf8EncodeChar_eq_singleton hsize, List.map_singleton, List.singleton_inj]
  apply Char.ext
  apply UInt32.toNat.inj
  have hval : c.val.toUInt8.toNat = c.toNat := by
    rw [UInt32.toNat_toUInt8]
    exact Nat.mod_eq_of_lt (show c.toNat < 2 ^ 8 by omega)
  exact hval

theorem utf8_length_le (s : List Char) : s.length ≤ (s.flatMap String.utf8EncodeChar).length := by
  induction s with
  | nil => exact Nat.le_refl 0
  | cons c s ih =>
    have := c.utf8Size_pos
    rw [List.flatMap_cons, List.length_append, String.length_utf8EncodeChar, List.length_cons]
    omega

theorem utf8_length_eq {s : List Char} (h : (s.flatMap String.utf8EncodeChar).length = s.length) :
    ∀ c ∈ s, c.toNat < 128 := by
  induction s with
  | nil => nofun
  | cons c s ih =>
    have hle := utf8_length_le s
    have hpos := c.utf8Size_pos
    rw [List.flatMap_cons, List.length_append, String.length_utf8EncodeChar, List.length_cons] at h
    have hsize : c.utf8Size = 1 := by omega
    rw [Char.utf8Size_eq_one_iff, UInt32.le_iff_toNat_le] at hsize
    rintro x (_ | ⟨_, hx⟩)
    · exact Nat.lt_succ_of_le hsize
    · exact ih (by omega) x hx

theorem utf8_bytes_iff (s : List Char) :
    s = (s.flatMap String.utf8EncodeChar).map Char.ofUInt8 ↔ ∀ c ∈ s, c.toNat < 128 := by
  constructor
  · intro h
    have hlength := congrArg List.length h
    rw [List.length_map] at hlength
    exact utf8_length_eq hlength.symm
  · intro h
    induction s with
    | nil => rfl
    | cons c s ih =>
      rw [List.forall_mem_cons] at h
      rw [List.flatMap_cons, List.map_append, utf8_ascii h.1, ← ih h.2, List.singleton_append]

end JsonString
