import Mathlib

/-!
# C integers and C strings

Sized integers are numbers with an explicit conversion. Memory is the list of the
bytes of one object, so a read outside the object has no value.
-/

namespace CLib

/-! ## Integers -/

def u16 (n : Nat) : Nat := n % 2 ^ 16

def u32 (n : Nat) : Nat := n % 2 ^ 32

/-- Conversion to `int`. -/
def i32 (n : Int) : Int := (n + 2 ^ 31) % 2 ^ 32 - 2 ^ 31

/-- Conversion to a 64-bit `size_t`. -/
def usize (n : Int) : Nat := (n % 2 ^ 64).toNat

theorem u32_of_lt {n : Nat} (h : n < 2 ^ 32) : u32 n = n := Nat.mod_eq_of_lt h

theorem u32_pred {n : Nat} (hpos : 0 < n) (h : n < 2 ^ 32) : u32 (n + (2 ^ 32 - 1)) = n - 1 := by
  unfold u32
  omega

theorem i32_of_lt {n : Nat} (h : n < 2 ^ 31) : i32 n = n := by
  unfold i32
  omega

theorem usize_of_lt {n : Nat} (h : n < 2 ^ 64) : usize n = n := by
  unfold usize
  omega

theorem usize_succ {n : Nat} (h : n + 1 < 2 ^ 64) : usize (n + 1) = n + 1 := by
  unfold usize
  omega

theorem usize_sub {n k : Nat} (hn : n < 2 ^ 64) (hk : k ≤ n) : usize (n - k) = n - k := by
  unfold usize
  omega

/-! ## Bytes -/

abbrev Byte := UInt8

/-- The byte of an ASCII character. -/
def ch (c : Char) : Byte := UInt8.ofNat c.toNat

def ascii (s : String) : List Byte := s.toList.map ch

/-- An ASCII text as a C literal, with its final NUL. -/
def literal (s : String) : List Byte := ascii s ++ [0]

/-! ## Memory -/

/-- `m[i]`, if it is inside the object. -/
def rd (m : List Byte) (i : Int) : Option Byte := if i < 0 then none else m[i.toNat]?

/-- `&m[i]`: what can be read from there on. -/
def ptr (m : List Byte) (i : Int) : Option (List Byte) :=
  if i < 0 ∨ m.length < i then none else some (m.drop i.toNat)

/-- A text that a C string can hold: no byte of it is NUL. -/
structure CString where
  bytes : List Byte
  noNul : 0 ∉ bytes

def CString.memory (s : CString) : List Byte := s.bytes ++ [0]

def strlen : List Byte → Option Nat
  | [] => none
  | b :: m => if b = 0 then some 0 else (strlen m).map (· + 1)

/-- `strncmp`: the difference at the first byte that differs, among the first `n` bytes and up to the NUL. -/
def strncmp : List Byte → List Byte → Nat → Option Int
  | _, _, 0 => some 0
  | a :: s, b :: t, n + 1 =>
    if a ≠ b then some (a.toNat - b.toNat) else if a = 0 then some 0 else strncmp s t n
  | _, _, _ + 1 => none

theorem rd_natCast (m : List Byte) (i : Nat) : rd m i = m[i]? := by
  simp [rd]

theorem ptr_natCast (m : List Byte) (i : Nat) (h : i ≤ m.length) : ptr m i = some (m.drop i) := by
  simp [ptr, h]

theorem ptr_drop {m s : List Byte} {i : Nat} (h : m.drop i = s) (hs : s ≠ []) : ptr m i = some s := by
  have hlt : i < m.length := List.length_lt_of_drop_ne_nil (h ▸ hs)
  rw [ptr_natCast _ _ (Nat.le_of_lt hlt), h]

theorem strlen_append_zero (s m : List Byte) (h : 0 ∉ s) : strlen (s ++ 0 :: m) = some s.length := by
  induction s with
  | nil => simp [strlen]
  | cons b s ih =>
    simp only [List.mem_cons, not_or] at h
    simp [strlen, Ne.symm h.1, ih h.2]

/-- Over the length of `s`, `strncmp` tells whether `s` is a prefix. -/
theorem strncmp_prefix (s r t : List Byte) (hs : 0 ∉ s) (ht : 0 ∉ t) :
    (strncmp (s ++ r) (t ++ [0]) s.length).map (fun r => decide (r = 0)) = some (s.isPrefixOf t) := by
  induction s generalizing t with
  | nil => simp [strncmp]
  | cons a s ih =>
    rw [List.mem_cons, not_or] at hs
    cases t with
    | nil =>
      have ha : a.toNat ≠ 0 := fun h => hs.1 (UInt8.toNat.inj h).symm
      simp [strncmp, Ne.symm hs.1, List.isPrefixOf, ha]
    | cons b t =>
      rw [List.mem_cons, not_or] at ht
      by_cases hab : a = b
      · subst hab
        simpa [strncmp, Ne.symm hs.1, List.isPrefixOf] using ih t hs.2 ht.2
      · have hne : (a.toNat : Int) - b.toNat ≠ 0 := by
          intro h
          exact hab (UInt8.toNat.inj (by omega))
        simp [strncmp, hab, List.isPrefixOf, hne]

theorem CString.strlen_memory (s : CString) : strlen s.memory = some s.bytes.length :=
  strlen_append_zero s.bytes [] s.noNul

theorem strncmp_some {s t : List Byte} (hs : 0 ∈ s) (ht : 0 ∈ t) (n : Nat) : ∃ r, strncmp s t n = some r := by
  induction n generalizing s t with
  | zero => exact ⟨0, by rw [strncmp]⟩
  | succ n ih =>
    obtain ⟨a, s, rfl⟩ := List.exists_cons_of_ne_nil (List.ne_nil_of_mem hs)
    obtain ⟨b, t, rfl⟩ := List.exists_cons_of_ne_nil (List.ne_nil_of_mem ht)
    rw [strncmp]
    split
    · exact ⟨_, rfl⟩
    split
    · exact ⟨_, rfl⟩
    · rename_i hab ha
      obtain rfl := not_not.mp hab
      exact ih (List.mem_of_ne_of_mem (Ne.symm ha) hs) (List.mem_of_ne_of_mem (Ne.symm ha) ht)

end CLib
