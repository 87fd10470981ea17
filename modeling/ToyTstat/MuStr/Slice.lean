import ToyTstat.Code.MuStr
import ToyTstat.Lib.Occurs

/-!
# Strings and slices

A string has a text, wherever in an object it lies. Both ends of a slice are limited to the end of the
source, but not to its start.
-/

open CLib ToyTstat.Code

namespace ToyTstat.MuStr

/-! ## The text of a string -/

structure Text (str : mu_str_t) (s : List Byte) : Prop where
  len : str.len = s.length
  bytes : str.bytes.Holds s

theorem Text.reads {str : mu_str_t} {s : List Byte} (h : Text str s) (k : Nat) :
    Reads (fun i => (str.bytes.add k).read i) (s.drop k) := h.bytes.add k

theorem Text.reads_back {str : mu_str_t} {s : List Byte} (h : Text str s) :
    Reads (fun i => (str.bytes.add str.len).read (-1 - i)) s.reverse := by
  intro i hi
  rw [List.length_reverse] at hi
  have hindex : (str.len : Int) + (-1 - i) = (s.length - 1 - i : Nat) := by
    rw [h.len]
    omega
  dsimp only
  rw [Pointer.read_add, hindex, h.bytes _ (by omega), List.getElem_reverse]

theorem Text.unique {str : mu_str_t} {s t : List Byte} (hs : Text str s) (ht : Text str t) : s = t := by
  have hlen : s.length = t.length := hs.len.symm.trans ht.len
  refine List.ext_getElem hlen fun i hi hi' => ?_
  have := (hs.bytes i hi).symm.trans (ht.bytes i hi')
  exact Option.some.inj this

theorem text_alone (s : List Byte) : Text ⟨⟨s, 0⟩, s.length⟩ s := by
  have h := Pointer.holds_append [] s []
  rw [List.nil_append, List.append_nil] at h
  exact ⟨rfl, h⟩

/-! ## What a slice is -/

/-- A negative index counts from the end. -/
def fromEnd (n : Nat) (i : Int64) : Int := if i < 0 then n + i.toInt else i.toInt

def clamp (n : Nat) (i : Int64) : Nat := (max 0 (min (n : Int) (fromEnd n i))).toNat

/-- The bytes of `src` from `s` to `e`. -/
def subView (src : mu_str_t) (s e : Nat) : mu_str_t := ⟨src.bytes.add s, e - s⟩

theorem Text.subView {src : mu_str_t} {t : List Byte} (h : Text src t) {s e : Nat} (he : e ≤ t.length) :
    Text (subView src s e) ((t.take e).drop s) := by
  refine ⟨?_, (h.bytes.take e).add s⟩
  rw [List.length_drop, List.length_take, Nat.min_eq_left he]
  rfl

/-- The bytes between the two indexes, neither of them outside the source. -/
def sliceView (src : mu_str_t) (start stop : Int64) : mu_str_t :=
  let s := clamp src.len start
  subView src s (max (clamp src.len stop) s)

/-- `dst` lies in `src`. -/
structure Inside (dst src : mu_str_t) : Prop where
  object : dst.bytes.object = src.bytes.object
  start : src.bytes.index ≤ dst.bytes.index
  stop : dst.bytes.index + dst.len ≤ src.bytes.index + src.len

def SliceCorrect (src : mu_str_t) (start stop : Int64) : Prop :=
  ∃ dst, mu_str_slice src start stop = some dst ∧ dst = sliceView src start stop ∧ Inside dst src

/-! ## What the code computes -/

variable {src : mu_str_t} {start stop : Int64}

theorem fromEnd_of_neg {n : Nat} {i : Int64} (h : i < 0) : fromEnd n i = n + i.toInt := if_pos h

theorem fromEnd_of_nonneg {n : Nat} {i : Int64} (h : ¬ i < 0) : fromEnd n i = i.toInt := if_neg h

theorem toInt_neg_iff {i : Int64} : i < 0 ↔ i.toInt < 0 := by
  rw [Int64.lt_iff_toInt_lt]
  rfl

theorem ptrdiff_convert (x : Int) : ptrdiff_t.convert x = (x + 2 ^ 63) % 2 ^ 64 - 2 ^ 63 := rfl

theorem ptrdiff_usize {i : Int} (hlow : -2 ^ 63 ≤ i) (hhigh : i < 2 ^ 63) :
    ptrdiff_t.convert (usize i) = i := by
  unfold usize
  rw [ptrdiff_convert]
  omega

theorem limit_end {n : Nat} (hn : n < 2 ^ 63 - 1) (i : Int64) (far : Prop) [Decidable far]
    (hfar : i.toInt > n → far) (hnear : far → i.toInt ≥ n) :
    (if i < 0 then ptrdiff_t.convert (usize (n + i.toInt))
      else if far ∨ i = MU_STR_END then ptrdiff_t.convert n
      else i.toInt) = min (n : Int) (fromEnd n i) := by
  have hlow := i.le_toInt
  have hhigh := i.toInt_lt
  have hn' : ptrdiff_t.convert n = n := by
    rw [ptrdiff_convert]
    omega
  split
  case isTrue hneg =>
    rw [fromEnd_of_neg hneg, ptrdiff_usize (by omega) (by rw [toInt_neg_iff] at hneg; omega)]
    rw [toInt_neg_iff] at hneg
    omega
  case isFalse hneg =>
    rw [fromEnd_of_nonneg hneg]
    split
    case isTrue h =>
      rcases h with h | rfl
      · have := hnear h
        omega
      · have : MU_STR_END.toInt = 2 ^ 63 - 1 := rfl
        omega
    case isFalse h =>
      have := mt hfar (fun hf => h (Or.inl hf))
      omega

theorem mu_str_slice_eq (hlen : src.len < 2 ^ 63 - 1) :
    mu_str_slice src start stop =
      let s : Int := min src.len (fromEnd src.len start)
      let e : Int := min src.len (fromEnd src.len stop)
      (ptrdiff_t.arith (max e s - s)).map fun len => ⟨src.bytes.add s, usize len⟩ := by
  unfold mu_str_slice
  dsimp only
  rw [limit_end hlen start _ id (fun h => Int.le_of_lt h), limit_end hlen stop _ Int.le_of_lt id]
  have hmax (e s : Int) : (if e < s then s else e) = max e s := by omega
  rw [hmax]
  cases ptrdiff_t.arith _ <;> rfl

theorem ptrdiff_inRange {x : Int} : ptrdiff_t.promote.InRange x ↔ -2 ^ 63 ≤ x ∧ x < 2 ^ 63 := by
  have h : ptrdiff_t.promote.InRange x ↔ -2 ^ 63 ≤ x ∧ x ≤ 2 ^ 63 - 1 := Iff.rfl
  rw [h]
  omega

theorem slice_eq (hlen : src.len < 2 ^ 63 - 1) (hstart : -(src.len : Int) ≤ start.toInt) :
    mu_str_slice src start stop = some (sliceView src start stop) := by
  have hs : 0 ≤ fromEnd src.len start := by
    unfold fromEnd
    split
    case isTrue => omega
    case isFalse h =>
      rw [toInt_neg_iff] at h
      omega
  rw [mu_str_slice_eq hlen]
  dsimp only
  rw [IntType.arith_of_inRange (ptrdiff_inRange.mpr (by omega)), Option.map_some, sliceView, subView, clamp, clamp,
    usize]
  congr 2
  · congr 1
    omega
  · omega

theorem clamp_ofNat {n k : Nat} (hn : n < 2 ^ 63 - 1) (hk : k ≤ n) : clamp n (Int64.ofNat k) = k := by
  have hint : (Int64.ofNat k).toInt = k := Int64.toInt_ofNat_of_lt (by omega)
  rw [clamp, fromEnd_of_nonneg (by rw [toInt_neg_iff]; omega), hint]
  omega

theorem clamp_end {n : Nat} (hn : n < 2 ^ 63 - 1) : clamp n MU_STR_END = n := by
  have hint : MU_STR_END.toInt = 2 ^ 63 - 1 := rfl
  rw [clamp, fromEnd_of_nonneg (by decide), hint]
  omega

theorem slice_between (hlen : src.len < 2 ^ 63 - 1) {i j : Nat} (hij : i ≤ j) (hj : j ≤ src.len) :
    mu_str_slice src (Int64.ofNat i) (Int64.ofNat j) = some (subView src i j) := by
  have hint : (Int64.ofNat i).toInt = i := Int64.toInt_ofNat_of_lt (by omega)
  rw [slice_eq hlen (by omega), sliceView, clamp_ofNat hlen (by omega), clamp_ofNat hlen hj, Nat.max_eq_left hij]

theorem slice_to_end (hlen : src.len < 2 ^ 63 - 1) {i : Nat} (hi : i ≤ src.len) :
    mu_str_slice src (Int64.ofNat i) MU_STR_END = some (subView src i src.len) := by
  have hint : (Int64.ofNat i).toInt = i := Int64.toInt_ofNat_of_lt (by omega)
  rw [slice_eq hlen (by omega), sliceView, clamp_ofNat hlen hi, clamp_end hlen, Nat.max_eq_left hi]

theorem slice_inside : Inside (sliceView src start stop) src := by
  have hs : clamp src.len start ≤ src.len := by unfold clamp; omega
  have he : clamp src.len stop ≤ src.len := by unfold clamp; omega
  exact ⟨rfl, by simp only [sliceView, subView, Pointer.add]; omega,
    by simp only [sliceView, subView, Pointer.add]; omega⟩

theorem slice_before (hlen : src.len < 2 ^ 63 - 1) (hstart : start.toInt < -(src.len : Int)) {dst : mu_str_t}
    (h : mu_str_slice src start stop = some dst) : dst.bytes.index < src.bytes.index := by
  have hs : fromEnd src.len start < 0 := by
    rw [fromEnd_of_neg (toInt_neg_iff.mpr (by omega))]
    omega
  rw [mu_str_slice_eq hlen, Option.map_eq_some_iff] at h
  obtain ⟨len, -, rfl⟩ := h
  simp only [Pointer.add]
  omega

/-- A slice is a sub-view exactly when it does not start further below the end than the source is long. -/
theorem slice_correct_iff (src : mu_str_t) (start stop : Int64) (hlen : src.len < 2 ^ 63 - 1) :
    SliceCorrect src start stop ↔ -(src.len : Int) ≤ start.toInt := by
  constructor
  · rintro ⟨dst, hslice, -, hinside⟩
    by_contra hstart
    have hbefore := slice_before hlen (Int.not_le.mp hstart) hslice
    have := hinside.start
    omega
  · intro hstart
    exact ⟨_, slice_eq hlen hstart, rfl, slice_inside⟩

/-- The last nine of ten bytes, as in the tests. -/
theorem slice_correct_last_nine : SliceCorrect ⟨⟨ascii "ABCDEFGHIJ", 0⟩, 10⟩ (-9) MU_STR_END :=
  (slice_correct_iff ⟨⟨ascii "ABCDEFGHIJ", 0⟩, 10⟩ (-9) MU_STR_END (by decide)).mpr (by decide)

/-- `-20` on ten bytes yields a view that begins ten bytes before them. -/
theorem slice_not_clamped : ¬ SliceCorrect ⟨⟨ascii "ABCDEFGHIJ", 0⟩, 10⟩ (-20) MU_STR_END := by
  rintro ⟨dst, hslice, -, hinside⟩
  have hdst : mu_str_slice ⟨⟨ascii "ABCDEFGHIJ", 0⟩, 10⟩ (-20) MU_STR_END =
    some ⟨⟨ascii "ABCDEFGHIJ", -10⟩, 20⟩ := by decide
  rw [hdst, Option.some.injEq] at hslice
  exact absurd hinside.start (by rw [← hslice]; decide)

end ToyTstat.MuStr
