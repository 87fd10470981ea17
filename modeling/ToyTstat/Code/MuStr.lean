import ToyTstat.Lib.Decimal
import ToyTstat.Lib.Integer
import ToyTstat.Lib.Pointer

/-!
# `mu_str.c`: strings as views of bytes

The bytes of a string are read-only, so a pointer carries the object it points into. `none` is a read
outside the object or an overflow. A function that writes to `dst` or `str` yields what it writes.
-/

open CLib

namespace ToyTstat.Code

def MU_STR_END : Int64 := Int64.maxValue

def MU_STR_NOT_FOUND : Nat := PTRDIFF_MAX

structure mu_str_t where
  bytes : Pointer
  len : Nat
deriving DecidableEq, Repr

def mu_str_init (bytes : Pointer) (len : Nat) : mu_str_t := ⟨bytes, len⟩

def mu_str_bytes (str : mu_str_t) : Pointer := str.bytes

def mu_str_length (str : mu_str_t) : Nat := str.len

/-- `cstr` is what can be read from the pointer on. -/
def mu_str_init_cstr (cstr : List Byte) : Option mu_str_t := do
  return mu_str_init ⟨cstr, 0⟩ (← strlen cstr)

/-! ## Comparing -/

/-- The loop of `str_compare_aux`: the first difference, or 0. -/
def compare_loop (b1 b2 : Pointer) : Nat → Nat → Option Int
  | 0, _ => some 0
  | left + 1, i => do
    let d : Int := (← b1.read i).toNat - (← b2.read i).toNat
    if d ≠ 0 then return d
    compare_loop b1 b2 left (← int_inc i)

def str_compare_aux (b1 : Pointer) (len1 : Nat) (b2 : Pointer) (len2 : Nat) : Option Int := do
  let len := if len1 < len2 then len1 else len2
  let d ← compare_loop b1 b2 len 0
  return if d ≠ 0 then d else i32 (usize (len1 - len2))

def mu_str_compare (s1 s2 : mu_str_t) : Option Int :=
  str_compare_aux (mu_str_bytes s1) (mu_str_length s1) (mu_str_bytes s2) (mu_str_length s2)

def mu_str_compare_cstr (s1 : mu_str_t) (cstr : List Byte) : Option Int := do
  str_compare_aux (mu_str_bytes s1) (mu_str_length s1) ⟨cstr, 0⟩ (← strlen cstr)

/-! ## Slicing -/

/-- Both ends are 64 bits wide. The difference of two ends may overflow. -/
def mu_str_slice (src : mu_str_t) (start stop : Int64) : Option mu_str_t := do
  let start : Int :=
    if start < 0 then ptrdiff_t.convert (usize (src.len + start.toInt))
    else if start.toInt > src.len ∨ start = MU_STR_END then ptrdiff_t.convert src.len
    else start.toInt
  let stop : Int :=
    if stop < 0 then ptrdiff_t.convert (usize (src.len + stop.toInt))
    else if stop.toInt ≥ src.len ∨ stop = MU_STR_END then ptrdiff_t.convert src.len
    else stop.toInt
  let stop := if stop < start then start else stop
  let len ← ptrdiff_t.arith (stop - start)
  return mu_str_init (src.bytes.add start) (usize len)

/-! ## Prefix and suffix -/

/-- How many bytes are equal, with `s1` and `s2` moving on together. -/
def prefix_loop (s1 s2 : Pointer) : Nat → Nat → Option Nat
  | 0, idx => some idx
  | left + 1, idx => do
    if (← s1.read idx) ≠ (← s2.read idx) then return idx
    prefix_loop s1 s2 left (idx + 1)

def has_prefix (s1 : Pointer) (s1_len : Nat) (s2 : Pointer) (s2_len : Nat) : Option Bool :=
  if s2_len = 0 then some true
  else if s2_len > s1_len then some false
  else (prefix_loop s1 s2 (min s1_len s2_len) 0).map fun idx => idx = s2_len

/-- How many bytes are equal, with `s1` and `s2` moving back together. -/
def suffix_loop (s1 s2 : Pointer) : Nat → Nat → Option Nat
  | 0, idx => some idx
  | left + 1, idx => do
    if (← s1.read (-1 - idx)) ≠ (← s2.read (-1 - idx)) then return idx
    suffix_loop s1 s2 left (idx + 1)

def has_suffix (s1 : Pointer) (s1_len : Nat) (s2 : Pointer) (s2_len : Nat) : Option Bool :=
  if s2_len = 0 then some true
  else if s2_len > s1_len then some false
  else (suffix_loop (s1.add s1_len) (s2.add s2_len) (min s1_len s2_len) 0).map fun idx => idx = s2_len

def mu_str_has_prefix (s1 s2 : mu_str_t) : Option Bool :=
  has_prefix (mu_str_bytes s1) (mu_str_length s1) (mu_str_bytes s2) (mu_str_length s2)

def mu_str_has_suffix (s1 s2 : mu_str_t) : Option Bool :=
  has_suffix (mu_str_bytes s1) (mu_str_length s1) (mu_str_bytes s2) (mu_str_length s2)

def mu_str_has_prefix_cstr (s1 : mu_str_t) (cstr : List Byte) : Option Bool := do
  has_prefix (mu_str_bytes s1) (mu_str_length s1) ⟨cstr, 0⟩ (← strlen cstr)

def mu_str_has_suffix_cstr (s1 : mu_str_t) (cstr : List Byte) : Option Bool := do
  has_suffix (mu_str_bytes s1) (mu_str_length s1) ⟨cstr, 0⟩ (← strlen cstr)

/-! ## Searching -/

/-- `for (j = 1; j < needle_len; j++)`: where it stops. -/
def rest_loop (h2 needle : Pointer) : Nat → Nat → Option Nat
  | 0, j => some j
  | left + 1, j => do
    if (← h2.read j) ≠ (← needle.read j) then return j
    rest_loop h2 needle left (← int_inc j)

/-- The body of both search loops: all of the needle is at `h2`. -/
def matches_at (h2 needle : Pointer) (needle_len : Nat) : Option Bool := do
  if (← h2.read 0) = (← needle.read 0) then
    return (← rest_loop h2 needle (needle_len - 1) 1) = needle_len
  else return false

def find_loop (haystack needle : Pointer) (needle_len : Nat) (skip_substr : Bool) : Nat → Nat → Option Nat
  | 0, _ => some MU_STR_NOT_FOUND
  | left + 1, i => do
    if ← matches_at (haystack.add i) needle needle_len then
      return if skip_substr then usize (i + needle_len) else i
    find_loop haystack needle needle_len skip_substr left (← int_inc i)

def mu_str_find_aux (haystack : Pointer) (haystack_len : Nat) (needle : Pointer) (needle_len : Nat)
    (skip_substr : Bool) : Option Nat :=
  if needle_len = 0 then some 0
  else find_loop haystack needle needle_len skip_substr (usize (haystack_len - needle_len) + 1) 0

/-- The iterations from `i - 1` down to 0. -/
def rfind_loop (haystack needle : Pointer) (needle_len : Nat) (skip_substr : Bool) : Nat → Option Nat
  | 0 => some MU_STR_NOT_FOUND
  | i + 1 => do
    if ← matches_at (haystack.add i) needle needle_len then
      return if skip_substr then usize (i + needle_len) else i
    rfind_loop haystack needle needle_len skip_substr i

def mu_str_rfind_aux (haystack : Pointer) (haystack_len : Nat) (needle : Pointer) (needle_len : Nat)
    (skip_substr : Bool) : Option Nat :=
  if needle_len = 0 then some haystack_len
  else
    let i := i32 (usize (haystack_len - needle_len))
    rfind_loop haystack needle needle_len skip_substr (i + 1).toNat

def mu_str_find (haystack needle : mu_str_t) (skip_substr : Bool) : Option Nat :=
  mu_str_find_aux (mu_str_bytes haystack) (mu_str_length haystack) (mu_str_bytes needle) (mu_str_length needle)
    skip_substr

/-- `needle` is what can be read from the pointer on. -/
def mu_str_find_cstr (haystack : mu_str_t) (needle : List Byte) (skip_substr : Bool) : Option Nat := do
  mu_str_find_aux (mu_str_bytes haystack) (mu_str_length haystack) ⟨needle, 0⟩ (← strlen needle) skip_substr

def mu_str_rfind (haystack needle : mu_str_t) (skip_substr : Bool) : Option Nat :=
  mu_str_rfind_aux (mu_str_bytes haystack) (mu_str_length haystack) (mu_str_bytes needle) (mu_str_length needle)
    skip_substr

def mu_str_rfind_cstr (haystack : mu_str_t) (needle : List Byte) (skip_substr : Bool) : Option Nat := do
  mu_str_rfind_aux (mu_str_bytes haystack) (mu_str_length haystack) ⟨needle, 0⟩ (← strlen needle) skip_substr

/-! ## Matching and trimming -/

section

variable {α : Type} (predicate : Byte → α → Bool) (arg : α)

def match_loop (bytes : Pointer) (break_if : Bool) : Nat → Nat → Option Nat
  | 0, _ => some MU_STR_NOT_FOUND
  | left + 1, idx => do
    if predicate (← bytes.read idx) arg = break_if then return idx
    match_loop bytes break_if left (idx + 1)

def mu_str_match (str : mu_str_t) (break_if : Bool) : Option Nat :=
  match_loop predicate arg (mu_str_bytes str) break_if (mu_str_length str) 0

/-- The iterations from `idx` down to 1. -/
def rmatch_loop (bytes : Pointer) (break_if : Bool) : Nat → Option Nat
  | 0 => some MU_STR_NOT_FOUND
  | idx + 1 => do
    if predicate (← bytes.read idx) arg = break_if then return idx
    rmatch_loop bytes break_if idx

def mu_str_rmatch (str : mu_str_t) (break_if : Bool) : Option Nat :=
  rmatch_loop predicate arg (mu_str_bytes str) break_if (mu_str_length str)

def mu_str_ltrim (str : mu_str_t) : Option mu_str_t := do
  let idx ← mu_str_match predicate arg str false
  if idx = MU_STR_NOT_FOUND then return str
  mu_str_slice str (Int64.ofNat idx) MU_STR_END

def mu_str_rtrim (str : mu_str_t) : Option mu_str_t := do
  let idx ← mu_str_rmatch predicate arg str false
  if idx = MU_STR_NOT_FOUND then return str
  mu_str_slice str 0 (Int64.ofNat idx)

def mu_str_trim (str : mu_str_t) : Option mu_str_t := do
  mu_str_rtrim predicate arg (← mu_str_ltrim predicate arg str)

end

/-! ## C strings -/

/-- `for (int i = 0; i < str_length; i++) buf[i] = (char)bytes[i];` -/
def to_cstr_loop (bytes : Pointer) : Nat → Nat → List Byte → Option (List Byte)
  | 0, _, buf => some buf
  | left + 1, i, buf => do
    let byte ← bytes.read i
    if i < buf.length then to_cstr_loop bytes left (← int_inc i) (buf.set i byte)
    else none

/-- What is returned, and what is left in `buf`. -/
def mu_str_to_cstr (str : mu_str_t) (buf : List Byte) (capacity : Nat) : Option (Bool × List Byte) := do
  let str_length := mu_str_length str
  if str_length ≥ capacity then return (false, buf)
  let buf ← to_cstr_loop (mu_str_bytes str) str_length 0 buf
  if str_length < buf.length then return (true, buf.set str_length 0)
  else none

/-! ## Parsing -/

def is_decimal (byte : Byte) : Bool := byte ≥ ch '0' ∧ byte ≤ ch '9'

/-- `while ((len-- > 0) && is_decimal(*buf)) v = (v * 10) + (*buf++ - '0');` -/
def decimal_loop (type : IntType) : Pointer → Nat → Int → Option Int
  | _, 0, v => some v
  | buf, len + 1, v => do
    let byte ← buf.read 0
    if is_decimal byte then
      let v10 ← type.arith (v * 10)
      let v' ← type.arith (v10 + (byte.toNat - (ch '0').toNat))
      decimal_loop type (buf.add 1) len (type.convert v')
    else return v

def DEFINE_INT_PARSER (type : IntType) (str : mu_str_t) : Option Int := do
  let buf := mu_str_bytes str
  let len := mu_str_length str
  let is_negative ← if len ≥ 1 then (buf.read 0).map (· == ch '-') else some false
  if is_negative then
    let v ← decimal_loop type (buf.add 1) (len - 1) 0
    return type.convert (← type.arith (-v))
  else decimal_loop type buf len 0

def DEFINE_UINT_PARSER (type : IntType) (str : mu_str_t) : Option Int :=
  decimal_loop type (mu_str_bytes str) (mu_str_length str) 0

def mu_str_parse_int8 : mu_str_t → Option Int := DEFINE_INT_PARSER ⟨8, true⟩

def mu_str_parse_uint8 : mu_str_t → Option Int := DEFINE_UINT_PARSER ⟨8, false⟩

def mu_str_parse_int16 : mu_str_t → Option Int := DEFINE_INT_PARSER ⟨16, true⟩

def mu_str_parse_uint16 : mu_str_t → Option Int := DEFINE_UINT_PARSER ⟨16, false⟩

def mu_str_parse_int32 : mu_str_t → Option Int := DEFINE_INT_PARSER ⟨32, true⟩

def mu_str_parse_uint32 : mu_str_t → Option Int := DEFINE_UINT_PARSER ⟨32, false⟩

def mu_str_parse_int64 : mu_str_t → Option Int := DEFINE_INT_PARSER ⟨64, true⟩

def mu_str_parse_uint64 : mu_str_t → Option Int := DEFINE_UINT_PARSER ⟨64, false⟩

end ToyTstat.Code
