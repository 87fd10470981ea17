import ToyTstat.Lib.Double

/-!
# `jems.c`: the JSON serializer

The writer is a function on the state that its argument points to. `none` means that the
code reads or writes outside an object.
-/

open CLib

namespace ToyTstat.Code

structure jems_level_t where
  item_count : Nat
  is_object : Bool
deriving DecidableEq, Repr

structure jems_t (σ : Type) where
  levels : List jems_level_t
  max_level : Nat
  curr_level : Nat
  writer : Byte → σ → Option σ
  arg : σ

variable {σ : Type}

/-! ## Private code -/

def level_ref (jems : jems_t σ) : Option jems_level_t := jems.levels[jems.curr_level]?

def set_level (jems : jems_t σ) (level : jems_level_t) : jems_t σ :=
  { jems with levels := jems.levels.set jems.curr_level level }

def push_level (jems : jems_t σ) (is_object : Bool) : Option (jems_t σ) :=
  if jems.curr_level < usize (jems.max_level - 1) then
    let jems := { jems with curr_level := jems.curr_level + 1 }
    (level_ref jems).map fun _ => set_level jems ⟨0, is_object⟩
  else some jems

def pop_level (jems : jems_t σ) : jems_t σ :=
  if 0 < jems.curr_level then { jems with curr_level := jems.curr_level - 1 } else jems

def emit_char (jems : jems_t σ) (c : Byte) : Option (jems_t σ) :=
  (jems.writer c jems.arg).map fun arg => { jems with arg := arg }

/-- Up to the NUL, which must be there. -/
def emit_string (jems : jems_t σ) : List Byte → Option (jems_t σ)
  | [] => none
  | b :: s => if b = 0 then some jems else (emit_char jems b).bind fun jems => emit_string jems s

def hexDigit (d : Nat) : Byte := ch (Nat.digitChar d)

/-- What `sprintf(buf, "\\u%04x", byte)` leaves in `buf`. -/
def sprintf_u04x (byte : Byte) : List Byte :=
  [ch '\\', ch 'u', ch '0', ch '0', hexDigit (byte.toNat / 16), hexDigit (byte.toNat % 16), 0]

def emit_quoted_byte (jems : jems_t σ) (byte : Byte) : Option (jems_t σ) :=
  if byte.toNat < 0x20 ∨ 127 ≤ byte.toNat then emit_string jems (sprintf_u04x byte)
  else if byte = ch '\\' ∨ byte = ch '"' then
    (emit_char jems (ch '\\')).bind fun jems => emit_char jems byte
  else emit_char jems byte

def emit_quoted_string (jems : jems_t σ) : List Byte → Option (jems_t σ)
  | [] => none
  | b :: s => if b = 0 then some jems else (emit_quoted_byte jems b).bind fun jems => emit_quoted_string jems s

/-- `i` is an `int`. -/
def emit_quoted_bytes_loop (bytes : List Byte) : Nat → Nat → jems_t σ → Option (jems_t σ)
  | 0, _, jems => some jems
  | left + 1, i, jems =>
    (rd bytes (i32 i)).bind fun b =>
      (emit_quoted_byte jems b).bind (emit_quoted_bytes_loop bytes left (i + 1))

def emit_quoted_bytes (jems : jems_t σ) (bytes : List Byte) (len : Nat) : Option (jems_t σ) :=
  emit_quoted_bytes_loop bytes len 0 jems

/-- What `commify` writes: in an object the odd items are the values. -/
def separator (level : jems_level_t) : List Byte :=
  if level.item_count = 0 then []
  else if level.is_object ∧ level.item_count % 2 = 1 then [ch ':'] else [ch ',']

def commify (jems : jems_t σ) : Option (jems_t σ) :=
  (level_ref jems).bind fun level =>
    (emit_string jems (separator level ++ [0])).map fun jems =>
      set_level jems { level with item_count := usize (level.item_count + 1) }

/-! ## Public code -/

def jems_reset (jems : jems_t σ) : Option (jems_t σ) :=
  let jems := { jems with curr_level := 0 }
  (level_ref jems).map fun _ => set_level jems ⟨0, false⟩

def jems_init (levels : List jems_level_t) (max_level : Nat) (writer : Byte → σ → Option σ) (arg : σ) :
    Option (jems_t σ) :=
  jems_reset ⟨levels, max_level, 0, writer, arg⟩

def jems_object_open (jems : jems_t σ) : Option (jems_t σ) :=
  (commify jems).bind fun jems => (emit_char jems (ch '{')).bind fun jems => push_level jems true

def jems_object_close (jems : jems_t σ) : Option (jems_t σ) := (emit_char jems (ch '}')).map pop_level

def jems_array_open (jems : jems_t σ) : Option (jems_t σ) :=
  (commify jems).bind fun jems => (emit_char jems (ch '[')).bind fun jems => push_level jems false

def jems_array_close (jems : jems_t σ) : Option (jems_t σ) := (emit_char jems (ch ']')).map pop_level

/-- `snprintf` cuts the text to the 22 bytes of `buf`. -/
def jems_number (jems : jems_t σ) (value : Double) : Option (jems_t σ) :=
  let i := Int64.ofInt (truncate value.val)
  let text := if (i.toInt : ℚ) = value.val then decimalInt i.toInt else fixedPoint value.val
  (commify jems).bind fun jems => emit_string jems (text.take 21 ++ [0])

def jems_integer (jems : jems_t σ) (value : Int64) : Option (jems_t σ) :=
  (commify jems).bind fun jems => emit_string jems ((decimalInt value.toInt).take 21 ++ [0])

def jems_string (jems : jems_t σ) (string : List Byte) : Option (jems_t σ) :=
  (commify jems).bind fun jems => (emit_char jems (ch '"')).bind fun jems =>
    (emit_quoted_string jems string).bind fun jems => emit_char jems (ch '"')

def jems_bytes (jems : jems_t σ) (bytes : List Byte) (length : Nat) : Option (jems_t σ) :=
  (commify jems).bind fun jems => (emit_char jems (ch '"')).bind fun jems =>
    (emit_quoted_bytes jems bytes length).bind fun jems => emit_char jems (ch '"')

def jems_bool (jems : jems_t σ) (boolean : Bool) : Option (jems_t σ) :=
  (commify jems).bind fun jems => emit_string jems (literal (if boolean then "true" else "false"))

def jems_true (jems : jems_t σ) : Option (jems_t σ) :=
  (commify jems).bind fun jems => emit_string jems (literal "true")

def jems_false (jems : jems_t σ) : Option (jems_t σ) :=
  (commify jems).bind fun jems => emit_string jems (literal "false")

def jems_null (jems : jems_t σ) : Option (jems_t σ) :=
  (commify jems).bind fun jems => emit_string jems (literal "null")

/-- `i` is an `int`. -/
def jems_literal_loop (literal : List Byte) : Nat → Nat → jems_t σ → Option (jems_t σ)
  | 0, _, jems => some jems
  | left + 1, i, jems =>
    (rd literal (i32 i)).bind fun b => (emit_char jems b).bind (jems_literal_loop literal left (i + 1))

def jems_literal (jems : jems_t σ) (literal : List Byte) (n_bytes : Nat) : Option (jems_t σ) :=
  (commify jems).bind (jems_literal_loop literal n_bytes 0)

/-! ## Key and value -/

def jems_key_object_open (jems : jems_t σ) (key : List Byte) : Option (jems_t σ) :=
  (jems_string jems key).bind jems_object_open

def jems_key_array_open (jems : jems_t σ) (key : List Byte) : Option (jems_t σ) :=
  (jems_string jems key).bind jems_array_open

def jems_key_number (jems : jems_t σ) (key : List Byte) (value : Double) : Option (jems_t σ) :=
  (jems_string jems key).bind fun jems => jems_number jems value

def jems_key_integer (jems : jems_t σ) (key : List Byte) (value : Int64) : Option (jems_t σ) :=
  (jems_string jems key).bind fun jems => jems_integer jems value

def jems_key_string (jems : jems_t σ) (key string : List Byte) : Option (jems_t σ) :=
  (jems_string jems key).bind fun jems => jems_string jems string

def jems_key_bytes (jems : jems_t σ) (key bytes : List Byte) (length : Nat) : Option (jems_t σ) :=
  (jems_string jems key).bind fun jems => jems_bytes jems bytes length

def jems_key_bool (jems : jems_t σ) (key : List Byte) (boolean : Bool) : Option (jems_t σ) :=
  (jems_string jems key).bind fun jems => jems_bool jems boolean

def jems_key_true (jems : jems_t σ) (key : List Byte) : Option (jems_t σ) :=
  (jems_string jems key).bind jems_true

def jems_key_false (jems : jems_t σ) (key : List Byte) : Option (jems_t σ) :=
  (jems_string jems key).bind jems_false

def jems_key_null (jems : jems_t σ) (key : List Byte) : Option (jems_t σ) :=
  (jems_string jems key).bind jems_null

def jems_key_literal (jems : jems_t σ) (key literal : List Byte) (n_bytes : Nat) : Option (jems_t σ) :=
  (jems_string jems key).bind fun jems => jems_literal jems literal n_bytes

def jems_curr_level (jems : jems_t σ) : Nat := jems.curr_level

def jems_item_count (jems : jems_t σ) : Option Nat := (level_ref jems).map (·.item_count)

end ToyTstat.Code
