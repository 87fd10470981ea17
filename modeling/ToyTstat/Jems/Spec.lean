import ToyTstat.Code.Jems

/-!
# JSON values

Their compact text, and the calls of `jems.c` that write them.
-/

open CLib ToyTstat.Code

namespace ToyTstat.Jems

inductive Json
  | null
  | bool (b : Bool)
  | int (i : Int64)
  | str (s : CString)
  | arr (items : List Json)
  | obj (members : List (CString × Json))

/-! ## Text -/

/-- One byte of a string, between the quotes. -/
def escape (b : Byte) : List Byte :=
  if b = ch '"' ∨ b = ch '\\' then [ch '\\', b]
  else if 32 ≤ b.toNat ∧ b.toNat < 127 then [b]
  else ascii "\\u00" ++ [hexDigit (b.toNat / 16), hexDigit (b.toNat % 16)]

def escaped (s : CString) : List Byte := s.bytes.flatMap escape

def quoted (s : CString) : List Byte := ch '"' :: escaped s ++ [ch '"']

mutual
/-- No white space, a comma between two items and a colon between a key and its value. -/
def Json.render : Json → List Byte
  | .null => ascii "null"
  | .bool b => ascii (if b then "true" else "false")
  | .int i => decimalInt i.toInt
  | .str s => quoted s
  | .arr is => ch '[' :: [ch ','].intercalate (renderItems is) ++ [ch ']']
  | .obj ms => ch '{' :: [ch ','].intercalate (renderMembers ms) ++ [ch '}']
termination_by structural v => v
def renderItems : List Json → List (List Byte)
  | [] => []
  | v :: is => v.render :: renderItems is
termination_by structural is => is
def renderMembers : List (CString × Json) → List (List Byte)
  | [] => []
  | (k, v) :: ms => (quoted k ++ [ch ':'] ++ v.render) :: renderMembers ms
termination_by structural ms => ms
end

mutual
def Json.depth : Json → Nat
  | .arr is => 1 + itemsDepth is
  | .obj ms => 1 + membersDepth ms
  | _ => 0
termination_by structural v => v
def itemsDepth : List Json → Nat
  | [] => 0
  | v :: is => max v.depth (itemsDepth is)
termination_by structural is => is
def membersDepth : List (CString × Json) → Nat
  | [] => 0
  | (_, v) :: ms => max v.depth (membersDepth ms)
termination_by structural ms => ms
end

mutual
/-- No container has more than 2^64 items. A key is an item, and so is its value. -/
def Json.Countable : Json → Prop
  | .arr is => is.length ≤ 2 ^ 64 ∧ itemsCountable is
  | .obj ms => 2 * ms.length ≤ 2 ^ 64 ∧ membersCountable ms
  | _ => True
termination_by structural v => v
def itemsCountable : List Json → Prop
  | [] => True
  | v :: is => v.Countable ∧ itemsCountable is
termination_by structural is => is
def membersCountable : List (CString × Json) → Prop
  | [] => True
  | (_, v) :: ms => v.Countable ∧ membersCountable ms
termination_by structural ms => ms
end

/-! ## Calls -/

/-- A call of a public function of `jems.c` that changes the state. -/
inductive JemsCall
  | reset
  | object_open
  | object_close
  | array_open
  | array_close
  | number (value : Double)
  | integer (value : Int64)
  | string (string : CString)
  | bytes (bytes : List Byte) (length : Nat)
  | bool (boolean : Bool)
  | true
  | false
  | null
  | literal (literal : List Byte) (n_bytes : Nat)
  | key_object_open (key : CString)
  | key_array_open (key : CString)
  | key_number (key : CString) (value : Double)
  | key_integer (key : CString) (value : Int64)
  | key_string (key string : CString)
  | key_bytes (key : CString) (bytes : List Byte) (length : Nat)
  | key_bool (key : CString) (boolean : Bool)
  | key_true (key : CString)
  | key_false (key : CString)
  | key_null (key : CString)
  | key_literal (key : CString) (literal : List Byte) (n_bytes : Nat)

variable {σ : Type}

def runCall : JemsCall → jems_t σ → Option (jems_t σ)
  | .reset, jems => jems_reset jems
  | .object_open, jems => jems_object_open jems
  | .object_close, jems => jems_object_close jems
  | .array_open, jems => jems_array_open jems
  | .array_close, jems => jems_array_close jems
  | .number value, jems => jems_number jems value
  | .integer value, jems => jems_integer jems value
  | .string string, jems => jems_string jems string.memory
  | .bytes bytes length, jems => jems_bytes jems bytes length
  | .bool boolean, jems => jems_bool jems boolean
  | .true, jems => jems_true jems
  | .false, jems => jems_false jems
  | .null, jems => jems_null jems
  | .literal literal n_bytes, jems => jems_literal jems literal n_bytes
  | .key_object_open key, jems => jems_key_object_open jems key.memory
  | .key_array_open key, jems => jems_key_array_open jems key.memory
  | .key_number key value, jems => jems_key_number jems key.memory value
  | .key_integer key value, jems => jems_key_integer jems key.memory value
  | .key_string key string, jems => jems_key_string jems key.memory string.memory
  | .key_bytes key bytes length, jems => jems_key_bytes jems key.memory bytes length
  | .key_bool key boolean, jems => jems_key_bool jems key.memory boolean
  | .key_true key, jems => jems_key_true jems key.memory
  | .key_false key, jems => jems_key_false jems key.memory
  | .key_null key, jems => jems_key_null jems key.memory
  | .key_literal key literal n_bytes, jems => jems_key_literal jems key.memory literal n_bytes

def runCalls : List JemsCall → jems_t σ → Option (jems_t σ)
  | [], jems => some jems
  | call :: calls, jems => (runCall call jems).bind (runCalls calls)

mutual
def Json.calls : Json → List JemsCall
  | .null => [.null]
  | .bool b => [.bool b]
  | .int i => [.integer i]
  | .str s => [.string s]
  | .arr is => .array_open :: itemsCalls is ++ [.array_close]
  | .obj ms => .object_open :: membersCalls ms ++ [.object_close]
termination_by structural v => v
def itemsCalls : List Json → List JemsCall
  | [] => []
  | v :: is => v.calls ++ itemsCalls is
termination_by structural is => is
def membersCalls : List (CString × Json) → List JemsCall
  | [] => []
  | (k, v) :: ms => .string k :: v.calls ++ membersCalls ms
termination_by structural ms => ms
end

/-- A state of `jems` that no value has been written to: after `jems_init`, or after `jems_reset`
at whatever point. -/
inductive Fresh (max_level : Nat) : jems_t σ → Prop
  | init {levels : List jems_level_t} {writer : Byte → σ → Option σ} {arg : σ} {jems : jems_t σ} :
      max_level ≤ levels.length → jems_init levels max_level writer arg = some jems → Fresh max_level jems
  | reset {jems jems' jems'' : jems_t σ} {calls : List JemsCall} :
      Fresh max_level jems → runCalls calls jems = some jems' → jems_reset jems' = some jems'' →
      Fresh max_level jems''

def writeAll (writer : Byte → σ → Option σ) : List Byte → σ → Option σ
  | [], arg => some arg
  | b :: s, arg => (writer b arg).bind (writeAll writer s)

/-- A writer that keeps what it is given. -/
def record (b : Byte) (out : List Byte) : Option (List Byte) := some (out ++ [b])

theorem writeAll_record (s out : List Byte) : writeAll record s out = some (out ++ s) := by
  induction s generalizing out with
  | nil => simp [writeAll]
  | cons b s ih => simp [writeAll, record, ih]

end ToyTstat.Jems
