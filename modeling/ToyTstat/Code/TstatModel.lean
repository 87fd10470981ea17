import ToyTstat.Code.Jems
import ToyTstat.Code.Jsmn

/-!
# `tstat_model.c` and `tstat_logic.c`: the model, its JSON text and the control law

`json` is the memory from the start of the string on. `none` means that the code reads or writes
outside an object, or that the parser needs more than `fuel` iterations.
-/

open CLib ToyTstat.Code.jsmntype_t

namespace ToyTstat.Code

def SYSTEM_MODE_OFF : Int32 := 0
def SYSTEM_MODE_COOL : Int32 := 1
def SYSTEM_MODE_HEAT : Int32 := 2

structure tstat_model_t where
  ambient : Int32
  cool_setpoint : Int32
  heat_setpoint : Int32
  relay_y : Bool
  relay_w : Bool
  system_mode : Int32
deriving DecidableEq, Repr

def MAX_JEMS_LEVELS : Nat := 3

def MAX_JSMN_TOKENS : Nat := 13

/-! ## Accessors -/

def tstat_model_get_ambient (tstat_model : tstat_model_t) : Int32 := tstat_model.ambient

def tstat_model_get_cool_setpoint (tstat_model : tstat_model_t) : Int32 := tstat_model.cool_setpoint

def tstat_model_set_cool_setpoint (tstat_model : tstat_model_t) (cool_setpoint : Int32) : tstat_model_t :=
  { tstat_model with cool_setpoint := cool_setpoint }

def tstat_model_get_heat_setpoint (tstat_model : tstat_model_t) : Int32 := tstat_model.heat_setpoint

def tstat_model_set_heat_setpoint (tstat_model : tstat_model_t) (heat_setpoint : Int32) : tstat_model_t :=
  { tstat_model with heat_setpoint := heat_setpoint }

def tstat_model_get_relay_y (tstat_model : tstat_model_t) : Bool := tstat_model.relay_y

def tstat_model_set_relay_y (tstat_model : tstat_model_t) (energized : Bool) : tstat_model_t :=
  { tstat_model with relay_y := energized }

def tstat_model_get_relay_w (tstat_model : tstat_model_t) : Bool := tstat_model.relay_w

def tstat_model_set_relay_w (tstat_model : tstat_model_t) (energized : Bool) : tstat_model_t :=
  { tstat_model with relay_w := energized }

def tstat_model_get_system_mode (tstat_model : tstat_model_t) : Int32 := tstat_model.system_mode

/-! ## Loading -/

def is_odd (n : Int) : Bool := n % 2 = 1

/-- `token->end - token->start`, which must be an `int`, as a `size_t`. -/
def token_len (token : jsmntok_t) : Option Nat :=
  let len := token.end_ - token.start
  if -2 ^ 31 ≤ len ∧ len < 2 ^ 31 then some (usize len) else none

/-- `strncmp(&json[token->start], str, len) == 0`. -/
def token_compare (json : List Byte) (token : jsmntok_t) (str : String) (len : Nat) : Option Bool :=
  (ptr json token.start).bind fun p => (strncmp p (literal str) len).map fun r => decide (r = 0)

def token_streq (json : List Byte) (token : jsmntok_t) (str : String) : Option Bool :=
  if token.type ≠ JSMN_STRING then some false
  else (token_len token).bind fun len => token_compare json token str len

/-- The value for `*dst`, or `none` for `false`. -/
def update_int (json : List Byte) (token : jsmntok_t) : Option (Option Int32) :=
  if token.type ≠ JSMN_PRIMITIVE then some none
  else (ptr json token.start).bind fun p => (atoi p).map some

/-- The value for `*dst`, or `none` for `false`. -/
def update_bool (json : List Byte) (token : jsmntok_t) : Option (Option Bool) :=
  if token.type ≠ JSMN_PRIMITIVE then some none
  else (token_len token).bind fun len =>
    (token_compare json token "true" len).bind fun isTrue =>
      if isTrue then some (some true)
      else (token_compare json token "false" len).map fun isFalse => if isFalse then some false else none

/-- The loop of `update_enum`, over the names with their values. -/
def update_enum_loop (json : List Byte) (token : jsmntok_t) (len : Nat) : List (String × Int32) →
    Option (Option Int32)
  | [] => some none
  | (name, value) :: rest =>
    (token_compare json token name len).bind fun isName =>
      if isName then some (some value) else update_enum_loop json token len rest

/-- The value for `*dst`, or `none` for `false`. -/
def update_enum (json : List Byte) (token : jsmntok_t) (names : List String) (values : List Int32) :
    Option (Option Int32) :=
  (token_len token).bind fun len => update_enum_loop json token len (names.zip values)

def sys_names : List String := ["SYSTEM_MODE_OFF", "SYSTEM_MODE_COOL", "SYSTEM_MODE_HEAT"]

def sys_values : List Int32 := [SYSTEM_MODE_OFF, SYSTEM_MODE_COOL, SYSTEM_MODE_HEAT]

/-- `if (!update(...)) return NULL;`: whether the loop goes on, and the model. -/
def store {α : Type} (tstat_model : tstat_model_t) (set : α → tstat_model_t) : Option α → Bool × tstat_model_t
  | none => (false, tstat_model)
  | some value => (true, set value)

/-- One iteration of the loop over the members: whether it goes on, and the model. -/
def load_member (json : List Byte) (key value : jsmntok_t) (tstat_model : tstat_model_t) :
    Option (Bool × tstat_model_t) :=
  if key.type ≠ JSMN_STRING then some (false, tstat_model)
  else (token_streq json key "ambient").bind fun b =>
    if b then (update_int json value).map (store tstat_model fun i => { tstat_model with ambient := i })
  else (token_streq json key "cool_setpoint").bind fun b =>
    if b then (update_int json value).map (store tstat_model fun i => { tstat_model with cool_setpoint := i })
  else (token_streq json key "heat_setpoint").bind fun b =>
    if b then (update_int json value).map (store tstat_model fun i => { tstat_model with heat_setpoint := i })
  else (token_streq json key "relay_y").bind fun b =>
    if b then (update_bool json value).map (store tstat_model fun r => { tstat_model with relay_y := r })
  else (token_streq json key "relay_w").bind fun b =>
    if b then (update_bool json value).map (store tstat_model fun r => { tstat_model with relay_w := r })
  else (token_streq json key "system_mode").bind fun b =>
    if b then (update_enum json value sys_names sys_values).map
      (store tstat_model fun i => { tstat_model with system_mode := i })
  -- other members are ignored
  else some (true, tstat_model)

/-- The loop over the members, for `i = 1, 3, ..`, when `left` iterations are left. -/
def load_loop (json : List Byte) (tokens : List jsmntok_t) : Nat → Nat → tstat_model_t → Option (Bool × tstat_model_t)
  | 0, _, tstat_model => some (true, tstat_model)
  | left + 1, i, tstat_model =>
    (tokens[i]?).bind fun key => (tokens[i + 1]?).bind fun value =>
      (load_member json key value tstat_model).bind fun (goesOn, tstat_model) =>
        if goesOn then load_loop json tokens left (i + 2) tstat_model else some (false, tstat_model)

/-- Whether the model is returned, and not `NULL`, and the model as it is left. -/
def tstat_model_load_json (fuel : Nat) (tstat_model : tstat_model_t) (json : List Byte) :
    Option (Bool × tstat_model_t) :=
  (strlen json).bind fun len =>
    (jsmn_parse fuel jsmn_init json len (some []) MAX_JSMN_TOKENS).bind fun (result, _, tokens) =>
      if result < 1 then some (false, tstat_model)
      else tokens.bind fun tokens => (tokens[0]?).bind fun token =>
        if token.type ≠ JSMN_OBJECT then some (false, tstat_model)
        else if ¬ is_odd result then some (false, tstat_model)
        else load_loop json tokens (result.toNat / 2) 1 tstat_model

/-! ## Dumping -/

structure writer_state_t where
  buf : List Byte
  buflen : Nat
  written : Nat
deriving DecidableEq, Repr

def jems_writer (ch : Byte) (writer_state : writer_state_t) : Option writer_state_t :=
  if writer_state.written < writer_state.buflen then
    if writer_state.written < writer_state.buf.length then
      some { writer_state with
        buf := writer_state.buf.set writer_state.written ch, written := writer_state.written + 1 }
    else none
  else some writer_state

def system_mode_to_string (system_mode : Int32) : String :=
  if system_mode = SYSTEM_MODE_OFF then "SYSTEM_MODE_OFF"
  else if system_mode = SYSTEM_MODE_COOL then "SYSTEM_MODE_COOL"
  else if system_mode = SYSTEM_MODE_HEAT then "SYSTEM_MDOE_HEAT"
  else "UNKNOWN"

/-- What is left in `buf`. The levels hold whatever was on the stack. -/
def tstat_model_dump_json (tstat_model : tstat_model_t) (buf : List Byte) (buflen : Nat)
    (jems_levels : List jems_level_t) : Option (List Byte) :=
  let writer_state : writer_state_t := ⟨buf, usize (buflen - 1), 0⟩
  (jems_init jems_levels MAX_JEMS_LEVELS jems_writer writer_state).bind fun jems =>
  (jems_object_open jems).bind fun jems =>
  (jems_key_number jems (literal "ambient") (Double.ofInt32 (tstat_model_get_ambient tstat_model))).bind fun jems =>
  (jems_key_number jems (literal "cool_setpoint")
    (Double.ofInt32 (tstat_model_get_cool_setpoint tstat_model))).bind fun jems =>
  (jems_key_number jems (literal "heat_setpoint")
    (Double.ofInt32 (tstat_model_get_heat_setpoint tstat_model))).bind fun jems =>
  (jems_key_bool jems (literal "relay_y") (tstat_model_get_relay_y tstat_model)).bind fun jems =>
  (jems_key_bool jems (literal "relay_w") (tstat_model_get_relay_w tstat_model)).bind fun jems =>
  (jems_key_string jems (literal "system_mode")
    (literal (system_mode_to_string (tstat_model_get_system_mode tstat_model)))).bind fun jems =>
  (jems_object_close jems).bind fun jems =>
    let writer_state := jems.arg
    if writer_state.written < writer_state.buf.length then some (writer_state.buf.set writer_state.written 0)
    else none

/-! ## The control law -/

/-- The `model_` functions are the `tstat_model_` ones. -/
def tstat_logic_update_model (model : tstat_model_t) : tstat_model_t :=
  if tstat_model_get_system_mode model = SYSTEM_MODE_OFF then
    let model := tstat_model_set_relay_y model false
    tstat_model_set_relay_w model false
  else if tstat_model_get_system_mode model = SYSTEM_MODE_COOL then
    let model := tstat_model_set_relay_y model
      (tstat_model_get_cool_setpoint model < tstat_model_get_ambient model)
    tstat_model_set_relay_w model false
  else if tstat_model_get_system_mode model = SYSTEM_MODE_HEAT then
    let model := tstat_model_set_relay_y model false
    tstat_model_set_relay_w model (tstat_model_get_heat_setpoint model > tstat_model_get_ambient model)
  else model

end ToyTstat.Code
