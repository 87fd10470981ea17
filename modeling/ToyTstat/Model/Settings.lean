import ToyTstat.Model.Flat

/-!
# Well-typed members

Each of them sets its field, so the last one wins.
-/

open CLib ToyTstat.Code ToyTstat.Jsmn

namespace ToyTstat.Model

/-- A decimal integer in the range of an `int`. -/
structure IntText where
  text : List Byte
  value : Int32
  numeral : Numeral text value.toInt

def IntText.ofInt32 (i : Int32) : IntText := ⟨decimalInt i.toInt, i, decimalInt_numeral i.toInt⟩

inductive Mode
  | off
  | cool
  | heat
deriving DecidableEq

def Mode.name : Mode → String
  | .off => "SYSTEM_MODE_OFF"
  | .cool => "SYSTEM_MODE_COOL"
  | .heat => "SYSTEM_MODE_HEAT"

def Mode.value : Mode → Int32
  | .off => SYSTEM_MODE_OFF
  | .cool => SYSTEM_MODE_COOL
  | .heat => SYSTEM_MODE_HEAT

/-- A member whose value suits its key. -/
inductive Setting
  | ambient (i : IntText)
  | cool_setpoint (i : IntText)
  | heat_setpoint (i : IntText)
  | relay_y (energized : Bool)
  | relay_w (energized : Bool)
  | system_mode (mode : Mode)

namespace Setting

def key : Setting → List Byte
  | ambient _ => ascii "ambient"
  | cool_setpoint _ => ascii "cool_setpoint"
  | heat_setpoint _ => ascii "heat_setpoint"
  | relay_y _ => ascii "relay_y"
  | relay_w _ => ascii "relay_w"
  | system_mode _ => ascii "system_mode"

def scalar : Setting → Scalar
  | ambient i | cool_setpoint i | heat_setpoint i => .prim i.text
  | relay_y b | relay_w b => .prim (ascii (if b then "true" else "false"))
  | system_mode mode => .str (ascii mode.name)

def apply (model : tstat_model_t) : Setting → tstat_model_t
  | ambient i => { model with ambient := i.value }
  | cool_setpoint i => { model with cool_setpoint := i.value }
  | heat_setpoint i => { model with heat_setpoint := i.value }
  | relay_y b => { model with relay_y := b }
  | relay_w b => { model with relay_w := b }
  | system_mode mode => { model with system_mode := mode.value }

/-! ## One setting -/

theorem key_ok (s : Setting) : StringBody s.key := by
  cases s <;> exact name_body (by simp [names])

theorem scalar_ok (s : Setting) : s.scalar.doc.Ok := by
  cases s with
  | ambient i => exact primitive_numeral i.numeral
  | cool_setpoint i => exact primitive_numeral i.numeral
  | heat_setpoint i => exact primitive_numeral i.numeral
  | relay_y b => exact primitive_bool b
  | relay_w b => exact primitive_bool b
  | system_mode mode => cases mode <;> exact name_body (by simp [Mode.name, names])

theorem intValue_eq (i : IntText) : intValue (.prim i.text) = some i.value := by
  rw [intValue, atoiText_numeral i.numeral i.value.le_toInt i.value.toInt_lt, Int32.ofInt_toInt]

theorem boolValue_eq (b : Bool) : boolValue (.prim (ascii (if b then "true" else "false"))) = some b := by
  cases b <;> simp [boolValue, names_apart, names]

theorem enumValue_eq (mode : Mode) : enumValue (.str (ascii mode.name)) = some mode.value := by
  cases mode <;> simp [enumValue, Scalar.body, Mode.name, Mode.value, names_apart, names]

theorem update_eq (s : Setting) (model : tstat_model_t) : update s.key s.scalar model = (true, s.apply model) := by
  cases s <;> simp [update, key, names_apart, names, scalar, intValue_eq, boolValue_eq, enumValue_eq, store, apply]

theorem updates_eq (settings : List Setting) (model : tstat_model_t) :
    updates (settings.map fun s => (s.key, s.scalar)) model = (true, settings.foldl apply model) := by
  induction settings generalizing model with
  | nil => rfl
  | cons s settings ih => rw [List.map_cons, updates, update_eq, if_pos rfl, ih, List.foldl_cons]

/-! ## The last one wins -/

def ambient? : Setting → Option Int32
  | ambient i => some i.value
  | _ => none

def cool_setpoint? : Setting → Option Int32
  | cool_setpoint i => some i.value
  | _ => none

def heat_setpoint? : Setting → Option Int32
  | heat_setpoint i => some i.value
  | _ => none

def relay_y? : Setting → Option Bool
  | relay_y b => some b
  | _ => none

def relay_w? : Setting → Option Bool
  | relay_w b => some b
  | _ => none

def system_mode? : Setting → Option Int32
  | system_mode mode => some mode.value
  | _ => none

end Setting

/-- The last value that the settings give to a field, or the old one. -/
def lastOr {α : Type} (field? : Setting → Option α) (settings : List Setting) (old : α) : α :=
  ((settings.filterMap field?).getLast?).getD old

theorem lastOr_snoc {α : Type} (field? : Setting → Option α) (settings : List Setting) (s : Setting) (old : α) :
    lastOr field? (settings ++ [s]) old = (field? s).getD (lastOr field? settings old) := by
  unfold lastOr
  cases h : field? s <;> simp [List.filterMap_append, h]

def lastWins (settings : List Setting) (model : tstat_model_t) : tstat_model_t where
  ambient := lastOr Setting.ambient? settings model.ambient
  cool_setpoint := lastOr Setting.cool_setpoint? settings model.cool_setpoint
  heat_setpoint := lastOr Setting.heat_setpoint? settings model.heat_setpoint
  relay_y := lastOr Setting.relay_y? settings model.relay_y
  relay_w := lastOr Setting.relay_w? settings model.relay_w
  system_mode := lastOr Setting.system_mode? settings model.system_mode

theorem foldl_apply (settings : List Setting) (model : tstat_model_t) :
    settings.foldl Setting.apply model = lastWins settings model := by
  induction settings using List.reverseRecOn with
  | nil => rfl
  | append_singleton settings s ih =>
    rw [List.foldl_append, ih, List.foldl_cons, List.foldl_nil]
    simp only [lastWins, lastOr_snoc]
    cases s <;> rfl

/-! ## Texts -/

structure White where
  bytes : List Byte
  spaces : Spaces bytes

structure Member where
  beforeKey : White
  setting : Setting
  afterKey : White
  beforeValue : White
  afterValue : White

def Member.flat (m : Member) : FlatMember :=
  (⟨m.beforeKey.bytes, m.setting.key, m.afterKey.bytes⟩, ⟨m.beforeValue.bytes, m.setting.scalar, m.afterValue.bytes⟩)

def objectText (before inside after : White) (members : List Member) : List Byte :=
  before.bytes ++ (Doc.obj inside.bytes (flatMembers (members.map Member.flat))).text ++ after.bytes

theorem members_ok (members : List Member) : membersOk (flatMembers (members.map Member.flat)) := by
  rw [flatMembers, List.map_map]
  exact membersOk_map (fun m => ⟨⟨m.beforeKey.spaces, m.setting.key_ok, m.afterKey.spaces⟩, m.beforeValue.spaces,
    m.setting.scalar_ok, m.afterValue.spaces⟩) members

theorem pairs_members (members : List Member) :
    pairs (members.map Member.flat) = (members.map Member.setting).map fun s => (s.key, s.scalar) := by
  rw [pairs, List.map_map, List.map_map]
  rfl

/-- A text of less than 2^31 bytes with up to six well-typed members sets each field to its last value. -/
theorem load_last_wins (before inside after : White) (members : List Member) (hsix : members.length ≤ 6)
    (hmax : (objectText before inside after members).length < 2 ^ 31) (junk : List Byte) (fuel : Nat)
    (hfuel : (objectText before inside after members).length + 1 < fuel) (model : tstat_model_t) :
    tstat_model_load_json fuel model (objectText before inside after members ++ 0 :: junk) =
      some (true, lastWins (members.map Member.setting) model) := by
  rw [objectText, load_flat before.bytes after.bytes before.spaces inside.spaces after.spaces (members_ok members)
      (by simpa using hsix) hmax junk fuel hfuel model, pairs_members, Setting.updates_eq, foldl_apply]

def White.none : White := ⟨[], spaces_nil⟩

theorem load_last_wins_ambient :
    tstat_model_load_json 100 ⟨1, 2, 3, false, false, SYSTEM_MODE_OFF⟩
        (ascii "\x7b\"ambient\":7,\"relay_y\":true,\"ambient\":-3\x7d" ++ [0]) =
      some (true, ⟨-3, 2, 3, true, false, SYSTEM_MODE_OFF⟩) := by
  have h := load_last_wins .none .none .none
    [⟨.none, .ambient (.ofInt32 7), .none, .none, .none⟩, ⟨.none, .relay_y true, .none, .none, .none⟩,
      ⟨.none, .ambient (.ofInt32 (-3)), .none, .none, .none⟩]
    (by decide) (by decide +kernel) [] 100 (by decide +kernel) ⟨1, 2, 3, false, false, SYSTEM_MODE_OFF⟩
  have htext : objectText .none .none .none
      [⟨.none, .ambient (.ofInt32 7), .none, .none, .none⟩, ⟨.none, .relay_y true, .none, .none, .none⟩,
        ⟨.none, .ambient (.ofInt32 (-3)), .none, .none, .none⟩] =
      ascii "\x7b\"ambient\":7,\"relay_y\":true,\"ambient\":-3\x7d" := by
    decide +kernel
  rw [htext] at h
  exact h

/-! ## Too long a text -/

/-- Before an object with 2^32 spaces in front of it, the loader does not return. -/
theorem load_not_returns :
    ¬ ∀ (before inside after : White) (members : List Member) (model : tstat_model_t), members.length ≤ 6 →
      ∃ fuel, tstat_model_load_json fuel model (objectText before inside after members ++ [0]) =
        some (true, lastWins (members.map Member.setting) model) := by
  intro h
  obtain ⟨n, hn⟩ : ∃ n, n = 2 ^ 32 := ⟨_, rfl⟩
  have hspaces : Spaces (List.replicate n (ch ' ')) := by
    intro c hc
    rw [List.eq_of_mem_replicate hc]
    decide
  obtain ⟨fuel, hload⟩ := h ⟨List.replicate n (ch ' '), hspaces⟩ .none .none [] ⟨0, 0, 0, false, false, 0⟩ (by decide)
  have hnul : 0 ∉ List.replicate n (ch ' ') ++ ascii "\x7b\x7d" := by
    rw [List.mem_append, not_or]
    exact ⟨spaces_ne_zero hspaces, by decide⟩
  have htext : objectText ⟨List.replicate n (ch ' '), hspaces⟩ .none .none [] =
      List.replicate n (ch ' ') ++ ascii "\x7b\x7d" := by
    rw [objectText, show (White.none).bytes = [] from rfl, List.append_nil]
    rfl
  rw [htext, tstat_model_load_json, strlen_append_zero _ _ hnul, Option.bind_some, jsmn_parse,
    parse_loop_spaces (by rw [List.length_append, List.length_replicate]; omega) _ _ _ (by decide)] at hload
  · cases hload
  · intro i hi
    rw [List.append_assoc, List.getElem?_append_left (by rw [List.length_replicate]; omega),
      List.getElem?_replicate, if_pos (by omega)]

end ToyTstat.Model
