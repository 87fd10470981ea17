import ToyTstat.Model.Failure

/-!
# The relays are never both on

The control law does nothing for an unknown mode, so it needs a mode that every load keeps, failed
ones included.
-/

open CLib ToyTstat.Code

namespace ToyTstat.Model

def ModeOk (model : tstat_model_t) : Prop := model.system_mode ∈ sys_values

theorem written_mode {model model' : tstat_model_t} (hmode : ModeOk model) (h : Written model model') :
    ModeOk model' := by
  cases h with
  | system_mode i hi => exact hi
  | ambient i => exact hmode
  | cool_setpoint i => exact hmode
  | heat_setpoint i => exact hmode
  | relay_y b => exact hmode
  | relay_w b => exact hmode

theorem load_member_mode {json : List Byte} {key value : jsmntok_t} {model : tstat_model_t} {r : Bool × tstat_model_t}
    (hmode : ModeOk model) (h : load_member json key value model = some r) : ModeOk r.2 := by
  rcases load_member_cases h with rfl | rfl | ⟨model', rfl, hwritten⟩
  · exact hmode
  · exact hmode
  · exact written_mode hmode hwritten

theorem load_loop_mode {json : List Byte} {tokens : List jsmntok_t} {left i : Nat} {model : tstat_model_t}
    {r : Bool × tstat_model_t} (hmode : ModeOk model) (h : load_loop json tokens left i model = some r) :
    ModeOk r.2 := by
  induction left generalizing i model with
  | zero =>
    cases h
    exact hmode
  | succ left ih =>
    obtain ⟨key, -, h⟩ := Option.bind_eq_some_iff.mp h
    obtain ⟨value, -, h⟩ := Option.bind_eq_some_iff.mp h
    obtain ⟨⟨goesOn, model₁⟩, hmember, h⟩ := Option.bind_eq_some_iff.mp h
    have hmode₁ := load_member_mode hmode hmember
    cases goesOn with
    | true => exact ih hmode₁ h
    | false =>
      cases h
      exact hmode₁

theorem load_mode {fuel : Nat} {model : tstat_model_t} {json : List Byte} {r : Bool × tstat_model_t}
    (hmode : ModeOk model) (h : tstat_model_load_json fuel model json = some r) : ModeOk r.2 := by
  obtain ⟨len, -, h⟩ := Option.bind_eq_some_iff.mp h
  obtain ⟨⟨result, parser, tokens⟩, -, h⟩ := Option.bind_eq_some_iff.mp h
  dsimp only at h
  split at h
  · cases h
    exact hmode
  obtain ⟨ts, -, h⟩ := Option.bind_eq_some_iff.mp h
  obtain ⟨token, -, h⟩ := Option.bind_eq_some_iff.mp h
  split at h
  · cases h
    exact hmode
  split at h
  · cases h
    exact hmode
  · exact load_loop_mode hmode h

/-! ## Runs -/

/-- What is done to the model. `fuel` is for the parser. -/
inductive Op
  | load (fuel : Nat) (json : List Byte)
  | set_cool_setpoint (cool_setpoint : Int32)
  | set_heat_setpoint (heat_setpoint : Int32)
  | set_relay_y (energized : Bool)
  | set_relay_w (energized : Bool)
  | update

/-- The model after an operation, whatever it returns. -/
def step : Op → tstat_model_t → Option tstat_model_t
  | .load fuel json, model => (tstat_model_load_json fuel model json).map Prod.snd
  | .set_cool_setpoint i, model => some (tstat_model_set_cool_setpoint model i)
  | .set_heat_setpoint i, model => some (tstat_model_set_heat_setpoint model i)
  | .set_relay_y b, model => some (tstat_model_set_relay_y model b)
  | .set_relay_w b, model => some (tstat_model_set_relay_w model b)
  | .update, model => some (tstat_logic_update_model model)

def run : List Op → tstat_model_t → Option tstat_model_t
  | [], model => some model
  | op :: ops, model => (step op model).bind (run ops)

/-- What the control law decides. -/
structure Controlled (model model' : tstat_model_t) : Prop where
  relay_y : model'.relay_y ↔ model.system_mode = SYSTEM_MODE_COOL ∧ model.cool_setpoint < model.ambient
  relay_w : model'.relay_w ↔ model.system_mode = SYSTEM_MODE_HEAT ∧ model.heat_setpoint > model.ambient
  interlock : ¬ (model'.relay_y ∧ model'.relay_w)
  ambient : model'.ambient = model.ambient
  cool_setpoint : model'.cool_setpoint = model.cool_setpoint
  heat_setpoint : model'.heat_setpoint = model.heat_setpoint
  system_mode : model'.system_mode = model.system_mode

theorem update_off {model : tstat_model_t} (h : model.system_mode = SYSTEM_MODE_OFF) :
    tstat_logic_update_model model = { model with relay_y := false, relay_w := false } := by
  rw [tstat_logic_update_model, tstat_model_get_system_mode, if_pos h]
  rfl

theorem update_cool {model : tstat_model_t} (h : model.system_mode = SYSTEM_MODE_COOL) :
    tstat_logic_update_model model =
      { model with relay_y := decide (model.cool_setpoint < model.ambient), relay_w := false } := by
  rw [tstat_logic_update_model, tstat_model_get_system_mode, if_neg (by rw [h]; decide), if_pos h]
  rfl

theorem update_heat {model : tstat_model_t} (h : model.system_mode = SYSTEM_MODE_HEAT) :
    tstat_logic_update_model model =
      { model with relay_y := false, relay_w := decide (model.heat_setpoint > model.ambient) } := by
  rw [tstat_logic_update_model, tstat_model_get_system_mode, if_neg (by rw [h]; decide), if_neg (by rw [h]; decide),
    if_pos h]
  rfl

theorem modeOk_cases {model : tstat_model_t} (hmode : ModeOk model) :
    model.system_mode = SYSTEM_MODE_OFF ∨ model.system_mode = SYSTEM_MODE_COOL ∨
      model.system_mode = SYSTEM_MODE_HEAT := by
  simpa [ModeOk, sys_values] using hmode

theorem update_controlled {model : tstat_model_t} (hmode : ModeOk model) :
    Controlled model (tstat_logic_update_model model) := by
  rcases modeOk_cases hmode with h | h | h
  · rw [update_off h]
    constructor <;> simp [h, SYSTEM_MODE_OFF, SYSTEM_MODE_COOL, SYSTEM_MODE_HEAT]
  · rw [update_cool h]
    constructor <;> simp [h, SYSTEM_MODE_COOL, SYSTEM_MODE_HEAT]
  · rw [update_heat h]
    constructor <;> simp [h, SYSTEM_MODE_COOL, SYSTEM_MODE_HEAT]

theorem update_idempotent {model : tstat_model_t} (hmode : ModeOk model) :
    tstat_logic_update_model (tstat_logic_update_model model) = tstat_logic_update_model model := by
  rcases modeOk_cases hmode with h | h | h
  · rw [update_off h, update_off (by exact h)]
  · rw [update_cool h, update_cool (by exact h)]
  · rw [update_heat h, update_heat (by exact h)]

theorem step_mode {op : Op} {model model' : tstat_model_t} (hmode : ModeOk model) (h : step op model = some model') :
    ModeOk model' := by
  cases op with
  | load fuel json =>
    obtain ⟨r, hload, rfl⟩ := Option.map_eq_some_iff.mp h
    exact load_mode hmode hload
  | update =>
    cases h
    rw [ModeOk, (update_controlled hmode).system_mode]
    exact hmode
  | set_cool_setpoint i =>
    cases h
    exact hmode
  | set_heat_setpoint i =>
    cases h
    exact hmode
  | set_relay_y b =>
    cases h
    exact hmode
  | set_relay_w b =>
    cases h
    exact hmode

theorem run_mode {ops : List Op} {model model' : tstat_model_t} (hmode : ModeOk model)
    (h : run ops model = some model') :
    ModeOk model' := by
  induction ops generalizing model with
  | nil =>
    cases h
    exact hmode
  | cons op ops ih =>
    obtain ⟨model₁, hstep, h⟩ := Option.bind_eq_some_iff.mp h
    exact ih (step_mode hmode hstep) h

/-- After any run, an update sets the relays as the mode and the temperatures ask, and nothing else. -/
theorem relay_interlock (start : tstat_model_t) {model : tstat_model_t} (ops : List Op) (hstart : ModeOk start)
    (hrun : run ops start = some model) :
    Controlled model (tstat_logic_update_model model) ∧
      tstat_logic_update_model (tstat_logic_update_model model) = tstat_logic_update_model model :=
  ⟨update_controlled (run_mode hstart hrun), update_idempotent (run_mode hstart hrun)⟩

/-- The load turns both relays on and then fails. -/
theorem relay_interlock_after_failed_load :
    Controlled ⟨25, 22, 18, true, true, SYSTEM_MODE_COOL⟩
      (tstat_logic_update_model ⟨25, 22, 18, true, true, SYSTEM_MODE_COOL⟩) :=
  (relay_interlock ⟨25, 20, 18, false, false, SYSTEM_MODE_COOL⟩
    [.load 100 (ascii "\x7b\"relay_y\":true,\"relay_w\":true,\"system_mode\":\"DRY\"\x7d" ++ [0]),
      .set_cool_setpoint 22] (by unfold ModeOk; decide) (by decide +kernel)).1

end ToyTstat.Model
