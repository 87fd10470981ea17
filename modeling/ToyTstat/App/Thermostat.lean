import ToyTstat.App.Exchange
import ToyTstat.Model.Interlock
import ToyTstat.Model.Truncate

/-!
# The thermostat

The cycle with the `tstat_` functions: from the text that is received, through the control law, to the
text that is sent.
-/

open CLib ToyTstat.Code ToyTstat.Jsmn ToyTstat.Model ToyTstat.Mulib

namespace ToyTstat.App

variable {ext : External tstat_model_t} {fuel : Nat} {model : tstat_model_t}

/-- The cycle calls the `tstat_` functions. A text that the loader does not read to its end is refused. -/
structure CallsTstat (ext : External tstat_model_t) (fuel : Nat) : Prop where
  load : ∀ model json, ext.model_load_json model json = (tstat_model_load_json fuel model json).getD (false, model)
  update : ext.logic_update_model = tstat_logic_update_model

theorem CallsTstat.keeps_mode (h : CallsTstat ext fuel) : Keeps ext ModeOk := by
  constructor
  · intro model json hmode
    rw [h.load]
    cases hload : tstat_model_load_json fuel model json with
    | none => exact hmode
    | some r => exact load_mode hmode hload
  · intro model hmode
    rw [h.update, ModeOk, (update_controlled hmode).system_mode]
    exact hmode

theorem CallsTstat.loaded {before loaded : tstat_model_t} {json : List Byte} (h : CallsTstat ext fuel)
    (hload : ext.model_load_json before json = (true, loaded)) :
    tstat_model_load_json fuel before json = some (true, loaded) := by
  rw [h.load] at hload
  cases hresult : tstat_model_load_json fuel before json with
  | none =>
    rw [hresult] at hload
    cases hload
  | some r =>
    rw [hresult] at hload
    exact congrArg some hload

theorem updated_controlled {json : List Byte} (h : CallsTstat ext fuel) (hupdated : Updated ext ModeOk json model) :
    ∃ before loaded, tstat_model_load_json fuel before json = some (true, loaded) ∧ ModeOk loaded ∧
      Controlled loaded model := by
  obtain ⟨loaded, ⟨hmode, before, hload⟩, rfl⟩ := hupdated
  rw [h.update]
  exact ⟨before, loaded, h.loaded hload, hmode, update_controlled hmode⟩

/-! ## The text that is sent -/

theorem push_text {buf : Ptr} {memory : List Byte} {MAX_LEN : Nat} {jems_levels : List jems_level_t}
    (model : tstat_model_t) (hnull : buf ≠ NULL) (hsize : MAX_LEN < 2 ^ 64) (hbuf : MAX_LEN ≤ memory.length)
    (hlevels : jems_levels.length = MAX_JEMS_LEVELS) (hroom : 300 < MAX_LEN) :
    model_iface_push_text MAX_LEN model buf memory jems_levels = some (some (dumpText model)) := by
  obtain ⟨junk, hdump⟩ := dump_text model hsize hbuf hlevels ((dumpText_length model).trans_lt hroom)
  rw [model_iface_push_text, model_dump_json, hdump, Option.map_some, Option.bind_some, if_neg hnull,
    strlen_append_zero _ _ (dumpText_ne_zero model), Option.map_some, List.take_left' rfl]

theorem dumpText_load (hmode : model.system_mode = SYSTEM_MODE_OFF ∨ model.system_mode = SYSTEM_MODE_COOL)
    (junk : List Byte) (hfuel : (dumpText model).length + 1 < fuel) (d : tstat_model_t) :
    tstat_model_load_json fuel d (dumpText model ++ 0 :: junk) = some (true, model) := by
  have hlength := dumpText_length model
  rw [dumpText_eq] at hlength hfuel ⊢
  have hload := load_flat [] [] spaces_nil spaces_nil spaces_nil (dumpMembers_ok model) le_rfl
    (by simp only [List.nil_append, List.append_nil]; omega) junk fuel
    (by simpa only [List.nil_append, List.append_nil] using hfuel) d
  simp only [List.nil_append, List.append_nil, updates_dump] at hload
  rw [hload, update_system_mode]
  rcases hmode with hoff | hcool
  · rw [hoff, enumValue_off, store, ← hoff]
  · rw [hcool, enumValue_cool, store, ← hcool]

/-! ## Runs -/

/-- While `tstat_app` pushes, its model is what the control law makes of the text received, and who gets the text that
is sent has the same model. `SYSTEM_MODE_HEAT` is not spelled as the loader reads it. -/
def Controls (fuel MAX_LEN : Nat) (buf : Ptr) (memory : List Byte) (jems_levels : List jems_level_t)
    (c : Cycle tstat_model_t) : Prop :=
  Pushing c.app →
    (∃ before loaded, tstat_model_load_json fuel before c.iface.rx_buf = some (true, loaded) ∧
      Controlled loaded c.app.model) ∧
    ∃ sent, model_iface_push_text MAX_LEN c.app.model buf memory jems_levels = some (some sent) ∧
      (c.app.model.system_mode ≠ SYSTEM_MODE_HEAT → ∀ junk d fuel', sent.length + 1 < fuel' →
        tstat_model_load_json fuel' d (sent ++ 0 :: junk) = some (true, c.app.model))

/-- From text to text, in every run in which the two modules are used properly. -/
theorem cycle_controls (s : mu_sched_t) (hs : Sized s) (ext : External tstat_model_t) (hext : Transfers ext)
    (fuel : Nat) (hcalls : CallsTstat ext fuel) (at_ : Pointers) (continuation : Ptr)
    (hcontinuation : continuation ≠ at_.tstat_app ∧ continuation ≠ at_.model_iface) (app_info iface_info : Ptr)
    (app : tstat_app_t tstat_model_t) (hmode : ModeOk app.model) (iface : model_iface_t) (coms_had_error : Bool)
    (MAX_LEN : Nat) (buf : Ptr) (memory : List Byte) (jems_levels : List jems_level_t) (hnull : buf ≠ NULL)
    (hsize : MAX_LEN < 2 ^ 64) (hbuf : MAX_LEN ≤ memory.length) (hlevels : jems_levels.length = MAX_JEMS_LEVELS)
    (hroom : 300 < MAX_LEN) (es : List CycleEvent)
    (hproper : (cycleMachine ext at_ continuation).Meets (Proper at_) es
      ⟨mu_sched_init s, tstat_app_init app app_info, model_iface_init iface iface_info, coms_had_error⟩) :
    (cycleMachine ext at_ continuation).Always (Controls fuel MAX_LEN buf memory jems_levels) es
      ⟨mu_sched_init s, tstat_app_init app app_info, model_iface_init iface iface_info, coms_had_error⟩ := by
  have hstart : ∃ q, Orderly ext ModeOk at_ _ q := orderly_init hs app_info iface_info hmode iface coms_had_error
  refine Machine.Always.imp ?_
    (Machine.always_of_meets (orderly_event hext hcalls.keeps_mode hcontinuation) hproper hstart)
  rintro c ⟨q, hq⟩ hpush
  obtain ⟨-, hupdated⟩ := hq.exchanged.pushed hpush
  obtain ⟨before, loaded, hload, -, hcontrolled⟩ := updated_controlled hcalls hupdated
  refine ⟨⟨before, loaded, hload, hcontrolled⟩, _, push_text c.app.model hnull hsize hbuf hlevels hroom, ?_⟩
  intro hheat junk d fuel' hfuel
  have hcases := modeOk_cases hq.model_good
  exact dumpText_load (by tauto) junk hfuel d

/-- A text that asks for cooling is received. -/
theorem cycle_controls_cool :
    (cycleMachine tstatExternal pointers 7).Always
      (Controls 300 400 16 (List.replicate 400 0) (List.replicate 3 ⟨0, false⟩))
      [.start 9, .sched .step true, .sched .step true,
        .received (ascii "\x7b\"ambient\":25,\"system_mode\":\"SYSTEM_MODE_COOL\"\x7d" ++ [0]) false,
        .sched .step true, .sched .step true, .sched .task_done true, .sched .step true, .sched .step true,
        .sched .step true] cycleStart := by
  refine cycle_controls staticStorage staticStorage_sized tstatExternal tstatExternal_transfers 300
    ⟨fun _ _ => rfl, rfl⟩ pointers 7 (by decide) NULL NULL _ (by unfold ModeOk; decide) _ false 400 16
    (List.replicate 400 0) (List.replicate 3 ⟨0, false⟩) (by decide) (by decide) (by rw [List.length_replicate]) rfl
    (by decide) _ ?_
  decide +kernel

end ToyTstat.App
