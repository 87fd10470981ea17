import ToyTstat.Jems.ReadBack
import ToyTstat.Model.Settings

/-!
# Dumping a model and loading it again

The dump is the compact text of an object, so the loader walks over its six members.
-/

open CLib ToyTstat.Code ToyTstat.Jsmn ToyTstat.Jems

namespace ToyTstat.Model

/-! ## The text of a model -/

def plain (s : String) (h : 0 ∉ ascii s) : CString := ⟨ascii s, h⟩

theorem mode_mem (system_mode : Int32) : system_mode_to_string system_mode ∈ names := by
  unfold system_mode_to_string
  split
  · simp [names]
  split
  · simp [names]
  split <;> simp [names]

theorem mode_ne_zero (system_mode : Int32) : 0 ∉ ascii (system_mode_to_string system_mode) :=
  name_ne_zero (mode_mem system_mode)

/-- The object that `tstat_model_dump_json` writes. -/
def dumpJson (model : tstat_model_t) : Json :=
  .obj [(plain "ambient" (by decide), .int model.ambient.toInt64),
    (plain "cool_setpoint" (by decide), .int model.cool_setpoint.toInt64),
    (plain "heat_setpoint" (by decide), .int model.heat_setpoint.toInt64),
    (plain "relay_y" (by decide), .bool model.relay_y),
    (plain "relay_w" (by decide), .bool model.relay_w),
    (plain "system_mode" (by decide),
      .str (plain (system_mode_to_string model.system_mode) (mode_ne_zero model.system_mode)))]

def dumpText (model : tstat_model_t) : List Byte := (dumpJson model).render

/-! ## The writer -/

theorem writeAll_jems_writer (text done free : List Byte) (buflen : Nat) (hbuf : buflen ≤ done.length + free.length) :
    writeAll jems_writer text ⟨done ++ free, buflen, done.length⟩ =
      some ⟨done ++ text.take (buflen - done.length) ++ free.drop (min text.length (buflen - done.length)), buflen,
        done.length + min text.length (buflen - done.length)⟩ := by
  induction text generalizing done free with
  | nil => simp [writeAll]
  | cons b text ih =>
    by_cases hlt : done.length < buflen
    · obtain ⟨unused, free, rfl⟩ := List.exists_cons_of_length_pos (l := free) (by omega)
      have hset : (done ++ unused :: free).set done.length b = done ++ [b] ++ free := by simp
      have hih := ih (done ++ [b]) free (by simp at hbuf ⊢; omega)
      obtain ⟨k, hk⟩ : ∃ k, buflen - done.length = k + 1 := ⟨buflen - done.length - 1, by omega⟩
      rw [List.length_append, List.length_singleton, show buflen - (done.length + 1) = k by omega] at hih
      rw [writeAll, jems_writer, if_pos hlt, if_pos (by simp), hset, Option.bind_some, hih, hk]
      simp only [List.take_succ_cons, List.length_cons, Nat.add_min_add_right, List.drop_succ_cons,
        List.append_assoc, List.singleton_append, Option.some.injEq, writer_state_t.mk.injEq, true_and]
      omega
    · have hih := ih done free hbuf
      rw [writeAll, jems_writer, if_neg hlt, Option.bind_some, hih, show buflen - done.length = 0 by omega]
      simp

/-! ## The dump -/

theorem dump_eq (model : tstat_model_t) (buf : List Byte) (buflen : Nat) (jems_levels : List jems_level_t) :
    tstat_model_dump_json model buf buflen jems_levels =
      (jems_init jems_levels MAX_JEMS_LEVELS jems_writer ⟨buf, usize (buflen - 1), 0⟩).bind fun jems =>
        (runCalls (dumpJson model).calls jems).bind fun jems =>
          if jems.arg.written < jems.arg.buf.length then some (jems.arg.buf.set jems.arg.written 0) else none := by
  simp only [tstat_model_dump_json, jems_key_number, jems_number_ofInt32, jems_key_bool, jems_key_string,
    dumpJson, Json.calls, membersCalls, List.cons_append, List.nil_append, runCalls, runCall, Option.bind_assoc,
    Option.bind_some, tstat_model_get_ambient, tstat_model_get_cool_setpoint, tstat_model_get_heat_setpoint,
    tstat_model_get_relay_y, tstat_model_get_relay_w, tstat_model_get_system_mode]
  rfl

theorem dumpJson_countable (model : tstat_model_t) : (dumpJson model).Countable :=
  ⟨by simp, trivial, trivial, trivial, trivial, trivial, trivial, trivial⟩

theorem dump_writes (model : tstat_model_t) (buf : List Byte) (buflen : Nat) {jems_levels : List jems_level_t}
    (hlevels : jems_levels.length = MAX_JEMS_LEVELS) :
    tstat_model_dump_json model buf buflen jems_levels =
      (writeAll jems_writer (dumpText model) ⟨buf, usize (buflen - 1), 0⟩).bind fun arg =>
        if arg.written < arg.buf.length then some (arg.buf.set arg.written 0) else none := by
  obtain ⟨unused, deeper, rfl⟩ := List.exists_cons_of_length_pos (l := jems_levels) (by rw [hlevels]; decide)
  have hinit : jems_init (unused :: deeper) MAX_JEMS_LEVELS jems_writer ⟨buf, usize (buflen - 1), 0⟩ =
      some (state jems_writer 3 [] ⟨0, false⟩ deeper ⟨buf, usize (buflen - 1), 0⟩) := rfl
  obtain ⟨deeper', -, hemits⟩ := Json.emits (w := jems_writer) (m := 3) (by decide) (dumpJson model)
    (dumpJson_countable model) [] ⟨0, false⟩ deeper
    (by simp only [List.length_cons, MAX_JEMS_LEVELS] at hlevels; simp [dumpJson, Json.depth, membersDepth]; omega)
    (by simp [dumpJson, Json.depth, membersDepth])
  have hrun := hemits ⟨buf, usize (buflen - 1), 0⟩
  rw [show separator ⟨0, false⟩ ++ (dumpJson model).render = dumpText model from rfl] at hrun
  rw [dump_eq, hinit, Option.bind_some, hrun]
  cases writeAll jems_writer (dumpText model) ⟨buf, usize (buflen - 1), 0⟩ <;> rfl

theorem dump_buffer (model : tstat_model_t) {buf : List Byte} {buflen : Nat} {jems_levels : List jems_level_t}
    (hpos : 1 ≤ buflen) (hsize : buflen < 2 ^ 64) (hbuf : buflen ≤ buf.length)
    (hlevels : jems_levels.length = MAX_JEMS_LEVELS) :
    tstat_model_dump_json model buf buflen jems_levels =
      some ((dumpText model).take (buflen - 1) ++ 0 :: buf.drop (min (dumpText model).length (buflen - 1) + 1)) := by
  have hlast : usize (buflen - 1) = buflen - 1 := by
    rw [show (buflen : Int) - 1 = ((buflen - 1 : Nat) : Int) by omega, usize_of_lt (by omega)]
  have hwrite := writeAll_jems_writer (dumpText model) [] buf (buflen - 1) (by simp; omega)
  simp only [List.length_nil, Nat.sub_zero, List.nil_append, Nat.zero_add] at hwrite
  have hlength : ((dumpText model).take (buflen - 1)).length = min (dumpText model).length (buflen - 1) := by
    rw [List.length_take, Nat.min_comm]
  rw [dump_writes model buf buflen hlevels, hlast, hwrite, Option.bind_some, ← hlength]
  have hroom : ((dumpText model).take (buflen - 1)).length < buf.length := by
    rw [hlength]
    omega
  obtain ⟨last, rest, hdrop⟩ := List.exists_cons_of_length_pos
    (l := buf.drop ((dumpText model).take (buflen - 1)).length) (by rw [List.length_drop]; omega)
  rw [← List.drop_drop, hdrop, if_pos (by simp)]
  simp

theorem dump_text (model : tstat_model_t) {buf : List Byte} {buflen : Nat} {jems_levels : List jems_level_t}
    (hsize : buflen < 2 ^ 64) (hbuf : buflen ≤ buf.length) (hlevels : jems_levels.length = MAX_JEMS_LEVELS)
    (hfits : (dumpText model).length < buflen) :
    ∃ junk, tstat_model_dump_json model buf buflen jems_levels = some (dumpText model ++ 0 :: junk) := by
  have hdump := dump_buffer model (Nat.one_le_of_lt hfits) hsize hbuf hlevels
  rw [List.take_of_length_le (Nat.le_sub_one_of_lt hfits)] at hdump
  exact ⟨_, hdump⟩

/-! ## Loading the dump -/

def dumpSettings (model : tstat_model_t) : List Setting :=
  [.ambient (.ofInt32 model.ambient), .cool_setpoint (.ofInt32 model.cool_setpoint),
    .heat_setpoint (.ofInt32 model.heat_setpoint), .relay_y model.relay_y, .relay_w model.relay_w]

def dumpMembers (model : tstat_model_t) : List FlatMember :=
  (dumpSettings model).map (fun s => (⟨[], s.key, []⟩, ⟨[], s.scalar, []⟩)) ++
    [(⟨[], ascii "system_mode", []⟩, ⟨[], .str (ascii (system_mode_to_string model.system_mode)), []⟩)]

theorem name_escape {name : String} (h : name ∈ names) : (ascii name).flatMap escape = ascii name := by
  have hescape : ∀ c ∈ ascii name, escape c = [c] := by
    intro c hc
    obtain ⟨hprint, -, hquote, hbackslash⟩ := name_byte h hc
    rw [escape, if_neg (by tauto), if_pos hprint]
  rw [List.flatMap_congr hescape, List.flatMap_singleton']

theorem escaped_plain {name : String} (h : name ∈ names) : escaped (plain name (name_ne_zero h)) = ascii name :=
  name_escape h

theorem dumpJson_doc (model : tstat_model_t) :
    (dumpJson model).doc = Doc.obj [] (flatMembers (dumpMembers model)) := by
  have hkeys : ∀ name ∈ names, ∀ h0, escaped (plain name h0) = ascii name := fun name h _ => escaped_plain h
  simp only [dumpJson, Json.doc, membersDoc, hkeys _ (mode_mem model.system_mode), Json.render, Int32.toInt_toInt64]
  simp only [hkeys, names, List.mem_cons, true_or, or_true]
  rfl

theorem updates_append (ms ms' : List (List Byte × Scalar)) {model model' : tstat_model_t}
    (h : updates ms model = (true, model')) : updates (ms ++ ms') model = updates ms' model' := by
  induction ms generalizing model with
  | nil =>
    cases h
    rfl
  | cons m ms ih =>
    obtain ⟨key, v⟩ := m
    rw [updates] at h
    split at h
    · rename_i hok
      rw [List.cons_append, updates, if_pos hok]
      exact ih h
    · cases h

theorem updates_dump (model d : tstat_model_t) :
    updates (pairs (dumpMembers model)) d =
      update (ascii "system_mode") (.str (ascii (system_mode_to_string model.system_mode)))
        { model with system_mode := d.system_mode } := by
  have hfive : updates ((dumpSettings model).map fun s => (s.key, s.scalar)) d =
      (true, { model with system_mode := d.system_mode }) := Setting.updates_eq (dumpSettings model) d
  have hpairs : pairs (dumpMembers model) = ((dumpSettings model).map fun s => (s.key, s.scalar)) ++
      [(ascii "system_mode", .str (ascii (system_mode_to_string model.system_mode)))] := rfl
  rw [hpairs, updates_append _ _ hfive, updates, updates]
  generalize update _ _ _ = result
  obtain ⟨goesOn, model'⟩ := result
  cases goesOn <;> rfl

theorem int32_length (i : Int32) : (decimalInt i.toInt).length ≤ 21 := by
  rw [← Int32.toInt_toInt64]
  exact decimalInt_length i.toInt64

theorem bool_length (b : Bool) : (ascii (if b then "true" else "false")).length ≤ 5 := by
  cases b <;> decide

theorem names_length : ∀ name ∈ names, (ascii name).length ≤ 16 := by
  decide +kernel

theorem dumpText_eq (model : tstat_model_t) : dumpText model = (Doc.obj [] (flatMembers (dumpMembers model))).text := by
  rw [← dumpJson_doc, Json.doc_text]
  rfl

theorem dumpText_length (model : tstat_model_t) : (dumpText model).length ≤ 300 := by
  have h1 := int32_length model.ambient
  have h2 := int32_length model.cool_setpoint
  have h3 := int32_length model.heat_setpoint
  have h4 := bool_length model.relay_y
  have h5 := bool_length model.relay_w
  have h6 := names_length _ (mode_mem model.system_mode)
  have hkeys : (ascii "ambient").length + (ascii "cool_setpoint").length + (ascii "heat_setpoint").length +
      (ascii "relay_y").length + (ascii "relay_w").length + (ascii "system_mode").length = 58 := by decide +kernel
  rw [dumpText_eq]
  simp only [Doc.text, flatMembers, dumpMembers, dumpSettings, List.map_cons, List.map_nil, List.cons_append,
    List.nil_append, membersText, Scalar.doc, Setting.key, Setting.scalar, IntText.ofInt32, List.length_append,
    List.length_cons, List.length_nil]
  omega

theorem dumpMembers_ok (model : tstat_model_t) : membersOk (flatMembers (dumpMembers model)) := by
  have h := Json.doc_ok (dumpJson model)
  rw [dumpJson_doc] at h
  exact h.2

/-- Loading a dump: only the mode can fail. -/
theorem dump_load (model : tstat_model_t) {buf : List Byte} {buflen : Nat} {jems_levels : List jems_level_t}
    (hsize : buflen < 2 ^ 64) (hbuf : buflen ≤ buf.length) (hlevels : jems_levels.length = MAX_JEMS_LEVELS)
    (hfits : (dumpText model).length < buflen) :
    ∃ json, tstat_model_dump_json model buf buflen jems_levels = some json ∧ ∀ d fuel, 400 < fuel →
      tstat_model_load_json fuel d json =
        some (update (ascii "system_mode") (.str (ascii (system_mode_to_string model.system_mode)))
          { model with system_mode := d.system_mode }) := by
  obtain ⟨junk, hdump⟩ := dump_text model hsize hbuf hlevels hfits
  refine ⟨_, hdump, fun d fuel hfuel => ?_⟩
  have hlength := dumpText_length model
  rw [dumpText_eq] at hlength ⊢
  have hload := load_flat [] [] spaces_nil spaces_nil spaces_nil (dumpMembers_ok model) le_rfl
    (by simp only [List.nil_append, List.append_nil]; omega) junk fuel
    (by simp only [List.nil_append, List.append_nil]; omega) d
  simp only [List.nil_append, List.append_nil, updates_dump] at hload
  exact hload

theorem update_system_mode (v : Scalar) (model : tstat_model_t) :
    update (ascii "system_mode") v model = store model (fun i => { model with system_mode := i }) (enumValue v) := by
  simp [update, names_apart, names]

theorem enumValue_off : enumValue (.str (ascii (system_mode_to_string SYSTEM_MODE_OFF))) = some SYSTEM_MODE_OFF := by
  simp [enumValue, Scalar.body, system_mode_to_string, names_apart, names]

theorem enumValue_cool :
    enumValue (.str (ascii (system_mode_to_string SYSTEM_MODE_COOL))) = some SYSTEM_MODE_COOL := by
  simp [enumValue, Scalar.body, system_mode_to_string, names_apart, names, SYSTEM_MODE_OFF, SYSTEM_MODE_COOL]

theorem enumValue_heat : enumValue (.str (ascii (system_mode_to_string SYSTEM_MODE_HEAT))) = none := by
  simp [enumValue, Scalar.body, system_mode_to_string, names_apart, names, SYSTEM_MODE_OFF, SYSTEM_MODE_COOL,
    SYSTEM_MODE_HEAT]

/-- The dump can be loaded into any model, and makes it equal to the dumped one. -/
def RoundTrips (model : tstat_model_t) (buf : List Byte) (buflen : Nat) (jems_levels : List jems_level_t) : Prop :=
  ∃ json, tstat_model_dump_json model buf buflen jems_levels = some json ∧
    ∀ d, ∃ enough, ∀ fuel, enough ≤ fuel → tstat_model_load_json fuel d json = some (true, model)

section
variable {model : tstat_model_t} {buf : List Byte} {buflen : Nat} {jems_levels : List jems_level_t}

theorem not_roundTrips_heat (hheat : model.system_mode = SYSTEM_MODE_HEAT) (hsize : buflen < 2 ^ 64)
    (hbuf : buflen ≤ buf.length) (hlevels : jems_levels.length = MAX_JEMS_LEVELS)
    (hfits : (dumpText model).length < buflen) : ¬ RoundTrips model buf buflen jems_levels := by
  obtain ⟨json, hdump, hload⟩ := dump_load model hsize hbuf hlevels hfits
  rintro ⟨json', hdump', hround⟩
  rw [hdump] at hdump'
  obtain rfl := Option.some.inj hdump'
  obtain ⟨enough, hround⟩ := hround ⟨0, 0, 0, false, false, 0⟩
  have h := hround (max enough 401) (le_max_left _ _)
  rw [hload _ _ (by omega), hheat, update_system_mode, enumValue_heat, store] at h
  cases Option.some.inj h

theorem roundTrips_off_cool (hmode : model.system_mode = SYSTEM_MODE_OFF ∨ model.system_mode = SYSTEM_MODE_COOL)
    (hsize : buflen < 2 ^ 64) (hbuf : buflen ≤ buf.length) (hlevels : jems_levels.length = MAX_JEMS_LEVELS)
    (hfits : (dumpText model).length < buflen) : RoundTrips model buf buflen jems_levels := by
  obtain ⟨json, hdump, hload⟩ := dump_load model hsize hbuf hlevels hfits
  refine ⟨json, hdump, fun d => ⟨401, fun fuel hfuel => ?_⟩⟩
  rw [hload d fuel (by omega), update_system_mode]
  rcases hmode with hoff | hcool
  · rw [hoff, enumValue_off, store, ← hoff]
  · rw [hcool, enumValue_cool, store, ← hcool]

end

/-- `SYSTEM_MODE_HEAT` is dumped as `SYSTEM_MDOE_HEAT`, which the loader does not know. -/
theorem dump_round_trips_iff (model : tstat_model_t)
    (hmode : model.system_mode = SYSTEM_MODE_OFF ∨ model.system_mode = SYSTEM_MODE_COOL ∨
      model.system_mode = SYSTEM_MODE_HEAT)
    (buf : List Byte) (buflen : Nat) (jems_levels : List jems_level_t) (hsize : buflen < 2 ^ 64)
    (hbuf : buflen ≤ buf.length) (hlevels : jems_levels.length = MAX_JEMS_LEVELS)
    (hfits : (dumpText model).length < buflen) :
    RoundTrips model buf buflen jems_levels ↔ model.system_mode ≠ SYSTEM_MODE_HEAT := by
  constructor
  · exact fun hround hheat => not_roundTrips_heat hheat hsize hbuf hlevels hfits hround
  · intro hne
    have hoffcool : model.system_mode = SYSTEM_MODE_OFF ∨ model.system_mode = SYSTEM_MODE_COOL := by tauto
    exact roundTrips_off_cool hoffcool hsize hbuf hlevels hfits

theorem dump_round_trips_cool :
    RoundTrips ⟨21, 22, 18, true, false, SYSTEM_MODE_COOL⟩ (List.replicate 400 0) 400 (List.replicate 3 ⟨0, false⟩) :=
  (dump_round_trips_iff ⟨21, 22, 18, true, false, SYSTEM_MODE_COOL⟩ (by decide) (List.replicate 400 0) 400
    (List.replicate 3 ⟨0, false⟩) (by decide) (by rw [List.length_replicate]) rfl
    (Nat.lt_of_le_of_lt (dumpText_length _) (by decide))).mpr (by decide)

theorem dump_not_round_trips_heat :
    ¬ RoundTrips ⟨21, 22, 18, false, false, SYSTEM_MODE_HEAT⟩ (List.replicate 400 0) 400
      (List.replicate 3 ⟨0, false⟩) :=
  not_roundTrips_heat rfl (by decide) (by rw [List.length_replicate]) rfl
    (Nat.lt_of_le_of_lt (dumpText_length _) (by decide))

end ToyTstat.Model
