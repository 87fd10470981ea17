import ToyTstat.Code.TstatModel
import ToyTstat.Jsmn.Parts

/-!
# Fields and the walk over parts

The loader takes the tokens behind the first one in pairs. What it does depends on the type and the
text of each token only.
-/

open CLib ToyTstat.Code ToyTstat.Code.jsmntype_t ToyTstat.Jsmn

namespace ToyTstat.Model

/-! ## Names -/

/-- The loader takes a text for a name when it is a prefix of the name. -/
def isName (text : List Byte) (name : String) : Bool := text.isPrefixOf (ascii name)

/-- The names that are compared with a text or dumped. -/
abbrev names : List String :=
  ["ambient", "cool_setpoint", "heat_setpoint", "relay_y", "relay_w", "system_mode", "true", "false",
    "SYSTEM_MODE_OFF", "SYSTEM_MODE_COOL", "SYSTEM_MODE_HEAT", "SYSTEM_MDOE_HEAT", "UNKNOWN"]

theorem names_printable :
    ∀ name ∈ names, ∀ n ∈ (ascii name).map UInt8.toNat, 32 ≤ n ∧ n < 127 ∧ n ≠ 34 ∧ n ≠ 92 := by
  decide +kernel

theorem names_apart : ∀ a ∈ names, ∀ b ∈ names, isName (ascii a) b = decide (a = b) := by
  decide +kernel

theorem name_byte {name : String} (h : name ∈ names) {c : Byte} (hc : c ∈ ascii name) :
    (32 ≤ c.toNat ∧ c.toNat < 127) ∧ c ≠ 0 ∧ c ≠ ch '"' ∧ c ≠ ch '\\' := by
  obtain ⟨hlow, hhigh, hquote, hbackslash⟩ := names_printable name h c.toNat (List.mem_map_of_mem hc)
  refine ⟨⟨hlow, hhigh⟩, ?_, ?_, ?_⟩
  · rintro rfl
    exact absurd hlow (by decide)
  · rintro rfl
    exact hquote rfl
  · rintro rfl
    exact hbackslash rfl

theorem name_ne_zero {name : String} (h : name ∈ names) : 0 ∉ ascii name := fun h0 => (name_byte h h0).2.1 rfl

/-! ## Fields -/

inductive ModelField
  | ambient
  | cool_setpoint
  | heat_setpoint
  | relay_y
  | relay_w
  | system_mode
deriving DecidableEq, Repr

namespace ModelField

def name : ModelField → String
  | ambient => "ambient"
  | cool_setpoint => "cool_setpoint"
  | heat_setpoint => "heat_setpoint"
  | relay_y => "relay_y"
  | relay_w => "relay_w"
  | system_mode => "system_mode"

/-- In the order in which a key is compared with them. -/
def all : List ModelField := [ambient, cool_setpoint, heat_setpoint, relay_y, relay_w, system_mode]

abbrev Value : ModelField → Type
  | relay_y | relay_w => Bool
  | ambient | cool_setpoint | heat_setpoint | system_mode => Int32

instance : (f : ModelField) → DecidableEq f.Value
  | relay_y | relay_w => inferInstanceAs (DecidableEq Bool)
  | ambient | cool_setpoint | heat_setpoint | system_mode => inferInstanceAs (DecidableEq Int32)

def get : (f : ModelField) → tstat_model_t → f.Value
  | ambient, model => model.ambient
  | cool_setpoint, model => model.cool_setpoint
  | heat_setpoint, model => model.heat_setpoint
  | relay_y, model => model.relay_y
  | relay_w, model => model.relay_w
  | system_mode, model => model.system_mode

def set (model : tstat_model_t) : (f : ModelField) → f.Value → tstat_model_t
  | ambient, i => { model with ambient := i }
  | cool_setpoint, i => { model with cool_setpoint := i }
  | heat_setpoint, i => { model with heat_setpoint := i }
  | relay_y, r => { model with relay_y := r }
  | relay_w, r => { model with relay_w := r }
  | system_mode, i => { model with system_mode := i }

@[simp]
theorem get_set (model : tstat_model_t) (f : ModelField) (x : f.Value) : f.get (f.set model x) = x := by
  cases f <;> rfl

theorem get_set_other (model : tstat_model_t) {f g : ModelField} (h : g ≠ f) (x : f.Value) :
    g.get (f.set model x) = g.get model := by
  cases f <;> cases g <;> first | rfl | exact absurd rfl h

theorem ext {model model' : tstat_model_t} (h : ∀ f : ModelField, f.get model = f.get model') : model = model' := by
  obtain ⟨a, c, d, y, w, s⟩ := model
  obtain ⟨a', c', d', y', w', s'⟩ := model'
  obtain rfl : a = a' := h ambient
  obtain rfl : c = c' := h cool_setpoint
  obtain rfl : d = d' := h heat_setpoint
  obtain rfl : y = y' := h relay_y
  obtain rfl : w = w' := h relay_w
  obtain rfl : s = s' := h system_mode
  rfl

theorem ext_iff {model model' : tstat_model_t} :
    model = model' ↔ ∀ f : ModelField, f.get model = f.get model' :=
  ⟨fun h _ => h ▸ rfl, ext⟩

end ModelField

/-! ## Values -/

def readInt (v : Part) : Option Int32 := if v.type = JSMN_PRIMITIVE then some (atoiText v.text) else none

def readBool (v : Part) : Option Bool :=
  if v.type = JSMN_PRIMITIVE then
    if isName v.text "true" then some true else if isName v.text "false" then some false else none
  else none

/-- Of any type. -/
def readMode (v : Part) : Option Int32 :=
  if isName v.text "SYSTEM_MODE_OFF" then some SYSTEM_MODE_OFF
  else if isName v.text "SYSTEM_MODE_COOL" then some SYSTEM_MODE_COOL
  else if isName v.text "SYSTEM_MODE_HEAT" then some SYSTEM_MODE_HEAT
  else none

/-- The value that a field takes from a part, if it suits the field. -/
def ModelField.read : (f : ModelField) → Part → Option f.Value
  | ambient, v | cool_setpoint, v | heat_setpoint, v => readInt v
  | relay_y, v | relay_w, v => readBool v
  | system_mode, v => readMode v

/-- The field that a key hits: the first one that has the key as a prefix of its name. -/
def matched (key : List Byte) : Option ModelField := ModelField.all.find? fun f => isName key f.name

/-! ## Pairs -/

/-- The loader stops at the pair. -/
def refused (p : Part × Part) : Bool :=
  p.1.type ≠ JSMN_STRING ∨ ∃ f ∈ matched p.1.text, f.read p.2 = none

/-- The value that the pair gives to the field. -/
def given (f : ModelField) (p : Part × Part) : Option f.Value :=
  if p.1.type = JSMN_STRING ∧ matched p.1.text = some f then f.read p.2 else none

/-- What one pair does: whether the loader goes on, and the model. -/
def walkStep (p : Part × Part) (model : tstat_model_t) : Bool × tstat_model_t :=
  if p.1.type ≠ JSMN_STRING then (false, model)
  else
    match matched p.1.text with
    | none => (true, model)
    | some f => store model (f.set model) (f.read p.2)

/-- What the pairs do, up to the first that is refused. -/
def walk : List (Part × Part) → tstat_model_t → Bool × tstat_model_t
  | [], model => (true, model)
  | p :: ps, model => if (walkStep p model).1 then walk ps (walkStep p model).2 else (false, (walkStep p model).2)

/-- The pairs before the first that is refused. -/
def taken (ps : List (Part × Part)) : List (Part × Part) := ps.takeWhile fun p => ¬ refused p

/-- The last value that pairs give to a field. -/
def lastGiven (f : ModelField) (ps : List (Part × Part)) : Option f.Value := (ps.filterMap (given f)).getLast?

/-- What a field holds behind the pairs. -/
def held (f : ModelField) (ps : List (Part × Part)) (model : tstat_model_t) : f.Value :=
  (lastGiven f ps).getD (f.get model)

variable {p : Part × Part} {ps qs : List (Part × Part)} {model : tstat_model_t} {f : ModelField}

theorem matched_none_iff {key : List Byte} : matched key = none ↔ ∀ f : ModelField, ¬ isName key f.name := by
  unfold matched
  rw [List.find?_eq_none]
  constructor
  · intro h f
    apply h
    cases f <;> simp [ModelField.all]
  · intro h f _
    exact h f

theorem walkStep_eq (htype : p.1.type = JSMN_STRING) (model : tstat_model_t) :
    walkStep p model =
      if isName p.1.text "ambient" then store model (fun i => { model with ambient := i }) (readInt p.2)
      else if isName p.1.text "cool_setpoint" then
        store model (fun i => { model with cool_setpoint := i }) (readInt p.2)
      else if isName p.1.text "heat_setpoint" then
        store model (fun i => { model with heat_setpoint := i }) (readInt p.2)
      else if isName p.1.text "relay_y" then store model (fun r => { model with relay_y := r }) (readBool p.2)
      else if isName p.1.text "relay_w" then store model (fun r => { model with relay_w := r }) (readBool p.2)
      else if isName p.1.text "system_mode" then
        store model (fun i => { model with system_mode := i }) (readMode p.2)
      else (true, model) := by
  unfold walkStep matched
  rw [if_neg (not_not_intro htype)]
  simp only [ModelField.all, List.find?_cons, List.find?_nil, ModelField.name]
  cases isName p.1.text "ambient" with
  | true => rfl
  | false =>
  cases isName p.1.text "cool_setpoint" with
  | true => rfl
  | false =>
  cases isName p.1.text "heat_setpoint" with
  | true => rfl
  | false =>
  cases isName p.1.text "relay_y" with
  | true => rfl
  | false =>
  cases isName p.1.text "relay_w" with
  | true => rfl
  | false => cases isName p.1.text "system_mode" <;> rfl

theorem walkStep_unmatched (htype : p.1.type = JSMN_STRING) (h : matched p.1.text = none) (model : tstat_model_t) :
    walkStep p model = (true, model) := by
  unfold walkStep
  rw [if_neg (not_not_intro htype), h]

theorem walkStep_matched (htype : p.1.type = JSMN_STRING) (h : matched p.1.text = some f) (model : tstat_model_t) :
    walkStep p model = store model (f.set model) (f.read p.2) := by
  unfold walkStep
  rw [if_neg (not_not_intro htype), h]

theorem walkStep_fst (p : Part × Part) (model : tstat_model_t) : (walkStep p model).1 = ¬ refused p := by
  unfold walkStep refused
  by_cases htype : p.1.type = JSMN_STRING
  · cases hmatched : matched p.1.text with
    | none => simp [htype]
    | some f => cases hread : f.read p.2 <;> simp [htype, hread, store]
  · simp [htype]

theorem get_walkStep (f : ModelField) (p : Part × Part) (model : tstat_model_t) :
    f.get (walkStep p model).2 = (given f p).getD (f.get model) := by
  unfold walkStep given
  by_cases htype : p.1.type = JSMN_STRING
  · cases hmatched : matched p.1.text with
    | none => simp [htype]
    | some g =>
      by_cases hfield : g = f
      · subst hfield
        cases hread : g.read p.2 <;> simp [htype, hread, store]
      · have hother : f ≠ g := fun h => hfield h.symm
        cases hread : g.read p.2 <;> simp [htype, hfield, hread, store, ModelField.get_set_other _ hother]
  · simp [htype]

theorem given_of_refused (h : refused p) (f : ModelField) : given f p = none := by
  unfold given
  by_cases hhit : p.1.type = JSMN_STRING ∧ matched p.1.text = some f
  · rw [if_pos hhit]
    simpa [refused, hhit.1, hhit.2] using h
  · rw [if_neg hhit]

theorem given_unmatched (h : matched p.1.text = none) (f : ModelField) : given f p = none := by
  unfold given
  rw [h, if_neg (by simp)]

theorem not_refused_unmatched (h : p.1.type = JSMN_STRING ∧ matched p.1.text = none) : ¬ refused p := by
  simp [refused, h.1, h.2]

theorem lastGiven_cons (f : ModelField) (p : Part × Part) (ps : List (Part × Part)) (old : f.Value) :
    (lastGiven f (p :: ps)).getD old = (lastGiven f ps).getD ((given f p).getD old) := by
  unfold lastGiven
  cases hgiven : given f p with
  | none => simp [hgiven]
  | some x =>
    simp only [List.filterMap_cons, hgiven, List.getLast?_cons, Option.getD_some]

theorem lastGiven_isSome : (lastGiven f ps).isSome ↔ ∃ p ∈ ps, (given f p).isSome := by
  unfold lastGiven
  rw [List.getLast?_isSome, Ne, List.filterMap_eq_nil_iff]
  simp [Option.ne_none_iff_isSome]

theorem walk_append (ps qs : List (Part × Part)) (model : tstat_model_t) :
    walk (ps ++ qs) model = if (walk ps model).1 then walk qs (walk ps model).2 else walk ps model := by
  induction ps generalizing model with
  | nil => rfl
  | cons p ps ih =>
    rw [List.cons_append, walk, walk]
    by_cases hstep : (walkStep p model).1
    · rw [if_pos hstep, if_pos hstep]
      exact ih _
    · rw [if_neg hstep, if_neg hstep]
      rfl

theorem walk_fst (ps : List (Part × Part)) (model : tstat_model_t) :
    (walk ps model).1 = ps.all fun p => ¬ refused p := by
  induction ps generalizing model with
  | nil => rfl
  | cons p ps ih =>
    have hstep := walkStep_fst p model
    unfold walk
    cases hrefused : refused p with
    | true => simp_all
    | false => simp_all

theorem get_walk (f : ModelField) (ps : List (Part × Part)) (model : tstat_model_t) :
    f.get (walk ps model).2 = (lastGiven f (taken ps)).getD (f.get model) := by
  induction ps generalizing model with
  | nil => rfl
  | cons p ps ih =>
    have hstep := walkStep_fst p model
    have hget := get_walkStep f p model
    unfold walk taken
    cases hrefused : refused p with
    | true =>
      rw [hrefused] at hstep
      rw [if_neg (by simpa using hstep), hget, given_of_refused hrefused,
        List.takeWhile_cons_of_neg (by simp [hrefused])]
      rfl
    | false =>
      rw [hrefused] at hstep
      rw [if_pos (by simpa using hstep), ih, List.takeWhile_cons_of_pos (by simp [hrefused]), lastGiven_cons, hget]
      rfl

theorem taken_eq (h : ∀ p ∈ ps, ¬ refused p) : taken ps = ps := by
  unfold taken
  rw [List.takeWhile_eq_self_iff]
  simpa using h

/-- From two models the walk ends in the same one if it overwrites all they differ in. -/
theorem walk_eq_iff (ps : List (Part × Part)) (model model' : tstat_model_t) :
    walk ps model = walk ps model' ↔
      ∀ f : ModelField, f.get model = f.get model' ∨ ∃ p ∈ taken ps, (given f p).isSome := by
  have hfst : (walk ps model).1 = (walk ps model').1 := by
    apply Bool.eq_iff_iff.mpr
    rw [walk_fst, walk_fst]
  rw [Prod.ext_iff, and_iff_right hfst, ModelField.ext_iff]
  refine forall_congr' fun f => ?_
  rw [get_walk, get_walk, ← lastGiven_isSome]
  cases lastGiven f (taken ps) with
  | none => simp
  | some x => simp

theorem walk_refused (h : ∃ p ∈ ps, refused p) (qs : List (Part × Part)) (model : tstat_model_t) :
    walk (ps ++ qs) model = walk ps model := by
  have hfst : (walk ps model).1 = false := by
    apply Bool.eq_false_iff.mpr
    rw [Ne, walk_fst]
    simpa using h
  rw [walk_append, if_neg (by simp [hfst])]

theorem walk_accepted (h : ∀ p ∈ ps, ¬ refused p) (qs : List (Part × Part)) (model : tstat_model_t) :
    walk (ps ++ qs) model = walk qs (walk ps model).2 := by
  have hfst : (walk ps model).1 = true := by
    rw [walk_fst]
    simpa using h
  rw [walk_append, if_pos hfst]

theorem get_accepted (h : ∀ p ∈ ps, ¬ refused p) (f : ModelField) (model : tstat_model_t) :
    f.get (walk ps model).2 = held f ps model := by
  rw [get_walk, taken_eq h]
  rfl

theorem walk_values_iff (ps : List (Part × Part)) (model model' : tstat_model_t) :
    walk ps model = (true, model') ↔ (∀ p ∈ ps, ¬ refused p) ∧ ∀ f : ModelField, held f ps model = f.get model' := by
  have hfst : (walk ps model).1 = true ↔ ∀ p ∈ ps, ¬ refused p := by
    rw [walk_fst]
    simp
  rw [Prod.ext_iff, hfst, ModelField.ext_iff]
  refine and_congr_right fun haccepted => forall_congr' fun f => ?_
  rw [get_accepted haccepted]

theorem walk_stop_iff (ps : List (Part × Part)) (model : tstat_model_t) :
    walk ps model = (false, model) ↔
      (∃ p ∈ ps, refused p) ∧ ∀ f : ModelField, ∀ x ∈ lastGiven f (taken ps), x = f.get model := by
  have hfst : (walk ps model).1 = false ↔ ∃ p ∈ ps, refused p := by
    rw [← Bool.not_eq_true, walk_fst]
    simp
  rw [Prod.ext_iff, hfst, ModelField.ext_iff]
  refine and_congr_right fun _ => forall_congr' fun f => ?_
  rw [get_walk]
  cases lastGiven f (taken ps) with
  | none => simp
  | some x => simp

end ToyTstat.Model
