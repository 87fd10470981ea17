import ToyTstat.Code.TstatModel

/-!
# What a text does to any model

The loader writes to the model and never reads it. So a text is a patch: it sets the same fields to the
same values in every model, and is accepted for all models or for none.
-/

open CLib ToyTstat.Code ToyTstat.Code.jsmntype_t

namespace ToyTstat.Model

/-! ## Patches -/

/-- The fields that are set. -/
structure Patch where
  ambient : Option Int32 := none
  cool_setpoint : Option Int32 := none
  heat_setpoint : Option Int32 := none
  relay_y : Option Bool := none
  relay_w : Option Bool := none
  system_mode : Option Int32 := none
deriving DecidableEq, Repr

namespace Patch

variable {p q : Patch} {model : tstat_model_t}

def apply (p : Patch) (model : tstat_model_t) : tstat_model_t where
  ambient := p.ambient.getD model.ambient
  cool_setpoint := p.cool_setpoint.getD model.cool_setpoint
  heat_setpoint := p.heat_setpoint.getD model.heat_setpoint
  relay_y := p.relay_y.getD model.relay_y
  relay_w := p.relay_w.getD model.relay_w
  system_mode := p.system_mode.getD model.system_mode

/-- The later patch counts. -/
def andThen (p q : Patch) : Patch where
  ambient := q.ambient.or p.ambient
  cool_setpoint := q.cool_setpoint.or p.cool_setpoint
  heat_setpoint := q.heat_setpoint.or p.heat_setpoint
  relay_y := q.relay_y.or p.relay_y
  relay_w := q.relay_w.or p.relay_w
  system_mode := q.system_mode.or p.system_mode

theorem getD_getD {α : Type} (x : Option α) (d : α) : x.getD (x.getD d) = x.getD d := by
  cases x <;> rfl

theorem apply_andThen (p q : Patch) (model : tstat_model_t) : (p.andThen q).apply model = q.apply (p.apply model) := by
  simp only [apply, andThen, Option.getD_or]

theorem apply_apply (p : Patch) (model : tstat_model_t) : p.apply (p.apply model) = p.apply model := by
  simp only [apply, getD_getD]

end Patch

/-- The operation does not look at the model. -/
def Blind (f : tstat_model_t → Option (Bool × tstat_model_t)) : Prop :=
  (∀ model, f model = none) ∨ ∃ ok, ∃ patch : Patch, ∀ model, f model = some (ok, patch.apply model)

variable {f g : tstat_model_t → Option (Bool × tstat_model_t)}

theorem blind_leaves (ok : Bool) : Blind fun model => some (ok, model) := .inr ⟨ok, {}, fun _ => rfl⟩

theorem blind_none : Blind fun _ => none := .inl fun _ => rfl

theorem blind_bind {α : Type} {x : Option α} {f : α → tstat_model_t → Option (Bool × tstat_model_t)}
    (hf : ∀ a, x = some a → Blind (f a)) : Blind fun model => x.bind fun a => f a model := by
  cases x with
  | none => exact blind_none
  | some a => exact hf a rfl

theorem blind_if {c : Prop} [Decidable c] (hf : Blind f) (hg : Blind g) :
    Blind fun model => if c then f model else g model := by
  by_cases h : c
  · simpa only [if_pos h] using hf
  · simpa only [if_neg h] using hg

theorem blind_store {α : Type} (x : Option (Option α)) {set : tstat_model_t → α → tstat_model_t} (patch : α → Patch)
    (hset : ∀ model value, set model value = (patch value).apply model) :
    Blind fun model => x.map (store model (set model)) := by
  cases x with
  | none => exact blind_none
  | some x =>
    cases x with
    | none => exact blind_leaves false
    | some value => exact .inr ⟨true, patch value, fun model => congrArg (fun m => some (true, m)) (hset model value)⟩

theorem blind_andThen (hf : Blind f) (hg : Blind g) :
    Blind fun model => (f model).bind fun r => if r.1 then g r.2 else some (false, r.2) := by
  rcases hf with hnone | ⟨ok, p, hp⟩
  · refine .inl fun model => ?_
    simp only [hnone, Option.bind_none]
  simp only [hp, Option.bind_some]
  cases ok with
  | false => exact .inr ⟨false, p, fun _ => rfl⟩
  | true =>
    rcases hg with hnone | ⟨ok, q, hq⟩
    · exact .inl fun model => hnone _
    · refine .inr ⟨ok, p.andThen q, fun model => ?_⟩
      rw [p.apply_andThen]
      exact hq _

/-! ## The loader -/

variable {json : List Byte}

theorem load_member_blind (json : List Byte) (key value : jsmntok_t) : Blind (load_member json key value) := by
  unfold load_member
  refine blind_if (blind_leaves false) ?_
  refine blind_bind fun _ _ => blind_if (blind_store _ (fun i => { ambient := some i }) fun _ _ => rfl) ?_
  refine blind_bind fun _ _ => blind_if (blind_store _ (fun i => { cool_setpoint := some i }) fun _ _ => rfl) ?_
  refine blind_bind fun _ _ => blind_if (blind_store _ (fun i => { heat_setpoint := some i }) fun _ _ => rfl) ?_
  refine blind_bind fun _ _ => blind_if (blind_store _ (fun b => { relay_y := some b }) fun _ _ => rfl) ?_
  refine blind_bind fun _ _ => blind_if (blind_store _ (fun b => { relay_w := some b }) fun _ _ => rfl) ?_
  refine blind_bind fun _ _ => blind_if (blind_store _ (fun i => { system_mode := some i }) fun _ _ => rfl) ?_
  exact blind_leaves true

theorem load_loop_blind (json : List Byte) (tokens : List jsmntok_t) (left i : Nat) :
    Blind (load_loop json tokens left i) := by
  -- the tokens are those that the parser has filled
  induction left generalizing i with
  | zero => exact blind_leaves true
  | succ left ih =>
    refine blind_bind fun key _ => blind_bind fun value _ => ?_
    exact blind_andThen (load_member_blind json key value) (ih (i + 2))

theorem load_blind (fuel : Nat) (json : List Byte) : Blind fun model => tstat_model_load_json fuel model json := by
  unfold tstat_model_load_json
  refine blind_bind fun len _ => blind_bind fun parsed _ => ?_
  refine blind_if (blind_leaves false) (blind_bind fun tokens _ => blind_bind fun token _ => ?_)
  exact blind_if (blind_leaves false) (blind_if (blind_leaves false) (load_loop_blind json tokens _ 1))

/-- If one load of the text returns, every load of it returns the same, and sets the same fields to the same values. A
second load of it changes nothing. -/
theorem load_is_patch {fuel : Nat} {json : List Byte} {start after : tstat_model_t} {ok : Bool}
    (h : tstat_model_load_json fuel start json = some (ok, after)) :
    ∃ patch : Patch, ∀ model,
      tstat_model_load_json fuel model json = some (ok, patch.apply model) ∧
      tstat_model_load_json fuel (patch.apply model) json = some (ok, patch.apply model) := by
  rcases load_blind fuel json with hnone | ⟨ok', patch, hload⟩
  · cases (hnone start).symm.trans h
  · obtain ⟨rfl, -⟩ := Prod.mk.inj (Option.some.inj ((hload start).symm.trans h))
    refine ⟨patch, fun model => ⟨hload model, (hload (patch.apply model)).trans ?_⟩⟩
    rw [patch.apply_apply]

/-- The load stops at the second member, after the first has been stored. -/
theorem load_is_patch_half_way :
    ∃ patch : Patch, ∀ model,
      tstat_model_load_json 100 model (ascii "\x7b\"ambient\":9,\"relay_y\":5\x7d" ++ [0]) =
        some (false, patch.apply model) ∧
      tstat_model_load_json 100 (patch.apply model) (ascii "\x7b\"ambient\":9,\"relay_y\":5\x7d" ++ [0]) =
        some (false, patch.apply model) :=
  load_is_patch (show tstat_model_load_json 100 ⟨1, 2, 3, false, false, SYSTEM_MODE_OFF⟩ _ =
    some (false, ⟨9, 2, 3, false, false, SYSTEM_MODE_OFF⟩) by decide +kernel)

end ToyTstat.Model
