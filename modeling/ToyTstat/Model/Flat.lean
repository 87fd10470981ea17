import ToyTstat.Model.Walk

/-!
# Loading a flat object

The loader walks over the members of an object without nested values. It updates the model member by
member, up to the first one whose value does not suit its key.
-/

open CLib ToyTstat.Code ToyTstat.Code.jsmntype_t ToyTstat.Jsmn

namespace ToyTstat.Model

/-! ## Members -/

/-- A value that is not a container. A string is held without its quotes. -/
inductive Scalar
  | prim (a : List Byte)
  | str (body : List Byte)

def Scalar.body : Scalar → List Byte
  | .prim a => a
  | .str body => body

def Scalar.doc : Scalar → Doc
  | .prim a => .prim a
  | .str body => .str body

def Scalar.type : Scalar → jsmntype_t
  | .prim _ => JSMN_PRIMITIVE
  | .str _ => JSMN_STRING

def Scalar.part (v : Scalar) : Part := ⟨v.type, v.body⟩

def intValue : Scalar → Option Int32
  | .prim a => some (atoiText a)
  | .str _ => none

def boolValue : Scalar → Option Bool
  | .prim a => if isName a "true" then some true else if isName a "false" then some false else none
  | .str _ => none

def enumValue (v : Scalar) : Option Int32 :=
  if isName v.body "SYSTEM_MODE_OFF" then some SYSTEM_MODE_OFF
  else if isName v.body "SYSTEM_MODE_COOL" then some SYSTEM_MODE_COOL
  else if isName v.body "SYSTEM_MODE_HEAT" then some SYSTEM_MODE_HEAT
  else none

/-- What one member does: whether the loader goes on, and the model. -/
def update (key : List Byte) (v : Scalar) (model : tstat_model_t) : Bool × tstat_model_t :=
  if isName key "ambient" then store model (fun i => { model with ambient := i }) (intValue v)
  else if isName key "cool_setpoint" then store model (fun i => { model with cool_setpoint := i }) (intValue v)
  else if isName key "heat_setpoint" then store model (fun i => { model with heat_setpoint := i }) (intValue v)
  else if isName key "relay_y" then store model (fun r => { model with relay_y := r }) (boolValue v)
  else if isName key "relay_w" then store model (fun r => { model with relay_w := r }) (boolValue v)
  else if isName key "system_mode" then store model (fun i => { model with system_mode := i }) (enumValue v)
  else (true, model)

/-- What the members do, up to the first that fails. -/
def updates : List (List Byte × Scalar) → tstat_model_t → Bool × tstat_model_t
  | [], model => (true, model)
  | (key, v) :: members, model =>
    if (update key v model).1 then updates members (update key v model).2 else (false, (update key v model).2)

/-! ## Names -/

theorem name_body {name : String} (h : name ∈ names) : StringBody (ascii name) :=
  plain_body fun _ hc => (name_byte h hc).2

/-! ## The walk -/

abbrev FlatMember := Padded (List Byte) × Padded Scalar

def flatMembers (ms : List FlatMember) : List (Padded (List Byte) × Padded Doc) :=
  ms.map fun (k, v) => (k, ⟨v.before, v.item.doc, v.after⟩)

theorem flatMembers_sublist {ms ms' : List FlatMember} (h : ms.Sublist ms') :
    (flatMembers ms).Sublist (flatMembers ms') :=
  h.map _

def pairs (ms : List FlatMember) : List (List Byte × Scalar) := ms.map fun (k, v) => (k.item, v.item)

/-- A member as the loader sees it. -/
def memberPair (m : List Byte × Scalar) : Part × Part := (⟨JSMN_STRING, m.1⟩, m.2.part)

theorem readInt_part (v : Scalar) : readInt v.part = intValue v := by
  cases v <;> rfl

theorem readBool_part (v : Scalar) : readBool v.part = boolValue v := by
  cases v <;> rfl

theorem update_eq_walkStep (m : List Byte × Scalar) (model : tstat_model_t) :
    update m.1 m.2 model = walkStep (memberPair m) model := by
  rw [walkStep_eq rfl]
  unfold memberPair update
  rw [readInt_part, readBool_part]
  rfl

theorem updates_eq_walk (ms : List (List Byte × Scalar)) (model : tstat_model_t) :
    updates ms model = walk (ms.map memberPair) model := by
  induction ms generalizing model with
  | nil => rfl
  | cons m ms ih =>
    rw [updates, update_eq_walkStep, ih]
    rfl

theorem Scalar.doc_parts (v : Scalar) : v.doc.parts = [v.part] := by
  cases v <;> rfl

theorem flat_single (ms : List FlatMember) : ∀ m ∈ flatMembers ms, m.2.item.count = 1 := by
  unfold flatMembers
  rw [List.forall_mem_map]
  rintro ⟨k, b, v, a⟩ _
  cases v <;> rfl

theorem flat_pairs (ms : List FlatMember) : pairUp (membersParts (flatMembers ms)) = (pairs ms).map memberPair := by
  rw [pairUp_single (flat_single ms), flatMembers, pairs, List.map_map, List.map_map]
  apply List.map_congr_left
  rintro ⟨k, b, v, a⟩ _
  cases v <;> rfl

theorem membersCount_flat (ms : List FlatMember) : membersCount (flatMembers ms) = 2 * ms.length := by
  rw [membersCount_single (flat_single ms), flatMembers, List.length_map]

theorem load_flat (before : List Byte) {pad : List Byte} (after : List Byte) {ms : List FlatMember}
    (hbefore : Spaces before) (hpad : Spaces pad) (hafter : Spaces after) (hms : membersOk (flatMembers ms))
    (hsix : ms.length ≤ 6)
    (hmax : (before ++ (Doc.obj pad (flatMembers ms)).text ++ after).length < 2 ^ 31) (junk : List Byte) (fuel : Nat)
    (hfuel : (before ++ (Doc.obj pad (flatMembers ms)).text ++ after).length + 1 < fuel) (model : tstat_model_t) :
    tstat_model_load_json fuel model (before ++ (Doc.obj pad (flatMembers ms)).text ++ after ++ 0 :: junk) =
      some (updates (pairs ms) model) := by
  have hcount := membersCount_flat ms
  have hroom : membersCount (flatMembers ms) + 1 ≤ MAX_JSMN_TOKENS ∧ membersCount (flatMembers ms) % 2 = 0 := by
    rw [MAX_JSMN_TOKENS]
    omega
  rw [load_object before after hbefore hpad hafter hms hmax junk fuel hfuel, if_pos hroom, flat_pairs, updates_eq_walk]

end ToyTstat.Model
