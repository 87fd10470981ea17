import ToyTstat.Code.TstatModel

/-!
# What a failed load leaves

The loader writes to the model as it walks, so a load that fails half way keeps what the members
before the failing one have set.
-/

open CLib ToyTstat.Code ToyTstat.Code.jsmntype_t

namespace ToyTstat.Model

/-- The tokens of the keys, each with the token after it. -/
def tokenPairs : List jsmntok_t → List (jsmntok_t × jsmntok_t)
  | key :: value :: tokens => (key, value) :: tokenPairs tokens
  | _ => []

/-- The model after members that are all accepted. -/
def accepted (json : List Byte) : List (jsmntok_t × jsmntok_t) → tstat_model_t → Option tstat_model_t
  | [], model => some model
  | (key, value) :: members, model =>
    (load_member json key value model).bind fun (goesOn, model) => if goesOn then accepted json members model else none

/-- The walk over `members` stops at one of them that is refused. The ones before it have been
accepted, and it does not change the model. -/
def StopsAt (json : List Byte) (members : List (jsmntok_t × jsmntok_t)) (model model' : tstat_model_t) : Prop :=
  ∃ before key value after, members = before ++ (key, value) :: after ∧ accepted json before model = some model' ∧
    load_member json key value model' = some (false, model')

/-! ## What one member can do -/

/-- A member that sets a field gives it some value that `update` accepts. -/
inductive Written (model : tstat_model_t) : tstat_model_t → Prop
  | ambient (i : Int32) : Written model { model with ambient := i }
  | cool_setpoint (i : Int32) : Written model { model with cool_setpoint := i }
  | heat_setpoint (i : Int32) : Written model { model with heat_setpoint := i }
  | relay_y (b : Bool) : Written model { model with relay_y := b }
  | relay_w (b : Bool) : Written model { model with relay_w := b }
  | system_mode (i : Int32) : i ∈ sys_values → Written model { model with system_mode := i }

theorem bind_if {α : Type} {x : Option Bool} {y z : Option α} {r : α}
    (h : (x.bind fun b => if b then y else z) = some r) : y = some r ∨ z = some r := by
  obtain ⟨b, -, h⟩ := Option.bind_eq_some_iff.mp h
  cases b with
  | true => exact Or.inl h
  | false => exact Or.inr h

theorem store_cases {α : Type} {model : tstat_model_t} {set : α → tstat_model_t} {x : Option (Option α)}
    {r : Bool × tstat_model_t} (h : x.map (store model set) = some r) :
    r = (false, model) ∨ ∃ value, x = some (some value) ∧ r = (true, set value) := by
  obtain ⟨value, hx, rfl⟩ := Option.map_eq_some_iff.mp h
  cases value with
  | none => exact Or.inl rfl
  | some value => exact Or.inr ⟨value, hx, rfl⟩

theorem update_enum_loop_mem {json : List Byte} {token : jsmntok_t} {len : Nat} {names : List (String × Int32)}
    {value : Int32} (h : update_enum_loop json token len names = some (some value)) :
    ∃ name, (name, value) ∈ names := by
  induction names with
  | nil => cases h
  | cons entry names ih =>
    obtain ⟨name, value'⟩ := entry
    rcases bind_if h with h | h
    · cases h
      exact ⟨name, List.mem_cons_self⟩
    · obtain ⟨name, hmem⟩ := ih h
      exact ⟨name, List.mem_cons_of_mem _ hmem⟩

theorem update_enum_mem {json : List Byte} {token : jsmntok_t} {names : List String} {values : List Int32}
    {value : Int32} (h : update_enum json token names values = some (some value)) : value ∈ values := by
  obtain ⟨len, -, h⟩ := Option.bind_eq_some_iff.mp h
  obtain ⟨name, hmem⟩ := update_enum_loop_mem h
  exact (List.of_mem_zip hmem).2

theorem load_member_cases {json : List Byte} {key value : jsmntok_t} {model : tstat_model_t} {r : Bool × tstat_model_t}
    (h : load_member json key value model = some r) :
    r = (false, model) ∨ r = (true, model) ∨ ∃ model', r = (true, model') ∧ Written model model' := by
  by_cases htype : key.type ≠ JSMN_STRING
  · rw [load_member, if_pos htype] at h
    exact Or.inl (Option.some.inj h).symm
  have hstore {α : Type} {set : α → tstat_model_t} {x : Option (Option α)} (h : x.map (store model set) = some r)
      (hset : ∀ value, x = some (some value) → Written model (set value)) :
      r = (false, model) ∨ r = (true, model) ∨ ∃ model', r = (true, model') ∧ Written model model' := by
    rcases store_cases h with h | ⟨value, hx, h⟩
    · exact Or.inl h
    · exact Or.inr (Or.inr ⟨_, h, hset value hx⟩)
  rw [load_member, if_neg htype] at h
  rcases bind_if h with h | h
  · exact hstore h fun i _ => .ambient i
  rcases bind_if h with h | h
  · exact hstore h fun i _ => .cool_setpoint i
  rcases bind_if h with h | h
  · exact hstore h fun i _ => .heat_setpoint i
  rcases bind_if h with h | h
  · exact hstore h fun b _ => .relay_y b
  rcases bind_if h with h | h
  · exact hstore h fun b _ => .relay_w b
  rcases bind_if h with h | h
  · exact hstore h fun i hi => .system_mode i (update_enum_mem hi)
  · exact Or.inr (Or.inl (Option.some.inj h).symm)

theorem load_member_false {json : List Byte} {key value : jsmntok_t} {model model' : tstat_model_t}
    (h : load_member json key value model = some (false, model')) : model' = model := by
  rcases load_member_cases h with h | h | ⟨_, h, -⟩
  · exact (Prod.mk.inj h).2
  · cases (Prod.mk.inj h).1
  · cases (Prod.mk.inj h).1

/-! ## Where the walk stops -/

theorem load_loop_stops {json : List Byte} {tokens : List jsmntok_t} {left i : Nat} {model model' : tstat_model_t}
    (h : load_loop json tokens left i model = some (false, model')) :
    StopsAt json (tokenPairs (tokens.drop i)) model model' := by
  induction left generalizing i model with
  | zero => cases h
  | succ left ih =>
    obtain ⟨key, hkey, h⟩ := Option.bind_eq_some_iff.mp h
    obtain ⟨value, hvalue, h⟩ := Option.bind_eq_some_iff.mp h
    obtain ⟨⟨goesOn, model₁⟩, hmember, h⟩ := Option.bind_eq_some_iff.mp h
    have hpairs : tokenPairs (tokens.drop i) = (key, value) :: tokenPairs (tokens.drop (i + 2)) := by
      obtain ⟨hi, rfl⟩ := List.getElem?_eq_some_iff.mp hkey
      obtain ⟨hi', rfl⟩ := List.getElem?_eq_some_iff.mp hvalue
      rw [List.drop_eq_getElem_cons hi, List.drop_eq_getElem_cons hi', tokenPairs]
    rw [hpairs]
    cases goesOn with
    | true =>
      obtain ⟨before, key', value', after, hsplit, hbefore, hlast⟩ := ih h
      refine ⟨(key, value) :: before, key', value', after, by rw [hsplit, List.cons_append], ?_, hlast⟩
      rw [accepted, hmember, Option.bind_some]
      exact hbefore
    | false =>
      obtain rfl := (Prod.mk.inj (Option.some.inj h)).2
      obtain rfl := load_member_false hmember
      exact ⟨[], key, value, _, rfl, rfl, hmember⟩

/-- The text is refused as a whole and the model is left alone, or the walk stops at a member. -/
def FailedLoad (fuel : Nat) (json : List Byte) (model model' : tstat_model_t) : Prop :=
  ∃ len result parser tokens, strlen json = some len ∧
    jsmn_parse fuel jsmn_init json len (some []) MAX_JSMN_TOKENS = some (result, parser, tokens) ∧
    ((model' = model ∧ (result < 1 ∨ (∃ token, tokens.bind (·[0]?) = some token ∧ token.type ≠ JSMN_OBJECT) ∨
        ¬ is_odd result)) ∨
      ∃ ts, tokens = some ts ∧ StopsAt json (tokenPairs (ts.drop 1)) model model')

theorem load_null {fuel : Nat} {model model' : tstat_model_t} {json : List Byte}
    (h : tstat_model_load_json fuel model json = some (false, model')) : FailedLoad fuel json model model' := by
  obtain ⟨len, hlen, h⟩ := Option.bind_eq_some_iff.mp h
  obtain ⟨⟨result, parser, tokens⟩, hparse, h⟩ := Option.bind_eq_some_iff.mp h
  refine ⟨len, result, parser, tokens, hlen, hparse, ?_⟩
  dsimp only at h
  by_cases hresult : result < 1
  · rw [if_pos hresult] at h
    exact Or.inl ⟨(Prod.mk.inj (Option.some.inj h)).2.symm, Or.inl hresult⟩
  rw [if_neg hresult] at h
  obtain ⟨ts, rfl, hwalk⟩ := Option.bind_eq_some_iff.mp h
  obtain ⟨token, htoken, hwalk⟩ := Option.bind_eq_some_iff.mp hwalk
  by_cases htype : token.type ≠ JSMN_OBJECT
  · rw [if_pos htype] at hwalk
    exact Or.inl ⟨(Prod.mk.inj (Option.some.inj hwalk)).2.symm, Or.inr (Or.inl ⟨token, htoken, htype⟩)⟩
  rw [if_neg htype] at hwalk
  by_cases hodd : ¬ is_odd result
  · rw [if_pos hodd] at hwalk
    exact Or.inl ⟨(Prod.mk.inj (Option.some.inj hwalk)).2.symm, Or.inr (Or.inr hodd)⟩
  · rw [if_neg hodd] at hwalk
    exact Or.inr ⟨ts, rfl, load_loop_stops hwalk⟩

theorem load_half_way :
    tstat_model_load_json 100 ⟨1, 2, 3, false, false, SYSTEM_MODE_OFF⟩
        (ascii "\x7b\"ambient\":9,\"relay_y\":5\x7d" ++ [0]) =
      some (false, ⟨9, 2, 3, false, false, SYSTEM_MODE_OFF⟩) := by
  decide +kernel

theorem load_null_half_way :
    FailedLoad 100 (ascii "\x7b\"ambient\":9,\"relay_y\":5\x7d" ++ [0]) ⟨1, 2, 3, false, false, SYSTEM_MODE_OFF⟩
      ⟨9, 2, 3, false, false, SYSTEM_MODE_OFF⟩ :=
  load_null load_half_way

/-- The second member is refused after the first has been stored. -/
theorem load_not_atomic :
    ¬ ∀ fuel model json model', tstat_model_load_json fuel model json = some (false, model') → model' = model := by
  intro h
  exact absurd (h _ _ _ _ load_half_way) (by decide)

end ToyTstat.Model
