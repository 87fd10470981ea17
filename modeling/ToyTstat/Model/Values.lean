import ToyTstat.Model.Settings

/-!
# Values of the wrong type

The integer fields take any primitive, as `atoi` reads it. The other fields compare only as much of a
name as the value is long, and the mode does so without a look at the type.
-/

open CLib ToyTstat.Code ToyTstat.Code.jsmntype_t ToyTstat.Jsmn

namespace ToyTstat.Model

/-! ## Values for a field -/

def boolName (b : Bool) : String := if b then "true" else "false"

namespace ModelField

/-- The value is what the field should hold, and says `x`. -/
def Suits : (f : ModelField) → Doc → f.Value → Prop
  | ambient, v, i | cool_setpoint, v, i | heat_setpoint, v, i => ∃ a, v = .prim a ∧ Numeral a i.toInt
  | relay_y, v, b | relay_w, v, b => v = .prim (ascii (boolName b))
  | system_mode, v, i => ∃ mode : Mode, v = .str (ascii mode.name) ∧ i = mode.value

/-- The value does not suit the field and is taken anyway: a primitive that is no integer in range, a
proper prefix of `true` or `false`, or a prefix of a mode name that is no string with the whole name. -/
def Slips : ModelField → Doc → Prop
  | ambient, v | cool_setpoint, v | heat_setpoint, v => ∃ a, v = .prim a ∧ ∀ i : Int32, ¬ Numeral a i.toInt
  | relay_y, v | relay_w, v => ∃ a, v = .prim a ∧ ∃ b, a <+: ascii (boolName b) ∧ a ≠ ascii (boolName b)
  | system_mode, v =>
    (∃ a, (v = .prim a ∨ v = .str a) ∧ ∃ mode : Mode, a <+: ascii mode.name) ∧
      ∀ mode : Mode, v ≠ .str (ascii mode.name)

end ModelField

variable {f : ModelField} {v : Doc}

theorem numeral_chars {s : List Byte} {i : Int} (h : Numeral s i) : ∀ c ∈ s, isDigit c ∨ c = ch '-' := by
  cases h with
  | pos _ hs => exact fun c hc => .inl (hs c hc)
  | neg _ hs =>
    intro c hc
    obtain rfl | hc := List.mem_cons.mp hc
    · exact .inr rfl
    · exact .inl (hs c hc)

theorem isName_iff {text : List Byte} {name : String} : isName text name = true ↔ text <+: ascii name :=
  List.isPrefixOf_iff_prefix

theorem readInt_isSome_iff :
    (readInt v.firstPart).isSome ↔
      (∃ i : Int32, ∃ a, v = .prim a ∧ Numeral a i.toInt) ∨ ∃ a, v = .prim a ∧ ∀ i : Int32, ¬ Numeral a i.toInt := by
  cases v with
  | prim a =>
    by_cases h : ∃ i : Int32, Numeral a i.toInt
    · obtain ⟨i, hi⟩ := h
      exact ⟨fun _ => .inl ⟨i, a, rfl, hi⟩, fun _ => rfl⟩
    · rw [not_exists] at h
      exact ⟨fun _ => .inr ⟨a, rfl, h⟩, fun _ => rfl⟩
  | str body => simp [Doc.firstPart, readInt]
  | arr pad is => simp [Doc.firstPart, readInt]
  | obj pad ms => simp [Doc.firstPart, readInt]

theorem boolName_apart : ∀ b b' : Bool, ascii (boolName b) <+: ascii (boolName b') → b = b' := by
  decide +kernel

theorem readBool_prim {a : List Byte} :
    (readBool ⟨JSMN_PRIMITIVE, a⟩).isSome ↔ ∃ b, a <+: ascii (boolName b) := by
  simp only [readBool, if_true, Bool.exists_bool, boolName, ← isName_iff]
  cases htrue : isName a "true" <;> simp

theorem readBool_isSome_iff :
    (readBool v.firstPart).isSome ↔
      (∃ b, v = .prim (ascii (boolName b))) ∨
        ∃ a, v = .prim a ∧ ∃ b, a <+: ascii (boolName b) ∧ a ≠ ascii (boolName b) := by
  cases v with
  | prim a =>
    rw [Doc.firstPart, readBool_prim]
    constructor
    · rintro ⟨b, hb⟩
      by_cases h : a = ascii (boolName b)
      · exact .inl ⟨b, by rw [h]⟩
      · exact .inr ⟨a, rfl, b, hb, h⟩
    · rintro (⟨b, hb⟩ | ⟨a', ha', b, hb, -⟩)
      · injection hb with hb
        exact ⟨b, hb ▸ List.prefix_rfl⟩
      · injection ha' with ha'
        exact ⟨b, ha' ▸ hb⟩
  | str body => simp [Doc.firstPart, readBool]
  | arr pad is => simp [Doc.firstPart, readBool]
  | obj pad ms => simp [Doc.firstPart, readBool]

theorem exists_mode {p : Mode → Prop} : (∃ mode, p mode) ↔ p .off ∨ p .cool ∨ p .heat := by
  constructor
  · rintro ⟨mode, h⟩
    cases mode with
    | off => exact .inl h
    | cool => exact .inr (.inl h)
    | heat => exact .inr (.inr h)
  · rintro (h | h | h)
    · exact ⟨.off, h⟩
    · exact ⟨.cool, h⟩
    · exact ⟨.heat, h⟩

theorem readMode_isSome {p : Part} : (readMode p).isSome ↔ ∃ mode : Mode, p.text <+: ascii mode.name := by
  simp only [readMode, exists_mode, Mode.name, ← isName_iff]
  cases isName p.text "SYSTEM_MODE_OFF" <;> cases isName p.text "SYSTEM_MODE_COOL" <;>
    cases isName p.text "SYSTEM_MODE_HEAT" <;> simp

theorem mode_starts {c : Byte} {s : List Byte} {mode : Mode} (h : c :: s <+: ascii mode.name) : c = ch 'S' := by
  cases mode <;> exact (List.cons_prefix_cons.mp h).1

theorem readMode_isSome_iff :
    (readMode v.firstPart).isSome ↔
      (∃ i, ∃ mode : Mode, v = .str (ascii mode.name) ∧ i = mode.value) ∨
        (∃ a, (v = .prim a ∨ v = .str a) ∧ ∃ mode : Mode, a <+: ascii mode.name) ∧
          ∀ mode : Mode, v ≠ .str (ascii mode.name) := by
  by_cases hname : ∃ mode : Mode, v = .str (ascii mode.name)
  · obtain ⟨mode, rfl⟩ := hname
    rw [readMode_isSome]
    exact ⟨fun _ => .inl ⟨_, mode, rfl, rfl⟩, fun _ => ⟨mode, List.prefix_rfl⟩⟩
  · have hnone : ¬ ∃ i, ∃ mode : Mode, v = .str (ascii mode.name) ∧ i = mode.value := by
      rintro ⟨_, mode, hmode, -⟩
      exact hname ⟨mode, hmode⟩
    rw [readMode_isSome, or_iff_right hnone, and_iff_left (not_exists.mp hname)]
    cases v with
    | prim a => simp [Doc.firstPart]
    | str body => simp [Doc.firstPart]
    | arr pad is =>
      constructor
      · rintro ⟨mode, hmode⟩
        exact absurd (mode_starts hmode) (by decide)
      · rintro ⟨a, h | h, -⟩ <;> cases h
    | obj pad ms =>
      constructor
      · rintro ⟨mode, hmode⟩
        exact absurd (mode_starts hmode) (by decide)
      · rintro ⟨a, h | h, -⟩ <;> cases h

namespace ModelField

theorem read_isSome_iff : (f.read v.firstPart).isSome ↔ (∃ x, f.Suits v x) ∨ f.Slips v := by
  cases f with
  | ambient => exact readInt_isSome_iff
  | cool_setpoint => exact readInt_isSome_iff
  | heat_setpoint => exact readInt_isSome_iff
  | relay_y => exact readBool_isSome_iff
  | relay_w => exact readBool_isSome_iff
  | system_mode => exact readMode_isSome_iff

theorem read_suits {x : f.Value} (h : f.Suits v x) : f.read v.firstPart = some x := by
  have hint {i : Int32} (h : ∃ a, v = .prim a ∧ Numeral a i.toInt) : readInt v.firstPart = some i := by
    obtain ⟨a, rfl, ha⟩ := h
    exact Setting.intValue_eq ⟨a, i, ha⟩
  have hbool {b : Bool} (h : v = .prim (ascii (boolName b))) : readBool v.firstPart = some b := by
    rw [h]
    exact Setting.boolValue_eq b
  cases f with
  | ambient => exact hint h
  | cool_setpoint => exact hint h
  | heat_setpoint => exact hint h
  | relay_y => exact hbool h
  | relay_w => exact hbool h
  | system_mode =>
    obtain ⟨mode, rfl, rfl⟩ := h
    exact Setting.enumValue_eq mode

theorem slips_not_suits (h : f.Slips v) (x : f.Value) : ¬ f.Suits v x := by
  have hint {i : Int32} (h : ∃ a, v = .prim a ∧ ∀ i : Int32, ¬ Numeral a i.toInt) :
      ¬ ∃ a, v = .prim a ∧ Numeral a i.toInt := by
    rintro ⟨a, rfl, ha⟩
    obtain ⟨a', ha', hnone⟩ := h
    injection ha' with ha'
    exact hnone i (ha' ▸ ha)
  have hbool {b : Bool} (h : ∃ a, v = .prim a ∧ ∃ b, a <+: ascii (boolName b) ∧ a ≠ ascii (boolName b)) :
      v ≠ .prim (ascii (boolName b)) := by
    rintro rfl
    obtain ⟨a, ha, b', hb', hne⟩ := h
    injection ha with ha
    subst ha
    exact hne (congrArg (fun b => ascii (boolName b)) (boolName_apart b b' hb'))
  cases f with
  | ambient => exact hint h
  | cool_setpoint => exact hint h
  | heat_setpoint => exact hint h
  | relay_y => exact hbool h
  | relay_w => exact hbool h
  | system_mode =>
    rintro ⟨mode, hmode, -⟩
    exact h.2 mode hmode

theorem matched_name (f : ModelField) : matched (ascii f.name) = some f := by
  cases f <;> decide +kernel

end ModelField

/-! ## Flat objects -/

/-- A member with any key, and with a value of one token: a scalar or an empty container. -/
structure Single where
  beforeKey : White
  key : List Byte
  key_ok : StringBody key
  afterKey : White
  beforeValue : White
  value : Doc
  value_ok : value.Ok
  single : value.count = 1
  afterValue : White

namespace Single

def doc (m : Single) : Padded (List Byte) × Padded Doc :=
  (⟨m.beforeKey.bytes, m.key, m.afterKey.bytes⟩, ⟨m.beforeValue.bytes, m.value, m.afterValue.bytes⟩)

def pair (m : Single) : Part × Part := (⟨JSMN_STRING, m.key⟩, m.value.firstPart)

/-- The key is the beginning of a field's name, and the value neither suits the field nor slips through. -/
def Refused (m : Single) : Prop := ∃ f, matched m.key = some f ∧ (∀ x, ¬ f.Suits m.value x) ∧ ¬ f.Slips m.value

theorem refused_iff (m : Single) : refused m.pair ↔ m.Refused := by
  have hread (f : ModelField) : f.read (m.value.firstPart) = none ↔
      (∀ x, ¬ f.Suits m.value x) ∧ ¬ f.Slips m.value := by
    rw [← Option.not_isSome_iff_eq_none, ModelField.read_isSome_iff, not_or, not_exists]
  unfold refused pair Refused
  rw [decide_eq_true_iff, or_iff_right (not_not_intro rfl)]
  exact exists_congr fun f => and_congr_right fun _ => hread f

end Single

def singlesText (before inside after : White) (ms : List Single) : List Byte :=
  before.bytes ++ (Doc.obj inside.bytes (ms.map Single.doc)).text ++ after.bytes

theorem singles_ok (ms : List Single) : membersOk (ms.map Single.doc) :=
  membersOk_map (fun m => ⟨⟨m.beforeKey.spaces, m.key_ok, m.afterKey.spaces⟩, m.beforeValue.spaces, m.value_ok,
    m.afterValue.spaces⟩) ms

theorem singles_single (ms : List Single) : ∀ m ∈ ms.map Single.doc, m.2.item.count = 1 := by
  rw [List.forall_mem_map]
  exact fun m _ => m.single

theorem singles_count (ms : List Single) : membersCount (ms.map Single.doc) = 2 * ms.length := by
  rw [membersCount_single (singles_single ms), List.length_map]

theorem singles_pairs (ms : List Single) : pairUp (membersParts (ms.map Single.doc)) = ms.map Single.pair := by
  rw [pairUp_single (singles_single ms), List.map_map]
  rfl

theorem load_singles (before inside after : White) (ms : List Single)
    (hmax : (singlesText before inside after ms).length < 2 ^ 31) (junk : List Byte) (fuel : Nat)
    (hfuel : (singlesText before inside after ms).length + 1 < fuel) (model : tstat_model_t) :
    tstat_model_load_json fuel model (singlesText before inside after ms ++ 0 :: junk) =
      some (if ms.length ≤ 6 then walk (ms.map Single.pair) model else (false, model)) := by
  have hload := load_object before.bytes after.bytes before.spaces inside.spaces after.spaces (singles_ok ms) hmax junk
    fuel hfuel model
  have hroom : (membersCount (ms.map Single.doc) + 1 ≤ MAX_JSMN_TOKENS ∧ membersCount (ms.map Single.doc) % 2 = 0) ↔
      ms.length ≤ 6 := by
    rw [singles_count, MAX_JSMN_TOKENS]
    omega
  simp only [hroom, singles_pairs] at hload
  exact hload

/-! ## One value -/

/-- Between the members `before` and `after`, the value of `m` for the field is accepted exactly when it
is well typed, and is stored then, up to a later member for the same field. The object is otherwise refused
only for another member, or for its more than six members. -/
structure AcceptedExactly (f : ModelField) (before : List Single) (m : Single) (after : List Single)
    (r : Bool × tstat_model_t) : Prop where
  rejects : (∀ x, ¬ f.Suits m.value x) → r.1 = false
  accepts : ∀ x, f.Suits m.value x →
    (r.1 = true ↔ (before ++ m :: after).length ≤ 6 ∧ ∀ q ∈ before ++ after, ¬ q.Refused)
  stores : ∀ x, f.Suits m.value x → (before ++ m :: after).length ≤ 6 → (∀ q ∈ before, ¬ q.Refused) →
    (∀ q ∈ after, matched q.key ≠ some f) → f.get r.2 = x

variable {before after : List Single} {m : Single}

theorem member_refused_iff (hkey : m.key = ascii f.name) :
    m.Refused ↔ (∀ x, ¬ f.Suits m.value x) ∧ ¬ f.Slips m.value := by
  rw [Single.Refused, hkey, f.matched_name]
  simp

theorem walk_singles_fst (ms : List Single) (model : tstat_model_t) :
    (walk (ms.map Single.pair) model).1 = true ↔ ∀ q ∈ ms, ¬ q.Refused := by
  rw [walk_fst]
  simp [← Single.refused_iff]

theorem walk_stores (hkey : m.key = ascii f.name) {x : f.Value} (hx : f.Suits m.value x)
    (hbefore : ∀ q ∈ before, ¬ q.Refused) (hafter : ∀ q ∈ after, matched q.key ≠ some f) (model : tstat_model_t) :
    f.get (walk ((before ++ m :: after).map Single.pair) model).2 = x := by
  have hpairs : ∀ p ∈ before.map Single.pair, ¬ refused p := by
    intro p hp
    obtain ⟨q, hq, rfl⟩ := List.mem_map.mp hp
    rw [Single.refused_iff]
    exact hbefore q hq
  have hmatched : matched m.pair.1.text = some f := (congrArg matched hkey).trans f.matched_name
  have hread : f.read m.pair.2 = some x := ModelField.read_suits hx
  have hnone : lastGiven f (taken (after.map Single.pair)) = none := by
    rw [← Option.not_isSome_iff_eq_none, lastGiven_isSome]
    rintro ⟨p, hp, hgiven⟩
    obtain ⟨q, hq, rfl⟩ := List.mem_map.mp (List.takeWhile_subset _ hp)
    simp [given, Single.pair, hafter q hq] at hgiven
  rw [List.map_append, List.map_cons, walk_accepted hpairs, walk, walkStep_matched rfl hmatched, hread, store,
    if_pos rfl, get_walk, hnone]
  exact f.get_set _ x

/-- In a flat object of less than 2^31 bytes, a value is accepted exactly when it is well typed, unless it slips
through and nothing else makes the object fail. -/
theorem accepted_exactly_iff (f : ModelField) (before inside after : White) (ms : List Single) (m : Single)
    (ms' : List Single) (hkey : m.key = ascii f.name)
    (hmax : (singlesText before inside after (ms ++ m :: ms')).length < 2 ^ 31) (junk : List Byte) (fuel : Nat)
    (hfuel : (singlesText before inside after (ms ++ m :: ms')).length + 1 < fuel) (model : tstat_model_t) :
    ∃ r, tstat_model_load_json fuel model (singlesText before inside after (ms ++ m :: ms') ++ 0 :: junk) = some r ∧
      (AcceptedExactly f ms m ms' r ↔
        ¬ f.Slips m.value ∨ (∃ q ∈ ms ++ ms', q.Refused) ∨ 6 < (ms ++ m :: ms').length) := by
  refine ⟨_, load_singles before inside after _ hmax junk fuel hfuel model, ?_⟩
  by_cases hsix : (ms ++ m :: ms').length ≤ 6
  · have hfst := walk_singles_fst (ms ++ m :: ms') model
    have hall : (∀ q ∈ ms ++ m :: ms', ¬ q.Refused) ↔ ¬ m.Refused ∧ ∀ q ∈ ms ++ ms', ¬ q.Refused := by
      simp only [List.forall_mem_append, List.forall_mem_cons]
      tauto
    rw [hall, member_refused_iff hkey] at hfst
    rw [if_pos hsix]
    constructor
    · intro h
      by_contra hcond
      rw [not_or, not_not, not_or] at hcond
      obtain ⟨hslips, hothers, -⟩ := hcond
      have hnull := h.rejects (ModelField.slips_not_suits hslips)
      have htrue := hfst.mpr ⟨fun hm => hm.2 hslips, fun q hq h => hothers ⟨q, hq, h⟩⟩
      rw [hnull] at htrue
      cases htrue
    · intro hcond
      refine ⟨fun hnone => ?_, fun x hx => ?_, fun x hx _ hms hms' => walk_stores hkey hx hms hms' model⟩
      · rw [← Bool.not_eq_true, hfst]
        rintro ⟨hm, hothers⟩
        rcases hcond with hslips | ⟨q, hq, hrefused⟩ | hlong
        · exact hm ⟨hnone, hslips⟩
        · exact hothers q hq hrefused
        · omega
      · rw [hfst, and_iff_right hsix, and_iff_right fun hm => hm.1 x hx]
  · rw [if_neg hsix]
    refine ⟨fun _ => .inr (.inr (by omega)), fun _ => ⟨fun _ => rfl, fun x _ => ?_, fun x _ h => absurd h hsix⟩⟩
    exact ⟨fun h => absurd h Bool.false_ne_true, fun h => absurd h.1 hsix⟩

/-- The member "relay_y":false. -/
def relayMember : Single where
  beforeKey := .none
  key := ascii "relay_y"
  key_ok := name_body (by simp)
  afterKey := .none
  beforeValue := .none
  value := .prim (ascii "false")
  value_ok := primitive_bool false
  single := rfl
  afterValue := .none

theorem accepted_exactly_false :
    ∃ r, tstat_model_load_json 100 ⟨1, 2, 3, true, false, SYSTEM_MODE_OFF⟩
        (ascii "\x7b\"relay_y\":false\x7d" ++ [0]) = some r ∧ AcceptedExactly .relay_y [] relayMember [] r := by
  obtain ⟨r, hr, hiff⟩ := accepted_exactly_iff .relay_y .none .none .none [] relayMember [] rfl (by decide +kernel) []
    100 (by decide +kernel) ⟨1, 2, 3, true, false, SYSTEM_MODE_OFF⟩
  have htext : singlesText .none .none .none ([] ++ [relayMember]) = ascii "\x7b\"relay_y\":false\x7d" := by
    decide +kernel
  have hsuits : ModelField.relay_y.Suits relayMember.value false := rfl
  rw [htext] at hr
  exact ⟨r, hr, hiff.mpr (.inl fun hslips => ModelField.slips_not_suits hslips false hsuits)⟩

/-- The value null is no integer, t is not true, and the empty string is no mode. -/
theorem wrong_values_accepted :
    (∀ i, ¬ ModelField.ambient.Suits (.prim (ascii "null")) i) ∧
      tstat_model_load_json 100 ⟨1, 2, 3, false, false, SYSTEM_MODE_HEAT⟩
          (ascii "\x7b\"ambient\":null\x7d" ++ [0]) = some (true, ⟨0, 2, 3, false, false, SYSTEM_MODE_HEAT⟩) ∧
      (∀ b, ¬ ModelField.relay_y.Suits (.prim (ascii "t")) b) ∧
      tstat_model_load_json 100 ⟨1, 2, 3, false, false, SYSTEM_MODE_HEAT⟩
          (ascii "\x7b\"relay_y\":t\x7d" ++ [0]) = some (true, ⟨1, 2, 3, true, false, SYSTEM_MODE_HEAT⟩) ∧
      (∀ i, ¬ ModelField.system_mode.Suits (.str []) i) ∧
      tstat_model_load_json 100 ⟨1, 2, 3, false, false, SYSTEM_MODE_HEAT⟩
          (ascii "\x7b\"system_mode\":\"\"\x7d" ++ [0]) =
        some (true, ⟨1, 2, 3, false, false, SYSTEM_MODE_OFF⟩) := by
  refine ⟨?_, by decide +kernel, ?_, by decide +kernel, ?_, by decide +kernel⟩
  · rintro i ⟨a, ha, hnumeral⟩
    injection ha with ha
    have hchar := numeral_chars hnumeral (ch 'n') (ha ▸ by decide)
    exact absurd hchar (by decide)
  · intro b hb
    injection hb with hb
    revert b
    decide +kernel
  · rintro i ⟨mode, hmode, -⟩
    injection hmode with hmode
    cases mode <;> exact absurd hmode (by decide)

end ToyTstat.Model
