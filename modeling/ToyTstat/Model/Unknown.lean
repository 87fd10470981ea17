import ToyTstat.Model.Keys

/-!
# Members that the loader does not know

The loader takes the tokens two at a time, whatever the values are, and it has room for thirteen. So
it skips an unknown member without a nested value, but the parts of a nested value pass for members.
-/

open CLib ToyTstat.Code ToyTstat.Jsmn

namespace ToyTstat.Model

/-- A member with a key that is no part of a name and has no name in it, and with any value. -/
structure Unknown where
  beforeKey : White
  key : List Byte
  key_ok : StringBody key
  apart : ∀ f : ModelField, ¬ isName key f.name ∧ ¬ (ascii f.name).isPrefixOf key
  afterKey : White
  beforeValue : White
  value : Doc
  value_ok : value.Ok
  afterValue : White

/-- A well-typed member or an unknown one. -/
inductive Item
  | known (m : Member)
  | unknown (u : Unknown)

namespace Item

def doc : Item → Padded (List Byte) × Padded Doc
  | known m => (⟨m.beforeKey.bytes, m.setting.key, m.afterKey.bytes⟩,
      ⟨m.beforeValue.bytes, m.setting.scalar.doc, m.afterValue.bytes⟩)
  | unknown u => (⟨u.beforeKey.bytes, u.key, u.afterKey.bytes⟩, ⟨u.beforeValue.bytes, u.value, u.afterValue.bytes⟩)

def known? : Item → Option Member
  | known m => some m
  | unknown _ => none

end Item

/-- The pairs of parts that the loader takes for members. -/
def taking (items : List Item) : List (Part × Part) := pairUp (membersParts (items.map Item.doc))

/-- There are tokens enough, they make pairs, and the pairs give the fields what the well-typed members
give them. -/
structure Unnoticed (items : List Item) (model : tstat_model_t) : Prop where
  fits : membersCount (items.map Item.doc) + 1 ≤ MAX_JSMN_TOKENS
  even : membersCount (items.map Item.doc) % 2 = 0
  accepted : ∀ p ∈ taking items, ¬ refused p
  values : ∀ f : ModelField,
    held f (taking items) model = f.get (lastWins ((items.filterMap Item.known?).map Member.setting) model)

variable {items : List Item}

/-! ## Where nobody notices -/

/-- The parts of the value make pairs behind its first one, with keys that hit no field. -/
def Unknown.Quiet (u : Unknown) : Prop :=
  u.value.count % 2 = 1 ∧ ∀ p ∈ pairUp u.value.parts.tail, p.1.type = .JSMN_STRING ∧ matched p.1.text = none

/-- The pairs of one item: the nested values of an unknown member come behind its own key. -/
def Item.pairs : Item → List (Part × Part)
  | known m => [memberPair (m.setting.key, m.setting.scalar)]
  | unknown u => pairUp (⟨.JSMN_STRING, u.key⟩ :: u.value.parts)

theorem Item.doc_count (item : Item) (hquiet : ∀ u, item = .unknown u → u.Quiet) : item.doc.2.item.count % 2 = 1 := by
  cases item with
  | known m =>
    have hcount : m.setting.scalar.doc.count = 1 := by cases m.setting.scalar <;> rfl
    rw [Item.doc, hcount]
  | unknown u => exact (hquiet u rfl).1

theorem membersCount_even (hquiet : ∀ u, Item.unknown u ∈ items → u.Quiet) :
    membersCount (items.map Item.doc) % 2 = 0 := by
  induction items with
  | nil => rfl
  | cons item items ih =>
    have hitem := item.doc_count fun u h => hquiet u (h ▸ List.mem_cons_self)
    have hitems := ih fun u h => hquiet u (List.mem_cons_of_mem _ h)
    have hcons : membersCount ((item :: items).map Item.doc) =
        1 + item.doc.2.item.count + membersCount (items.map Item.doc) := rfl
    omega

theorem taking_eq_flatMap (hquiet : ∀ u, Item.unknown u ∈ items → u.Quiet) :
    taking items = items.flatMap Item.pairs := by
  induction items with
  | nil => rfl
  | cons item items ih =>
    have hitem := item.doc_count fun u h => hquiet u (h ▸ List.mem_cons_self)
    have hitems := ih fun u h => hquiet u (List.mem_cons_of_mem _ h)
    have heven : ((⟨.JSMN_STRING, item.doc.1.item⟩ : Part) :: item.doc.2.item.parts).length % 2 = 0 := by
      rw [List.length_cons, Doc.parts_length]
      omega
    have hpairs : pairUp (⟨.JSMN_STRING, item.doc.1.item⟩ :: item.doc.2.item.parts) = item.pairs := by
      cases item with
      | known m => rw [Item.doc, Scalar.doc_parts]; rfl
      | unknown u => rfl
    rw [List.flatMap_cons, ← hitems, ← hpairs]
    exact pairUp_append heven _

theorem known_values (members : List Member) (model : tstat_model_t) :
    walk (members.map fun m => memberPair (m.setting.key, m.setting.scalar)) model =
      (true, lastWins (members.map Member.setting) model) := by
  have hupdates := Setting.updates_eq (members.map Member.setting) model
  rw [updates_eq_walk, foldl_apply, List.map_map, List.map_map] at hupdates
  exact hupdates

theorem Item.pairs_quiet {u : Unknown} (hquiet : u.Quiet) :
    ∀ p ∈ (Item.unknown u).pairs, p.1.type = .JSMN_STRING ∧ matched p.1.text = none := by
  obtain ⟨hodd, hinside⟩ := hquiet
  rw [← Doc.parts_length] at hodd
  obtain ⟨first, parts, hparts⟩ := List.exists_cons_of_length_pos (l := u.value.parts) (by omega)
  rw [hparts] at hinside
  rw [Item.pairs, hparts, pairUp]
  intro p hp
  obtain rfl | hp := List.mem_cons.mp hp
  · exact ⟨rfl, matched_none_iff.mpr fun f => (u.apart f).1⟩
  · exact hinside p hp

theorem given_items (hquiet : ∀ u, Item.unknown u ∈ items → u.Quiet) (f : ModelField) :
    (items.flatMap Item.pairs).filterMap (given f) =
      ((items.filterMap Item.known?).map fun m => memberPair (m.setting.key, m.setting.scalar)).filterMap
        (given f) := by
  induction items with
  | nil => rfl
  | cons item items ih =>
    have hitems := ih fun u h => hquiet u (List.mem_cons_of_mem _ h)
    rw [List.flatMap_cons, List.filterMap_append, hitems]
    cases item with
    | known m =>
      have hknown : (Item.known m :: items).filterMap Item.known? = [m] ++ items.filterMap Item.known? := rfl
      rw [hknown, List.map_append, List.filterMap_append]
      rfl
    | unknown u =>
      have hnone : (Item.unknown u).pairs.filterMap (given f) = [] := by
        rw [List.filterMap_eq_nil_iff]
        exact fun p hp => given_unmatched (Item.pairs_quiet (hquiet u List.mem_cons_self) p hp).2 f
      rw [hnone]
      rfl

/-- Unknown members with quiet values are ignored, as long as there are tokens enough. -/
theorem unnoticed_of_quiet (hquiet : ∀ u, Item.unknown u ∈ items → u.Quiet)
    (hfits : membersCount (items.map Item.doc) + 1 ≤ MAX_JSMN_TOKENS) (model : tstat_model_t) :
    Unnoticed items model := by
  obtain ⟨haccepted, hvalues⟩ := (walk_values_iff _ _ _).mp (known_values (items.filterMap Item.known?) model)
  refine ⟨hfits, membersCount_even hquiet, fun p hp => ?_, fun f => ?_⟩
  · rw [taking_eq_flatMap hquiet, List.mem_flatMap] at hp
    obtain ⟨item, hitem, hp⟩ := hp
    cases item with
    | known m =>
      refine haccepted p (List.mem_map.mpr ⟨m, List.mem_filterMap.mpr ⟨_, hitem, rfl⟩, ?_⟩)
      exact (List.mem_singleton.mp hp).symm
    | unknown u => exact not_refused_unmatched (Item.pairs_quiet (hquiet u hitem) p hp)
  · rw [← hvalues f, taking_eq_flatMap hquiet]
    unfold held lastGiven
    rw [given_items hquiet]

/-! ## Texts -/

def mixedText (before inside after : White) (items : List Item) : List Byte :=
  before.bytes ++ (Doc.obj inside.bytes (items.map Item.doc)).text ++ after.bytes

theorem items_ok (items : List Item) : membersOk (items.map Item.doc) := by
  refine membersOk_map (fun item => ?_) items
  cases item with
  | known m =>
    exact ⟨⟨m.beforeKey.spaces, m.setting.key_ok, m.afterKey.spaces⟩, m.beforeValue.spaces, m.setting.scalar_ok,
      m.afterValue.spaces⟩
  | unknown u =>
    exact ⟨⟨u.beforeKey.spaces, u.key_ok, u.afterKey.spaces⟩, u.beforeValue.spaces, u.value_ok, u.afterValue.spaces⟩

theorem known_sublist (items : List Item) :
    (flatMembers ((items.filterMap Item.known?).map Member.flat)).Sublist (items.map Item.doc) := by
  induction items with
  | nil => exact .slnil
  | cons item items ih =>
    cases item with
    | known m => exact ih.cons_cons _
    | unknown u => exact ih.cons _

theorem load_mixed (before inside after : White) (items : List Item)
    (hmax : (mixedText before inside after items).length < 2 ^ 31) (junk : List Byte) (fuel : Nat)
    (hfuel : (mixedText before inside after items).length + 1 < fuel) (model : tstat_model_t) :
    tstat_model_load_json fuel model (mixedText before inside after items ++ 0 :: junk) =
      some (if membersCount (items.map Item.doc) + 1 ≤ MAX_JSMN_TOKENS ∧ membersCount (items.map Item.doc) % 2 = 0 then
          walk (taking items) model
        else (false, model)) :=
  load_object before.bytes after.bytes before.spaces inside.spaces after.spaces (items_ok items) hmax junk fuel hfuel
    model

theorem load_known (before inside after : White) (members : List Member)
    (hmax : (objectText before inside after members).length < 2 ^ 31) (junk : List Byte) (fuel : Nat)
    (hfuel : (objectText before inside after members).length + 1 < fuel) (model : tstat_model_t) :
    tstat_model_load_json fuel model (objectText before inside after members ++ 0 :: junk) =
      some (decide (members.length ≤ 6),
        if members.length ≤ 6 then lastWins (members.map Member.setting) model else model) := by
  by_cases hsix : members.length ≤ 6
  · rw [load_last_wins before inside after members hsix hmax junk fuel hfuel model, decide_eq_true hsix, if_pos hsix]
  · have hload := load_object before.bytes after.bytes before.spaces inside.spaces after.spaces (members_ok members)
      hmax junk fuel hfuel model
    rw [membersCount_flat, List.length_map, if_neg (by rw [MAX_JSMN_TOKENS]; omega)] at hload
    rw [decide_eq_false hsix, if_neg hsix]
    exact hload

/-- In a text of less than 2^31 bytes unknown members change neither the success nor the model exactly if
nobody notices them. -/
theorem load_unknown_iff (before inside after : White) (items : List Item)
    (hmax : (mixedText before inside after items).length < 2 ^ 31) (junk junk' : List Byte) (fuel : Nat)
    (hfuel : (mixedText before inside after items).length + 1 < fuel) (model : tstat_model_t) :
    ∃ r ok model', tstat_model_load_json fuel model (mixedText before inside after items ++ 0 :: junk) = some r ∧
      tstat_model_load_json fuel model
        (objectText before inside after (items.filterMap Item.known?) ++ 0 :: junk') = some (ok, model') ∧
      (r = (true, model') ↔ Unnoticed items model) := by
  have hsublist := known_sublist items
  have hshorter : (objectText before inside after (items.filterMap Item.known?)).length ≤
      (mixedText before inside after items).length := by
    have hobject := obj_text_sublist hsublist inside.bytes
    simp only [objectText, mixedText, List.length_append]
    omega
  refine ⟨_, _, _, load_mixed before inside after items hmax junk fuel hfuel model,
    load_known before inside after _ (by omega) junk' fuel (by omega) model, ?_⟩
  by_cases hroom : membersCount (items.map Item.doc) + 1 ≤ MAX_JSMN_TOKENS ∧ membersCount (items.map Item.doc) % 2 = 0
  · have hsix : (items.filterMap Item.known?).length ≤ 6 := by
      have hcount := membersCount_sublist hsublist
      rw [membersCount_flat, List.length_map] at hcount
      rw [MAX_JSMN_TOKENS] at hroom
      omega
    rw [if_pos hroom, if_pos hsix, walk_values_iff]
    exact ⟨fun h => ⟨hroom.1, hroom.2, h.1, h.2⟩, fun h => ⟨h.accepted, h.values⟩⟩
  · rw [if_neg hroom]
    exact ⟨fun h => by simp at h, fun h => absurd ⟨h.fits, h.even⟩ hroom⟩

/-- The member "x":{"y":7}. -/
def xyMember : Unknown where
  beforeKey := .none
  key := ascii "x"
  key_ok := plain_body (by decide +kernel)
  apart := by intro f; cases f <;> decide +kernel
  afterKey := .none
  beforeValue := .none
  value := .obj [] [(⟨[], ascii "y", []⟩, ⟨[], .prim (decimalInt 7), []⟩)]
  value_ok := ⟨spaces_nil, ⟨spaces_nil, plain_body (by decide +kernel), spaces_nil⟩, spaces_nil,
    primitive_numeral (decimalInt_numeral 7), spaces_nil, trivial⟩
  afterValue := .none

theorem load_unknown_ignored :
    tstat_model_load_json 100 ⟨1, 2, 3, false, false, SYSTEM_MODE_OFF⟩
        (ascii "\x7b\"x\":\x7b\"y\":7\x7d,\"ambient\":5\x7d" ++ [0]) =
      some (true, ⟨5, 2, 3, false, false, SYSTEM_MODE_OFF⟩) := by
  obtain ⟨r, ok, model', hr, hbase, hiff⟩ := load_unknown_iff .none .none .none
    [.unknown xyMember, .known ⟨.none, .ambient (.ofInt32 5), .none, .none, .none⟩] (by decide +kernel) [] [] 100
    (by decide +kernel) ⟨1, 2, 3, false, false, SYSTEM_MODE_OFF⟩
  have hquiet : xyMember.Quiet := by
    unfold Unknown.Quiet
    decide +kernel
  have hsame : r = (true, model') := by
    refine hiff.mpr (unnoticed_of_quiet (fun u hu => ?_) (by decide +kernel) _)
    obtain rfl : u = xyMember := by simpa using hu
    exact hquiet
  have htext : mixedText .none .none .none
      [.unknown xyMember, .known ⟨.none, .ambient (.ofInt32 5), .none, .none, .none⟩] =
        ascii "\x7b\"x\":\x7b\"y\":7\x7d,\"ambient\":5\x7d" := by
    decide +kernel
  have hmodel : model' = ⟨5, 2, 3, false, false, SYSTEM_MODE_OFF⟩ := by
    have hload : tstat_model_load_json 100 ⟨1, 2, 3, false, false, SYSTEM_MODE_OFF⟩
        (objectText .none .none .none [⟨.none, .ambient (.ofInt32 5), .none, .none, .none⟩] ++ [0]) =
          some (true, ⟨5, 2, 3, false, false, SYSTEM_MODE_OFF⟩) := by
      decide +kernel
    exact congrArg Prod.snd (Option.some.inj (hbase.symm.trans hload))
  rw [htext] at hr
  rw [hr, hsame, hmodel]

/-- A nested value reaches the model, seven unknown members are too many. -/
theorem load_unknown_noticed :
    tstat_model_load_json 100 ⟨1, 2, 3, false, false, SYSTEM_MODE_OFF⟩ (ascii "\x7b\x7d" ++ [0]) =
        some (true, ⟨1, 2, 3, false, false, SYSTEM_MODE_OFF⟩) ∧
      tstat_model_load_json 100 ⟨1, 2, 3, false, false, SYSTEM_MODE_OFF⟩
          (ascii "\x7b\"x\":\x7b\"ambient\":5\x7d\x7d" ++ [0]) =
        some (true, ⟨5, 2, 3, false, false, SYSTEM_MODE_OFF⟩) ∧
      tstat_model_load_json 100 ⟨1, 2, 3, false, false, SYSTEM_MODE_OFF⟩
          (ascii "\x7b\"x1\":0,\"x2\":0,\"x3\":0,\"x4\":0,\"x5\":0,\"x6\":0,\"x7\":0\x7d" ++ [0]) =
        some (false, ⟨1, 2, 3, false, false, SYSTEM_MODE_OFF⟩) := by
  decide +kernel

end ToyTstat.Model
