import ToyTstat.Model.Settings

/-!
# Members whose key is no field name

The loader compares only as much of a name as the key is long. So a key that is the beginning of a
name hits the field, and the empty key hits the first one.
-/

open CLib ToyTstat.Code ToyTstat.Code.jsmntype_t ToyTstat.Jsmn

namespace ToyTstat.Model

/-! ## Pairs -/

/-- Nobody sees that the pair is there: the loader does not reach it, or it hits no field, or it writes
what the field holds or loses later, or the loader stops at it where it would have failed without it. -/
def Harmless (before : List (Part × Part)) (p : Part × Part) (after : List (Part × Part)) (model : tstat_model_t) :
    Prop :=
  (∃ q ∈ before, refused q) ∨
    ∀ f ∈ matched p.1.text,
      match f.read p.2 with
      | some x => x = held f before model ∨ ∃ q ∈ taken after, (given f q).isSome
      | none => (∃ q ∈ after, refused q) ∧ ∀ g : ModelField, ∀ x ∈ lastGiven g (taken after), x = held g before model

variable {p : Part × Part} {before after : List (Part × Part)} {model : tstat_model_t}

theorem walk_remove_iff (hkey : p.1.type = JSMN_STRING) (before after : List (Part × Part)) (model : tstat_model_t) :
    walk (before ++ p :: after) model = walk (before ++ after) model ↔ Harmless before p after model := by
  unfold Harmless
  by_cases hrefused : ∃ q ∈ before, refused q
  · rw [walk_refused hrefused, walk_refused hrefused]
    exact ⟨fun _ => .inl hrefused, fun _ => rfl⟩
  have haccepted : ∀ q ∈ before, ¬ refused q := fun q hq h => hrefused ⟨q, hq, h⟩
  have hget (f : ModelField) : f.get (walk before model).2 = held f before model := get_accepted haccepted f model
  rw [walk_accepted haccepted, walk_accepted haccepted, or_iff_right hrefused]
  simp only [← hget]
  set now := (walk before model).2
  rw [walk]
  cases hmatched : matched p.1.text with
  | none =>
    rw [walkStep_unmatched hkey hmatched]
    simp
  | some f =>
    simp only [Option.mem_def, Option.some.injEq, forall_eq', walkStep_matched hkey hmatched]
    cases hread : f.read p.2 with
    | none => exact eq_comm.trans (walk_stop_iff after now)
    | some x =>
      refine (walk_eq_iff after (f.set now x) now).trans ⟨fun h => ?_, fun h g => ?_⟩
      · simpa using h f
      · by_cases hfield : g = f
        · subst hfield
          simpa using h
        · exact .inl (ModelField.get_set_other now hfield x)

/-! ## Texts -/

/-- A member with any key, and with a value that is not a container. -/
structure Entry where
  beforeKey : White
  key : List Byte
  key_ok : StringBody key
  afterKey : White
  beforeValue : White
  value : Scalar
  value_ok : value.doc.Ok
  afterValue : White

def Entry.flat (m : Entry) : FlatMember :=
  (⟨m.beforeKey.bytes, m.key, m.afterKey.bytes⟩, ⟨m.beforeValue.bytes, m.value, m.afterValue.bytes⟩)

def Entry.pair (m : Entry) : Part × Part := memberPair (m.key, m.value)

def entriesText (before inside after : White) (entries : List Entry) : List Byte :=
  before.bytes ++ (Doc.obj inside.bytes (flatMembers (entries.map Entry.flat))).text ++ after.bytes

theorem entries_ok (entries : List Entry) : membersOk (flatMembers (entries.map Entry.flat)) := by
  rw [flatMembers, List.map_map]
  exact membersOk_map (fun m => ⟨⟨m.beforeKey.spaces, m.key_ok, m.afterKey.spaces⟩, m.beforeValue.spaces, m.value_ok,
    m.afterValue.spaces⟩) entries

theorem pairs_entries (entries : List Entry) :
    (pairs (entries.map Entry.flat)).map memberPair = entries.map Entry.pair := by
  rw [pairs, List.map_map, List.map_map]
  rfl

theorem entriesText_sublist {entries entries' : List Entry} (h : entries.Sublist entries')
    (before inside after : White) :
    (entriesText before inside after entries).length ≤ (entriesText before inside after entries').length := by
  have hobject := obj_text_sublist (flatMembers_sublist (h.map Entry.flat)) inside.bytes
  simp only [entriesText, List.length_append]
  omega

theorem load_entries (before inside after : White) (entries : List Entry) (hsix : entries.length ≤ 6)
    (hmax : (entriesText before inside after entries).length < 2 ^ 31) (junk : List Byte) (fuel : Nat)
    (hfuel : (entriesText before inside after entries).length + 1 < fuel) (model : tstat_model_t) :
    tstat_model_load_json fuel model (entriesText before inside after entries ++ 0 :: junk) =
      some (walk (entries.map Entry.pair) model) := by
  rw [entriesText, load_flat before.bytes after.bytes before.spaces inside.spaces after.spaces (entries_ok entries)
    (by simpa using hsix) hmax junk fuel hfuel model, updates_eq_walk, pairs_entries]

/-- From a text of less than 2^31 bytes any member can be removed, with the same answer and the same model,
exactly if it is harmless. -/
theorem load_remove_iff (before inside after : White) (ms : List Entry) (m : Entry) (ms' : List Entry)
    (hsix : (ms ++ m :: ms').length ≤ 6) (hmax : (entriesText before inside after (ms ++ m :: ms')).length < 2 ^ 31)
    (junk junk' : List Byte) (fuel : Nat)
    (hfuel : (entriesText before inside after (ms ++ m :: ms')).length + 1 < fuel) (model : tstat_model_t) :
    ∃ r r', tstat_model_load_json fuel model (entriesText before inside after (ms ++ m :: ms') ++ 0 :: junk) = some r ∧
      tstat_model_load_json fuel model (entriesText before inside after (ms ++ ms') ++ 0 :: junk') = some r' ∧
      (r = r' ↔ Harmless (ms.map Entry.pair) m.pair (ms'.map Entry.pair) model) := by
  have hsublist : (ms ++ ms').Sublist (ms ++ m :: ms') := (List.sublist_cons_self m ms').append_left ms
  have hshorter := entriesText_sublist hsublist before inside after
  refine ⟨_, _, load_entries before inside after _ hsix hmax junk fuel hfuel model,
    load_entries before inside after _ (hsublist.length_le.trans hsix) (by omega) junk' fuel (by omega) model, ?_⟩
  rw [List.map_append, List.map_cons, List.map_append]
  exact walk_remove_iff rfl _ _ model

/-- A member with a number, without white space. -/
def Entry.int (key : String) (hkey : ∀ c ∈ ascii key, c ≠ 0 ∧ c ≠ ch '"' ∧ c ≠ ch '\\') (i : Int32) : Entry :=
  ⟨.none, ascii key, plain_body hkey, .none, .none, .prim (decimalInt i.toInt),
    primitive_numeral (decimalInt_numeral i.toInt), .none⟩

/-- The value of "amb" goes to the field ambient, and is lost when "ambient" follows. -/
theorem load_remove_overwritten :
    tstat_model_load_json 100 ⟨1, 2, 3, false, false, SYSTEM_MODE_OFF⟩
        (ascii "\x7b\"amb\":5,\"ambient\":7\x7d" ++ [0]) =
      tstat_model_load_json 100 ⟨1, 2, 3, false, false, SYSTEM_MODE_OFF⟩ (ascii "\x7b\"ambient\":7\x7d" ++ [0]) := by
  obtain ⟨r, r', hr, hr', hiff⟩ := load_remove_iff .none .none .none [] (.int "amb" (by decide +kernel) 5)
    [.int "ambient" (by decide +kernel) 7] (by decide) (by decide +kernel) [] [] 100 (by decide +kernel)
    ⟨1, 2, 3, false, false, SYSTEM_MODE_OFF⟩
  have hmatched : matched (ascii "amb") = some .ambient := by decide +kernel
  have hread : ModelField.ambient.read (Entry.int "amb" (by decide +kernel) 5).pair.2 = some 5 := by decide +kernel
  have hgiven : ∃ q ∈ taken ([Entry.int "ambient" (by decide +kernel) 7].map Entry.pair),
      (given .ambient q).isSome := by
    decide +kernel
  have hsame : r = r' := by
    refine hiff.mpr (.inr fun f hf => ?_)
    obtain rfl : ModelField.ambient = f := Option.some.inj (hmatched.symm.trans hf)
    rw [hread]
    exact .inr hgiven
  have htext : entriesText .none .none .none
      ([] ++ .int "amb" (by decide +kernel) 5 :: [.int "ambient" (by decide +kernel) 7]) =
        ascii "\x7b\"amb\":5,\"ambient\":7\x7d" := by
    decide +kernel
  have htext' : entriesText .none .none .none ([] ++ [.int "ambient" (by decide +kernel) 7]) =
      ascii "\x7b\"ambient\":7\x7d" := by
    decide +kernel
  rw [htext] at hr
  rw [htext'] at hr'
  rw [hr, hr', hsame]

/-- The empty key sets the field ambient. -/
theorem load_empty_key :
    (∀ f : ModelField, ascii "" ≠ ascii f.name) ∧
      tstat_model_load_json 100 ⟨1, 2, 3, false, false, SYSTEM_MODE_OFF⟩ (ascii "\x7b\"\":5\x7d" ++ [0]) =
        some (true, ⟨5, 2, 3, false, false, SYSTEM_MODE_OFF⟩) ∧
      tstat_model_load_json 100 ⟨1, 2, 3, false, false, SYSTEM_MODE_OFF⟩ (ascii "\x7b\x7d" ++ [0]) =
        some (true, ⟨1, 2, 3, false, false, SYSTEM_MODE_OFF⟩) := by
  refine ⟨fun f => ?_, by decide +kernel, by decide +kernel⟩
  cases f <;> decide

end ToyTstat.Model
