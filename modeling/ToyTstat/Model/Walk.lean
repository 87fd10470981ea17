import ToyTstat.Jsmn.Budget
import ToyTstat.Model.Fields

/-!
# Loading an object

On the text of an object the loader is the walk over its parts, if there are tokens enough.
-/

open CLib ToyTstat.Code ToyTstat.Code.jsmntype_t ToyTstat.Jsmn

namespace ToyTstat.Model

variable {json : List Byte} {token : jsmntok_t} {part : Part}

/-! ## One token -/

theorem primChar_not_blank : ∀ c : Byte, primChar c → ¬ isBlank c := by decide +kernel

theorem endsPrimitive_not_digit : ∀ c : Byte, endsPrimitive c → ¬ isDigit c := by decide +kernel

theorem token_len_eq (h : Spans json token part) : token_len token = some part.text.length := by
  have hshort := h.short
  unfold token_len
  dsimp only
  rw [h.covers.length, if_pos (by omega), usize_of_lt (by omega)]

theorem ptr_eq (h : Spans json token part) :
    ∃ x r, ptr json token.start = some (part.text ++ x :: r) ∧ (part.type = JSMN_PRIMITIVE → ¬ isDigit x) := by
  obtain ⟨start, r, hstart, -, hjson, hr, hstops⟩ := h.place
  obtain ⟨x, r, rfl⟩ := List.exists_cons_of_ne_nil hr
  refine ⟨x, r, hstart ▸ ptr_drop hjson (by simp), fun htype => ?_⟩
  exact endsPrimitive_not_digit x (hstops htype x rfl)

theorem token_compare_eq (h : Spans json token part) {name : String} (hname : name ∈ names) :
    token_compare json token name part.text.length = some (isName part.text name) := by
  obtain ⟨x, r, hptr, -⟩ := ptr_eq h
  unfold token_compare
  rw [hptr, Option.bind_some]
  exact strncmp_prefix part.text (x :: r) (ascii name) h.noNul (name_ne_zero hname)

theorem token_streq_eq (h : Spans json token part) (htype : part.type = JSMN_STRING) {name : String}
    (hname : name ∈ names) : token_streq json token name = some (isName part.text name) := by
  unfold token_streq
  rw [if_neg (by simp [h.type, htype]), token_len_eq h, Option.bind_some]
  exact token_compare_eq h hname

theorem update_int_eq (h : Spans json token part) : update_int json token = some (readInt part) := by
  unfold update_int readInt
  rw [h.type]
  by_cases htype : part.type = JSMN_PRIMITIVE
  · obtain ⟨x, r, hptr, hx⟩ := ptr_eq h
    obtain ⟨hchars, c, s, htext, -⟩ := h.primitive htype
    have hne : part.text ≠ [] := by
      rw [htext]
      simp
    rw [if_neg (by simp [htype]), if_pos htype, hptr, Option.bind_some,
      atoi_append hne (fun c hc => primChar_not_blank c (hchars c hc)) (hx htype)]
    rfl
  · rw [if_pos htype, if_neg htype]

theorem update_bool_eq (h : Spans json token part) : update_bool json token = some (readBool part) := by
  unfold update_bool readBool
  rw [h.type]
  by_cases htype : part.type = JSMN_PRIMITIVE
  · rw [if_neg (by simp [htype]), if_pos htype, token_len_eq h, Option.bind_some,
      token_compare_eq h (by simp), Option.bind_some, token_compare_eq h (by simp)]
    split
    · rfl
    split <;> simp_all
  · rw [if_pos htype, if_neg htype]

theorem update_enum_eq (h : Spans json token part) :
    update_enum json token sys_names sys_values = some (readMode part) := by
  unfold update_enum readMode
  rw [token_len_eq h, Option.bind_some]
  simp only [sys_names, sys_values, List.zip_cons_cons, List.zip_nil_right, update_enum_loop]
  rw [token_compare_eq h (by simp), token_compare_eq h (by simp), token_compare_eq h (by simp)]
  simp only [Option.bind_some]
  split
  · rfl
  split
  · rfl
  split <;> rfl

/-! ## The walk -/

theorem load_member_eq {key value : jsmntok_t} {p : Part × Part} (hkey : Spans json key p.1)
    (hvalue : Spans json value p.2) (model : tstat_model_t) :
    load_member json key value model = some (walkStep p model) := by
  unfold load_member
  rw [hkey.type]
  by_cases htype : p.1.type = JSMN_STRING
  · have hstreq {name : String} (hname : name ∈ names) := token_streq_eq hkey htype hname
    rw [if_neg (not_not_intro htype), hstreq (by simp), hstreq (by simp), hstreq (by simp), hstreq (by simp),
      hstreq (by simp), hstreq (by simp), update_int_eq hvalue, update_bool_eq hvalue, update_enum_eq hvalue,
      walkStep_eq htype]
    simp only [Option.bind_some, Option.map_some]
    repeat' split
    all_goals rfl
  · unfold walkStep
    rw [if_pos htype, if_pos htype]

/-- The parts in pairs. -/
def pairUp : List Part → List (Part × Part)
  | key :: value :: parts => (key, value) :: pairUp parts
  | _ => []

theorem pairUp_append {parts : List Part} (h : parts.length % 2 = 0) (rest : List Part) :
    pairUp (parts ++ rest) = pairUp parts ++ pairUp rest := by
  induction parts using pairUp.induct with
  | case1 key value parts ih =>
    have heven : parts.length % 2 = 0 := by
      simp only [List.length_cons] at h
      omega
    rw [pairUp, List.cons_append, List.cons_append, List.cons_append, pairUp, ih heven]
  | case2 parts hshort =>
    cases parts with
    | nil => rfl
    | cons part parts =>
      cases parts with
      | nil => simp at h
      | cons part' parts => exact absurd rfl (hshort part part' parts)

theorem pairUp_single {ms : List (Padded (List Byte) × Padded Doc)} (h : ∀ m ∈ ms, m.2.item.count = 1) :
    pairUp (membersParts ms) = ms.map fun m => (⟨JSMN_STRING, m.1.item⟩, m.2.item.firstPart) := by
  induction ms with
  | nil => rfl
  | cons m ms ih =>
    obtain ⟨k, b, v, a⟩ := m
    rw [List.forall_mem_cons] at h
    rw [membersParts, Doc.parts_single h.1, List.singleton_append, pairUp, ih h.2]
    rfl

theorem load_loop_eq {tokens : List jsmntok_t} {parts : List Part} (h : List.Forall₂ (Spans json) tokens parts)
    {left : Nat} (hleft : parts.length = 2 * left) (before : List jsmntok_t) (model : tstat_model_t) :
    load_loop json (before ++ tokens) left before.length model = some (walk (pairUp parts) model) := by
  induction left generalizing tokens parts before model with
  | zero =>
    obtain rfl := List.length_eq_zero_iff.mp hleft
    rfl
  | succ left ih =>
    cases h with
    | nil => simp at hleft
    | @cons keyToken key tokens parts hkey hrest =>
      cases hrest with
      | nil =>
        simp only [List.length_cons, List.length_nil] at hleft
        omega
      | @cons valueToken value tokens parts hvalue hparts =>
        simp only [List.length_cons] at hleft
        have hmember : load_member json keyToken valueToken model = some (walkStep (key, value) model) :=
          load_member_eq hkey hvalue model
        have hloop := ih hparts (by omega) (before ++ [keyToken, valueToken]) (walkStep (key, value) model).2
        rw [List.append_assoc, List.length_append] at hloop
        unfold load_loop pairUp walk
        rw [List.getElem?_append_right le_rfl, List.getElem?_append_right (Nat.le_succ _), Nat.sub_self,
          show before.length.succ - before.length = 1 by omega]
        simp only [List.getElem?_cons_zero, List.getElem?_cons_succ, Option.bind_some, hmember]
        split
        · exact hloop
        · rfl

theorem object_spans (before after : List Byte) {pad : List Byte} {ms : List (Padded (List Byte) × Padded Doc)}
    (hms : membersOk ms) (hmax : (before ++ (Doc.obj pad ms).text ++ after).length < 2 ^ 31) (junk : List Byte) :
    List.Forall₂ (Spans (before ++ (Doc.obj pad ms).text ++ after ++ 0 :: junk))
      (membersTokens [] ms (before.length + 1 + pad.length)) (membersParts ms) := by
  have htext : (before ++ (Doc.obj pad ms).text ++ after ++ 0 :: junk).drop 0 =
      before ++ ([ch '{'] ++ (pad ++ (membersText [] ms ++ ch '}' :: (after ++ 0 :: junk)))) := by
    simp [Doc.text]
  have hinside := drop_add (drop_add (drop_add htext))
  rw [Nat.zero_add] at hinside
  have hshort : (membersText [] ms).length < 2 ^ 31 := by
    simp only [Doc.text, List.length_append, List.length_cons] at hmax
    omega
  exact membersTokens_span [] ms hms _ _ hinside hshort

/-- An object of any shape, with white space around it. -/
theorem load_object (before : List Byte) {pad : List Byte} (after : List Byte)
    {ms : List (Padded (List Byte) × Padded Doc)} (hbefore : Spaces before) (hpad : Spaces pad) (hafter : Spaces after)
    (hms : membersOk ms) (hmax : (before ++ (Doc.obj pad ms).text ++ after).length < 2 ^ 31) (junk : List Byte)
    (fuel : Nat) (hfuel : (before ++ (Doc.obj pad ms).text ++ after).length + 1 < fuel) (model : tstat_model_t) :
    tstat_model_load_json fuel model (before ++ (Doc.obj pad ms).text ++ after ++ 0 :: junk) =
      some (if membersCount ms + 1 ≤ MAX_JSMN_TOKENS ∧ membersCount ms % 2 = 0 then
          walk (pairUp (membersParts ms)) model
        else (false, model)) := by
  set d := Doc.obj pad ms with hd
  have hok : d.Ok := ⟨hpad, hms⟩
  have hcount : d.count = membersCount ms + 1 := by
    rw [hd, Doc.count, Nat.add_comm]
  have hnul : 0 ∉ before ++ d.text ++ after := by
    simp only [List.mem_append, not_or]
    exact ⟨⟨spaces_ne_zero hbefore, Doc.text_ne_zero d hok⟩, spaces_ne_zero hafter⟩
  have hprefix : before ++ d.text ++ after <+: before ++ d.text ++ after ++ 0 :: junk := List.prefix_append _ _
  unfold tstat_model_load_json
  rw [strlen_append_zero _ _ hnul, Option.bind_some]
  by_cases hfull : MAX_JSMN_TOKENS < membersCount ms + 1
  · obtain ⟨r, parser, tokens, hparse, hr⟩ := parse_doc_full _ before after d MAX_JSMN_TOKENS fuel hok hbefore hafter
      hmax hprefix (by omega) hfuel
    rw [hparse, Option.bind_some, if_neg (by omega)]
    dsimp only
    rw [if_pos (by omega)]
  rw [parse_doc _ before after d MAX_JSMN_TOKENS fuel hok hbefore hafter hmax hprefix (by omega) hfuel,
    Option.bind_some]
  dsimp only
  have htokens : d.tokens before.length =
      containerToken JSMN_OBJECT before.length (before.length + d.text.length) ms.length ::
        membersTokens [] ms (before.length + 1 + pad.length) := by
    rw [hd, Doc.tokens]
  rw [if_neg (by omega), Option.bind_some, htokens, List.getElem?_cons_zero, Option.bind_some,
    if_neg (by simp [containerToken])]
  by_cases hodd : membersCount ms % 2 = 0
  · have hspans := object_spans before after hms hmax junk
    rw [if_neg (by simp [is_odd, hcount]; omega), if_pos ⟨not_lt.mp hfull, hodd⟩]
    exact load_loop_eq hspans (by rw [membersParts_length, hcount]; omega)
      [containerToken JSMN_OBJECT before.length (before.length + d.text.length) ms.length] model
  · rw [if_pos (by simp [is_odd, hcount]; omega), if_neg fun h => hodd h.2]

end ToyTstat.Model
