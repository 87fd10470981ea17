import ToyTstat.Jsmn.Events

/-!
# What has been read

Whatever the text is: a string that has been read ends at its quote and is well formed in between, a
primitive is as long as it can be.
-/

open CLib ToyTstat.Code ToyTstat.Code.jsmntype_t

namespace ToyTstat.Jsmn

variable {js : List Byte} {len pos e fuel : Nat} {c : Byte}

/-! ## Parts of a text -/

/-- The characters from `i` up to `e`. -/
abbrev textBetween (js : List Byte) (i e : Nat) : List Byte := rest js e i

theorem textBetween_self (js : List Byte) (i : Nat) : textBetween js i i = [] := by
  rw [textBetween, rest, List.drop_eq_nil_iff]
  exact List.length_take_le i js

theorem textBetween_cons (hpos : pos < e) (hc : js[pos]? = some c) :
    textBetween js pos e = c :: textBetween js (pos + 1) e := by
  have hlt : pos < (js.take e).length := by
    obtain ⟨hlt, -⟩ := List.getElem?_eq_some_iff.mp hc
    rw [List.length_take]
    omega
  rw [textBetween, rest, List.drop_eq_getElem_cons hlt, List.getElem_take]
  obtain ⟨hlt', rfl⟩ := List.getElem?_eq_some_iff.mp hc
  rfl

theorem textBetween_append {m : Nat} (hpos : pos ≤ m) (hm : m ≤ e) :
    textBetween js pos e = textBetween js pos m ++ textBetween js m e := by
  obtain ⟨k, rfl⟩ := Nat.exists_eq_add_of_le hpos
  have htake : js.take (pos + k) = (js.take e).take (pos + k) := by
    rw [List.take_take, min_eq_left hm]
  have hpart : (js.take (pos + k)).drop pos = ((js.take e).drop pos).take k := by
    rw [htake, List.drop_take, Nat.add_sub_cancel_left]
  rw [textBetween, textBetween, textBetween, rest, rest, rest, hpart, ← List.drop_drop,
    List.take_append_drop]

/-! ## Primitives -/

/-- No more of a primitive follows at `e`. -/
def EndsAt (js : List Byte) (len e : Nat) : Prop := e = len ∨ ∃ c, js[e]? = some c ∧ (c = 0 ∨ endsPrimitive c)

theorem primitive_loop_sound (hmax : len < 2 ^ 31) (hpos : pos ≤ len)
    (h : primitive_loop js len fuel pos = some (some e)) :
    pos ≤ e ∧ e ≤ len ∧ (∀ x ∈ textBetween js pos e, primChar x) ∧ EndsAt js len e := by
  induction fuel generalizing pos with
  | zero => cases h
  | succ fuel ih =>
    have hstop : pos = e → EndsAt js len e → pos ≤ e ∧ e ≤ len ∧ (∀ x ∈ textBetween js pos e, primChar x) ∧
        EndsAt js len e := by
      rintro rfl hends
      rw [textBetween_self]
      exact ⟨le_rfl, hpos, by simp, hends⟩
    rw [primitive_loop] at h
    rcases hpos.eq_or_lt with heq | hlt
    · rw [if_pos heq.ge] at h
      obtain rfl : pos = e := by simpa using h
      exact hstop rfl (.inl heq)
    rw [if_neg (by omega), rd_natCast] at h
    obtain ⟨c, hc, h⟩ := Option.bind_eq_some_iff.mp h
    split_ifs at h with hends hbad
    · obtain rfl : pos = e := by simpa using h
      exact hstop rfl (.inr ⟨c, hc, hends⟩)
    · simp at h
    · rw [u32_of_lt (by omega)] at h
      obtain ⟨hle, hend, hchars, hends'⟩ := ih hlt h
      refine ⟨by omega, hend, ?_, hends'⟩
      rw [textBetween_cons hle hc]
      intro x hx
      rcases List.mem_cons.mp hx with rfl | hx
      · simp only [primChar, decide_eq_true_eq]
        simp only [not_or] at hends hbad
        exact ⟨by omega, by omega, by simpa using hends.2⟩
      · exact hchars x hx

/-! ## Strings -/

theorem hex_loop_sound (hmax : len < 2 ^ 31) {i p : Nat} (hpos : pos ≤ len)
    (h : hex_loop js len i pos = some (some p)) :
    pos ≤ p ∧ p ≤ len ∧ (p = pos + i ∧ (∀ x ∈ textBetween js pos p, isHex x) ∨ len ≤ p ∨ js[p]? = some 0) := by
  induction i generalizing pos with
  | zero =>
    obtain rfl : pos = p := by simpa [hex_loop] using h
    rw [textBetween_self]
    exact ⟨le_rfl, hpos, .inl ⟨rfl, by simp⟩⟩
  | succ i ih =>
    rw [hex_loop] at h
    split_ifs at h with hend
    · obtain rfl : pos = p := by simpa using h
      exact ⟨le_rfl, hpos, .inr (.inl hend)⟩
    rw [rd_natCast] at h
    obtain ⟨c, hc, h⟩ := Option.bind_eq_some_iff.mp h
    split_ifs at h with h0 hhex
    · obtain rfl : pos = p := by simpa using h
      exact ⟨le_rfl, hpos, .inr (.inr (h0 ▸ hc))⟩
    · rw [u32_of_lt (by omega)] at h
      obtain ⟨hle, hend, hdigits⟩ := ih (by omega) h
      refine ⟨by omega, hend, ?_⟩
      rcases hdigits with ⟨rfl, hdigits⟩ | hstop
      · refine .inl ⟨by omega, ?_⟩
        rw [textBetween_cons hle hc]
        intro x hx
        rcases List.mem_cons.mp hx with rfl | hx
        · exact hhex
        · exact hdigits x hx
      · exact .inr hstop
    · simp at h

theorem string_loop_stops {ending : StringEnd} (hstop : len ≤ pos ∨ js[pos]? = some 0)
    (h : string_loop js len fuel pos = some ending) : ending = .part := by
  obtain ⟨fuel, rfl⟩ : ∃ f, fuel = f + 1 := by
    cases fuel with
    | zero => cases h
    | succ f => exact ⟨f, rfl⟩
  rw [string_loop] at h
  split_ifs at h with hend
  · exact (Option.some_inj.mp h).symm
  rw [rd_natCast, hstop.resolve_left hend, Option.bind_some, if_pos rfl] at h
  exact (Option.some_inj.mp h).symm

theorem string_loop_sound (hlen : len ≤ js.length) (hmax : len < 2 ^ 31) (hpos : pos ≤ len)
    (h : string_loop js len fuel pos = some (.quote e)) :
    pos ≤ e ∧ e < len ∧ StringBody (textBetween js pos e) ∧ js[e]? = some (ch '"') := by
  induction fuel generalizing pos with
  | zero => cases h
  | succ fuel ih =>
    rw [string_loop] at h
    split_ifs at h with hend
    · simp at h
    rw [rd_natCast] at h
    obtain ⟨c, hc, h⟩ := Option.bind_eq_some_iff.mp h
    rw [u32_of_lt (by omega)] at h
    split_ifs at h with h0 hquote hescape
    · simp at h
    · obtain rfl : pos = e := by simpa using h
      rw [textBetween_self]
      exact ⟨le_rfl, by omega, .nil, hquote ▸ hc⟩
    · rw [rd_natCast] at h
      obtain ⟨x, hx, h⟩ := Option.bind_eq_some_iff.mp h
      rw [u32_of_lt (by omega)] at h
      split_ifs at h with hplain hunicode
      · obtain ⟨hle, hlt, hbody, hlast⟩ := ih (by omega) h
        refine ⟨by omega, hlt, ?_, hlast⟩
        rw [textBetween_cons (by omega) hc, textBetween_cons (by omega) hx, hescape.1]
        exact .escape hplain hbody
      · obtain ⟨found, hfound, h⟩ := Option.bind_eq_some_iff.mp h
        cases found with
        | none => simp at h
        | some p =>
          obtain ⟨hle, hend, hdigits⟩ := hex_loop_sound hmax (by omega) hfound
          dsimp only at h
          rw [u32_pred (by omega) (by omega), u32_of_lt (by omega), Nat.sub_add_cancel (by omega)] at h
          rcases hdigits with ⟨rfl, hdigits⟩ | hstop
          · obtain ⟨hle', hlt, hbody, hlast⟩ := ih hend h
            refine ⟨by omega, hlt, ?_, hlast⟩
            rw [textBetween_cons (by omega) hc, textBetween_cons (by omega) hx, hescape.1, hunicode,
              textBetween_append (Nat.le_add_right _ 4) hle']
            refine .unicode ?_ hdigits hbody
            rw [textBetween, rest_length _ _ _ (by omega), Nat.add_sub_cancel_left]
          · cases string_loop_stops hstop h
      · simp at h
    · obtain ⟨hle, hlt, hbody, hlast⟩ := ih (by omega) h
      refine ⟨by omega, hlt, ?_, hlast⟩
      rw [textBetween_cons hle hc]
      refine .char h0 hquote ?_ hbody
      -- a backslash is the last character of the text
      rintro rfl
      have hlast : len ≤ pos + 1 := not_lt.mp fun hlt => hescape ⟨rfl, hlt⟩
      cases string_loop_stops (.inl hlast) h

/-! ## One lexeme -/

def opener : jsmntype_t → Option Byte
  | JSMN_OBJECT => some (ch '{')
  | JSMN_ARRAY => some (ch '[')
  | _ => none

def closer : jsmntype_t → Option Byte
  | JSMN_OBJECT => some (ch '}')
  | JSMN_ARRAY => some (ch ']')
  | _ => none

/-- What an event at `pos` tells about the text. -/
inductive Reads (js : List Byte) (len pos : Nat) : Event → Prop
  | opened {type : jsmntype_t} : isContainer type → js[pos]? = opener type → Reads js len pos (.opened type)
  | closed {type : jsmntype_t} : isContainer type → js[pos]? = closer type → Reads js len pos (.closed type)
  | string {e : Nat} : js[pos]? = some (ch '"') → pos < e → e < len → StringBody (textBetween js (pos + 1) e) →
      js[e]? = some (ch '"') → Reads js len pos (.scalar JSMN_STRING (pos + 1 : Nat) e e)
  | primitive {e : Nat} : pos < e → e ≤ len → (∀ x ∈ textBetween js pos e, primChar x) → EndsAt js len e →
      Reads js len pos (.scalar JSMN_PRIMITIVE pos e (e - 1))
  | blank : Reads js len pos .blank
  | colon : Reads js len pos .colon
  | comma : Reads js len pos .comma
  | error {r : Int} : r = JSMN_ERROR_INVAL ∨ r = JSMN_ERROR_PART → Reads js len pos (.error r)

theorem scan_string (hlen : len ≤ js.length) (hmax : len < 2 ^ 31) (hpos : pos < len) (hc : js[pos]? = some (ch '"'))
    (hfuel : len - pos < fuel) :
    ∃ e, (string_loop js len fuel (u32 (pos + 1))).map (stringEvent pos) = some e ∧ Reads js len pos e := by
  rw [u32_of_lt (by omega)]
  obtain ⟨ending, hending, -⟩ := string_loop_safe hlen hmax (show pos + 1 ≤ len from hpos)
    (show len - (pos + 1) < fuel by omega)
  refine ⟨stringEvent pos ending, by rw [hending, Option.map_some], ?_⟩
  cases ending with
  | inval => exact .error (.inl rfl)
  | part => exact .error (.inr rfl)
  | quote e =>
    obtain ⟨hle, hlt, hbody, hlast⟩ := string_loop_sound hlen hmax hpos hending
    rw [stringEvent, i32_of_lt (by omega), i32_of_lt (by omega), ← Int.natCast_succ, i32_of_lt (by omega)]
    exact .string hc hle hlt hbody hlast

theorem scan_primitive (hlen : len ≤ js.length) (hmax : len < 2 ^ 31) (hpos : pos < len) (hc : js[pos]? = some c)
    (hc0 : c ≠ 0) (hends : ¬ endsPrimitive c) (hfuel : len - pos < fuel) :
    ∃ e, (primitive_loop js len fuel pos).map (primitiveEvent pos) = some e ∧ Reads js len pos e := by
  obtain ⟨found, hfound, hbounds⟩ :=
    primitive_loop_advances hlen hmax hpos ((rd_natCast js pos).trans hc) hc0 hends hfuel
  refine ⟨primitiveEvent pos found, by rw [hfound, Option.map_some], ?_⟩
  cases found with
  | none => exact .error (.inl rfl)
  | some e =>
    obtain ⟨hlt, hle⟩ := hbounds e rfl
    obtain ⟨-, -, hchars, hends⟩ := primitive_loop_sound hmax hpos.le hfound
    rw [primitiveEvent, i32_of_lt (by omega), i32_of_lt (by omega), u32_pred (by omega) (by omega)]
    exact .primitive hlt hle hchars hends

/-- Wherever the parser is in a text, it reads something. -/
theorem scan_reads (hlen : len ≤ js.length) (hmax : len < 2 ^ 31) (hpos : pos < len) (hc : js[pos]? = some c)
    (hc0 : c ≠ 0) (hfuel : len - pos < fuel) : ∃ e, scan fuel js len pos c = some e ∧ Reads js len pos e := by
  unfold scan
  split_ifs with h1 h2 h3 h4 h5 h6 h7 h8
  · exact ⟨_, rfl, .opened rfl (hc.trans (congrArg some h1))⟩
  · exact ⟨_, rfl, .opened rfl (hc.trans (congrArg some h2))⟩
  · exact ⟨_, rfl, .closed rfl (hc.trans (congrArg some h3))⟩
  · exact ⟨_, rfl, .closed rfl (hc.trans (congrArg some h4))⟩
  · exact scan_string hlen hmax hpos (h5 ▸ hc) hfuel
  · exact ⟨_, rfl, .blank⟩
  · exact ⟨_, rfl, .colon⟩
  · exact ⟨_, rfl, .comma⟩
  · refine scan_primitive hlen hmax hpos hc hc0 ?_ hfuel
    simp [endsPrimitive, h3, h4, h6, h7, h8]

/-- Where the parser is after an event, before the `pos++`. -/
def Event.last (pos : Nat) : Event → Nat
  | .scalar _ _ _ last => last
  | _ => pos

theorem Reads.last_inside {e : Event} (h : Reads js len pos e) (hpos : pos < len) :
    pos ≤ e.last pos ∧ e.last pos < len := by
  cases h with
  | string hc hlt hend hbody hlast => exact ⟨hlt.le, hend⟩
  | primitive hlt hle hchars hends =>
    dsimp only [Event.last]
    omega
  | opened hcontainer hc => exact ⟨le_rfl, hpos⟩
  | closed hcontainer hc => exact ⟨le_rfl, hpos⟩
  | blank => exact ⟨le_rfl, hpos⟩
  | colon => exact ⟨le_rfl, hpos⟩
  | comma => exact ⟨le_rfl, hpos⟩
  | error hr => exact ⟨le_rfl, hpos⟩

theorem Acts.error_neg {n : Nat} {T : List jsmntok_t} {super : Int} {e : Event} {r : Int} {s : ParseState}
    (h : Acts n pos T super e (.ret r s)) (hreads : Reads js len pos e) : r < 0 := by
  cases h with
  | opened_full type hfull => decide
  | unmatched type => decide
  | scalar_full type start end_ last hfull => decide
  | error r =>
    cases hreads with
    | error hr => rcases hr with rfl | rfl <;> decide

end ToyTstat.Jsmn
