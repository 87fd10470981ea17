import ToyTstat.Jsmn.Exact

/-!
# Patterns made from a text

A text matches the patterns that come from it when a `?` takes the place of some of its scalars. The
tokens of the two lie at other places, but each pair of them spans the same part, or the pattern has
a `?` or a container there.
-/

open CLib ToyTstat.Code ToyTstat.Code.jsmntype_t

namespace ToyTstat.Jsmn

theorem Lexeme.part_replace (s : Lexeme) (chosen : Bool) : PartMatches s.part (s.replace chosen).part := by
  cases chosen with
  | false => exact .inr (.inr rfl)
  | true => exact .inl rfl

mutual
theorem Doc.parts_replace (chosen : Nat → Bool) : (d : Doc) → (i : Nat) →
    List.Forall₂ PartMatches d.parts (d.replace chosen i).parts
  | .prim a, _ => .cons (Lexeme.part_replace (.prim a) _) .nil
  | .str body, _ => .cons (Lexeme.part_replace (.str body) _) .nil
  | .arr _ is, _ => .cons (.inr (.inl ⟨nofun, nofun⟩)) (itemsParts_replace chosen is _)
  | .obj _ ms, _ => .cons (.inr (.inl ⟨nofun, nofun⟩)) (membersParts_replace chosen ms _)
theorem itemsParts_replace (chosen : Nat → Bool) : (is : List (Padded Doc)) → (i : Nat) →
    List.Forall₂ PartMatches (itemsParts is) (Patt.itemsParts (itemsReplace chosen is i))
  | [], _ => .nil
  | ⟨_, v, _⟩ :: is, _ => List.rel_append (Doc.parts_replace chosen v _) (itemsParts_replace chosen is _)
theorem membersParts_replace (chosen : Nat → Bool) : (ms : List (Padded (List Byte) × Padded Doc)) → (i : Nat) →
    List.Forall₂ PartMatches (membersParts ms) (Patt.membersParts (membersReplace chosen ms i))
  | [], _ => .nil
  | (k, ⟨_, v, _⟩) :: ms, _ =>
    .cons (Lexeme.part_replace (.str k.item) _)
      (List.rel_append (Doc.parts_replace chosen v _) (membersParts_replace chosen ms _))
end

/-- A text and a pattern, each with a NUL behind it, have as many tokens as `count`, and the text matches the pattern,
with and without extra tokens allowed. -/
def ParsedMatch (fuel n patt_count count : Nat) (text patt junk patt_junk : List Byte) : Prop :=
  ∃ parser parser' tokens patt_tokens,
    jsmn_parse fuel jsmn_init (text ++ 0 :: junk) text.length (some []) n =
        some ((count : Int), parser, some tokens) ∧
      jsmn_parse_pattern fuel (patt ++ 0 :: patt_junk) (some []) patt_count =
        some ((count : Int), parser', some patt_tokens) ∧
      ∀ allow_extras,
        jsmn_pattern_matches (text ++ 0 :: junk) tokens count (patt ++ 0 :: patt_junk) patt_tokens count allow_extras =
          some true

/-- A text of less than 2^31 bytes matches every pattern that comes from it. -/
theorem generalisation_matches (before after : List Byte) (d : Doc) (chosen : Nat → Bool) (hd : d.Ok)
    (hbefore : Spaces before) (hafter : Spaces after) (hmax : (before ++ d.text ++ after).length < 2 ^ 31)
    (junk patt_junk : List Byte) (n patt_count fuel : Nat) (hn : d.count ≤ n) (hcount : d.count ≤ patt_count)
    (hfuel : (before ++ d.text ++ after).length + 1 < fuel) :
    ParsedMatch fuel n patt_count d.count (before ++ d.text ++ after) (before ++ (d.replace chosen 0).text ++ after)
      junk patt_junk := by
  have hshorter := d.text_replace_le chosen hd 0
  have hpatt := d.ok_replace chosen hd 0
  have hpattmax : (before ++ (d.replace chosen 0).text ++ after).length ≤ (before ++ d.text ++ after).length := by
    simp only [List.length_append]
    omega
  have hlen : d.patt.text.length < 2 ^ 31 := by
    rw [d.patt_text]
    simp only [List.length_append] at hmax
    omega
  have hnul := Patt.parts_ne_zero (d.patt_ok hd) hlen
  have hparts := d.parts_replace chosen 0
  obtain ⟨parser, tokens, hparse, hlength, hcovers⟩ := parse_covers (n := n) (p := d.patt) (d.patt_ok hd) hbefore
    hafter (by rwa [d.patt_text]) junk (by rwa [d.patt_count]) (by rwa [d.patt_text])
  obtain ⟨parser', patt_tokens, hpattparse, hpattlength, hpattcovers⟩ := parse_pattern_covers (n := patt_count) hpatt
    hbefore hafter (hpattmax.trans_lt hmax) patt_junk (by rwa [d.count_replace]) (show _ < fuel by omega)
  rw [d.patt_text, d.patt_count] at hparse
  rw [d.patt_count] at hlength
  rw [Doc.patt, d.parts_keep] at hnul
  rw [d.patt_text, Doc.patt, d.parts_keep] at hcovers
  rw [d.count_replace] at hpattparse hpattlength
  refine ⟨parser, parser', tokens, patt_tokens, hparse, hpattparse, fun allow_extras => ?_⟩
  obtain ⟨matched, hmatch, hiff⟩ := matchAll_eq hcovers hpattcovers hnul hparts.length_eq
  have hsame := pattern_matches_same (before ++ d.text ++ after ++ 0 :: junk)
    (before ++ (d.replace chosen 0).text ++ after ++ 0 :: patt_junk) (hlength.trans hpattlength.symm) allow_extras
  rw [hlength, hpattlength] at hsame
  rw [hsame, hmatch, hiff.mpr hparts]

/-- The text `{"a": [1, "b"]}`. -/
def keyedList : Doc :=
  .obj [] [(⟨[], ascii "a", []⟩,
    ⟨[ch ' '], .arr [] [⟨[], .prim (ascii "1"), []⟩, ⟨[ch ' '], .str (ascii "b"), []⟩], []⟩)]

/-- A `?` for the key and for the string in the list. -/
theorem key_and_string_match :
    ParsedMatch 100 5 5 5 (ascii "\x7b\"a\": [1, \"b\"]\x7d") (ascii "\x7b?: [1, ?]\x7d") [] [] := by
  have hok : keyedList.Ok := by
    have hspace : Spaces [ch ' '] := by
      intro c hc
      rw [List.mem_singleton.mp hc]
      decide
    have hone : Primitive (ascii "1") := primitive_numeral (.pos (by decide) (by decide +kernel))
    exact ⟨spaces_nil, ⟨spaces_nil, plain_body (by decide +kernel), spaces_nil⟩, hspace,
      ⟨spaces_nil, spaces_nil, hone, spaces_nil, hspace, plain_body (by decide +kernel), spaces_nil, trivial⟩,
      spaces_nil, trivial⟩
  have hmatch := generalisation_matches [] [] keyedList (fun i => i = 1 ∨ i = 4) hok spaces_nil spaces_nil
    (by decide +kernel) [] [] 5 5 100 (by decide +kernel) (by decide +kernel) (by decide +kernel)
  have hcount : keyedList.count = 5 := by decide +kernel
  have htext : [] ++ keyedList.text ++ [] = ascii "\x7b\"a\": [1, \"b\"]\x7d" := by decide +kernel
  have hpatt : [] ++ (keyedList.replace (fun i => i = 1 ∨ i = 4) 0).text ++ [] = ascii "\x7b?: [1, ?]\x7d" := by
    decide +kernel
  rw [hcount, htext, hpatt] at hmatch
  exact hmatch

/-- With 2^32 spaces in front of a 1, the parser does not return. -/
theorem generalisation_not_parsed :
    ¬ ∀ (before after : List Byte) (d : Doc) (chosen : Nat → Bool), d.Ok → Spaces before → Spaces after →
      ∃ fuel, ParsedMatch fuel d.count d.count d.count (before ++ d.text ++ after)
        (before ++ (d.replace chosen 0).text ++ after) [] [] := by
  intro h
  obtain ⟨n, hn⟩ : ∃ n, n = 2 ^ 32 := ⟨_, rfl⟩
  have hspaces : Spaces (List.replicate n (ch ' ')) := by
    intro c hc
    rw [List.eq_of_mem_replicate hc]
    decide
  have hone : Primitive (ascii "1") := primitive_numeral (.pos (by decide) (by decide +kernel))
  obtain ⟨fuel, parser, parser', tokens, patt_tokens, hparse, -⟩ :=
    h (List.replicate n (ch ' ')) [] (.prim (ascii "1")) noneChosen hone hspaces spaces_nil
  rw [jsmn_parse, parse_loop_spaces (by simp only [List.length_append, List.length_replicate]; omega) _ _ _
    (by decide)] at hparse
  · cases hparse
  · intro i hi
    rw [List.append_assoc, List.append_assoc, List.getElem?_append_left (by rw [List.length_replicate]; omega),
      List.getElem?_replicate, if_pos (by omega)]

end ToyTstat.Jsmn
