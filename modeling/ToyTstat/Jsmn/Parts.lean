import ToyTstat.Jsmn.Parse

/-!
# What the tokens of a text say

Each token spans a part of the text. A reader that is given a token sees the part and what follows
it.
-/

open CLib ToyTstat.Code ToyTstat.Code.jsmntype_t

namespace ToyTstat.Jsmn

/-- The type and the text of a token. A string is held without its quotes. -/
structure Part where
  type : jsmntype_t
  text : List Byte
deriving DecidableEq, Repr

mutual
def Doc.parts : Doc → List Part
  | .prim a => [⟨JSMN_PRIMITIVE, a⟩]
  | .str body => [⟨JSMN_STRING, body⟩]
  | .arr pad is => ⟨JSMN_ARRAY, (Doc.arr pad is).text⟩ :: itemsParts is
  | .obj pad ms => ⟨JSMN_OBJECT, (Doc.obj pad ms).text⟩ :: membersParts ms
termination_by structural d => d
def itemsParts : List (Padded Doc) → List Part
  | [] => []
  | ⟨_, v, _⟩ :: is => v.parts ++ itemsParts is
termination_by structural is => is
def membersParts : List (Padded (List Byte) × Padded Doc) → List Part
  | [] => []
  | (k, ⟨_, v, _⟩) :: ms => ⟨JSMN_STRING, k.item⟩ :: (v.parts ++ membersParts ms)
termination_by structural ms => ms
end

def Lexeme.part : Lexeme → Part
  | .prim a => ⟨JSMN_PRIMITIVE, a⟩
  | .str body => ⟨JSMN_STRING, body⟩

mutual
def Patt.parts : Patt → List Part
  | .scalar s => [s.part]
  | .arr pad is => ⟨JSMN_ARRAY, (Patt.arr pad is).text⟩ :: Patt.itemsParts is
  | .obj pad ms => ⟨JSMN_OBJECT, (Patt.obj pad ms).text⟩ :: Patt.membersParts ms
termination_by structural p => p
def Patt.itemsParts : List (Padded Patt) → List Part
  | [] => []
  | ⟨_, v, _⟩ :: is => v.parts ++ Patt.itemsParts is
termination_by structural is => is
def Patt.membersParts : List (Padded Lexeme × Padded Patt) → List Part
  | [] => []
  | (k, ⟨_, v, _⟩) :: ms => k.item.part :: (v.parts ++ Patt.membersParts ms)
termination_by structural ms => ms
end

mutual
theorem Doc.parts_length : (d : Doc) → d.parts.length = d.count
  | .prim _ => rfl
  | .str _ => rfl
  | .arr pad is => by
    rw [Doc.parts, List.length_cons, itemsParts_length, Doc.count, Nat.add_comm]
  | .obj pad ms => by
    rw [Doc.parts, List.length_cons, membersParts_length, Doc.count, Nat.add_comm]
theorem itemsParts_length : (is : List (Padded Doc)) → (itemsParts is).length = itemsCount is
  | [] => rfl
  | ⟨b, v, a⟩ :: is => by
    rw [itemsParts, List.length_append, Doc.parts_length v, itemsParts_length is, itemsCount]
theorem membersParts_length : (ms : List (Padded (List Byte) × Padded Doc)) →
    (membersParts ms).length = membersCount ms
  | [] => rfl
  | (k, ⟨b, v, a⟩) :: ms => by
    rw [membersParts, List.length_cons, List.length_append, Doc.parts_length v, membersParts_length ms, membersCount]
    omega
end

/-- The first part of a text. -/
def Doc.firstPart : Doc → Part
  | .prim a => ⟨JSMN_PRIMITIVE, a⟩
  | .str body => ⟨JSMN_STRING, body⟩
  | .arr pad is => ⟨JSMN_ARRAY, (Doc.arr pad is).text⟩
  | .obj pad ms => ⟨JSMN_OBJECT, (Doc.obj pad ms).text⟩

theorem Doc.parts_single {v : Doc} (h : v.count = 1) : v.parts = [v.firstPart] := by
  have hlength := Doc.parts_length v
  cases v with
  | prim a => rfl
  | str body => rfl
  | arr pad is =>
    rw [h, Doc.parts, List.length_cons, Nat.add_eq_right, List.length_eq_zero_iff] at hlength
    rw [Doc.parts, hlength]
    rfl
  | obj pad ms =>
    rw [h, Doc.parts, List.length_cons, Nat.add_eq_right, List.length_eq_zero_iff] at hlength
    rw [Doc.parts, hlength]
    rfl

mutual
theorem Doc.parts_keep : (d : Doc) → (i : Nat) → (d.replace noneChosen i).parts = d.parts
  | .prim _, _ => rfl
  | .str _, _ => rfl
  | .arr pad is, i => by
    have htext := Doc.text_keep (.arr pad is) i
    rw [Doc.replace] at htext
    rw [Doc.replace, Patt.parts, htext, itemsParts_keep, Doc.parts]
  | .obj pad ms, i => by
    have htext := Doc.text_keep (.obj pad ms) i
    rw [Doc.replace] at htext
    rw [Doc.replace, Patt.parts, htext, membersParts_keep, Doc.parts]
theorem itemsParts_keep : (is : List (Padded Doc)) → (i : Nat) →
    Patt.itemsParts (itemsReplace noneChosen is i) = itemsParts is
  | [], _ => rfl
  | ⟨b, v, a⟩ :: is, i => by
    rw [itemsReplace, Patt.itemsParts, Doc.parts_keep v, itemsParts_keep is, itemsParts]
theorem membersParts_keep : (ms : List (Padded (List Byte) × Padded Doc)) → (i : Nat) →
    Patt.membersParts (membersReplace noneChosen ms i) = membersParts ms
  | [], _ => rfl
  | (k, ⟨b, v, a⟩) :: ms, i => by
    rw [membersReplace, Patt.membersParts, Doc.parts_keep v, membersParts_keep ms, membersParts]
    rfl
end

/-- The token lies in the memory where the part is. A primitive ends where the parser lets it end. -/
structure Spans (json : List Byte) (token : jsmntok_t) (part : Part) : Prop where
  type : token.type = part.type
  place : ∃ (start : Nat) (r : List Byte), token.start = start ∧ token.end_ = (start + part.text.length : Nat) ∧
    json.drop start = part.text ++ r ∧ r ≠ [] ∧ (part.type = JSMN_PRIMITIVE → Stops r)
  short : part.text.length < 2 ^ 31
  noNul : 0 ∉ part.text
  primitive : part.type = JSMN_PRIMITIVE → Primitive part.text

variable {json s r : List Byte} {pos : Nat}

/-- The token lies in the memory where the part is, whatever follows it. -/
structure Covers (json : List Byte) (token : jsmntok_t) (part : Part) : Prop where
  type : token.type = part.type
  place : ∃ (start : Nat) (r : List Byte), token.start = start ∧ token.end_ = (start + part.text.length : Nat) ∧
    json.drop start = part.text ++ r ∧ r ≠ []
  short : part.text.length < 2 ^ 31

theorem Spans.covers {token : jsmntok_t} {part : Part} (h : Spans json token part) : Covers json token part := by
  obtain ⟨start, r, hstart, hend, hjson, hr, -⟩ := h.place
  exact ⟨h.type, ⟨start, r, hstart, hend, hjson, hr⟩, h.short⟩

theorem Covers.length {token : jsmntok_t} {part : Part} (h : Covers json token part) :
    token.end_ - token.start = part.text.length := by
  obtain ⟨start, r, hstart, hend, -⟩ := h.place
  rw [hstart, hend]
  omega

theorem drop_add (h : json.drop pos = s ++ r) : json.drop (pos + s.length) = r := by
  rw [← List.drop_drop, h, List.drop_left]

theorem Spans.resize {token : jsmntok_t} {part : Part} (h : Spans json token part) (size : Int) :
    Spans json { token with size := size } part :=
  ⟨h.type, h.place, h.short, h.noNul, h.primitive⟩

theorem Lexeme.token_span {s : Lexeme} (hs : s.Ok) (h : json.drop pos = s.text ++ r) (hr : r ≠ []) (hstops : Stops r)
    (hlen : s.text.length < 2 ^ 31) : Spans json (s.token pos) s.part := by
  cases s with
  | prim a => exact ⟨rfl, ⟨pos, r, rfl, rfl, h, hr, fun _ => hstops⟩, hlen, Lexeme.text_ne_zero hs, fun _ => hs⟩
  | str body =>
    rw [Lexeme.str_length] at hlen
    have hbody : json.drop (pos + 1) = body ++ ch '"' :: r := by
      have hquote : json.drop pos = [ch '"'] ++ (body ++ ch '"' :: r) := by simpa [Lexeme.text] using h
      exact drop_add hquote
    have hstring : (Lexeme.str body).part.type ≠ JSMN_PRIMITIVE := by simp [Lexeme.part]
    exact ⟨rfl, ⟨pos + 1, _, rfl, rfl, hbody, by simp, fun h => absurd h hstring⟩, Nat.lt_of_add_right_lt hlen,
      body_ne_zero hs, fun h => absurd h hstring⟩

theorem spans_container {type : jsmntype_t} {p : Patt} {start size : Nat} (htype : type ≠ JSMN_PRIMITIVE) (hp : p.Ok)
    (hlen : p.text.length < 2 ^ 31) (h : json.drop start = p.text ++ r) (hr : r ≠ []) :
    Spans json (containerToken type start (start + p.text.length) size) ⟨type, p.text⟩ :=
  ⟨rfl, ⟨start, r, rfl, rfl, h, hr, fun h => absurd h htype⟩, hlen, Patt.text_ne_zero p hp, fun h => absurd h htype⟩

mutual
theorem Patt.tokens_span : (p : Patt) → p.Ok → ∀ (pos : Nat) (r : List Byte), json.drop pos = p.text ++ r → r ≠ [] →
    (∀ s, p = .scalar s → Stops r) → p.text.length < 2 ^ 31 → List.Forall₂ (Spans json) (p.tokens pos) p.parts
  | .scalar s, hp, _, _, h, hr, hstops, hlen => .cons (Lexeme.token_span hp h hr (hstops s rfl) hlen) .nil
  | .arr pad is, hp, pos, r, h, hr, _, hlen => by
    refine .cons (spans_container (by decide) hp hlen h hr) ?_
    have hinside : json.drop pos = [ch '['] ++ (pad ++ (Patt.itemsText [] is ++ ch ']' :: r)) := by
      simpa [Patt.text] using h
    simp only [Patt.text, List.length_append, List.length_cons] at hlen
    exact Patt.itemsTokens_span [] is hp.2 _ _ (drop_add (drop_add hinside)) (by omega)
  | .obj pad ms, hp, pos, r, h, hr, _, hlen => by
    refine .cons (spans_container (by decide) hp hlen h hr) ?_
    have hinside : json.drop pos = [ch '{'] ++ (pad ++ (Patt.membersText [] ms ++ ch '}' :: r)) := by
      simpa [Patt.text] using h
    simp only [Patt.text, List.length_append, List.length_cons] at hlen
    exact Patt.membersTokens_span [] ms hp.2 _ _ (drop_add (drop_add hinside)) (by omega)
theorem Patt.itemsTokens_span (sep : List Byte) : (is : List (Padded Patt)) → Patt.itemsOk is →
    ∀ (pos : Nat) (r : List Byte), json.drop pos = Patt.itemsText sep is ++ ch ']' :: r →
      (Patt.itemsText sep is).length < 2 ^ 31 →
        List.Forall₂ (Spans json) (Patt.itemsTokens sep is pos) (Patt.itemsParts is)
  | [], _, _, _, _, _ => .nil
  | ⟨b, v, a⟩ :: is, ⟨hb, hv, ha, his⟩, pos, r, h, hlen => by
    have hitem : json.drop pos =
        sep ++ (b ++ (v.text ++ (a ++ (Patt.itemsText [ch ','] is ++ ch ']' :: r)))) := by
      simpa [Patt.itemsText] using h
    have hvalue := drop_add (drop_add hitem)
    simp only [Patt.itemsText, List.length_append] at hlen
    refine List.rel_append ?_ ?_
    · exact Patt.tokens_span v hv _ _ hvalue (by simp)
        (fun _ _ => stops_spaces_append ha (stops_items is r)) (by omega)
    · exact Patt.itemsTokens_span [ch ','] is his _ r (drop_add (drop_add hvalue)) (by omega)
theorem Patt.membersTokens_span (sep : List Byte) : (ms : List (Padded Lexeme × Padded Patt)) → Patt.membersOk ms →
    ∀ (pos : Nat) (r : List Byte), json.drop pos = Patt.membersText sep ms ++ ch '}' :: r →
      (Patt.membersText sep ms).length < 2 ^ 31 →
        List.Forall₂ (Spans json) (Patt.membersTokens sep ms pos) (Patt.membersParts ms)
  | [], _, _, _, _, _ => .nil
  | (k, ⟨b, v, a⟩) :: ms, ⟨⟨_, hkey, hk⟩, hb, hv, ha, hms⟩, pos, r, h, hlen => by
    have hmember : json.drop pos = sep ++ (k.before ++ (k.item.text ++ (k.after ++ ([ch ':'] ++
        (b ++ (v.text ++ (a ++ (Patt.membersText [ch ','] ms ++ ch '}' :: r)))))))) := by
      simpa [Patt.membersText] using h
    have hkjson := drop_add (drop_add hmember)
    have hvalue := drop_add (drop_add (drop_add (drop_add hkjson)))
    rw [List.length_singleton] at hvalue
    simp only [Patt.membersText, List.length_append, List.length_cons] at hlen
    have hspan := Lexeme.token_span hkey hkjson (by simp) (stops_spaces_append hk (stops_colon _)) (by omega)
    refine .cons (hspan.resize 1) (List.rel_append ?_ ?_)
    · exact Patt.tokens_span v hv _ _ hvalue (by simp)
        (fun _ _ => stops_spaces_append ha (stops_members ms r)) (by omega)
    · exact Patt.membersTokens_span [ch ','] ms hms _ r (drop_add (drop_add hvalue)) (by omega)
end

theorem membersTokens_span (sep : List Byte) (ms : List (Padded (List Byte) × Padded Doc)) (hms : membersOk ms)
    (pos : Nat) (r : List Byte) (h : json.drop pos = membersText sep ms ++ ch '}' :: r)
    (hlen : (membersText sep ms).length < 2 ^ 31) :
    List.Forall₂ (Spans json) (membersTokens sep ms pos) (membersParts ms) := by
  rw [← membersText_keep sep ms 0] at h hlen
  rw [← membersTokens_keep sep ms 0, ← membersParts_keep ms 0]
  exact Patt.membersTokens_span sep _ (membersOk_replace noneChosen ms hms 0) pos r h hlen

end ToyTstat.Jsmn
