import ToyTstat.Jsmn.Lexemes
import ToyTstat.Lib.Decimal

/-!
# JSON texts and their tokens

A `Doc` is a JSON text with its white space. Its tokens are listed in the order in which
`jsmn_parse` finds them: a container or a key before what it holds.
-/

open CLib ToyTstat.Code ToyTstat.Code.jsmntype_t

namespace ToyTstat.Jsmn

/-- A part of a text with the white space around it. -/
structure Padded (α : Type) where
  before : List Byte
  item : α
  after : List Byte

/-- The strings, keys included, are held without their quotes. The padding of a container comes
after its opening bracket. -/
inductive Doc
  | prim (a : List Byte)
  | str (body : List Byte)
  | arr (pad : List Byte) (items : List (Padded Doc))
  | obj (pad : List Byte) (members : List (Padded (List Byte) × Padded Doc))

mutual
def Doc.text : Doc → List Byte
  | .prim a => a
  | .str body => ch '"' :: body ++ [ch '"']
  | .arr pad is => ch '[' :: pad ++ itemsText [] is ++ [ch ']']
  | .obj pad ms => ch '{' :: pad ++ membersText [] ms ++ [ch '}']
termination_by structural d => d
/-- `sep` stands before the first item, a comma before each of the others. -/
def itemsText (sep : List Byte) : List (Padded Doc) → List Byte
  | [] => []
  | ⟨b, v, a⟩ :: is => sep ++ b ++ v.text ++ a ++ itemsText [ch ','] is
termination_by structural is => is
def membersText (sep : List Byte) : List (Padded (List Byte) × Padded Doc) → List Byte
  | [] => []
  | (k, ⟨b, v, a⟩) :: ms =>
    sep ++ k.before ++ (ch '"' :: k.item ++ [ch '"']) ++ k.after ++ [ch ':'] ++ b ++ v.text ++ a ++
      membersText [ch ','] ms
termination_by structural ms => ms
end

def containerToken (type : jsmntype_t) (start end_ size : Nat) : jsmntok_t := ⟨type, start, end_, size⟩

/-- The token of a key: its value is its one child. -/
def keyToken (start end_ : Nat) : jsmntok_t := ⟨JSMN_STRING, start, end_, 1⟩

mutual
/-- The tokens of a text that starts at `pos`. -/
def Doc.tokens : Doc → Nat → List jsmntok_t
  | .prim a, pos => [scalarToken JSMN_PRIMITIVE pos (pos + a.length)]
  | .str body, pos => [scalarToken JSMN_STRING (pos + 1) (pos + 1 + body.length)]
  | .arr pad is, pos =>
    containerToken JSMN_ARRAY pos (pos + (Doc.arr pad is).text.length) is.length ::
      itemsTokens [] is (pos + 1 + pad.length)
  | .obj pad ms, pos =>
    containerToken JSMN_OBJECT pos (pos + (Doc.obj pad ms).text.length) ms.length ::
      membersTokens [] ms (pos + 1 + pad.length)
termination_by structural d => d
def itemsTokens (sep : List Byte) : List (Padded Doc) → Nat → List jsmntok_t
  | [], _ => []
  | ⟨b, v, a⟩ :: is, pos =>
    v.tokens (pos + sep.length + b.length) ++
      itemsTokens [ch ','] is (pos + sep.length + b.length + v.text.length + a.length)
termination_by structural is => is
def membersTokens (sep : List Byte) : List (Padded (List Byte) × Padded Doc) → Nat → List jsmntok_t
  | [], _ => []
  | (k, ⟨b, v, a⟩) :: ms, pos =>
    let key := pos + sep.length + k.before.length
    let value := key + k.item.length + 2 + k.after.length + 1 + b.length
    keyToken (key + 1) (key + 1 + k.item.length) :: v.tokens value ++
      membersTokens [ch ','] ms (value + v.text.length + a.length)
termination_by structural ms => ms
end

mutual
def Doc.count : Doc → Nat
  | .prim _ => 1
  | .str _ => 1
  | .arr _ is => 1 + itemsCount is
  | .obj _ ms => 1 + membersCount ms
termination_by structural d => d
def itemsCount : List (Padded Doc) → Nat
  | [] => 0
  | ⟨_, v, _⟩ :: is => v.count + itemsCount is
termination_by structural is => is
def membersCount : List (Padded (List Byte) × Padded Doc) → Nat
  | [] => 0
  | (_, ⟨_, v, _⟩) :: ms => 1 + v.count + membersCount ms
termination_by structural ms => ms
end

def Spaces (w : List Byte) : Prop := ∀ c ∈ w, isSpace c

mutual
def Doc.Ok : Doc → Prop
  | .prim a => Primitive a
  | .str body => StringBody body
  | .arr pad is => Spaces pad ∧ itemsOk is
  | .obj pad ms => Spaces pad ∧ membersOk ms
termination_by structural d => d
def itemsOk : List (Padded Doc) → Prop
  | [] => True
  | ⟨b, v, a⟩ :: is => Spaces b ∧ v.Ok ∧ Spaces a ∧ itemsOk is
termination_by structural is => is
def membersOk : List (Padded (List Byte) × Padded Doc) → Prop
  | [] => True
  | (k, ⟨b, v, a⟩) :: ms =>
    (Spaces k.before ∧ StringBody k.item ∧ Spaces k.after) ∧ Spaces b ∧ v.Ok ∧ Spaces a ∧ membersOk ms
termination_by structural ms => ms
end

/-! ## Parts of a text -/

theorem spaces_nil : Spaces [] := fun _ hc => absurd hc List.not_mem_nil

theorem digit_primChar : ∀ c : Byte, isDigit c → primChar c ∧ c ≠ ch '{' ∧ c ≠ ch '[' ∧ c ≠ ch '"' := by
  decide +kernel

theorem primitive_numeral {s : List Byte} {i : Int} (h : Numeral s i) : Primitive s := by
  cases h with
  | @pos s hne hs =>
    obtain ⟨c, s, rfl⟩ := List.exists_cons_of_ne_nil hne
    exact ⟨fun c hc => (digit_primChar c (hs c hc)).1, c, s, rfl, (digit_primChar c (hs c List.mem_cons_self)).2⟩
  | @neg s hne hs =>
    refine ⟨?_, ch '-', s, rfl, by decide⟩
    rw [List.forall_mem_cons]
    exact ⟨by decide, fun c hc => (digit_primChar c (hs c hc)).1⟩

theorem primitive_null : Primitive (ascii "null") := ⟨by decide +kernel, _, _, rfl, by decide⟩

theorem primitive_bool (b : Bool) : Primitive (ascii (if b then "true" else "false")) := by
  cases b
  · exact ⟨by decide +kernel, _, _, rfl, by decide⟩
  · exact ⟨by decide +kernel, _, _, rfl, by decide⟩

theorem plain_body {s : List Byte} (h : ∀ c ∈ s, c ≠ 0 ∧ c ≠ ch '"' ∧ c ≠ ch '\\') : StringBody s := by
  induction s with
  | nil => exact StringBody.nil
  | cons c s ih =>
    rw [List.forall_mem_cons] at h
    exact StringBody.char h.1.1 h.1.2.1 h.1.2.2 (ih h.2)

theorem spaces_ne_zero {w : List Byte} (h : Spaces w) : 0 ∉ w := fun h0 => absurd (h 0 h0) (by decide)

theorem body_ne_zero {body : List Byte} (h : StringBody body) : 0 ∉ body := by
  induction h with
  | nil => exact List.not_mem_nil
  | char h0 _ _ _ ih => exact List.not_mem_cons_of_ne_of_not_mem (Ne.symm h0) ih
  | @escape e s he _ ih =>
    have h0 : e ≠ 0 := by
      rintro rfl
      exact absurd he (by decide)
    exact List.not_mem_cons_of_ne_of_not_mem (by decide) (List.not_mem_cons_of_ne_of_not_mem (Ne.symm h0) ih)
  | unicode _ hhex _ ih =>
    simp only [List.cons_append, List.mem_cons, List.mem_append, not_or]
    exact ⟨by decide, by decide, fun h0 => hex_ne_zero (hhex 0 h0) rfl, ih⟩

/-! ## Lists of members -/

theorem membersOk_map {α : Type} {f : α → Padded (List Byte) × Padded Doc}
    (h : ∀ a, (Spaces (f a).1.before ∧ StringBody (f a).1.item ∧ Spaces (f a).1.after) ∧
      Spaces (f a).2.before ∧ (f a).2.item.Ok ∧ Spaces (f a).2.after) (as : List α) : membersOk (as.map f) := by
  induction as with
  | nil => trivial
  | cons a as ih =>
    obtain ⟨hkey, hbefore, hvalue, hafter⟩ := h a
    exact ⟨hkey, hbefore, hvalue, hafter, ih⟩

theorem membersCount_single {ms : List (Padded (List Byte) × Padded Doc)} (h : ∀ m ∈ ms, m.2.item.count = 1) :
    membersCount ms = 2 * ms.length := by
  induction ms with
  | nil => rfl
  | cons m ms ih =>
    obtain ⟨k, b, v, a⟩ := m
    rw [List.forall_mem_cons] at h
    rw [membersCount, h.1, ih h.2, List.length_cons]
    omega

/-! ## Fewer members -/

theorem membersText_sep_le (sep : List Byte) (ms : List (Padded (List Byte) × Padded Doc)) :
    (membersText sep ms).length ≤ sep.length + (membersText [ch ','] ms).length := by
  cases ms with
  | nil => exact Nat.zero_le _
  | cons m ms =>
    obtain ⟨k, b, v, a⟩ := m
    simp only [membersText, List.length_append, List.length_cons]
    omega

theorem membersText_sublist {ms ms' : List (Padded (List Byte) × Padded Doc)} (h : ms.Sublist ms') (sep : List Byte) :
    (membersText sep ms).length ≤ (membersText sep ms').length := by
  induction h generalizing sep with
  | slnil => exact le_rfl
  | @cons ms ms' m _ ih =>
    obtain ⟨k, b, v, a⟩ := m
    have hskip := (ih sep).trans (membersText_sep_le sep ms')
    refine hskip.trans ?_
    simp only [membersText, List.length_append, List.length_cons]
    omega
  | @cons_cons ms ms' m _ ih =>
    obtain ⟨k, b, v, a⟩ := m
    have hrest := ih [ch ',']
    simp only [membersText, List.length_append, List.length_cons]
    omega

theorem membersCount_sublist {ms ms' : List (Padded (List Byte) × Padded Doc)} (h : ms.Sublist ms') :
    membersCount ms ≤ membersCount ms' := by
  induction h with
  | slnil => exact le_rfl
  | @cons ms ms' m _ ih =>
    obtain ⟨k, b, v, a⟩ := m
    rw [membersCount]
    omega
  | @cons_cons ms ms' m _ ih =>
    obtain ⟨k, b, v, a⟩ := m
    rw [membersCount, membersCount]
    omega

theorem obj_text_sublist {ms ms' : List (Padded (List Byte) × Padded Doc)} (h : ms.Sublist ms') (pad : List Byte) :
    (Doc.obj pad ms).text.length ≤ (Doc.obj pad ms').text.length := by
  have hmembers := membersText_sublist h []
  simp only [Doc.text, List.length_append, List.length_cons]
  omega

end ToyTstat.Jsmn
