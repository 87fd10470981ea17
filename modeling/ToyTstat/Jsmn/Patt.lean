import ToyTstat.Jsmn.Doc

/-!
# Patterns and their tokens

In a pattern a `?` may stand for any scalar, also for a key. So the keys of a `Patt` are scalars of
both kinds. A `Doc` is a `Patt` whose keys are strings.
-/

open CLib ToyTstat.Code ToyTstat.Code.jsmntype_t

namespace ToyTstat.Jsmn

/-! ## Scalars -/

/-- A scalar. A string is held without its quotes. -/
inductive Lexeme
  | prim (a : List Byte)
  | str (body : List Byte)

namespace Lexeme

def text : Lexeme → List Byte
  | prim a => a
  | str body => ch '"' :: body ++ [ch '"']

/-- The token of a scalar that starts at `pos`. -/
def token : Lexeme → Nat → jsmntok_t
  | prim a, pos => scalarToken JSMN_PRIMITIVE pos (pos + a.length)
  | str body, pos => scalarToken JSMN_STRING (pos + 1) (pos + 1 + body.length)

/-- The token of a key: its value is its one child. -/
def keyToken (s : Lexeme) (pos : Nat) : jsmntok_t := { s.token pos with size := 1 }

def Ok : Lexeme → Prop
  | prim a => Primitive a
  | str body => StringBody body

@[simp]
theorem str_length (body : List Byte) : (str body).text.length = body.length + 2 := by
  simp [text]

theorem token_not_open (s : Lexeme) (pos : Nat) : isOpen (s.token pos) = false := by
  cases s <;> simp [token, scalarToken, isOpen] <;> omega

theorem keyToken_not_open (s : Lexeme) (pos : Nat) : isOpen (s.keyToken pos) = false := s.token_not_open pos

theorem text_pos {s : Lexeme} (h : s.Ok) : 1 ≤ s.text.length := by
  cases s with
  | prim a =>
    obtain ⟨-, c, r, rfl, -⟩ := h
    simp [text]
  | str body => simp [text]

theorem text_ne_zero {s : Lexeme} (h : s.Ok) : 0 ∉ s.text := by
  cases s with
  | prim a => exact fun h0 => primChar_ne_zero (h.1 0 h0) rfl
  | str body =>
    simp only [text, List.cons_append, List.mem_cons, List.mem_append, List.not_mem_nil, or_false, not_or]
    exact ⟨by decide, body_ne_zero h, by decide⟩

end Lexeme

/-! ## Patterns -/

/-- The padding of a container comes after its opening bracket. -/
inductive Patt
  | scalar (s : Lexeme)
  | arr (pad : List Byte) (items : List (Padded Patt))
  | obj (pad : List Byte) (members : List (Padded Lexeme × Padded Patt))

mutual
def Patt.text : Patt → List Byte
  | .scalar s => s.text
  | .arr pad is => ch '[' :: pad ++ Patt.itemsText [] is ++ [ch ']']
  | .obj pad ms => ch '{' :: pad ++ Patt.membersText [] ms ++ [ch '}']
termination_by structural p => p
/-- `sep` stands before the first item, a comma before each of the others. -/
def Patt.itemsText (sep : List Byte) : List (Padded Patt) → List Byte
  | [] => []
  | ⟨b, v, a⟩ :: is => sep ++ b ++ v.text ++ a ++ Patt.itemsText [ch ','] is
termination_by structural is => is
def Patt.membersText (sep : List Byte) : List (Padded Lexeme × Padded Patt) → List Byte
  | [] => []
  | (k, ⟨b, v, a⟩) :: ms =>
    sep ++ k.before ++ k.item.text ++ k.after ++ [ch ':'] ++ b ++ v.text ++ a ++ Patt.membersText [ch ','] ms
termination_by structural ms => ms
end

mutual
/-- The tokens of a text that starts at `pos`. -/
def Patt.tokens : Patt → Nat → List jsmntok_t
  | .scalar s, pos => [s.token pos]
  | .arr pad is, pos =>
    containerToken JSMN_ARRAY pos (pos + (Patt.arr pad is).text.length) is.length ::
      Patt.itemsTokens [] is (pos + 1 + pad.length)
  | .obj pad ms, pos =>
    containerToken JSMN_OBJECT pos (pos + (Patt.obj pad ms).text.length) ms.length ::
      Patt.membersTokens [] ms (pos + 1 + pad.length)
termination_by structural p => p
def Patt.itemsTokens (sep : List Byte) : List (Padded Patt) → Nat → List jsmntok_t
  | [], _ => []
  | ⟨b, v, a⟩ :: is, pos =>
    v.tokens (pos + sep.length + b.length) ++
      Patt.itemsTokens [ch ','] is (pos + sep.length + b.length + v.text.length + a.length)
termination_by structural is => is
def Patt.membersTokens (sep : List Byte) : List (Padded Lexeme × Padded Patt) → Nat → List jsmntok_t
  | [], _ => []
  | (k, ⟨b, v, a⟩) :: ms, pos =>
    let key := pos + sep.length + k.before.length
    let value := key + k.item.text.length + k.after.length + 1 + b.length
    k.item.keyToken key :: v.tokens value ++ Patt.membersTokens [ch ','] ms (value + v.text.length + a.length)
termination_by structural ms => ms
end

mutual
def Patt.count : Patt → Nat
  | .scalar _ => 1
  | .arr _ is => 1 + Patt.itemsCount is
  | .obj _ ms => 1 + Patt.membersCount ms
termination_by structural p => p
def Patt.itemsCount : List (Padded Patt) → Nat
  | [] => 0
  | ⟨_, v, _⟩ :: is => v.count + Patt.itemsCount is
termination_by structural is => is
def Patt.membersCount : List (Padded Lexeme × Padded Patt) → Nat
  | [] => 0
  | (_, ⟨_, v, _⟩) :: ms => 1 + v.count + Patt.membersCount ms
termination_by structural ms => ms
end

mutual
def Patt.Ok : Patt → Prop
  | .scalar s => s.Ok
  | .arr pad is => Spaces pad ∧ Patt.itemsOk is
  | .obj pad ms => Spaces pad ∧ Patt.membersOk ms
termination_by structural p => p
def Patt.itemsOk : List (Padded Patt) → Prop
  | [] => True
  | ⟨b, v, a⟩ :: is => Spaces b ∧ v.Ok ∧ Spaces a ∧ Patt.itemsOk is
termination_by structural is => is
def Patt.membersOk : List (Padded Lexeme × Padded Patt) → Prop
  | [] => True
  | (k, ⟨b, v, a⟩) :: ms =>
    (Spaces k.before ∧ k.item.Ok ∧ Spaces k.after) ∧ Spaces b ∧ v.Ok ∧ Spaces a ∧ Patt.membersOk ms
termination_by structural ms => ms
end

/-! ## The tokens of a pattern -/

mutual
theorem Patt.tokens_length : (p : Patt) → (pos : Nat) → (p.tokens pos).length = p.count
  | .scalar _, _ => rfl
  | .arr pad is, pos => by
    rw [Patt.tokens, List.length_cons, Patt.itemsTokens_length, Patt.count, Nat.add_comm]
  | .obj pad ms, pos => by
    rw [Patt.tokens, List.length_cons, Patt.membersTokens_length, Patt.count, Nat.add_comm]
theorem Patt.itemsTokens_length (sep : List Byte) : (is : List (Padded Patt)) → (pos : Nat) →
    (Patt.itemsTokens sep is pos).length = Patt.itemsCount is
  | [], _ => rfl
  | ⟨b, v, a⟩ :: is, pos => by
    rw [Patt.itemsTokens, List.length_append, Patt.tokens_length v, Patt.itemsTokens_length _ is, Patt.itemsCount]
theorem Patt.membersTokens_length (sep : List Byte) : (ms : List (Padded Lexeme × Padded Patt)) → (pos : Nat) →
    (Patt.membersTokens sep ms pos).length = Patt.membersCount ms
  | [], _ => rfl
  | (k, ⟨b, v, a⟩) :: ms, pos => by
    simp only [Patt.membersTokens, List.cons_append, List.length_cons, List.length_append, Patt.membersCount]
    rw [Patt.tokens_length v, Patt.membersTokens_length _ ms]
    omega
end

theorem containerToken_not_open (type : jsmntype_t) (start end_ size : Nat) :
    isOpen (containerToken type start end_ size) = false := by
  simp [containerToken, isOpen]

mutual
theorem Patt.tokens_closed : (p : Patt) → (pos : Nat) → AllClosed (p.tokens pos)
  | .scalar s, pos => by
    rw [Patt.tokens, AllClosed, List.forall_mem_singleton]
    exact s.token_not_open pos
  | .arr pad is, pos => by
    rw [Patt.tokens, AllClosed, List.forall_mem_cons]
    exact ⟨containerToken_not_open _ _ _ _, Patt.itemsTokens_closed _ is _⟩
  | .obj pad ms, pos => by
    rw [Patt.tokens, AllClosed, List.forall_mem_cons]
    exact ⟨containerToken_not_open _ _ _ _, Patt.membersTokens_closed _ ms _⟩
theorem Patt.itemsTokens_closed (sep : List Byte) : (is : List (Padded Patt)) → (pos : Nat) →
    AllClosed (Patt.itemsTokens sep is pos)
  | [], _ => by simp [AllClosed, Patt.itemsTokens]
  | ⟨b, v, a⟩ :: is, pos => by
    rw [Patt.itemsTokens, AllClosed, List.forall_mem_append]
    exact ⟨Patt.tokens_closed v _, Patt.itemsTokens_closed _ is _⟩
theorem Patt.membersTokens_closed (sep : List Byte) : (ms : List (Padded Lexeme × Padded Patt)) → (pos : Nat) →
    AllClosed (Patt.membersTokens sep ms pos)
  | [], _ => by simp [AllClosed, Patt.membersTokens]
  | (k, ⟨b, v, a⟩) :: ms, pos => by
    simp only [Patt.membersTokens, AllClosed, List.cons_append, List.forall_mem_cons, List.forall_mem_append]
    exact ⟨k.item.keyToken_not_open _, Patt.tokens_closed v _, Patt.membersTokens_closed _ ms _⟩
end

mutual
theorem Patt.count_le : (p : Patt) → p.Ok → p.count ≤ p.text.length
  | .scalar s, h => Lexeme.text_pos h
  | .arr pad is, h => by
    have := Patt.itemsCount_le [] is h.2
    simp [Patt.count, Patt.text]
    omega
  | .obj pad ms, h => by
    have := Patt.membersCount_le [] ms h.2
    simp [Patt.count, Patt.text]
    omega
theorem Patt.itemsCount_le (sep : List Byte) : (is : List (Padded Patt)) → Patt.itemsOk is →
    Patt.itemsCount is ≤ (Patt.itemsText sep is).length
  | [], _ => by simp [Patt.itemsCount]
  | ⟨b, v, a⟩ :: is, h => by
    have := Patt.count_le v h.2.1
    have := Patt.itemsCount_le [ch ','] is h.2.2.2
    simp [Patt.itemsCount, Patt.itemsText]
    omega
theorem Patt.membersCount_le (sep : List Byte) : (ms : List (Padded Lexeme × Padded Patt)) → Patt.membersOk ms →
    Patt.membersCount ms ≤ (Patt.membersText sep ms).length
  | [], _ => by simp [Patt.membersCount]
  | (k, ⟨b, v, a⟩) :: ms, h => by
    have := Lexeme.text_pos h.1.2.1
    have := Patt.count_le v h.2.2.1
    have := Patt.membersCount_le [ch ','] ms h.2.2.2.2
    simp [Patt.membersCount, Patt.membersText]
    omega
end

mutual
theorem Patt.text_ne_zero : (p : Patt) → p.Ok → 0 ∉ p.text
  | .scalar s, h => Lexeme.text_ne_zero h
  | .arr pad is, h => by
    simp only [Patt.text, List.cons_append, List.mem_cons, List.mem_append, List.not_mem_nil, or_false, not_or]
    exact ⟨by decide, ⟨spaces_ne_zero h.1, Patt.itemsText_ne_zero [] List.not_mem_nil is h.2⟩, by decide⟩
  | .obj pad ms, h => by
    simp only [Patt.text, List.cons_append, List.mem_cons, List.mem_append, List.not_mem_nil, or_false, not_or]
    exact ⟨by decide, ⟨spaces_ne_zero h.1, Patt.membersText_ne_zero [] List.not_mem_nil ms h.2⟩, by decide⟩
theorem Patt.itemsText_ne_zero (sep : List Byte) (hsep : 0 ∉ sep) : (is : List (Padded Patt)) → Patt.itemsOk is →
    0 ∉ Patt.itemsText sep is
  | [], _ => List.not_mem_nil
  | ⟨b, v, a⟩ :: is, ⟨hb, hv, ha, his⟩ => by
    simp only [Patt.itemsText, List.mem_append, not_or]
    exact ⟨⟨⟨⟨hsep, spaces_ne_zero hb⟩, Patt.text_ne_zero v hv⟩, spaces_ne_zero ha⟩,
      Patt.itemsText_ne_zero [ch ','] (by decide) is his⟩
theorem Patt.membersText_ne_zero (sep : List Byte) (hsep : 0 ∉ sep) :
    (ms : List (Padded Lexeme × Padded Patt)) → Patt.membersOk ms → 0 ∉ Patt.membersText sep ms
  | [], _ => List.not_mem_nil
  | (k, ⟨b, v, a⟩) :: ms, ⟨⟨hk1, hk2, hk3⟩, hb, hv, ha, hms⟩ => by
    simp only [Patt.membersText, List.mem_append, List.mem_singleton, not_or]
    exact ⟨⟨⟨⟨⟨⟨⟨⟨hsep, spaces_ne_zero hk1⟩, Lexeme.text_ne_zero hk2⟩, spaces_ne_zero hk3⟩, by decide⟩,
      spaces_ne_zero hb⟩, Patt.text_ne_zero v hv⟩, spaces_ne_zero ha⟩,
      Patt.membersText_ne_zero [ch ','] (by decide) ms hms⟩
end

/-! ## Replacing scalars -/

def wildcard : Lexeme := .prim [ch '?']

def Lexeme.replace (s : Lexeme) (chosen : Bool) : Lexeme := if chosen then wildcard else s

mutual
/-- A `?` in the place of each chosen scalar. The tokens of the text are numbered from `i` on. -/
def Doc.replace (chosen : Nat → Bool) : Doc → Nat → Patt
  | .prim a, i => .scalar ((Lexeme.prim a).replace (chosen i))
  | .str body, i => .scalar ((Lexeme.str body).replace (chosen i))
  | .arr pad is, i => .arr pad (itemsReplace chosen is (i + 1))
  | .obj pad ms, i => .obj pad (membersReplace chosen ms (i + 1))
termination_by structural d => d
def itemsReplace (chosen : Nat → Bool) : List (Padded Doc) → Nat → List (Padded Patt)
  | [], _ => []
  | ⟨b, v, a⟩ :: is, i => ⟨b, v.replace chosen i, a⟩ :: itemsReplace chosen is (i + v.count)
termination_by structural is => is
def membersReplace (chosen : Nat → Bool) : List (Padded (List Byte) × Padded Doc) → Nat →
    List (Padded Lexeme × Padded Patt)
  | [], _ => []
  | (k, ⟨b, v, a⟩) :: ms, i =>
    (⟨k.before, (Lexeme.str k.item).replace (chosen i), k.after⟩, ⟨b, v.replace chosen (i + 1), a⟩) ::
      membersReplace chosen ms (i + 1 + v.count)
termination_by structural ms => ms
end

variable (chosen : Nat → Bool)

theorem itemsReplace_length (is : List (Padded Doc)) (i : Nat) : (itemsReplace chosen is i).length = is.length := by
  induction is generalizing i with
  | nil => rfl
  | cons item is ih =>
    obtain ⟨b, v, a⟩ := item
    rw [itemsReplace, List.length_cons, ih, List.length_cons]

theorem membersReplace_length (ms : List (Padded (List Byte) × Padded Doc)) (i : Nat) :
    (membersReplace chosen ms i).length = ms.length := by
  induction ms generalizing i with
  | nil => rfl
  | cons m ms ih =>
    obtain ⟨k, b, v, a⟩ := m
    rw [membersReplace, List.length_cons, ih, List.length_cons]

theorem Lexeme.replace_ok {s : Lexeme} (h : s.Ok) (chosen : Bool) : (s.replace chosen).Ok := by
  cases chosen with
  | false => exact h
  | true => exact ⟨by decide +kernel, ch '?', [], rfl, by decide⟩

theorem Lexeme.replace_text_le {s : Lexeme} (h : s.Ok) (chosen : Bool) :
    (s.replace chosen).text.length ≤ s.text.length := by
  cases chosen with
  | false => exact le_rfl
  | true => exact text_pos h

mutual
theorem Doc.count_replace : (d : Doc) → (i : Nat) → (d.replace chosen i).count = d.count
  | .prim _, _ => rfl
  | .str _, _ => rfl
  | .arr pad is, i => by rw [Doc.replace, Patt.count, itemsCount_replace, Doc.count]
  | .obj pad ms, i => by rw [Doc.replace, Patt.count, membersCount_replace, Doc.count]
theorem itemsCount_replace : (is : List (Padded Doc)) → (i : Nat) →
    Patt.itemsCount (itemsReplace chosen is i) = itemsCount is
  | [], _ => rfl
  | ⟨b, v, a⟩ :: is, i => by
    rw [itemsReplace, Patt.itemsCount, Doc.count_replace v, itemsCount_replace is, itemsCount]
theorem membersCount_replace : (ms : List (Padded (List Byte) × Padded Doc)) → (i : Nat) →
    Patt.membersCount (membersReplace chosen ms i) = membersCount ms
  | [], _ => rfl
  | (k, ⟨b, v, a⟩) :: ms, i => by
    rw [membersReplace, Patt.membersCount, Doc.count_replace v, membersCount_replace ms, membersCount]
end

mutual
theorem Doc.ok_replace : (d : Doc) → d.Ok → (i : Nat) → (d.replace chosen i).Ok
  | .prim a, h, _ => Lexeme.replace_ok (s := .prim a) h _
  | .str body, h, _ => Lexeme.replace_ok (s := .str body) h _
  | .arr _ is, h, _ => ⟨h.1, itemsOk_replace is h.2 _⟩
  | .obj _ ms, h, _ => ⟨h.1, membersOk_replace ms h.2 _⟩
theorem itemsOk_replace : (is : List (Padded Doc)) → itemsOk is → (i : Nat) → Patt.itemsOk (itemsReplace chosen is i)
  | [], _, _ => trivial
  | ⟨_, v, _⟩ :: is, ⟨hb, hv, ha, his⟩, _ => ⟨hb, Doc.ok_replace v hv _, ha, itemsOk_replace is his _⟩
theorem membersOk_replace : (ms : List (Padded (List Byte) × Padded Doc)) → membersOk ms → (i : Nat) →
    Patt.membersOk (membersReplace chosen ms i)
  | [], _, _ => trivial
  | (k, ⟨_, v, _⟩) :: ms, ⟨⟨hk1, hk2, hk3⟩, hb, hv, ha, hms⟩, _ =>
    ⟨⟨hk1, Lexeme.replace_ok (s := .str k.item) hk2 _, hk3⟩, hb, Doc.ok_replace v hv _, ha, membersOk_replace ms hms _⟩
end

mutual
theorem Doc.text_replace_le : (d : Doc) → d.Ok → (i : Nat) → (d.replace chosen i).text.length ≤ d.text.length
  | .prim a, h, _ => Lexeme.replace_text_le (s := .prim a) h _
  | .str body, h, _ => Lexeme.replace_text_le (s := .str body) h _
  | .arr pad is, h, i => by
    have := itemsText_replace_le [] is h.2 (i + 1)
    simp only [Doc.replace, Patt.text, Doc.text, List.length_append, List.length_cons]
    omega
  | .obj pad ms, h, i => by
    have := membersText_replace_le [] ms h.2 (i + 1)
    simp only [Doc.replace, Patt.text, Doc.text, List.length_append, List.length_cons]
    omega
theorem itemsText_replace_le (sep : List Byte) : (is : List (Padded Doc)) → itemsOk is → (i : Nat) →
    (Patt.itemsText sep (itemsReplace chosen is i)).length ≤ (itemsText sep is).length
  | [], _, _ => le_rfl
  | ⟨b, v, a⟩ :: is, ⟨_, hv, _, his⟩, i => by
    have := Doc.text_replace_le v hv i
    have := itemsText_replace_le [ch ','] is his (i + v.count)
    simp only [itemsReplace, Patt.itemsText, itemsText, List.length_append]
    omega
theorem membersText_replace_le (sep : List Byte) : (ms : List (Padded (List Byte) × Padded Doc)) → membersOk ms →
    (i : Nat) → (Patt.membersText sep (membersReplace chosen ms i)).length ≤ (membersText sep ms).length
  | [], _, _ => le_rfl
  | (k, ⟨b, v, a⟩) :: ms, ⟨⟨_, hk, _⟩, _, hv, _, hms⟩, i => by
    have hkey := Lexeme.replace_text_le (s := .str k.item) hk (chosen i)
    have := Doc.text_replace_le v hv (i + 1)
    have := membersText_replace_le [ch ','] ms hms (i + 1 + v.count)
    rw [Lexeme.str_length] at hkey
    simp only [membersReplace, Patt.membersText, membersText, List.length_append, List.length_cons, List.length_nil]
    omega
end

/-! ## Replacing nothing -/

/-- No scalar is chosen. -/
def noneChosen : Nat → Bool := fun _ => false

def Doc.patt (d : Doc) : Patt := d.replace noneChosen 0

mutual
theorem Doc.text_keep : (d : Doc) → (i : Nat) → (d.replace noneChosen i).text = d.text
  | .prim _, _ => rfl
  | .str _, _ => rfl
  | .arr pad is, i => by rw [Doc.replace, Patt.text, itemsText_keep, Doc.text]
  | .obj pad ms, i => by rw [Doc.replace, Patt.text, membersText_keep, Doc.text]
theorem itemsText_keep (sep : List Byte) : (is : List (Padded Doc)) → (i : Nat) →
    Patt.itemsText sep (itemsReplace noneChosen is i) = itemsText sep is
  | [], _ => rfl
  | ⟨b, v, a⟩ :: is, i => by
    rw [itemsReplace, Patt.itemsText, Doc.text_keep v, itemsText_keep _ is, itemsText]
theorem membersText_keep (sep : List Byte) : (ms : List (Padded (List Byte) × Padded Doc)) → (i : Nat) →
    Patt.membersText sep (membersReplace noneChosen ms i) = membersText sep ms
  | [], _ => rfl
  | (k, ⟨b, v, a⟩) :: ms, i => by
    rw [membersReplace, Patt.membersText, Doc.text_keep v, membersText_keep _ ms, membersText]
    rfl
end

mutual
theorem Doc.tokens_keep : (d : Doc) → (i pos : Nat) → (d.replace noneChosen i).tokens pos = d.tokens pos
  | .prim _, _, _ => rfl
  | .str _, _, _ => rfl
  | .arr pad is, i, pos => by
    have htext := Doc.text_keep (.arr pad is) i
    rw [Doc.replace] at htext
    rw [Doc.replace, Patt.tokens, htext, itemsTokens_keep, itemsReplace_length, Doc.tokens]
  | .obj pad ms, i, pos => by
    have htext := Doc.text_keep (.obj pad ms) i
    rw [Doc.replace] at htext
    rw [Doc.replace, Patt.tokens, htext, membersTokens_keep, membersReplace_length, Doc.tokens]
theorem itemsTokens_keep (sep : List Byte) : (is : List (Padded Doc)) → (i pos : Nat) →
    Patt.itemsTokens sep (itemsReplace noneChosen is i) pos = itemsTokens sep is pos
  | [], _, _ => rfl
  | ⟨b, v, a⟩ :: is, i, pos => by
    rw [itemsReplace, Patt.itemsTokens, Doc.tokens_keep v, Doc.text_keep, itemsTokens_keep _ is, itemsTokens]
theorem membersTokens_keep (sep : List Byte) : (ms : List (Padded (List Byte) × Padded Doc)) → (i pos : Nat) →
    Patt.membersTokens sep (membersReplace noneChosen ms i) pos = membersTokens sep ms pos
  | [], _, _ => rfl
  | (k, ⟨b, v, a⟩) :: ms, i, pos => by
    have hkey : ((Lexeme.str k.item).replace (noneChosen i)).text.length = k.item.length + 2 := Lexeme.str_length _
    rw [membersReplace, Patt.membersTokens, membersTokens]
    dsimp only
    rw [hkey, Doc.tokens_keep v, Doc.text_keep, membersTokens_keep _ ms, ← Nat.add_assoc _ k.item.length 2]
    rfl
end

section Doc

variable (d : Doc)

theorem Doc.patt_text : d.patt.text = d.text := d.text_keep 0

theorem Doc.patt_tokens (pos : Nat) : d.patt.tokens pos = d.tokens pos := d.tokens_keep 0 pos

theorem Doc.patt_count : d.patt.count = d.count := d.count_replace noneChosen 0

theorem Doc.patt_ok (h : d.Ok) : d.patt.Ok := d.ok_replace noneChosen h 0

theorem Doc.tokens_length (pos : Nat) : (d.tokens pos).length = d.count := by
  rw [← d.patt_tokens, d.patt.tokens_length, d.patt_count]

theorem Doc.count_le (h : d.Ok) : d.count ≤ d.text.length := by
  rw [← d.patt_count, ← d.patt_text]
  exact d.patt.count_le (d.patt_ok h)

theorem Doc.text_ne_zero (h : d.Ok) : 0 ∉ d.text := by
  rw [← d.patt_text]
  exact d.patt.text_ne_zero (d.patt_ok h)

end Doc

end ToyTstat.Jsmn
