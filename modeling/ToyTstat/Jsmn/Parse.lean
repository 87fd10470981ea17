import ToyTstat.Jsmn.Patt

/-!
# `jsmn_parse` finds the tokens of a text

By induction on the text, a pattern in general. The invariant: the containers that are open are the ones around the
place where the parser is, and the innermost of them is what the backward scans find.
-/

open CLib ToyTstat.Code ToyTstat.Code.jsmntype_t

namespace ToyTstat.Jsmn

variable {js : List Byte} {len n : Nat}

/-! ## What stays true of the tokens -/

theorem isOpen_size (t : jsmntok_t) (k : Int) : isOpen { t with size := k } = isOpen t := rfl

theorem isContainer_size (t : jsmntok_t) (k : Int) :
    (fun t : jsmntok_t => isContainer t.type) { t with size := k } = isContainer t.type := rfl

theorem lastOpen_bump (super : Int) (T : List jsmntok_t) : lastOpen (bump super T) = lastOpen T :=
  lastIndex_congr (bump_map isOpen isOpen_size super T)

theorem lastOpen_addSize (i : Nat) (k : Int) (T : List jsmntok_t) : lastOpen (addSize i k T) = lastOpen T :=
  lastIndex_congr (addSize_map isOpen isOpen_size i k T)

theorem lastOpen_append (T L : List jsmntok_t) (hL : AllClosed L) : lastOpen (T ++ L) = lastOpen T :=
  lastIndex_append _ _ _ hL

theorem openOk_of_map {T S : List jsmntok_t} (h : T.map isOpen = S.map isOpen)
    (hc : T.map (fun t => isContainer t.type) = S.map fun t => isContainer t.type) (hS : OpenOk S) :
    OpenOk T := by
  intro t ht hopen
  obtain ⟨i, hi, rfl⟩ := List.mem_iff_getElem.mp ht
  have hlen : i < S.length := by
    have := congrArg List.length h
    simp only [List.length_map] at this
    omega
  have h1 := congrArg (·[i]?) h
  have h2 := congrArg (·[i]?) hc
  simp only [List.getElem?_map, List.getElem?_eq_getElem hi, List.getElem?_eq_getElem hlen,
    Option.map_some, Option.some.injEq] at h1 h2
  rw [h2]
  exact hS _ (List.getElem_mem hlen) (h1 ▸ hopen)

theorem openOk_addSize {T : List jsmntok_t} (h : OpenOk T) (i : Nat) (k : Int) : OpenOk (addSize i k T) :=
  openOk_of_map (addSize_map isOpen isOpen_size i k T) (addSize_map _ isContainer_size i k T) h

theorem openOk_bump {T : List jsmntok_t} (h : OpenOk T) (super : Int) : OpenOk (bump super T) :=
  openOk_of_map (bump_map isOpen isOpen_size super T) (bump_map _ isContainer_size super T) h

theorem openOk_append {T L : List jsmntok_t} (h : OpenOk T) (hL : AllClosed L) : OpenOk (T ++ L) := by
  intro t ht hopen
  rcases List.mem_append.mp ht with ht | ht
  · exact h t ht hopen
  · rw [hL t ht] at hopen
    cases hopen

/-! ## Where a value ends -/

theorem stops_space {c : Byte} {r : List Byte} (h : isSpace c) : Stops (c :: r) := by
  intro x hx
  simp only [List.head?_cons, Option.mem_def, Option.some.injEq] at hx
  subst hx
  simp [endsPrimitive, h]

theorem stops_spaces_append {w r : List Byte} (hw : Spaces w) (hr : Stops r) : Stops (w ++ r) := by
  cases w with
  | nil => exact hr
  | cons c w => exact stops_space (hw c List.mem_cons_self)

theorem stops_comma (r : List Byte) : Stops (ch ',' :: r) := by
  simp [Stops, endsPrimitive]

theorem stops_colon (r : List Byte) : Stops (ch ':' :: r) := by
  simp [Stops, endsPrimitive]

theorem stops_items (is : List (Padded Patt)) (r : List Byte) :
    Stops (Patt.itemsText [ch ','] is ++ ch ']' :: r) := by
  cases is with
  | nil => simp [Patt.itemsText, Stops, endsPrimitive]
  | cons i is => exact stops_comma _

theorem stops_members (ms : List (Padded Lexeme × Padded Patt)) (r : List Byte) :
    Stops (Patt.membersText [ch ','] ms ++ ch '}' :: r) := by
  cases ms with
  | nil => simp [Patt.membersText, Stops, endsPrimitive]
  | cons m ms => exact stops_comma _

/-! ## Before and after a value -/

/-- `toksuper` after a value: a container leaves the one around it. -/
def Patt.superAfter (T : List jsmntok_t) (super : Int) : Patt → Int
  | .scalar _ => super
  | .arr _ _ => lastOpen T
  | .obj _ _ => lastOpen T

/-- What the parser needs before a value with `k` tokens. -/
structure Ready (n k : Nat) (T : List jsmntok_t) (super : Int) : Prop where
  super_ok : Super super T
  open_ok : OpenOk T
  fits : T.length + k ≤ n
  small : T.length + k < 2 ^ 31

theorem Super.natCast {i : Nat} {T : List jsmntok_t} (h : i < T.length) : Super i T :=
  Or.inr ⟨by omega, by omega⟩

theorem Patt.superAfter_inside (p : Patt) {T : List jsmntok_t} {i : Nat} (h : lastOpen T = i) :
    p.superAfter T i = i := by
  cases p <;> simp [Patt.superAfter, h]

theorem reaches_sep (hmax : len < 2 ^ 31) {sep r : List Byte} {pos super i : Nat} {T : List jsmntok_t}
    (hsep : (sep = [] ∧ super = i) ∨ sep = [ch ',']) (hrest : rest js len pos = sep ++ r) (hok : OpenOk T)
    (hi : lastOpen T = i) {t : jsmntok_t} (ht : T[super]? = some t)
    (hsuper : isContainer t.type → super = i) :
    Reaches js len n (st pos T super) (st (pos + sep.length) T i) := by
  -- a separator before an item or a member, when `super` is the last key or the container `i` itself
  rcases hsep with ⟨rfl, rfl⟩ | rfl
  · exact Reaches.refl _
  · exact reaches_comma hmax T super i hrest hok hi ht hsuper

/-! ## Inside a container -/

section Container

variable {type : jsmntype_t} {pos : Nat} {T : List jsmntok_t} {super : Int}

theorem isOpen_openToken (type : jsmntype_t) (pos : Nat) (k : Int) :
    isOpen { openToken type pos with size := k } := by
  simp [openToken, isOpen]

theorem lastOpen_open : lastOpen (bump super T ++ [openToken type pos]) = T.length := by
  have h : isOpen (openToken type pos) := isOpen_openToken type pos 0
  rw [lastOpen, lastIndex_snoc, if_pos h, bump_length]

theorem getElem_open : (bump super T ++ [openToken type pos])[T.length]? = some (openToken type pos) := by
  simp

theorem openOk_open (h : OpenOk T) (hc : isContainer type) : OpenOk (bump super T ++ [openToken type pos]) := by
  intro t ht hopen
  rcases List.mem_append.mp ht with ht | ht
  · exact openOk_bump h super t ht hopen
  · rw [List.mem_singleton.mp ht]
    exact hc

theorem reaches_container (hmax : len < 2 ^ 31) {o c : Byte} {pad inner r : List Byte} {k : Nat}
    {L : List jsmntok_t} {super' : Int}
    (hoc : (o = ch '{' ∧ c = ch '}' ∧ type = JSMN_OBJECT) ∨ (o = ch '[' ∧ c = ch ']' ∧ type = JSMN_ARRAY))
    (hrest : rest js len pos = o :: (pad ++ (inner ++ c :: r))) (hpad : Spaces pad) (hsuper : Super super T)
    (hn : T.length < n) (hT : T.length < 2 ^ 31) (hL : AllClosed L)
    (hinner : Reaches js len n (st (pos + 1 + pad.length) (bump super T ++ [openToken type pos]) T.length)
      (st (pos + 1 + pad.length + inner.length)
        (addSize T.length k (bump super T ++ [openToken type pos]) ++ L) super')) :
    Reaches js len n (st pos T super)
      (st (pos + 1 + pad.length + inner.length + 1)
        (bump super T ++ containerToken type pos (pos + 1 + pad.length + inner.length + 1) k :: L)
        (lastOpen T)) := by
  have hrest1 := rest_succ hrest
  have hrest2 := rest_add hrest1
  have hrest3 := rest_add hrest2
  have h1 : Reaches js len n (st pos T super) (st (pos + 1) (bump super T ++ [openToken type pos]) T.length) :=
    reaches_open hmax hrest (by tauto) hsuper hn hT
  have h2 := reaches_spaces (n := n) hmax pad (bump super T ++ [openToken type pos]) T.length hrest1 hpad
  have hsize : addSize T.length k (bump super T ++ [openToken type pos]) ++ L =
      bump super T ++ { openToken type pos with size := (k : Int) } :: L := by
    have h := addSize_snoc k (bump super T) (openToken type pos)
    rw [bump_length] at h
    rw [h]
    simp [openToken]
  have h4 := reaches_close (n := n) (T := bump super T) (L := L) hmax
    { openToken type pos with size := (k : Int) } super' hrest3
    (by simp only [openToken]; tauto) (isOpen_openToken type pos k) hL
  rw [lastOpen_bump] at h4
  rw [hsize] at hinner
  exact h1.trans (h2.trans (hinner.trans h4))

end Container

/-! ## Scalars and keys -/

theorem Lexeme.reaches (hlen : len ≤ js.length) (hmax : len < 2 ^ 31) {s : Lexeme} (hs : s.Ok) {r : List Byte}
    {pos : Nat} {T : List jsmntok_t} {super : Int} (hrest : rest js len pos = s.text ++ r) (hstop : Stops r)
    (hsuper : Super super T) (hn : T.length < n) :
    Reaches js len n (st pos T super) (st (pos + s.text.length) (bump super T ++ [s.token pos]) super) := by
  cases s with
  | prim a => exact reaches_primitive hlen hmax hrest hs hstop hsuper hn
  | str body =>
    rw [Lexeme.str_length, ← Nat.add_assoc]
    exact reaches_string hmax super (by simpa [Lexeme.text] using hrest) hs hsuper hn

theorem token_closed (s : Lexeme) (pos : Nat) : AllClosed [s.token pos] := by
  rw [AllClosed, List.forall_mem_singleton]
  exact s.token_not_open pos

theorem bump_token (T : List jsmntok_t) (k : Lexeme) (pos : Nat) :
    bump T.length (T ++ [k.token pos]) = T ++ [k.keyToken pos] := by
  rw [bump_natCast, addSize_snoc]
  cases k <;> simp [Lexeme.token, Lexeme.keyToken, scalarToken]

theorem keyToken_closed (k : Lexeme) (pos : Nat) {L : List jsmntok_t} (hL : AllClosed L) :
    AllClosed (k.keyToken pos :: L) := by
  rw [AllClosed, List.forall_mem_cons]
  exact ⟨k.keyToken_not_open pos, hL⟩

theorem Patt.superAfter_key (p : Patt) {T : List jsmntok_t} {i : Nat} (k : Nat) (hlast : lastOpen T = i) :
    ∃ super : Nat, p.superAfter T k = super ∧ (super = k ∨ super = i) := by
  cases p with
  | scalar _ => exact ⟨k, rfl, Or.inl rfl⟩
  | arr _ _ => exact ⟨i, hlast, Or.inr rfl⟩
  | obj _ _ => exact ⟨i, hlast, Or.inr rfl⟩

theorem getElem_key (T L : List jsmntok_t) (k : Lexeme) (pos : Nat) {super i : Nat} (hi : i < T.length)
    (hsuper : super = T.length ∨ super = i) :
    ∃ t, (T ++ k.keyToken pos :: L)[super]? = some t ∧ (isContainer t.type → super = i) := by
  rcases hsuper with rfl | rfl
  · refine ⟨k.keyToken pos, by simp, ?_⟩
    cases k <;> simp [Lexeme.keyToken, Lexeme.token, scalarToken, isContainer]
  · obtain ⟨t, ht⟩ : ∃ t, (T ++ k.keyToken pos :: L)[super]? = some t :=
      ⟨_, List.getElem?_eq_getElem (by simp; omega)⟩
    exact ⟨t, ht, fun _ => rfl⟩

theorem reaches_key (hlen : len ≤ js.length) (hmax : len < 2 ^ 31) {sep r : List Byte} {pos super i : Nat}
    {T : List jsmntok_t} {k : Padded Lexeme}
    (hrest : rest js len pos = sep ++ (k.before ++ (k.item.text ++ (k.after ++ ch ':' :: r))))
    (hsep : (sep = [] ∧ super = i) ∨ sep = [ch ',']) (hk : Spaces k.before ∧ k.item.Ok ∧ Spaces k.after)
    (hlast : lastOpen T = i) {t : jsmntok_t} (ht : T[super]? = some t) (hsuper : isContainer t.type → super = i)
    (hopen : OpenOk T) (hi : i < T.length) (hn : T.length < n) (hT : T.length < 2 ^ 31) :
    Reaches js len n (st pos T super)
      (st (pos + sep.length + k.before.length + k.item.text.length + k.after.length + 1)
        (addSize i 1 T ++ [k.item.token (pos + sep.length + k.before.length)]) T.length) := by
  -- up to the colon: the key is a child of the object `i`, and the token that the value will belong to
  have hrest1 := rest_add hrest
  have hrest2 := rest_add hrest1
  have hrest3 := rest_add hrest2
  have h0 := reaches_sep (n := n) hmax hsep hrest hopen hlast ht hsuper
  have h1 := reaches_spaces (n := n) hmax k.before T i hrest1 hk.1
  have h2 := Lexeme.reaches (n := n) (T := T) hlen hmax hk.2.1 hrest2
    (stops_spaces_append hk.2.2 (stops_colon r)) (Super.natCast hi) hn
  rw [bump_natCast] at h2
  set token := k.item.token (pos + sep.length + k.before.length)
  have h3 := reaches_spaces (n := n) hmax k.after (addSize i 1 T ++ [token]) i hrest3 hk.2.2
  have h4 := reaches_colon (n := n) hmax (addSize i 1 T) token i (rest_add hrest3) (by simpa using hT)
  rw [addSize_length] at h4
  exact h0.trans (h1.trans (h2.trans (h3.trans h4)))

/-! ## One member -/

section Member

variable {sep r b a : List Byte} {pos super i key value : Nat} {T : List jsmntok_t} {k : Padded Lexeme} {v : Patt}

theorem lastOpen_member (hlast : lastOpen T = i) :
    lastOpen (addSize i 1 T ++ k.item.keyToken key :: v.tokens value) = i := by
  rw [lastOpen_append _ _ (keyToken_closed _ _ (v.tokens_closed value)), lastOpen_addSize, hlast]

theorem openOk_member (hopen : OpenOk T) : OpenOk (addSize i 1 T ++ k.item.keyToken key :: v.tokens value) :=
  openOk_append (openOk_addSize hopen i 1) (keyToken_closed _ _ (v.tokens_closed value))

theorem reaches_member (hlen : len ≤ js.length) (hmax : len < 2 ^ 31) (hkey : key = pos + sep.length + k.before.length)
    (hvalue : value = key + k.item.text.length + k.after.length + 1 + b.length)
    (hrest : rest js len pos =
      sep ++ (k.before ++ (k.item.text ++ (k.after ++ ([ch ':'] ++ (b ++ (v.text ++ (a ++ r))))))))
    (hsep : (sep = [] ∧ super = i) ∨ sep = [ch ',']) (hk : Spaces k.before ∧ k.item.Ok ∧ Spaces k.after)
    (hb : Spaces b) (ha : Spaces a) (hlast : lastOpen T = i) {t : jsmntok_t} (ht : T[super]? = some t)
    (hsuper : isContainer t.type → super = i) (hopen : OpenOk T) (hi : i < T.length) (hn : T.length < n)
    (hT : T.length < 2 ^ 31)
    (hreaches : rest js len value = v.text ++ (a ++ r) → OpenOk (addSize i 1 T ++ [k.item.token key]) →
      Reaches js len n (st value (addSize i 1 T ++ [k.item.token key]) T.length)
        (st (value + v.text.length) (bump T.length (addSize i 1 T ++ [k.item.token key]) ++ v.tokens value)
          (v.superAfter (addSize i 1 T ++ [k.item.token key]) T.length))) :
    ∃ super' : Nat, (super' = T.length ∨ super' = i) ∧ rest js len (value + v.text.length + a.length) = r ∧
      Reaches js len n (st pos T super)
        (st (value + v.text.length + a.length) (addSize i 1 T ++ k.item.keyToken key :: v.tokens value) super') := by
  have hrest5 := rest_add (rest_add (rest_add (rest_add (rest_add hrest))))
  rw [List.length_singleton, ← hkey] at hrest5
  have hrest6 := rest_add hrest5
  rw [← hvalue] at hrest6
  have hrest7 := rest_add hrest6
  have hclosed : AllClosed [k.item.token key] := token_closed _ _
  have hlast1 : lastOpen (addSize i 1 T ++ [k.item.token key]) = i := by
    rw [lastOpen_append _ _ hclosed, lastOpen_addSize, hlast]
  have h1 := reaches_key (n := n) hlen hmax hrest hsep hk hlast ht hsuper hopen hi hn hT
  rw [← hkey] at h1
  have h2 := reaches_spaces (n := n) hmax b (addSize i 1 T ++ [k.item.token key]) T.length hrest5 hb
  rw [← hvalue] at h2
  have h3 := hreaches hrest6 (openOk_append (openOk_addSize hopen i 1) hclosed)
  have hkeyToken := bump_token (addSize i 1 T) k.item key
  rw [addSize_length] at hkeyToken
  obtain ⟨super', hsuper', hcases⟩ := v.superAfter_key T.length hlast1
  rw [hkeyToken, List.append_assoc, List.singleton_append, hsuper'] at h3
  have h4 := reaches_spaces (n := n) hmax a (addSize i 1 T ++ k.item.keyToken key :: v.tokens value) super' hrest7 ha
  exact ⟨super', hcases, rest_add hrest7, h1.trans (h2.trans (h3.trans h4))⟩

end Member

/-! ## The induction -/

mutual

theorem Patt.reaches (hlen : len ≤ js.length) (hmax : len < 2 ^ 31) : (p : Patt) → p.Ok → ∀ (pos : Nat)
    (T : List jsmntok_t) (super : Int) (r : List Byte), rest js len pos = p.text ++ r → Stops r →
    Ready n p.count T super →
    Reaches js len n (st pos T super)
      (st (pos + p.text.length) (bump super T ++ p.tokens pos) (p.superAfter T super))
  | .scalar s, hok, pos, T, super, r, hrest, hstop, hready =>
    Lexeme.reaches hlen hmax hok hrest hstop hready.super_ok
      (by have := hready.fits; simp only [Patt.count] at this; omega)
  | .arr pad is, ⟨hpad, his⟩, pos, T, super, r, hrest, _, ⟨hsuper, hopen, hfits, hsmall⟩ => by
    simp only [Patt.count] at hfits hsmall
    have htext : pos + (Patt.arr pad is).text.length = pos + 1 + pad.length + (Patt.itemsText [] is).length + 1 := by
      simp [Patt.text]
      omega
    have hrest0 : rest js len pos = ch '[' :: (pad ++ (Patt.itemsText [] is ++ ch ']' :: r)) := by
      simpa [Patt.text] using hrest
    have hinner := Patt.items_reaches hlen hmax [] is his (pos + 1 + pad.length)
      (bump super T ++ [openToken JSMN_ARRAY pos]) T.length r (Or.inl rfl) (rest_add (rest_succ hrest0))
      lastOpen_open getElem_open rfl (openOk_open hopen rfl) (by simp; omega) (by simp; omega)
    have h := reaches_container hmax (Or.inr ⟨rfl, rfl, rfl⟩) hrest0 hpad hsuper (by omega) (by omega)
      (Patt.itemsTokens_closed _ _ _) hinner
    rw [Patt.tokens, htext]
    exact h
  | .obj pad ms, ⟨hpad, hms⟩, pos, T, super, r, hrest, _, ⟨hsuper, hopen, hfits, hsmall⟩ => by
    simp only [Patt.count] at hfits hsmall
    have htext : pos + (Patt.obj pad ms).text.length = pos + 1 + pad.length + (Patt.membersText [] ms).length + 1 := by
      simp [Patt.text]
      omega
    have hrest0 : rest js len pos = ch '{' :: (pad ++ (Patt.membersText [] ms ++ ch '}' :: r)) := by
      simpa [Patt.text] using hrest
    obtain ⟨super', hinner⟩ := Patt.members_reaches hlen hmax [] ms hms (pos + 1 + pad.length)
      (bump super T ++ [openToken JSMN_OBJECT pos]) T.length T.length r (Or.inl ⟨rfl, rfl⟩)
      (rest_add (rest_succ hrest0)) lastOpen_open getElem_open (fun _ => rfl) (openOk_open hopen rfl)
      (by simp) (by simp; omega) (by simp; omega)
    have h := reaches_container hmax (Or.inl ⟨rfl, rfl, rfl⟩) hrest0 hpad hsuper (by omega) (by omega)
      (Patt.membersTokens_closed _ _ _) hinner
    rw [Patt.tokens, htext]
    exact h

theorem Patt.items_reaches (hlen : len ≤ js.length) (hmax : len < 2 ^ 31) (sep : List Byte) :
    (is : List (Padded Patt)) → Patt.itemsOk is → ∀ (pos : Nat) (T : List jsmntok_t) (i : Nat) (r : List Byte),
    sep = [] ∨ sep = [ch ','] → rest js len pos = Patt.itemsText sep is ++ ch ']' :: r → lastOpen T = i →
    ∀ {t : jsmntok_t}, T[i]? = some t → t.type = JSMN_ARRAY → OpenOk T → T.length + Patt.itemsCount is ≤ n →
    T.length + Patt.itemsCount is < 2 ^ 31 →
    Reaches js len n (st pos T i)
      (st (pos + (Patt.itemsText sep is).length) (addSize i is.length T ++ Patt.itemsTokens sep is pos) i)
  | [], _, pos, T, i, r, _, _, _, _, _, _, _, _, _ => by
    rw [List.length_nil, Int.natCast_zero, addSize_zero]
    simp only [Patt.itemsText, Patt.itemsTokens, List.append_nil]
    exact Reaches.refl _
  | ⟨b, v, a⟩ :: is, ⟨hb, hv, ha, his⟩, pos, T, i, r, hsep, hrest, hlast, t, ht, htype, hopen, hfits, hsmall => by
    simp only [Patt.itemsCount] at hfits hsmall
    have hi : i < T.length := (List.getElem?_eq_some_iff.mp ht).1
    have hrest0 : rest js len pos =
        sep ++ (b ++ (v.text ++ (a ++ (Patt.itemsText [ch ','] is ++ ch ']' :: r)))) := by
      simpa [Patt.itemsText] using hrest
    have hrest1 := rest_add hrest0
    have hrest2 := rest_add hrest1
    have hrest3 := rest_add hrest2
    have h0 := reaches_sep (n := n) hmax (by tauto) hrest0 hopen hlast ht fun _ => rfl
    have h1 := reaches_spaces (n := n) hmax b T i hrest1 hb
    have h2 := Patt.reaches hlen hmax v hv _ T i _ hrest2 (stops_spaces_append ha (stops_items is r))
      ⟨Super.natCast hi, hopen, by omega, by omega⟩
    rw [Patt.superAfter_inside v hlast, bump_natCast] at h2
    have h3 := reaches_spaces (n := n) hmax a
      (addSize i 1 T ++ v.tokens (pos + sep.length + b.length)) i hrest3 ha
    have h4 := Patt.items_reaches hlen hmax [ch ','] is his _
      (addSize i 1 T ++ v.tokens (pos + sep.length + b.length)) i r (Or.inr rfl) (rest_add hrest3)
      (by rw [lastOpen_append _ _ (Patt.tokens_closed v _), lastOpen_addSize, hlast])
      (t := { t with size := t.size + 1 })
      (by rw [List.getElem?_append_left (by simpa using hi)]; simp [addSize, ht])
      htype (openOk_append (openOk_addSize hopen i 1) (Patt.tokens_closed v _))
      (by simp [Patt.tokens_length]; omega) (by simp [Patt.tokens_length]; omega)
    have hsize : addSize i is.length (addSize i 1 T ++ v.tokens (pos + sep.length + b.length)) =
        addSize i (Padded.mk b v a :: is).length T ++ v.tokens (pos + sep.length + b.length) := by
      rw [addSize_append _ _ _ _ (by simpa using hi), addSize_add]
      simp [Int.add_comm]
    have htext : pos + (Patt.itemsText sep (⟨b, v, a⟩ :: is)).length =
        pos + sep.length + b.length + v.text.length + a.length + (Patt.itemsText [ch ','] is).length := by
      simp [Patt.itemsText]
      omega
    rw [hsize, List.append_assoc] at h4
    rw [htext, Patt.itemsTokens]
    exact h0.trans (h1.trans (h2.trans (h3.trans h4)))

theorem Patt.members_reaches (hlen : len ≤ js.length) (hmax : len < 2 ^ 31) (sep : List Byte) :
    (ms : List (Padded Lexeme × Padded Patt)) → Patt.membersOk ms → ∀ (pos : Nat) (T : List jsmntok_t)
    (super i : Nat) (r : List Byte), (sep = [] ∧ super = i) ∨ sep = [ch ','] →
    rest js len pos = Patt.membersText sep ms ++ ch '}' :: r → lastOpen T = i →
    ∀ {t : jsmntok_t}, T[super]? = some t → (isContainer t.type → super = i) → OpenOk T → i < T.length →
    T.length + Patt.membersCount ms ≤ n → T.length + Patt.membersCount ms < 2 ^ 31 →
    ∃ super' : Int, Reaches js len n (st pos T super)
      (st (pos + (Patt.membersText sep ms).length) (addSize i ms.length T ++ Patt.membersTokens sep ms pos) super')
  | [], _, pos, T, super, i, r, _, _, _, _, _, _, _, _, _, _ => by
    rw [List.length_nil, Int.natCast_zero, addSize_zero]
    simp only [Patt.membersText, Patt.membersTokens, List.append_nil]
    exact ⟨super, Reaches.refl _⟩
  | (k, ⟨b, v, a⟩) :: ms, ⟨⟨hk1, hk2, hk3⟩, hb, hv, ha, hms⟩, pos, T, super, i, r, hsep, hrest, hlast, t, ht,
      hsuper, hopen, hi, hfits, hsmall => by
    simp only [Patt.membersCount] at hfits hsmall
    have hrest0 : rest js len pos = sep ++ (k.before ++ (k.item.text ++ (k.after ++
        ([ch ':'] ++ (b ++ (v.text ++ (a ++ (Patt.membersText [ch ','] ms ++ ch '}' :: r)))))))) := by
      simpa [Patt.membersText] using hrest
    obtain ⟨super2, hcases, hrest1, h1⟩ := reaches_member (n := n) hlen hmax rfl rfl hrest0 hsep ⟨hk1, hk2, hk3⟩ hb ha
      hlast ht hsuper hopen hi (by omega) (by omega) fun hvalue hopen1 =>
        Patt.reaches hlen hmax v hv _ _ _ _ hvalue (stops_spaces_append ha (stops_members ms r))
          ⟨Super.natCast (by simp), hopen1, by simp; omega, by simp; omega⟩
    set key := pos + sep.length + k.before.length with hkey
    set value := key + k.item.text.length + k.after.length + 1 + b.length with hvalue
    have hi1 : i < (addSize i 1 T).length := by simpa using hi
    obtain ⟨t2, ht2, hcont⟩ := getElem_key (addSize i 1 T) (v.tokens value) k.item key hi1
      (by rwa [addSize_length])
    obtain ⟨super', h2⟩ := Patt.members_reaches hlen hmax [ch ','] ms hms _ _ super2 i r (Or.inr rfl) hrest1
      (lastOpen_member hlast) ht2 hcont (openOk_member hopen) (by simp; omega)
      (by simp [Patt.tokens_length]; omega) (by simp [Patt.tokens_length]; omega)
    have hsize : addSize i ms.length (addSize i 1 T ++ k.item.keyToken key :: v.tokens value) =
        addSize i ((k, Padded.mk b v a) :: ms).length T ++ k.item.keyToken key :: v.tokens value := by
      rw [addSize_append _ _ _ _ hi1, addSize_add]
      simp [Int.add_comm]
    have htext : pos + (Patt.membersText sep ((k, ⟨b, v, a⟩) :: ms)).length =
        value + v.text.length + a.length + (Patt.membersText [ch ','] ms).length := by
      simp [Patt.membersText, hvalue, hkey]
      omega
    rw [hsize, List.append_assoc] at h2
    rw [htext]
    exact ⟨super', h1.trans h2⟩
end

/-! ## A whole text -/

theorem Patt.superAfter_nil (p : Patt) : p.superAfter [] (-1) = -1 := by
  cases p <;> rfl

/-- A text with white space around it gives the tokens of the text. -/
theorem parse_patt (js before after : List Byte) (p : Patt) (n fuel : Nat) (hp : p.Ok) (hbefore : Spaces before)
    (hafter : Spaces after) (hmax : (before ++ p.text ++ after).length < 2 ^ 31)
    (hjs : before ++ p.text ++ after <+: js) (hn : p.count ≤ n)
    (hfuel : (before ++ p.text ++ after).length + 1 < fuel) :
    jsmn_parse fuel jsmn_init js (before ++ p.text ++ after).length (some []) n =
      some ((p.count : Int), ⟨(before ++ p.text ++ after).length, p.count, -1⟩,
        some (p.tokens before.length)) := by
  set len := (before ++ p.text ++ after).length with hlen_def
  have hlen : len ≤ js.length := hjs.length_le
  have hrest : rest js len 0 = before ++ (p.text ++ (after ++ [])) := by
    rw [rest, List.drop_zero, hlen_def, ← List.prefix_iff_eq_take.mp hjs]
    simp
  have hcount := Patt.count_le p hp
  have hrest1 := rest_add hrest
  have hrest2 := rest_add hrest1
  have h1 := reaches_spaces (n := n) hmax before [] (-1) hrest hbefore
  have h2 := Patt.reaches hlen hmax p hp _ [] (-1) _ hrest1
    (stops_spaces_append hafter (by simp [Stops])) ⟨Or.inl rfl, by simp [OpenOk], by simpa using hn,
      by simp [hlen_def] at hmax ⊢; omega⟩
  rw [Patt.superAfter_nil, show bump (-1) [] = [] from rfl, List.nil_append] at h2
  have h3 := reaches_spaces (n := n) hmax after (p.tokens (0 + before.length)) (-1) hrest2 hafter
  obtain ⟨fuel', hfuel', heq⟩ := (h1.trans (h2.trans h3)) fuel (by rw [hrest]; simp at hfuel hlen_def ⊢; omega)
  obtain ⟨fuel', rfl⟩ : ∃ f, fuel' = f + 1 := ⟨fuel' - 1, by omega⟩
  have hend : before.length + p.text.length + after.length = len := by simp [hlen_def]; omega
  have hscan : scan_back isOpen (p.tokens (0 + before.length)) (p.tokens (0 + before.length)).length = some (-1) := by
    rw [scan_back_eq]
    congr 1
    exact lastIndex_append isOpen [] _ (Patt.tokens_closed p _)
  rw [jsmn_parse, show (⟨jsmn_init, some [], i32 jsmn_init.toknext⟩ : ParseState) = st 0 [] (-1) by
      simp [jsmn_init, i32], heq,
    parse_loop, if_pos (by dsimp only; omega), parse_end]
  dsimp only
  rw [hscan]
  simp only [Option.map_some, if_true, Patt.tokens_length, Nat.zero_add, hend]

theorem parse_doc (js before after : List Byte) (d : Doc) (n fuel : Nat) (hd : d.Ok) (hbefore : Spaces before)
    (hafter : Spaces after) (hmax : (before ++ d.text ++ after).length < 2 ^ 31)
    (hjs : before ++ d.text ++ after <+: js) (hn : d.count ≤ n)
    (hfuel : (before ++ d.text ++ after).length + 1 < fuel) :
    jsmn_parse fuel jsmn_init js (before ++ d.text ++ after).length (some []) n =
      some ((d.count : Int), ⟨(before ++ d.text ++ after).length, d.count, -1⟩,
        some (d.tokens before.length)) := by
  rw [← d.patt_text] at hmax hjs hfuel ⊢
  rw [← d.patt_count] at hn ⊢
  rw [← d.patt_tokens]
  exact parse_patt js before after d.patt n fuel (d.patt_ok hd) hbefore hafter hmax hjs hn hfuel

end ToyTstat.Jsmn
