import ToyTstat.Jems.Runs
import ToyTstat.Jsmn.Parse
import ToyTstat.Jsmn.TokenRange

/-!
# `jsmn.c` reads what `jems.c` writes

The tokens are the nodes of the value in pre-order.
-/

open CLib ToyTstat.Code ToyTstat.Code.jsmntype_t ToyTstat.Jsmn

namespace ToyTstat.Jems

/-! ## Nodes -/

/-- A node of a value: where its text starts, its text without quotes, and the number of its children. -/
structure Node where
  type : jsmntype_t
  start : Nat
  text : List Byte
  children : Nat

mutual
/-- The nodes of a value whose text starts at `pos`, each before its children. A key is a node. -/
def Json.nodes : Json → Nat → List Node
  | .null, pos => [⟨JSMN_PRIMITIVE, pos, Json.null.render, 0⟩]
  | .bool b, pos => [⟨JSMN_PRIMITIVE, pos, (Json.bool b).render, 0⟩]
  | .int i, pos => [⟨JSMN_PRIMITIVE, pos, (Json.int i).render, 0⟩]
  | .str s, pos => [⟨JSMN_STRING, pos + 1, escaped s, 0⟩]
  | .arr is, pos => ⟨JSMN_ARRAY, pos, (Json.arr is).render, is.length⟩ :: itemsNodes is (pos + 1)
  | .obj ms, pos => ⟨JSMN_OBJECT, pos, (Json.obj ms).render, ms.length⟩ :: membersNodes ms (pos + 1)
termination_by structural v => v
def itemsNodes : List Json → Nat → List Node
  | [], _ => []
  | v :: is, pos => v.nodes pos ++ itemsNodes is (pos + v.render.length + 1)
termination_by structural is => is
def membersNodes : List (CString × Json) → Nat → List Node
  | [], _ => []
  | (k, v) :: ms, pos =>
    let value := pos + (quoted k).length + 1
    ⟨JSMN_STRING, pos + 1, escaped k, 1⟩ :: v.nodes value ++ membersNodes ms (value + v.render.length + 1)
termination_by structural ms => ms
end

def Node.token (node : Node) : jsmntok_t :=
  ⟨node.type, node.start, (node.start + node.text.length : Nat), node.children⟩

section
variable {js : List Byte} {pos : Nat}

theorem drop_left {a b : List Byte} (h : a ++ b <+: js.drop pos) : a <+: js.drop pos :=
  (List.prefix_append a b).trans h

theorem drop_right {a b : List Byte} (h : a ++ b <+: js.drop pos) : b <+: js.drop (pos + a.length) := by
  obtain ⟨r, hr⟩ := h
  refine ⟨r, ?_⟩
  rw [← List.drop_drop, ← hr, List.append_assoc, List.drop_left]

theorem quoted_text {s : CString} (h : quoted s <+: js.drop pos) : escaped s <+: js.drop (pos + 1) :=
  drop_left (drop_right (a := [ch '"']) h)

theorem closed_text {c c' : Byte} {s : List Byte} (h : c :: s ++ [c'] <+: js.drop pos) : s <+: js.drop (pos + 1) :=
  drop_left (drop_right (a := [c]) h)

end

mutual
theorem Json.nodes_text (js : List Byte) : (v : Json) → ∀ pos, v.render <+: js.drop pos →
    ∀ node ∈ v.nodes pos, node.text <+: js.drop node.start
  | .null, pos, h, node, hnode => by
    rw [List.mem_singleton.mp hnode]
    exact h
  | .bool b, pos, h, node, hnode => by
    rw [List.mem_singleton.mp hnode]
    exact h
  | .int i, pos, h, node, hnode => by
    rw [List.mem_singleton.mp hnode]
    exact h
  | .str s, pos, h, node, hnode => by
    rw [List.mem_singleton.mp hnode]
    exact quoted_text h
  | .arr is, pos, h, node, hnode => by
    rcases List.mem_cons.mp hnode with rfl | hnode
    · exact h
    · rw [Json.render, ← joined_nil] at h
      exact itemsNodes_text js is [] (pos + 1) (closed_text h) node hnode
  | .obj ms, pos, h, node, hnode => by
    rcases List.mem_cons.mp hnode with rfl | hnode
    · exact h
    · rw [Json.render, ← joined_nil] at h
      exact membersNodes_text js ms [] (pos + 1) (closed_text h) node hnode
theorem itemsNodes_text (js : List Byte) : (is : List Json) → ∀ (sep : List Byte) (pos : Nat),
    joined sep (renderItems is) <+: js.drop pos →
    ∀ node ∈ itemsNodes is (pos + sep.length), node.text <+: js.drop node.start
  | [], _, _, _, _, hnode => absurd hnode List.not_mem_nil
  | v :: is, sep, pos, h, node, hnode => by
    rw [renderItems, joined, List.append_assoc] at h
    have h1 := drop_right h
    rcases List.mem_append.mp hnode with hnode | hnode
    · exact Json.nodes_text js v _ (drop_left h1) node hnode
    · exact itemsNodes_text js is [ch ','] _ (drop_right h1) node hnode
theorem membersNodes_text (js : List Byte) : (ms : List (CString × Json)) → ∀ (sep : List Byte) (pos : Nat),
    joined sep (renderMembers ms) <+: js.drop pos →
    ∀ node ∈ membersNodes ms (pos + sep.length), node.text <+: js.drop node.start
  | [], _, _, _, _, hnode => absurd hnode List.not_mem_nil
  | (k, v) :: ms, sep, pos, h, node, hnode => by
    rw [renderMembers, joined, List.append_assoc, List.append_assoc, List.append_assoc] at h
    have h1 := drop_right h
    have h2 := drop_right (drop_right h1)
    rcases List.mem_append.mp hnode with hnode | hnode
    · rcases List.mem_cons.mp hnode with rfl | hnode
      · exact quoted_text (drop_left h1)
      · exact Json.nodes_text js v _ (drop_left h2) node hnode
    · exact membersNodes_text js ms [ch ','] _ (drop_right h2) node hnode
end

/-! ## The text of a value as a document -/

mutual
def Json.doc : Json → Doc
  | .null => .prim Json.null.render
  | .bool b => .prim (Json.bool b).render
  | .int i => .prim (Json.int i).render
  | .str s => .str (escaped s)
  | .arr is => .arr [] (itemsDoc is)
  | .obj ms => .obj [] (membersDoc ms)
termination_by structural v => v
def itemsDoc : List Json → List (Padded Doc)
  | [] => []
  | v :: is => ⟨[], v.doc, []⟩ :: itemsDoc is
termination_by structural is => is
def membersDoc : List (CString × Json) → List (Padded (List Byte) × Padded Doc)
  | [] => []
  | (k, v) :: ms => (⟨[], escaped k, []⟩, ⟨[], v.doc, []⟩) :: membersDoc ms
termination_by structural ms => ms
end

mutual
theorem Json.doc_text : (v : Json) → v.doc.text = v.render
  | .null => rfl
  | .bool _ => rfl
  | .int _ => rfl
  | .str _ => rfl
  | .arr is => by
    rw [Json.doc, Doc.text, itemsDoc_text, Json.render, joined_nil]
    rfl
  | .obj ms => by
    rw [Json.doc, Doc.text, membersDoc_text, Json.render, joined_nil]
    rfl
theorem itemsDoc_text (sep : List Byte) : (is : List Json) → itemsText sep (itemsDoc is) = joined sep (renderItems is)
  | [] => rfl
  | v :: is => by
    rw [itemsDoc, itemsText, Json.doc_text v, itemsDoc_text _ is, renderItems, joined, List.append_nil, List.append_nil]
theorem membersDoc_text (sep : List Byte) : (ms : List (CString × Json)) →
    membersText sep (membersDoc ms) = joined sep (renderMembers ms)
  | [] => rfl
  | (k, v) :: ms => by
    rw [membersDoc, membersText, Json.doc_text v, membersDoc_text _ ms, renderMembers, joined]
    simp [quoted]
end

theorem itemsDoc_length (is : List Json) : (itemsDoc is).length = is.length := by
  induction is with
  | nil => rfl
  | cons v is ih => rw [itemsDoc, List.length_cons, ih, List.length_cons]

theorem membersDoc_length (ms : List (CString × Json)) : (membersDoc ms).length = ms.length := by
  induction ms with
  | nil => rfl
  | cons member ms ih => rw [membersDoc, List.length_cons, ih, List.length_cons]

mutual
theorem Json.doc_tokens : (v : Json) → (pos : Nat) → v.doc.tokens pos = (v.nodes pos).map Node.token
  | .null, _ => rfl
  | .bool _, _ => rfl
  | .int _, _ => rfl
  | .str _, _ => rfl
  | .arr is, pos => by
    have htext := Json.doc_text (.arr is)
    rw [Json.doc] at htext ⊢
    rw [Doc.tokens, htext, itemsDoc_tokens, itemsDoc_length, Json.nodes, List.map_cons]
    rfl
  | .obj ms, pos => by
    have htext := Json.doc_text (.obj ms)
    rw [Json.doc] at htext ⊢
    rw [Doc.tokens, htext, membersDoc_tokens, membersDoc_length, Json.nodes, List.map_cons]
    rfl
theorem itemsDoc_tokens (sep : List Byte) : (is : List Json) → (pos : Nat) →
    itemsTokens sep (itemsDoc is) pos = (itemsNodes is (pos + sep.length)).map Node.token
  | [], _ => rfl
  | v :: is, pos => by
    rw [itemsDoc, itemsTokens, Json.doc_tokens v, Json.doc_text v, itemsDoc_tokens _ is, itemsNodes, List.map_append]
    rfl
theorem membersDoc_tokens (sep : List Byte) : (ms : List (CString × Json)) → (pos : Nat) →
    membersTokens sep (membersDoc ms) pos = (membersNodes ms (pos + sep.length)).map Node.token
  | [], _ => rfl
  | (k, v) :: ms, pos => by
    have hquoted : (quoted k).length = (escaped k).length + 2 := by simp [quoted]
    rw [membersDoc, membersTokens, Json.doc_tokens v, Json.doc_text v, membersDoc_tokens _ ms, membersNodes,
      hquoted, List.map_append, List.map_cons]
    rfl
end

/-! ## The document is well formed -/

theorem hexDigit_isHex : ∀ d, d < 16 → isHex (hexDigit d) := by decide

theorem escape_body {b : Byte} (hb : b ≠ 0) {s : List Byte} (hs : StringBody s) : StringBody (escape b ++ s) := by
  have hlt := b.toNat_lt
  unfold escape
  split
  · rename_i hq
    apply StringBody.escape _ hs
    rcases hq with rfl | rfl <;> decide
  · rename_i hq
    rw [not_or] at hq
    split
    · exact StringBody.char hb hq.1 hq.2 hs
    · apply StringBody.unicode (h := [ch '0', ch '0', _, _]) rfl _ hs
      simp only [List.forall_mem_cons]
      exact ⟨by decide, by decide, hexDigit_isHex _ (by omega), hexDigit_isHex _ (by omega), by simp⟩

theorem escaped_body (s : CString) : StringBody (escaped s) := by
  obtain ⟨bytes, hnul⟩ := s
  unfold escaped
  dsimp only
  induction bytes with
  | nil => exact StringBody.nil
  | cons b s ih =>
    rw [List.mem_cons, not_or] at hnul
    rw [List.flatMap_cons]
    exact escape_body (Ne.symm hnul.1) (ih hnul.2)

mutual
theorem Json.doc_ok : (v : Json) → v.doc.Ok
  | .null => primitive_null
  | .bool b => primitive_bool b
  | .int i => primitive_numeral (decimalInt_numeral i.toInt)
  | .str s => escaped_body s
  | .arr is => ⟨spaces_nil, itemsDoc_ok is⟩
  | .obj ms => ⟨spaces_nil, membersDoc_ok ms⟩
theorem itemsDoc_ok : (is : List Json) → itemsOk (itemsDoc is)
  | [] => trivial
  | v :: is => ⟨spaces_nil, Json.doc_ok v, spaces_nil, itemsDoc_ok is⟩
theorem membersDoc_ok : (ms : List (CString × Json)) → membersOk (membersDoc ms)
  | [] => trivial
  | (k, v) :: ms =>
    ⟨⟨spaces_nil, escaped_body k, spaces_nil⟩, spaces_nil, Json.doc_ok v, spaces_nil, membersDoc_ok ms⟩
end

/-! ## Reading back -/

theorem joined_length (texts : List (List Byte)) :
    texts.length ≤ (joined [] texts).length + 1 := by
  have h : ∀ texts : List (List Byte), texts.length ≤ (joined [ch ','] texts).length := by
    intro texts
    induction texts with
    | nil => exact le_rfl
    | cons s texts ih =>
      simp only [joined, List.length_append, List.length_cons, List.length_nil]
      omega
  cases texts with
  | nil => simp
  | cons s texts =>
    have := h texts
    simp only [joined, List.length_append, List.length_cons]
    omega

theorem renderItems_length (is : List Json) : (renderItems is).length = is.length := by
  induction is with
  | nil => rfl
  | cons v is ih => rw [renderItems, List.length_cons, ih, List.length_cons]

theorem renderMembers_length (ms : List (CString × Json)) : (renderMembers ms).length = ms.length := by
  induction ms with
  | nil => rfl
  | cons member ms ih => rw [renderMembers, List.length_cons, ih, List.length_cons]

mutual
theorem Json.countable_of_length : (v : Json) → v.render.length < 2 ^ 31 → v.Countable
  | .null, _ => trivial
  | .bool _, _ => trivial
  | .int _, _ => trivial
  | .str _, _ => trivial
  | .arr is, h => by
    simp only [Json.render, ← joined_nil, List.length_append, List.length_cons] at h
    have hlen := joined_length (renderItems is)
    rw [renderItems_length] at hlen
    exact ⟨by omega, itemsCountable_of_length [] is (by omega)⟩
  | .obj ms, h => by
    simp only [Json.render, ← joined_nil, List.length_append, List.length_cons] at h
    have hlen := joined_length (renderMembers ms)
    rw [renderMembers_length] at hlen
    exact ⟨by omega, membersCountable_of_length [] ms (by omega)⟩
theorem itemsCountable_of_length (sep : List Byte) : (is : List Json) →
    (joined sep (renderItems is)).length < 2 ^ 31 → itemsCountable is
  | [], _ => trivial
  | v :: is, h => by
    simp only [renderItems, joined, List.length_append] at h
    exact ⟨Json.countable_of_length v (by omega), itemsCountable_of_length [ch ','] is (by omega)⟩
theorem membersCountable_of_length (sep : List Byte) : (ms : List (CString × Json)) →
    (joined sep (renderMembers ms)).length < 2 ^ 31 → membersCountable ms
  | [], _ => trivial
  | (k, v) :: ms, h => by
    simp only [renderMembers, joined, List.length_append] at h
    exact ⟨Json.countable_of_length v (by omega), membersCountable_of_length [ch ','] ms (by omega)⟩
end

/-- The tokens of an emitted text of less than 2^31 bytes are the nodes of its value, each over its own text. -/
theorem jsmn_reads_jems {m : Nat} (hm : m < 2 ^ 64) (hpos : 1 ≤ m) {jems : jems_t (List Byte)} (hjems : Fresh m jems)
    (hwriter : jems.writer = record) (harg : jems.arg = []) (v : Json) (hdepth : v.depth ≤ m - 1)
    (hlen : v.render.length < 2 ^ 31) (num_tokens : Nat) (hn : (v.nodes 0).length ≤ num_tokens) :
    ∃ jems', runCalls v.calls jems = some jems' ∧
      ∀ js fuel, jems'.arg <+: js → jems'.arg.length + 1 < fuel →
        (∃ parser, jsmn_parse fuel jsmn_init js jems'.arg.length (some []) num_tokens =
          some (((v.nodes 0).length : Int), parser, some ((v.nodes 0).map Node.token))) ∧
        ∀ node ∈ v.nodes 0, (js.drop node.start).take node.text.length = node.text := by
  obtain ⟨deeper, hrun⟩ := fresh_emits hm hpos hjems v (v.countable_of_length hlen) hdepth
  rw [hwriter, harg, writeAll_record, List.nil_append, Option.map_some] at hrun
  refine ⟨_, hrun, fun js fuel hjs hfuel => ⟨?_, fun node hnode => ?_⟩⟩
  · have hcount : v.doc.count = (v.nodes 0).length := by
      rw [← Doc.tokens_length v.doc 0, Json.doc_tokens, List.length_map]
    have h := parse_doc js [] [] v.doc num_tokens fuel v.doc_ok spaces_nil spaces_nil
    simp only [List.nil_append, List.append_nil, Json.doc_text] at h hjs hfuel
    have hparse := h hlen hjs (by omega) hfuel
    rw [hcount, Json.doc_tokens] at hparse
    exact ⟨_, hparse⟩
  · have h := Json.nodes_text js v 0 (by simpa using hjs) node hnode
    exact (List.prefix_iff_eq_take.mp h).symm

theorem jsmn_reads_jems_pair :
    ∃ parser, jsmn_parse 100 jsmn_init (ascii "[1,true]") 8 (some []) 3 =
      some (3, parser, some [⟨JSMN_ARRAY, 0, 8, 2⟩, ⟨JSMN_PRIMITIVE, 1, 2, 0⟩, ⟨JSMN_PRIMITIVE, 3, 7, 0⟩]) := by
  obtain ⟨jems', hrun, h⟩ := jsmn_reads_jems (by decide) (by decide) fresh_two rfl rfl (.arr [.int 1, .bool true])
    (by decide) (by decide +kernel) 3 (by decide)
  have htext : some jems'.arg = some (ascii "[1,true]") := by
    rw [← Option.map_some, ← hrun]
    decide +kernel
  rw [Option.some.inj htext] at h
  exact (h (ascii "[1,true]") 100 (List.prefix_refl _) (by decide)).1

/-! ## Too long a text -/

def letters (n : Nat) : CString := ⟨List.replicate n (ch 'a'), by
  rw [List.mem_replicate]
  exact fun h => absurd h.2 (by decide)⟩

theorem letters_render_length (n : Nat) : (Json.arr [.str (letters n)]).render.length = n + 4 := by
  have hescape : escape (ch 'a') = [ch 'a'] := by decide
  have hescaped : (escaped (letters n)).length = n := by
    simp [escaped, letters, hescape]
  simp [Json.render, renderItems, quoted, hescaped]

/-- The end of the last token does not fit in an `int`. -/
theorem jsmn_not_reads_jems :
    ¬ ∀ (m : Nat) (jems : jems_t (List Byte)) (v : Json) (num_tokens : Nat), m < 2 ^ 64 → 1 ≤ m → Fresh m jems →
      jems.writer = record → jems.arg = [] → v.depth ≤ m - 1 → (v.nodes 0).length ≤ num_tokens →
      ∃ jems' fuel parser, runCalls v.calls jems = some jems' ∧
        jsmn_parse fuel jsmn_init (jems'.arg ++ [0]) jems'.arg.length (some []) num_tokens =
          some (((v.nodes 0).length : Int), parser, some ((v.nodes 0).map Node.token)) := by
  intro h
  obtain ⟨n, hn⟩ : ∃ n, n + 4 = 2 ^ 31 := ⟨2 ^ 31 - 4, by norm_num⟩
  obtain ⟨jems', fuel, parser, -, hparse⟩ := h 2 _ (.arr [.str (letters n)]) 2 (by decide) (by decide) fresh_two rfl rfl
    le_rfl le_rfl
  have hbounds := jsmn_parse_kept intBounds_kept (allTokens_some (by simp)) hparse _ rfl _ List.mem_cons_self
  have hend : (0 + (Json.arr [.str (letters n)]).render.length : Nat) < (2 ^ 31 : Int) := hbounds.2.2
  rw [letters_render_length] at hend
  omega

end ToyTstat.Jems
