import ToyTstat.Jems.Quote
import ToyTstat.Jems.Runs
import ToyTstat.Lib.JsonStream

/-!
# What is written, call by call

Calls that put values where values are due, and keys where keys are due, write a JSON text piece by
piece. At every moment it is the beginning of a complete text, and a few more calls complete it.
-/

open CLib ToyTstat.Code

namespace ToyTstat.Jems

/-! ## The pieces of a call -/

/-- At most 21 characters are written. -/
def numberText (value : Double) : List Byte :=
  let i := Int64.ofInt (truncate value.val)
  (if (i.toInt : ℚ) = value.val then decimalInt i.toInt else fixedPoint value.val).take 21

/-- The bytes are there, and an `int` counts them. -/
def countedBytes (bytes : List Byte) (length : Nat) : Option (List Byte) :=
  if length ≤ bytes.length ∧ length < 2 ^ 31 then some (bytes.take length) else none

/-- A reset begins another text. -/
def pieces : JemsCall → Option (List JsonPiece)
  | .reset => none
  | .object_open => some [.opened Bool.true]
  | .object_close => some [.closed Bool.true]
  | .array_open => some [.opened Bool.false]
  | .array_close => some [.closed Bool.false]
  | .number value => some [.scalar (numberText value)]
  | .integer value => some [.scalar (decimalInt value.toInt)]
  | .string string => some [.string (quoted string)]
  | .bytes bytes length => (countedBytes bytes length).map fun bytes => [.string (bytesLiteral bytes)]
  | .bool boolean => some [.scalar (ascii (if boolean then "true" else "false"))]
  | .true => some [.scalar (ascii "true")]
  | .false => some [.scalar (ascii "false")]
  | .null => some [.scalar (ascii "null")]
  | .literal literal n_bytes => (countedBytes literal n_bytes).map fun bytes => [.scalar bytes]
  | .key_object_open key => some [.string (quoted key), .opened Bool.true]
  | .key_array_open key => some [.string (quoted key), .opened Bool.false]
  | .key_number key value => some [.string (quoted key), .scalar (numberText value)]
  | .key_integer key value => some [.string (quoted key), .scalar (decimalInt value.toInt)]
  | .key_string key string => some [.string (quoted key), .string (quoted string)]
  | .key_bytes key bytes length =>
    (countedBytes bytes length).map fun bytes => [.string (quoted key), .string (bytesLiteral bytes)]
  | .key_bool key boolean => some [.string (quoted key), .scalar (ascii (if boolean then "true" else "false"))]
  | .key_true key => some [.string (quoted key), .scalar (ascii "true")]
  | .key_false key => some [.string (quoted key), .scalar (ascii "false")]
  | .key_null key => some [.string (quoted key), .scalar (ascii "null")]
  | .key_literal key literal n_bytes =>
    (countedBytes literal n_bytes).map fun bytes => [.string (quoted key), .scalar bytes]

def callPieces : List JemsCall → Option (List JsonPiece)
  | [] => some []
  | call :: calls => (pieces call).bind fun ps => (callPieces calls).map (ps ++ ·)

/-- The count fits in a `size_t`, and for a container there is a level. -/
def room (m : Nat) (z : JsonStream) : JsonPiece → Bool
  | .opened _ => z.inner.count < 2 ^ 64 ∧ z.outer.length + 1 < m
  | .closed _ => true
  | _ => z.inner.count < 2 ^ 64

/-- What the calls write, if each comes where it may come. -/
def streamed (m : Nat) (calls : List JemsCall) : Option JsonStream :=
  (callPieces calls).bind fun ps => JsonStream.run (room m) ps .start

/-! ## Levels -/

variable {σ : Type} {w : Byte → σ → Option σ} {m : Nat} {frame frame' : JsonFrame} {text : List Byte}

def frameLevel (frame : JsonFrame) : jems_level_t := ⟨usize frame.count, frame.is_object⟩

/-- The container inside is counted already. -/
def levelsBelow (outer : List JsonFrame) : List jems_level_t :=
  (outer.map fun frame => counted (frameLevel frame)).reverse

theorem levelsBelow_cons (frame : JsonFrame) (outer : List JsonFrame) :
    levelsBelow (frame :: outer) = levelsBelow outer ++ [counted (frameLevel frame)] :=
  List.reverse_cons

theorem levelsBelow_length (outer : List JsonFrame) : (levelsBelow outer).length = outer.length := by
  rw [levelsBelow, List.length_reverse, List.length_map]

abbrev streamState (w : Byte → σ → Option σ) (m : Nat) (z : JsonStream) (deeper : List jems_level_t) (arg : σ) :
    jems_t σ :=
  state w m (levelsBelow z.outer) (frameLevel z.inner) deeper arg

theorem commaAfter_eq {texts : List (List Byte)} {n : Nat} (h : texts.length = n) :
    commaAfter texts = if n = 0 then [] else [ch ','] := by
  rw [← h]
  exact if_congr List.length_eq_zero_iff.symm rfl rfl

theorem itemTexts_length (items : List JsonTree) : (itemTexts items).length = items.length := by
  induction items with
  | nil => rfl
  | cons tree items ih => rw [itemTexts, List.length_cons, List.length_cons, ih]

theorem memberTexts_length (members : List (List Byte × JsonTree)) :
    (memberTexts members).length = members.length := by
  induction members with
  | nil => rfl
  | cons member members ih => rw [memberTexts, List.length_cons, List.length_cons, ih]

theorem frame_separator (h : frame.count < 2 ^ 64) : separator (frameLevel frame) = frame.separator := by
  cases frame with
  | array items => exact (separator_array _ h).trans (commaAfter_eq (itemTexts_length items)).symm
  | object members key =>
    cases key with
    | none => exact (separator_key _ h).trans (commaAfter_eq (memberTexts_length members)).symm
    | some key => exact separator_value _ h

theorem counted_frame (h : JsonFrame.Entered text frame frame') :
    counted (frameLevel frame) = frameLevel frame' := by
  unfold frameLevel
  rw [h.is_object, h.count]
  cases frame.is_object with
  | true => exact counted_object _
  | false => exact counted_array _

/-! ## What the calls emit -/

/-- `f` writes the pieces, wherever they may come. -/
def Writes (w : Byte → σ → Option σ) (m : Nat) (f : jems_t σ → Option (jems_t σ)) (ps : List JsonPiece) : Prop :=
  ∀ z z' deeper, JsonStream.run (room m) ps z = some z' → m ≤ z.outer.length + 1 + deeper.length →
    ∃ deeper' t, m ≤ z'.outer.length + 1 + deeper'.length ∧ z'.text = z.text ++ t ∧
      Emits w f (streamState w m z deeper) t (streamState w m z' deeper')

variable {f g : jems_t σ → Option (jems_t σ)} {ps qs : List JsonPiece}

theorem Writes.bind (hf : Writes w m f ps) (hg : Writes w m g qs) :
    Writes w m (fun jems => (f jems).bind g) (ps ++ qs) := by
  intro z z' deeper hrun hdeeper
  obtain ⟨next, hfirst, hrest⟩ := JsonStream.run_split hrun
  obtain ⟨deeper₁, t₁, hdeeper₁, htext₁, hemits₁⟩ := hf z next deeper hfirst hdeeper
  obtain ⟨deeper₂, t₂, hdeeper₂, htext₂, hemits₂⟩ := hg next z' deeper₁ hrest hdeeper₁
  refine ⟨deeper₂, t₁ ++ t₂, hdeeper₂, ?_, hemits₁.bind hemits₂⟩
  rw [htext₂, htext₁, List.append_assoc]

theorem Writes.of (hf : Writes w m f ps) (h : some ps = some qs) : Writes w m f qs := by
  obtain rfl := Option.some.inj h
  exact hf

/-- One item is written, with its separator. -/
def WritesItem (w : Byte → σ → Option σ) (m : Nat) (f : jems_t σ → Option (jems_t σ)) (text : List Byte) : Prop :=
  ∀ below level deeper, Emits w f (state w m below level deeper) (separator level ++ text)
    (state w m below (counted level) deeper)

theorem WritesItem.entered (hf : WritesItem w m f text) {z : JsonStream} (hroom : z.inner.count < 2 ^ 64)
    {inner : JsonFrame} (h : JsonFrame.Entered text z.inner inner) (deeper : List jems_level_t) :
    Emits w f (streamState w m z deeper) (z.inner.separator ++ text)
      (streamState w m { z with inner } deeper) := by
  have hemits := hf (levelsBelow z.outer) (frameLevel z.inner) deeper
  rw [frame_separator hroom, counted_frame h] at hemits
  exact hemits

theorem run_one {z z' : JsonStream} {piece : JsonPiece} (h : JsonStream.run (room m) [piece] z = some z') :
    room m z piece ∧ z.step piece = some z' := by
  obtain ⟨hroom, next, hstep, hlast⟩ := JsonStream.run_cons.mp h
  obtain rfl := Option.some.inj hlast
  exact ⟨hroom, hstep⟩

theorem WritesItem.scalar (hf : WritesItem w m f text) : Writes w m f [.scalar text] := by
  intro z z' deeper hrun hdeeper
  obtain ⟨hroom, hstep⟩ := run_one hrun
  have htext := JsonStream.text_step hstep
  obtain ⟨inner, hput, rfl⟩ := Option.map_eq_some_iff.mp hstep
  exact ⟨deeper, _, hdeeper, htext, hf.entered (of_decide_eq_true hroom) (JsonFrame.put_entered hput) deeper⟩

theorem WritesItem.string (hf : WritesItem w m f text) : Writes w m f [.string text] := by
  intro z z' deeper hrun hdeeper
  obtain ⟨hroom, hstep⟩ := run_one hrun
  have htext := JsonStream.text_step hstep
  obtain ⟨inner, hput, rfl⟩ := Option.map_eq_some_iff.mp hstep
  exact ⟨deeper, _, hdeeper, htext, hf.entered (of_decide_eq_true hroom) (JsonFrame.putString_entered hput) deeper⟩

theorem opened_writes (hm : m < 2 ^ 64) (is_object : Bool) :
    Writes w m (fun jems => (commify jems).bind fun jems =>
      (emit_char jems (JsonFrame.empty is_object).opening).bind fun jems => push_level jems is_object)
      [.opened is_object] := by
  intro z z' deeper hrun hdeeper
  obtain ⟨hroom, hstep⟩ := run_one hrun
  obtain ⟨hcount, hlevel⟩ := of_decide_eq_true hroom
  have htext := JsonStream.text_step hstep
  rw [JsonStream.step] at hstep
  split at hstep
  case isFalse => cases hstep
  case isTrue =>
    obtain rfl := Option.some.inj hstep
    obtain ⟨unused, deeper, rfl⟩ := List.exists_cons_of_length_pos (l := deeper) (by omega)
    have hbelow : (levelsBelow z.outer).length + 1 < m := by
      rw [levelsBelow_length]
      exact hlevel
    have hemits : Emits w _ (state w m (levelsBelow z.outer) (frameLevel z.inner) (unused :: deeper)) _ _ :=
      container_emits (levelsBelow z.outer) (JsonFrame.empty is_object).opening is_object hm hbelow
    obtain ⟨-, hzero, hobject⟩ := JsonFrame.empty_inside is_object
    have hempty : frameLevel (.empty is_object) = ⟨0, is_object⟩ := by
      unfold frameLevel
      rw [hzero, hobject]
      rfl
    rw [frame_separator hcount, ← levelsBelow_cons, ← hempty] at hemits
    refine ⟨deeper, _, ?_, htext, hemits⟩
    rw [List.length_cons] at hdeeper ⊢
    omega

theorem closed_writes (is_object : Bool) :
    Writes w m (fun jems => (emit_char jems (JsonFrame.empty is_object).closing).map pop_level)
      [.closed is_object] := by
  intro z z' deeper hrun hdeeper
  obtain ⟨-, hstep⟩ := run_one hrun
  have htext := JsonStream.text_step hstep
  obtain ⟨inner, outer⟩ := z
  rw [JsonStream.step] at hstep
  split at hstep
  case isFalse => cases hstep
  case isTrue hobject =>
    cases outer with
    | nil => cases hstep
    | cons frame outer =>
      obtain ⟨frame', hput, rfl⟩ := Option.map_eq_some_iff.mp hstep
      obtain ⟨tree, -, hput⟩ := Option.bind_eq_some_iff.mp hput
      have hclosing : (JsonFrame.empty is_object).closing = inner.closing := by
        unfold JsonFrame.closing
        rw [(JsonFrame.empty_inside is_object).2.2, ← hobject]
      have hemits : Emits w _
          (state w m (levelsBelow outer ++ [counted (frameLevel frame)]) (frameLevel inner) deeper) _ _ :=
        close_emits (levelsBelow outer) inner.closing
      rw [← levelsBelow_cons, counted_frame (JsonFrame.put_entered hput)] at hemits
      rw [hclosing]
      refine ⟨frameLevel inner :: deeper, _, ?_, htext, hemits⟩
      dsimp only at hdeeper ⊢
      rw [List.length_cons] at hdeeper ⊢
      omega

/-! ### Items -/

theorem text_item (text : List Byte) (htext : 0 ∉ text) :
    WritesItem w m (fun jems => (commify jems).bind fun jems => emit_string jems (text ++ [0])) text :=
  fun _ _ _ => text_emits text htext

theorem jems_number_item (value : Double) :
    WritesItem w m (fun jems => jems_number jems value) (numberText value) := by
  refine text_item (numberText value) fun hzero => ?_
  have hmem := List.mem_of_mem_take hzero
  split at hmem
  · exact decimalInt_ne_zero _ hmem
  · exact fixedPoint_ne_zero _ hmem

theorem jems_integer_item (value : Int64) :
    WritesItem w m (fun jems => jems_integer jems value) (decimalInt value.toInt) :=
  fun _ _ _ => jems_integer_emits value

theorem jems_string_item (string : CString) :
    WritesItem w m (fun jems => jems_string jems string.memory) (quoted string) :=
  fun _ _ _ => jems_string_emits string

theorem jems_bool_item (boolean : Bool) :
    WritesItem w m (fun jems => jems_bool jems boolean) (ascii (if boolean then "true" else "false")) :=
  fun _ _ _ => jems_bool_emits boolean

theorem countedBytes_split {bytes taken : List Byte} {length : Nat} (h : countedBytes bytes length = some taken) :
    taken.length = length ∧ length < 2 ^ 31 ∧ ∃ junk, bytes = taken ++ junk := by
  unfold countedBytes at h
  split at h
  case isTrue hfits =>
    obtain rfl := Option.some.inj h
    exact ⟨List.length_take_of_le hfits.1, hfits.2, bytes.drop length, (List.take_append_drop length bytes).symm⟩
  case isFalse => cases h

theorem jems_bytes_item {bytes taken : List Byte} {length : Nat} (h : countedBytes bytes length = some taken) :
    WritesItem w m (fun jems => jems_bytes jems bytes length) (bytesLiteral taken) := by
  obtain ⟨rfl, hlt, junk, rfl⟩ := countedBytes_split h
  exact fun _ _ _ => jems_bytes_emits taken junk hlt

theorem jems_literal_loop_emits {below deeper : List jems_level_t} {level : jems_level_t} (todo done junk : List Byte)
    (hlen : done.length + todo.length < 2 ^ 31) :
    Emits w (jems_literal_loop (done ++ todo ++ junk) todo.length done.length) (state w m below level deeper) todo
      (state w m below level deeper) := by
  -- `done` is what the loop has written when `todo` is left
  induction todo generalizing done with
  | nil => exact fun arg => rfl
  | cons b todo ih =>
    rw [List.length_cons] at hlen
    have hread : rd (done ++ b :: todo ++ junk) (i32 done.length) = some b := by
      rw [i32_of_lt (by omega), rd_natCast, List.append_assoc, List.getElem?_append_right le_rfl, Nat.sub_self]
      rfl
    have hrest := ih (done ++ [b]) (by rw [List.length_append, List.length_singleton]; omega)
    rw [List.length_append, List.length_singleton, List.append_assoc done [b] todo, List.singleton_append] at hrest
    intro arg
    rw [List.length_cons, jems_literal_loop, hread, Option.bind_some]
    exact (emit_char_emits b).bind hrest arg

theorem jems_literal_item {literal taken : List Byte} {n_bytes : Nat} (h : countedBytes literal n_bytes = some taken) :
    WritesItem w m (fun jems => jems_literal jems literal n_bytes) taken := by
  obtain ⟨rfl, hlt, junk, rfl⟩ := countedBytes_split h
  intro below level deeper
  exact commify_emits.bind (jems_literal_loop_emits taken [] junk (by rwa [List.length_nil, Nat.zero_add]))

/-! ### Calls -/

theorem call_writes (hm : m < 2 ^ 64) {call : JemsCall} {ps : List JsonPiece} (h : pieces call = some ps) :
    Writes w m (runCall call) ps := by
  have hkey (key : CString) : Writes w m (fun jems => jems_string jems key.memory) [.string (quoted key)] :=
    (jems_string_item key).string
  have hobject : Writes w m (jems_object_open : jems_t σ → _) [.opened Bool.true] := opened_writes hm Bool.true
  have harray : Writes w m (jems_array_open : jems_t σ → _) [.opened Bool.false] := opened_writes hm Bool.false
  cases call with
  | reset => cases h
  | object_open => exact hobject.of h
  | object_close => exact (closed_writes Bool.true).of h
  | array_open => exact harray.of h
  | array_close => exact (closed_writes Bool.false).of h
  | number value => exact (jems_number_item value).scalar.of h
  | integer value => exact (jems_integer_item value).scalar.of h
  | string string => exact (hkey string).of h
  | bytes bytes length =>
    obtain ⟨taken, htaken, rfl⟩ := Option.map_eq_some_iff.mp h
    exact (jems_bytes_item htaken).string
  | bool boolean => exact (jems_bool_item boolean).scalar.of h
  | true => exact (text_item (ascii "true") (by decide)).scalar.of h
  | false => exact (text_item (ascii "false") (by decide)).scalar.of h
  | null => exact (text_item (ascii "null") (by decide)).scalar.of h
  | literal literal n_bytes =>
    obtain ⟨taken, htaken, rfl⟩ := Option.map_eq_some_iff.mp h
    exact (jems_literal_item htaken).scalar
  | key_object_open key => exact ((hkey key).bind hobject).of h
  | key_array_open key => exact ((hkey key).bind harray).of h
  | key_number key value => exact ((hkey key).bind (jems_number_item value).scalar).of h
  | key_integer key value => exact ((hkey key).bind (jems_integer_item value).scalar).of h
  | key_string key string => exact ((hkey key).bind (hkey string)).of h
  | key_bytes key bytes length =>
    obtain ⟨taken, htaken, rfl⟩ := Option.map_eq_some_iff.mp h
    exact (hkey key).bind (jems_bytes_item htaken).string
  | key_bool key boolean => exact ((hkey key).bind (jems_bool_item boolean).scalar).of h
  | key_true key =>
    exact ((hkey key).bind (text_item (ascii "true") (by decide)).scalar).of h
  | key_false key =>
    exact ((hkey key).bind (text_item (ascii "false") (by decide)).scalar).of h
  | key_null key =>
    exact ((hkey key).bind (text_item (ascii "null") (by decide)).scalar).of h
  | key_literal key literal n_bytes =>
    obtain ⟨taken, htaken, rfl⟩ := Option.map_eq_some_iff.mp h
    exact (hkey key).bind (jems_literal_item htaken).scalar

theorem calls_write (hm : m < 2 ^ 64) (calls : List JemsCall) {ps : List JsonPiece} (h : callPieces calls = some ps) :
    Writes w m (runCalls calls) ps := by
  induction calls generalizing ps with
  | nil =>
    obtain rfl := Option.some.inj h
    intro z z' deeper hrun hdeeper
    obtain rfl := Option.some.inj hrun
    exact ⟨deeper, [], hdeeper, (List.append_nil _).symm, emits_nil _⟩
  | cons call calls ih =>
    obtain ⟨first, hfirst, h⟩ := Option.bind_eq_some_iff.mp h
    obtain ⟨rest, hrest, rfl⟩ := Option.map_eq_some_iff.mp h
    exact (call_writes hm hfirst).bind (ih hrest)

/-! ## Completion -/

/-- The counts fit. The containers around the innermost one have room for it. -/
def CountsFit (z : JsonStream) : Prop := z.inner.count ≤ 2 ^ 64 ∧ ∀ frame ∈ z.outer, frame.count < 2 ^ 64

theorem counts_step (z : JsonStream) (piece : JsonPiece) (z' : JsonStream) (hroom : room m z piece)
    (hstep : z.step piece = some z') (h : CountsFit z) : CountsFit z' := by
  obtain ⟨inner, outer⟩ := z
  obtain ⟨hinner, houter⟩ := h
  cases piece with
  | scalar text =>
    obtain ⟨inner', hput, rfl⟩ := Option.map_eq_some_iff.mp hstep
    have hlt : inner.count < 2 ^ 64 := of_decide_eq_true hroom
    exact ⟨(JsonFrame.put_entered hput).count ▸ hlt, houter⟩
  | string text =>
    obtain ⟨inner', hput, rfl⟩ := Option.map_eq_some_iff.mp hstep
    have hlt : inner.count < 2 ^ 64 := of_decide_eq_true hroom
    exact ⟨(JsonFrame.putString_entered hput).count ▸ hlt, houter⟩
  | opened is_object =>
    obtain ⟨hlt, -⟩ := of_decide_eq_true hroom
    rw [JsonStream.step] at hstep
    split at hstep
    · obtain rfl := Option.some.inj hstep
      refine ⟨?_, List.forall_mem_cons.mpr ⟨hlt, houter⟩⟩
      rw [(JsonFrame.empty_inside is_object).2.1]
      exact Nat.zero_le _
    · cases hstep
  | closed is_object =>
    rw [JsonStream.step] at hstep
    split at hstep
    · cases outer with
      | nil => cases hstep
      | cons frame outer =>
        obtain ⟨frame', hput, rfl⟩ := Option.map_eq_some_iff.mp hstep
        obtain ⟨tree, -, hput⟩ := Option.bind_eq_some_iff.mp hput
        obtain ⟨hlt, houter⟩ := List.forall_mem_cons.mp houter
        exact ⟨(JsonFrame.put_entered hput).count ▸ hlt, houter⟩
    · cases hstep

theorem key_count (h : frame.count ≤ 2 ^ 64) (hkey : frame.closed = none) : frame.count < 2 ^ 64 := by
  -- a value for the key that waits still fits: the count is odd
  cases frame with
  | array items => cases hkey
  | object members key =>
    cases key with
    | none => cases hkey
    | some key =>
      rw [JsonFrame.count] at h ⊢
      omega

def pieceCall : JsonPiece → JemsCall
  | .closed is_object => closeCall is_object
  | _ => .null

theorem callPieces_append {calls calls' : List JemsCall} {ps qs : List JsonPiece} (h : callPieces calls = some ps)
    (h' : callPieces calls' = some qs) : callPieces (calls ++ calls') = some (ps ++ qs) := by
  induction calls generalizing ps with
  | nil =>
    obtain rfl := Option.some.inj h
    exact h'
  | cons call calls ih =>
    obtain ⟨first, hfirst, h⟩ := Option.bind_eq_some_iff.mp h
    obtain ⟨rest, hrest, rfl⟩ := Option.map_eq_some_iff.mp h
    rw [List.cons_append, callPieces, hfirst, Option.bind_some, ih hrest, Option.map_some, List.append_assoc]

theorem closers_calls (inner : JsonFrame) (outer : List JsonFrame) :
    callPieces ((JsonStream.closers inner outer).map pieceCall) = some (JsonStream.closers inner outer) := by
  induction outer generalizing inner with
  | nil => rfl
  | cons frame outer ih =>
    have hclose : pieces (closeCall inner.is_object) = some [.closed inner.is_object] := by
      cases inner.is_object <;> rfl
    rw [JsonStream.closers, List.map_cons, callPieces, pieceCall, hclose, Option.bind_some, ih, Option.map_some]
    rfl

theorem completion_calls (z : JsonStream) : callPieces (z.completion.map pieceCall) = some z.completion := by
  unfold JsonStream.completion
  rw [List.map_append]
  refine callPieces_append ?_ (closers_calls _ _)
  split <;> rfl

/-! ## Every run -/

/-- What the calls have written is `z`, the beginning of a complete text. -/
structure Streamed (m : Nat) (jems : jems_t σ) (calls : List JemsCall) (z : JsonStream) : Prop where
  written : ∃ final : σ → jems_t σ, runCalls calls jems = (writeAll jems.writer z.text jems.arg).map final ∧
    ∀ arg, (final arg).arg = arg ∧ jems_curr_level (final arg) = z.outer.length ∧
      jems_item_count (final arg) = some (usize z.inner.count)
  /-- Outside all containers. -/
  complete : z.outer = [] → ∃ items, z.inner = .array items ∧ z.text = commas (itemTexts items)
  completed : ∃ more z', streamed m (calls ++ more) = some z' ∧ z'.outer = [] ∧ z.text <+: z'.text

/-- What is written there, and what completes it. -/
example :
    (⟨.object [] (some (ascii "\"k\"")), [.array [.scalar (ascii "1")], .array []]⟩ : JsonStream).text =
        ascii "[1,\x7b\"k\"" ∧
      (streamed 3 [.array_open, .integer 1, .object_open, .string ⟨ascii "k", by decide⟩, .null, .object_close,
        .array_close]).map JsonStream.text = some (ascii "[1,\x7b\"k\":null\x7d]") := by
  decide

end ToyTstat.Jems
