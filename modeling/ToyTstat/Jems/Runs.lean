import ToyTstat.Jems.Canonical
import ToyTstat.Jems.Nest

/-!
# Runs of `jems.c`

No call takes the current level out of the level array. So a reset starts afresh at whatever point.
-/

open CLib ToyTstat.Code

namespace ToyTstat.Jems

variable {σ : Type} {w : Byte → σ → Option σ} {m : Nat}

/-! ## The level stays inside the array -/

structure LevelsOk (m : Nat) (jems : jems_t σ) : Prop where
  max_level : jems.max_level = m
  size : m ≤ jems.levels.length
  curr_level : jems.curr_level < m

def Keeps (σ : Type) (m : Nat) (f : jems_t σ → Option (jems_t σ)) : Prop :=
  ∀ jems jems', LevelsOk m jems → f jems = some jems' → LevelsOk m jems'

variable {f g : jems_t σ → Option (jems_t σ)}

theorem Keeps.bind (hf : Keeps σ m f) (hg : Keeps σ m g) : Keeps σ m fun jems => (f jems).bind g := by
  intro jems jems'' hok h
  obtain ⟨jems', h1, h2⟩ := Option.bind_eq_some_iff.mp h
  exact hg jems' jems'' (hf jems jems' hok h1) h2

theorem Keeps.map {h : jems_t σ → jems_t σ} (hf : Keeps σ m f) (hh : ∀ jems, LevelsOk m jems → LevelsOk m (h jems)) :
    Keeps σ m fun jems => (f jems).map h := by
  intro jems jems'' hok hmap
  obtain ⟨jems', h1, rfl⟩ := Option.map_eq_some_iff.mp hmap
  exact hh jems' (hf jems jems' hok h1)

theorem keeps_some : Keeps σ m some := by
  rintro jems _ hok ⟨⟩
  exact hok

theorem set_level_ok {jems : jems_t σ} (hok : LevelsOk m jems) (level : jems_level_t) :
    LevelsOk m (set_level jems level) :=
  ⟨hok.max_level, by simpa [set_level] using hok.size, hok.curr_level⟩

/-! ## What is only written -/

/-- Nothing changes but what the writer's argument points to. -/
def WritesOnly (f : jems_t σ → Option (jems_t σ)) : Prop :=
  ∀ jems jems', f jems = some jems' → ∃ arg, jems' = { jems with arg }

theorem WritesOnly.bind (hf : WritesOnly f) (hg : WritesOnly g) : WritesOnly fun jems => (f jems).bind g := by
  intro jems jems'' h
  obtain ⟨jems', h1, h2⟩ := Option.bind_eq_some_iff.mp h
  obtain ⟨arg, rfl⟩ := hf jems jems' h1
  obtain ⟨arg', rfl⟩ := hg _ _ h2
  exact ⟨arg', rfl⟩

theorem WritesOnly.keeps (hf : WritesOnly f) : Keeps σ m f := by
  intro jems jems' hok h
  obtain ⟨arg, rfl⟩ := hf jems jems' h
  exact ⟨hok.max_level, hok.size, hok.curr_level⟩

theorem some_writes : WritesOnly (some : jems_t σ → Option (jems_t σ)) := by
  rintro jems _ ⟨⟩
  exact ⟨jems.arg, rfl⟩

theorem emit_char_writes (c : Byte) : WritesOnly fun jems : jems_t σ => emit_char jems c := by
  intro jems jems' h
  obtain ⟨arg, -, rfl⟩ := Option.map_eq_some_iff.mp h
  exact ⟨arg, rfl⟩

theorem emit_string_writes (s : List Byte) : WritesOnly fun jems : jems_t σ => emit_string jems s := by
  induction s with
  | nil => exact fun jems jems' h => by cases h
  | cons b s ih =>
    by_cases hb : b = 0
    · simp only [emit_string, if_pos hb]
      exact some_writes
    · simp only [emit_string, if_neg hb]
      exact (emit_char_writes b).bind ih

theorem emit_quoted_byte_writes (byte : Byte) : WritesOnly fun jems : jems_t σ => emit_quoted_byte jems byte := by
  unfold emit_quoted_byte
  split
  · exact emit_string_writes _
  · split
    · exact (emit_char_writes _).bind (emit_char_writes byte)
    · exact emit_char_writes byte

theorem emit_quoted_string_writes (s : List Byte) : WritesOnly fun jems : jems_t σ => emit_quoted_string jems s := by
  induction s with
  | nil => exact fun jems jems' h => by cases h
  | cons b s ih =>
    by_cases hb : b = 0
    · simp only [emit_quoted_string, if_pos hb]
      exact some_writes
    · simp only [emit_quoted_string, if_neg hb]
      exact (emit_quoted_byte_writes b).bind ih

theorem bytes_loop_writes {emit : jems_t σ → Byte → Option (jems_t σ)}
    (loop : Nat → Nat → jems_t σ → Option (jems_t σ)) (read : Nat → Option Byte)
    (hemit : ∀ b, WritesOnly fun jems => emit jems b) (hzero : ∀ i, loop 0 i = some)
    (hsucc : ∀ left i jems, loop (left + 1) i jems = (read i).bind fun b => (emit jems b).bind (loop left (i + 1))) :
    ∀ left i, WritesOnly (loop left i) := by
  intro left
  induction left with
  | zero =>
    intro i
    rw [hzero]
    exact some_writes
  | succ left ih =>
    intro i jems jems' h
    rw [hsucc] at h
    obtain ⟨b, -, h⟩ := Option.bind_eq_some_iff.mp h
    exact (hemit b).bind (ih (i + 1)) jems jems' h

theorem emit_quoted_bytes_writes (bytes : List Byte) (length : Nat) :
    WritesOnly fun jems : jems_t σ => emit_quoted_bytes jems bytes length :=
  bytes_loop_writes (emit_quoted_bytes_loop bytes) (fun i => rd bytes (i32 i)) emit_quoted_byte_writes (fun _ => rfl)
    (fun _ _ _ => rfl) length 0

theorem jems_literal_loop_writes (literal : List Byte) (n_bytes : Nat) :
    WritesOnly (jems_literal_loop literal n_bytes 0 : jems_t σ → Option (jems_t σ)) :=
  bytes_loop_writes (jems_literal_loop literal) (fun i => rd literal (i32 i)) emit_char_writes (fun _ => rfl)
    (fun _ _ _ => rfl) n_bytes 0

/-! ## What is counted -/

/-- The level after `items` more items. -/
def countedBy (items : Nat) (level : jems_level_t) : jems_level_t :=
  { level with item_count := usize (level.item_count + items) }

theorem countedBy_countedBy (a b : Nat) (level : jems_level_t) :
    countedBy b (countedBy a level) = countedBy (a + b) level := by
  have hcount : usize (usize (level.item_count + a) + b) = usize (level.item_count + (a + b : Nat)) := by
    unfold usize
    omega
  exact congrArg (fun count => (⟨count, level.is_object⟩ : jems_level_t)) hcount

/-- `f` counts items at the current level, and apart from that it only writes. -/
def Counts (f : jems_t σ → Option (jems_t σ)) (items : Nat) : Prop :=
  ∀ jems jems', f jems = some jems' → ∃ level arg, level_ref jems = some level ∧
    jems' = { set_level jems (countedBy items level) with arg }

theorem Counts.writes {items : Nat} (hf : Counts f items) (hg : WritesOnly g) :
    Counts (fun jems => (f jems).bind g) items := by
  intro jems jems'' h
  obtain ⟨jems', h1, h2⟩ := Option.bind_eq_some_iff.mp h
  obtain ⟨level, arg, hlevel, rfl⟩ := hf jems jems' h1
  obtain ⟨arg', rfl⟩ := hg _ jems'' h2
  exact ⟨level, arg', hlevel, rfl⟩

theorem Counts.bind {a b : Nat} (hf : Counts f a) (hg : Counts g b) : Counts (fun jems => (f jems).bind g) (a + b) := by
  intro jems jems'' h
  obtain ⟨jems', h1, h2⟩ := Option.bind_eq_some_iff.mp h
  obtain ⟨level, arg, hlevel, rfl⟩ := hf jems jems' h1
  obtain ⟨level', arg', hlevel', rfl⟩ := hg _ jems'' h2
  have hcurr : jems.curr_level < jems.levels.length := (List.getElem?_eq_some_iff.mp hlevel).1
  obtain rfl : countedBy a level = level' := by
    rw [level_ref, set_level, List.getElem?_set_self hcurr] at hlevel'
    exact Option.some.inj hlevel'
  refine ⟨level, arg', hlevel, ?_⟩
  rw [countedBy_countedBy]
  simp [set_level]

theorem Counts.keeps {items : Nat} (hf : Counts f items) : Keeps σ m f := by
  intro jems jems' hok h
  obtain ⟨level, arg, -, rfl⟩ := hf jems jems' h
  obtain ⟨hmax, hsize, hcurr⟩ := set_level_ok hok (countedBy items level)
  exact ⟨hmax, hsize, hcurr⟩

theorem commify_counts : Counts (commify : jems_t σ → Option (jems_t σ)) 1 := by
  intro jems jems' h
  obtain ⟨level, hlevel, h⟩ := Option.bind_eq_some_iff.mp h
  obtain ⟨jems'', h1, rfl⟩ := Option.map_eq_some_iff.mp h
  obtain ⟨arg, rfl⟩ := emit_string_writes _ jems jems'' h1
  exact ⟨level, arg, hlevel, rfl⟩

theorem text_counts (text : List Byte) :
    Counts (fun jems : jems_t σ => (commify jems).bind fun jems => emit_string jems text) 1 :=
  commify_counts.writes (emit_string_writes text)

theorem jems_string_counts (s : List Byte) : Counts (fun jems : jems_t σ => jems_string jems s) 1 :=
  commify_counts.writes ((emit_char_writes _).bind ((emit_quoted_string_writes s).bind (emit_char_writes _)))

theorem jems_bytes_counts (bytes : List Byte) (length : Nat) :
    Counts (fun jems : jems_t σ => jems_bytes jems bytes length) 1 :=
  commify_counts.writes
    ((emit_char_writes _).bind ((emit_quoted_bytes_writes bytes length).bind (emit_char_writes _)))

theorem jems_literal_counts (literal : List Byte) (n_bytes : Nat) :
    Counts (fun jems : jems_t σ => jems_literal jems literal n_bytes) 1 :=
  commify_counts.writes (jems_literal_loop_writes literal n_bytes)

theorem scalar_counts {call : JemsCall} (h : call.isScalar) :
    Counts (runCall call : jems_t σ → Option (jems_t σ)) call.items := by
  have hkey (key : CString) : Counts (fun jems : jems_t σ => jems_string jems key.memory) 1 := jems_string_counts _
  cases call
  case number value => exact text_counts _
  case integer value => exact text_counts _
  case string string => exact jems_string_counts _
  case bytes bytes length => exact jems_bytes_counts bytes length
  case bool boolean => exact text_counts _
  case true => exact text_counts _
  case false => exact text_counts _
  case null => exact text_counts _
  case literal literal n_bytes => exact jems_literal_counts literal n_bytes
  case key_number key value => exact (hkey key).bind (text_counts _)
  case key_integer key value => exact (hkey key).bind (text_counts _)
  case key_string key string => exact (hkey key).bind (jems_string_counts _)
  case key_bytes key bytes length => exact (hkey key).bind (jems_bytes_counts bytes length)
  case key_bool key boolean => exact (hkey key).bind (text_counts _)
  case key_true key => exact (hkey key).bind (text_counts _)
  case key_false key => exact (hkey key).bind (text_counts _)
  case key_null key => exact (hkey key).bind (text_counts _)
  case key_literal key literal n_bytes => exact (hkey key).bind (jems_literal_counts literal n_bytes)
  -- the calls that reset, open or close
  all_goals cases h

/-! ## Calls -/

theorem push_level_keeps (hm : m < 2 ^ 64) (is_object : Bool) :
    Keeps σ m fun jems => push_level jems is_object := by
  rintro jems jems' ⟨rfl, hsize, hcurr⟩ h
  have hlast : usize (jems.max_level - 1) = jems.max_level - 1 := by
    rw [show (jems.max_level : Int) - 1 = ((jems.max_level - 1 : Nat) : Int) by omega, usize_of_lt (by omega)]
  dsimp only [push_level] at h
  split at h
  · obtain ⟨level, -, rfl⟩ := Option.map_eq_some_iff.mp h
    apply set_level_ok
    exact ⟨rfl, hsize, by dsimp only; omega⟩
  · obtain rfl := Option.some.inj h
    exact ⟨rfl, hsize, hcurr⟩

theorem pop_level_ok {jems : jems_t σ} (hok : LevelsOk m jems) : LevelsOk m (pop_level jems) := by
  unfold pop_level
  have hcurr := hok.curr_level
  split
  · exact ⟨hok.max_level, hok.size, by dsimp only; omega⟩
  · exact hok

theorem jems_reset_keeps : Keeps σ m jems_reset := by
  intro jems jems' hok h
  have hcurr := hok.curr_level
  obtain ⟨level, -, rfl⟩ := Option.map_eq_some_iff.mp h
  apply set_level_ok
  exact ⟨hok.max_level, hok.size, by dsimp only; omega⟩

theorem container_keeps (hm : m < 2 ^ 64) (c : Byte) (is_object : Bool) :
    Keeps σ m fun jems => (commify jems).bind fun jems => (emit_char jems c).bind fun jems =>
      push_level jems is_object :=
  commify_counts.keeps.bind ((emit_char_writes c).keeps.bind (push_level_keeps hm is_object))

theorem close_keeps (c : Byte) : Keeps σ m fun jems => (emit_char jems c).map pop_level :=
  (emit_char_writes c).keeps.map fun _ => pop_level_ok

theorem runCall_keeps (hm : m < 2 ^ 64) (call : JemsCall) : Keeps σ m (runCall call) := by
  by_cases hscalar : call.isScalar
  · exact (scalar_counts hscalar).keeps
  have hkey (key : CString) : Keeps σ m fun jems => jems_string jems key.memory := (jems_string_counts _).keeps
  cases call
  case reset => exact jems_reset_keeps
  case object_open => exact container_keeps hm _ _
  case object_close => exact close_keeps _
  case array_open => exact container_keeps hm _ _
  case array_close => exact close_keeps _
  case key_object_open key => exact (hkey key).bind (container_keeps hm _ _)
  case key_array_open key => exact (hkey key).bind (container_keeps hm _ _)
  all_goals exact absurd rfl hscalar

theorem runCalls_keeps (hm : m < 2 ^ 64) (calls : List JemsCall) : Keeps σ m (runCalls calls) := by
  induction calls with
  | nil => exact keeps_some
  | cons call calls ih => exact (runCall_keeps hm call).bind ih

/-! ## From a fresh state -/

theorem jems_reset_state {jems jems' : jems_t σ} (hmax : jems.max_level = m) (hsize : m ≤ jems.levels.length)
    (h : jems_reset jems = some jems') :
    ∃ deeper, m ≤ deeper.length + 1 ∧ jems' = state jems.writer m [] ⟨0, false⟩ deeper jems.arg := by
  obtain ⟨level, hlevel, rfl⟩ := Option.map_eq_some_iff.mp h
  obtain ⟨levels, max_level, curr_level, writer, arg⟩ := jems
  obtain ⟨unused, deeper, rfl⟩ : ∃ unused deeper, levels = unused :: deeper := by
    cases levels with
    | nil => simp [level_ref] at hlevel
    | cons unused deeper => exact ⟨unused, deeper, rfl⟩
  refine ⟨deeper, hsize, ?_⟩
  simp [set_level, ← hmax]

theorem fresh_state {jems : jems_t σ} (hm : m < 2 ^ 64) (hpos : 1 ≤ m) (hjems : Fresh m jems) :
    ∃ deeper, m ≤ deeper.length + 1 ∧ jems = state jems.writer m [] ⟨0, false⟩ deeper jems.arg := by
  induction hjems with
  | init hsize h =>
    obtain ⟨deeper, hdeeper, rfl⟩ := jems_reset_state rfl hsize h
    exact ⟨deeper, hdeeper, rfl⟩
  | @reset jems jems' _ calls _ hrun h ih =>
    obtain ⟨deeper, hdeeper, hstate⟩ := ih
    have hok : LevelsOk m jems := by
      rw [hstate]
      exact ⟨rfl, by simpa using hdeeper, by simp; omega⟩
    obtain ⟨hmax, hsize, -⟩ := runCalls_keeps hm calls jems jems' hok hrun
    obtain ⟨deeper', hdeeper', rfl⟩ := jems_reset_state hmax hsize h
    exact ⟨deeper', hdeeper', rfl⟩

theorem fresh_levelsOk {jems : jems_t σ} (hm : m < 2 ^ 64) (hpos : 1 ≤ m) (hjems : Fresh m jems) : LevelsOk m jems := by
  obtain ⟨deeper, hdeeper, hstate⟩ := fresh_state hm hpos hjems
  rw [hstate]
  exact ⟨rfl, by simpa using hdeeper, by simp; omega⟩

theorem fresh_emits {jems : jems_t σ} (hm : m < 2 ^ 64) (hpos : 1 ≤ m) (hjems : Fresh m jems) (v : Json)
    (hcount : v.Countable) (hdepth : v.depth ≤ m - 1) :
    ∃ deeper, runCalls v.calls jems =
      (writeAll jems.writer v.render jems.arg).map (state jems.writer m [] ⟨1, false⟩ deeper) := by
  obtain ⟨deeper, hdeeper, hstate⟩ := fresh_state hm hpos hjems
  obtain ⟨deeper', -, hemits⟩ := Json.emits (w := jems.writer) hm v hcount [] ⟨0, false⟩ deeper (by omega)
    (by simp; omega)
  have h := hemits jems.arg
  rw [← hstate] at h
  exact ⟨deeper', h⟩

theorem fresh_two : Fresh 2 (state record 2 [] ⟨0, false⟩ [⟨0, false⟩] []) := by
  have hinit : jems_init [⟨0, false⟩, ⟨0, false⟩] 2 record [] =
      some (state record 2 [] ⟨0, false⟩ [⟨0, false⟩] []) := rfl
  exact Fresh.init (by decide) hinit

/-- A value that fits is written as its compact text, at level 0, as one item. -/
theorem jems_canonical (hm : m < 2 ^ 64) (hpos : 1 ≤ m) {jems : jems_t σ} (hjems : Fresh m jems) (v : Json)
    (hcount : v.Countable) (hdepth : v.depth ≤ m - 1) :
    (∃ final : σ → jems_t σ,
      runCalls v.calls jems = (writeAll jems.writer v.render jems.arg).map final ∧
      ∀ arg, (final arg).arg = arg ∧ jems_curr_level (final arg) = 0 ∧ jems_item_count (final arg) = some 1) ∧
    ∀ calls jems', calls <+: v.calls → runCalls calls jems = some jems' → jems'.curr_level < m := by
  constructor
  · obtain ⟨deeper, h⟩ := fresh_emits hm hpos hjems v hcount hdepth
    exact ⟨_, h, fun arg => ⟨rfl, rfl, rfl⟩⟩
  · intro calls jems' _ hrun
    exact (runCalls_keeps hm calls jems jems' (fresh_levelsOk hm hpos hjems) hrun).curr_level

theorem jems_canonical_pair :
    ∃ jems, runCalls (Json.arr [.int 1, .bool true]).calls (state record 2 [] ⟨0, false⟩ [⟨0, false⟩] []) = some jems ∧
      jems.arg = ascii "[1,true]" ∧ jems.curr_level = 0 := by
  obtain ⟨⟨final, hrun, hfinal⟩, -⟩ := jems_canonical (by decide) (by decide) fresh_two (.arr [.int 1, .bool true])
    ⟨by decide, trivial, trivial, trivial⟩ (by decide)
  rw [writeAll_record] at hrun
  refine ⟨_, hrun, ?_, (hfinal _).2.1⟩
  rw [(hfinal _).1]
  decide

/-! ## Too many items -/

theorem joined_snoc (first s : List Byte) (texts : List (List Byte)) (h : texts ≠ []) :
    joined first (texts ++ [s]) = joined first texts ++ ch ',' :: s := by
  induction texts generalizing first with
  | nil => exact absurd rfl h
  | cons t texts ih =>
    cases texts with
    | nil => simp [joined]
    | cons u texts =>
      rw [List.cons_append, joined, ih [ch ','] (by simp), joined.eq_2 first, List.append_assoc, List.append_assoc,
        List.append_assoc]

theorem itemsCalls_append (is is' : List Json) : itemsCalls (is ++ is') = itemsCalls is ++ itemsCalls is' := by
  induction is with
  | nil => rfl
  | cons v is ih => rw [List.cons_append, itemsCalls, itemsCalls, ih, List.append_assoc]

theorem renderItems_append (is is' : List Json) : renderItems (is ++ is') = renderItems is ++ renderItems is' := by
  induction is with
  | nil => rfl
  | cons v is ih => rw [List.cons_append, renderItems, renderItems, ih, List.cons_append]

theorem itemsCountable_nulls (n : Nat) : itemsCountable (List.replicate n .null) := by
  induction n with
  | zero => trivial
  | succ n ih => exact ⟨trivial, ih⟩

theorem itemsDepth_nulls (n : Nat) : itemsDepth (List.replicate n .null) = 0 := by
  induction n with
  | zero => rfl
  | succ n ih =>
    rw [List.replicate_succ, itemsDepth, ih]
    rfl

theorem nulls_emits (n : Nat) (hn : n = 2 ^ 64) :
    (runCalls (Json.arr (List.replicate (n + 1) .null)).calls
        (state record 2 [] ⟨0, false⟩ [⟨0, false⟩] [])).map (·.arg) ≠
      some (Json.arr (List.replicate (n + 1) .null)).render := by
  -- after 2^64 items the count is 0 again, and no comma is written
  have hopen : Emits record (runCall .array_open) (state record 2 [] ⟨0, false⟩ [⟨0, false⟩]) [ch '[']
      (state record 2 [⟨1, false⟩] ⟨0, false⟩ []) :=
    container_emits [] (ch '[') false (by decide) (by decide)
  obtain ⟨deeper, -, hitems⟩ := itemsEmits (w := record) (m := 2) (by decide) (List.replicate n .null)
    (itemsCountable_nulls n) 0 [⟨1, false⟩] [] (by rw [List.length_replicate]; omega)
    (by rw [itemsDepth_nulls]; exact le_rfl) (by rw [itemsDepth_nulls]; decide)
  rw [List.length_replicate, Nat.zero_add, show usize n = 0 by unfold usize; omega] at hitems
  have hnull : Emits record (runCalls (itemsCalls [.null])) (state record 2 [⟨1, false⟩] ⟨0, false⟩ deeper)
      (ascii "null") (state record 2 [⟨1, false⟩] ⟨1, false⟩ deeper) := emits_singleton jems_null_emits
  have hclose : Emits record (runCall .array_close) (state record 2 [⟨1, false⟩] ⟨1, false⟩ deeper) [ch ']']
      (state record 2 [] ⟨1, false⟩ (⟨1, false⟩ :: deeper)) := close_emits [] (ch ']')
  have hrun := emits_cons hopen (emits_append (emits_append hitems hnull) (emits_singleton hclose)) []
  rw [← itemsCalls_append, ← List.replicate_succ', writeAll_record] at hrun
  change runCalls (Json.arr (List.replicate (n + 1) .null)).calls _ = _ at hrun
  have hne : renderItems (List.replicate n .null) ≠ [] := by
    obtain ⟨k, rfl⟩ : ∃ k, n = k + 1 := ⟨n - 1, by omega⟩
    rw [List.replicate_succ, renderItems]
    exact List.cons_ne_nil _ _
  have hrender : (Json.arr (List.replicate (n + 1) .null)).render =
      ch '[' :: (joined [] (renderItems (List.replicate n .null)) ++ ch ',' :: ascii "null") ++ [ch ']'] := by
    rw [Json.render, ← joined_nil, List.replicate_succ', renderItems_append]
    exact congrArg (fun s => ch '[' :: s ++ [ch ']']) (joined_snoc _ _ _ hne)
  rw [hrun, hrender]
  intro h
  have hlength := congrArg (Option.map List.length) h
  simp at hlength

/-- An array of 2^64 + 1 nulls lacks a comma. -/
theorem jems_not_canonical :
    ¬ ∀ (m : Nat) (jems : jems_t (List Byte)) (v : Json), m < 2 ^ 64 → 1 ≤ m → Fresh m jems → jems.writer = record →
      jems.arg = [] → v.depth ≤ m - 1 → (runCalls v.calls jems).map (·.arg) = some v.render := by
  intro h
  obtain ⟨n, hn⟩ : ∃ n, n = 2 ^ 64 := ⟨_, rfl⟩
  have hdepth : (Json.arr (List.replicate (n + 1) .null)).depth ≤ 2 - 1 := by
    rw [Json.depth, itemsDepth_nulls]
  exact nulls_emits n hn (h 2 _ _ (by decide) (by decide) fresh_two rfl rfl hdepth)

end ToyTstat.Jems
