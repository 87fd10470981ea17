import ToyTstat.Jems.Emit

/-!
# The calls of a value write its compact text

The item counts of the levels tell the separators, whatever the deeper levels still hold.
-/

open CLib ToyTstat.Code

namespace ToyTstat.Jems

/-! ## Texts with separators -/

/-- `first` stands before the first text, a comma before each of the others. -/
def joined (first : List Byte) : List (List Byte) → List Byte
  | [] => []
  | s :: texts => first ++ s ++ joined [ch ','] texts

theorem joined_nil (texts : List (List Byte)) : joined [] texts = [ch ','].intercalate texts := by
  cases texts with
  | nil => rfl
  | cons s texts =>
    rw [joined, List.nil_append]
    induction texts generalizing s with
    | nil => simp [joined]
    | cons t texts ih => rw [joined, List.intercalate_cons_cons, ← ih t, List.append_assoc, List.append_assoc]

variable {σ : Type} {w : Byte → σ → Option σ} {m : Nat}

/-! ## A list of calls -/

theorem emits_nil (S : σ → jems_t σ) : Emits w (runCalls []) S [] S := fun _ => rfl

theorem emits_singleton {call : JemsCall} {S S' : σ → jems_t σ} {s : List Byte} (h : Emits w (runCall call) S s S') :
    Emits w (runCalls [call]) S s S' := by
  intro arg
  rw [runCalls, h arg]
  cases writeAll w s arg <;> rfl

theorem runCalls_append (calls calls' : List JemsCall) (jems : jems_t σ) :
    runCalls (calls ++ calls') jems = (runCalls calls jems).bind (runCalls calls') := by
  induction calls generalizing jems with
  | nil => rfl
  | cons call calls ih =>
    rw [List.cons_append, runCalls, runCalls, Option.bind_assoc]
    congr 1
    funext jems
    exact ih jems

theorem emits_append {calls calls' : List JemsCall} {S S' S'' : σ → jems_t σ} {s t : List Byte}
    (h : Emits w (runCalls calls) S s S') (h' : Emits w (runCalls calls') S' t S'') :
    Emits w (runCalls (calls ++ calls')) S (s ++ t) S'' := by
  rw [show runCalls (calls ++ calls') = fun jems => (runCalls calls jems).bind (runCalls calls') from
    funext (runCalls_append calls calls')]
  exact h.bind h'

theorem emits_cons {call : JemsCall} {calls : List JemsCall} {S S' S'' : σ → jems_t σ} {s t : List Byte}
    (h : Emits w (runCall call) S s S') (h' : Emits w (runCalls calls) S' t S'') :
    Emits w (runCalls (call :: calls)) S (s ++ t) S'' :=
  emits_append (emits_singleton h) h'

/-! ## Separators -/

theorem counted_array (c : Nat) : counted ⟨usize c, false⟩ = ⟨usize (c + 1 : Nat), false⟩ := by
  simp only [counted, jems_level_t.mk.injEq, and_true]
  unfold usize
  omega

theorem counted_object (c : Nat) : counted ⟨usize c, true⟩ = ⟨usize (c + 1 : Nat), true⟩ := by
  simp only [counted, jems_level_t.mk.injEq, and_true]
  unfold usize
  omega

theorem separator_array (c : Nat) (hc : c < 2 ^ 64) :
    separator ⟨usize c, false⟩ = if c = 0 then [] else [ch ','] := by
  simp [separator, usize_of_lt hc]

theorem separator_key (c : Nat) (hc : 2 * c < 2 ^ 64) :
    separator ⟨usize (2 * c : Nat), true⟩ = if c = 0 then [] else [ch ','] := by
  rw [separator, usize_of_lt hc]
  simp

theorem separator_value (c : Nat) (hc : 2 * c + 1 < 2 ^ 64) :
    separator ⟨usize (2 * c + 1 : Nat), true⟩ = [ch ':'] := by
  rw [separator, usize_of_lt hc]
  simp [Nat.add_mod]

/-! ## Values -/

mutual
theorem Json.emits (hm : m < 2 ^ 64) : (v : Json) → v.Countable → ∀ (below : List jems_level_t) (level : jems_level_t)
    (deeper : List jems_level_t), v.depth ≤ deeper.length → below.length + v.depth < m →
    ∃ deeper', deeper'.length = deeper.length ∧ Emits w (runCalls v.calls) (state w m below level deeper)
      (separator level ++ v.render) (state w m below (counted level) deeper')
  | .null, _, below, level, deeper, _, _ => ⟨deeper, rfl, emits_singleton jems_null_emits⟩
  | .bool b, _, below, level, deeper, _, _ => ⟨deeper, rfl, emits_singleton (jems_bool_emits b)⟩
  | .int i, _, below, level, deeper, _, _ => ⟨deeper, rfl, emits_singleton (jems_integer_emits i)⟩
  | .str s, _, below, level, deeper, _, _ => ⟨deeper, rfl, emits_singleton (jems_string_emits s)⟩
  | .arr is, ⟨hcount, his⟩, below, level, deeper, hdeep, hlevel => by
    rw [Json.depth] at hdeep hlevel
    obtain ⟨unused, deeper, rfl⟩ := List.exists_cons_of_length_pos (l := deeper) (by omega)
    rw [List.length_cons] at hdeep
    have hopen : Emits w (runCall .array_open) (state w m below level (unused :: deeper))
        (separator level ++ [ch '[']) (state w m (below ++ [counted level]) ⟨0, false⟩ deeper) :=
      container_emits below (ch '[') false hm (by omega)
    obtain ⟨deeper', hlen, hitems⟩ := itemsEmits hm is his 0 (below ++ [counted level]) deeper (by omega)
      (by omega) (by simp; omega)
    have hclose : Emits w (runCall .array_close)
        (state w m (below ++ [counted level]) ⟨usize (0 + is.length : Nat), false⟩ deeper') [ch ']']
        (state w m below (counted level) (⟨usize (0 + is.length : Nat), false⟩ :: deeper')) :=
      close_emits below (ch ']')
    have h := emits_cons hopen (emits_append hitems (emits_singleton hclose))
    refine ⟨⟨usize (0 + is.length : Nat), false⟩ :: deeper', by simp [hlen], ?_⟩
    rw [if_pos rfl, joined_nil] at h
    simpa [Json.calls, Json.render] using h
  | .obj ms, ⟨hcount, hms⟩, below, level, deeper, hdeep, hlevel => by
    rw [Json.depth] at hdeep hlevel
    obtain ⟨unused, deeper, rfl⟩ := List.exists_cons_of_length_pos (l := deeper) (by omega)
    rw [List.length_cons] at hdeep
    have hopen : Emits w (runCall .object_open) (state w m below level (unused :: deeper))
        (separator level ++ [ch '{']) (state w m (below ++ [counted level]) ⟨0, true⟩ deeper) :=
      container_emits below (ch '{') true hm (by omega)
    obtain ⟨deeper', hlen, hmembers⟩ := membersEmits hm ms hms 0 (below ++ [counted level]) deeper (by omega)
      (by omega) (by simp; omega)
    have hclose : Emits w (runCall .object_close)
        (state w m (below ++ [counted level]) ⟨usize (2 * (0 + ms.length) : Nat), true⟩ deeper') [ch '}']
        (state w m below (counted level) (⟨usize (2 * (0 + ms.length) : Nat), true⟩ :: deeper')) :=
      close_emits below (ch '}')
    have h := emits_cons hopen (emits_append hmembers (emits_singleton hclose))
    refine ⟨⟨usize (2 * (0 + ms.length) : Nat), true⟩ :: deeper', by simp [hlen], ?_⟩
    rw [if_pos rfl, joined_nil] at h
    simpa [Json.calls, Json.render] using h
theorem itemsEmits (hm : m < 2 ^ 64) : (is : List Json) → itemsCountable is → ∀ (c : Nat)
    (below deeper : List jems_level_t), c + is.length ≤ 2 ^ 64 → itemsDepth is ≤ deeper.length →
    below.length + itemsDepth is < m →
    ∃ deeper', deeper'.length = deeper.length ∧ Emits w (runCalls (itemsCalls is))
      (state w m below ⟨usize c, false⟩ deeper) (joined (if c = 0 then [] else [ch ',']) (renderItems is))
      (state w m below ⟨usize (c + is.length : Nat), false⟩ deeper')
  | [], _, c, below, deeper, _, _, _ => ⟨deeper, rfl, emits_nil _⟩
  | v :: is, ⟨hv, his⟩, c, below, deeper, hcount, hdeep, hlevel => by
    rw [List.length_cons] at hcount
    rw [itemsDepth] at hdeep hlevel
    obtain ⟨deeper₁, hlen₁, hhead⟩ := Json.emits hm v hv below ⟨usize c, false⟩ deeper (by omega) (by omega)
    rw [counted_array, separator_array c (by omega)] at hhead
    obtain ⟨deeper₂, hlen₂, htail⟩ := itemsEmits hm is his (c + 1) below deeper₁ (by omega) (by omega) (by omega)
    rw [if_neg (by omega), show c + 1 + is.length = c + (v :: is).length by simp; omega] at htail
    exact ⟨deeper₂, hlen₂.trans hlen₁, emits_append hhead htail⟩
theorem membersEmits (hm : m < 2 ^ 64) : (ms : List (CString × Json)) → membersCountable ms → ∀ (c : Nat)
    (below deeper : List jems_level_t), 2 * (c + ms.length) ≤ 2 ^ 64 → membersDepth ms ≤ deeper.length →
    below.length + membersDepth ms < m →
    ∃ deeper', deeper'.length = deeper.length ∧ Emits w (runCalls (membersCalls ms))
      (state w m below ⟨usize (2 * c : Nat), true⟩ deeper)
      (joined (if c = 0 then [] else [ch ',']) (renderMembers ms))
      (state w m below ⟨usize (2 * (c + ms.length) : Nat), true⟩ deeper')
  | [], _, c, below, deeper, _, _, _ => ⟨deeper, rfl, emits_nil _⟩
  | (k, v) :: ms, ⟨hv, hms⟩, c, below, deeper, hcount, hdeep, hlevel => by
    rw [List.length_cons] at hcount
    rw [membersDepth] at hdeep hlevel
    have hkey : Emits w (runCall (.string k)) (state w m below ⟨usize (2 * c : Nat), true⟩ deeper)
        (separator ⟨usize (2 * c : Nat), true⟩ ++ quoted k)
        (state w m below (counted ⟨usize (2 * c : Nat), true⟩) deeper) :=
      jems_string_emits k
    rw [counted_object, separator_key c (by omega)] at hkey
    obtain ⟨deeper₁, hlen₁, hvalue⟩ := Json.emits hm v hv below ⟨usize (2 * c + 1 : Nat), true⟩ deeper (by omega)
      (by omega)
    rw [counted_object, separator_value c (by omega), show 2 * c + 1 + 1 = 2 * (c + 1) by omega] at hvalue
    obtain ⟨deeper₂, hlen₂, htail⟩ := membersEmits hm ms hms (c + 1) below deeper₁ (by omega) (by omega) (by omega)
    rw [if_neg (by omega), show c + 1 + ms.length = c + ((k, v) :: ms).length by simp; omega] at htail
    have h := emits_cons hkey (emits_append hvalue htail)
    refine ⟨deeper₂, hlen₂.trans hlen₁, ?_⟩
    simpa [membersCalls, joined, renderMembers] using h
end

end ToyTstat.Jems
