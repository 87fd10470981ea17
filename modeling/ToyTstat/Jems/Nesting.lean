import ToyTstat.Jems.Runs

/-!
# Containers nested too deeply

Above the last level an opening call does not push a level, but its closing call pops one.
-/

open CLib ToyTstat.Code

namespace ToyTstat.Jems

variable {σ : Type} {m base : Nat} {jems jems' jems'' : jems_t σ}

/-! ## Items that are counted -/

/-- Below `base` the levels are as they were. The level `base` has kept its kind, and its item count has grown by
`items`, modulo 2^64. -/
structure CountedAt (base items : Nat) (jems jems' : jems_t σ) : Prop where
  below : jems'.levels.take base = jems.levels.take base
  counted : ∀ level, jems.levels[base]? = some level → ∃ level', jems'.levels[base]? = some level' ∧
    level'.is_object = level.is_object ∧ usize level'.item_count = usize (level.item_count + items)

theorem CountedAt.same (h : jems'.levels = jems.levels) (base : Nat) : CountedAt base 0 jems jems' := by
  constructor
  · rw [h]
  · intro level hlevel
    exact ⟨level, by rw [h, hlevel], rfl, rfl⟩

theorem CountedAt.trans {a b : Nat} (h : CountedAt base a jems jems') (h' : CountedAt base b jems' jems'') :
    CountedAt base (a + b) jems jems'' := by
  constructor
  · rw [h'.below, h.below]
  · intro level hlevel
    obtain ⟨level', hlevel', hobject', hcount'⟩ := h.counted level hlevel
    obtain ⟨level'', hlevel'', hobject'', hcount''⟩ := h'.counted level' hlevel'
    refine ⟨level'', hlevel'', hobject''.trans hobject', ?_⟩
    rw [hcount'']
    unfold usize at *
    omega

theorem CountedAt.set_above {i : Nat} (level : jems_level_t) (hi : base < i)
    (h : jems'.levels = jems.levels.set i level) : CountedAt base 0 jems jems' := by
  constructor
  · rw [h, List.take_set_of_le hi.le]
  · intro level' hlevel'
    exact ⟨level', by rw [h, List.getElem?_set_ne hi.ne', hlevel'], rfl, rfl⟩

theorem Counts.counted_at {f : jems_t σ → Option (jems_t σ)} {items : Nat} (hf : Counts f items)
    (hbase : base ≤ jems.curr_level) (h : f jems = some jems') :
    jems'.curr_level = jems.curr_level ∧
      CountedAt base (if jems.curr_level = base then items else 0) jems jems' := by
  obtain ⟨level, arg, hlevel, rfl⟩ := hf jems jems' h
  refine ⟨rfl, ?_⟩
  by_cases hcurr : jems.curr_level = base
  · subst hcurr
    rw [if_pos rfl]
    constructor
    · exact List.take_set_of_le (Nat.le_refl _)
    · intro level' hlevel'
      obtain rfl : level = level' := Option.some.inj (hlevel.symm.trans hlevel')
      have hin : jems.curr_level < jems.levels.length := (List.getElem?_eq_some_iff.mp hlevel).1
      refine ⟨_, List.getElem?_set_self hin, rfl, ?_⟩
      dsimp only [countedBy]
      unfold usize
      omega
  · rw [if_neg hcurr]
    exact .set_above (countedBy items level) (by omega) rfl

/-! ## One call -/

theorem push_level_counted_at (hm : m < 2 ^ 64) (hok : LevelsOk m jems) (hbase : base ≤ jems.curr_level)
    {is_object : Bool} (h : push_level jems is_object = some jems') :
    jems'.curr_level = pushed (m - 1) jems.curr_level ∧ CountedAt base 0 jems jems' := by
  obtain ⟨rfl, hsize, hcurr⟩ := hok
  have hlast : usize (jems.max_level - 1) = jems.max_level - 1 := by
    rw [show (jems.max_level : Int) - 1 = ((jems.max_level - 1 : Nat) : Int) by omega, usize_of_lt (by omega)]
  dsimp only [push_level] at h
  rw [hlast] at h
  unfold pushed
  split at h
  case isTrue hroom =>
    obtain ⟨level, -, rfl⟩ := Option.map_eq_some_iff.mp h
    rw [if_pos hroom]
    exact ⟨rfl, .set_above (i := jems.curr_level + 1) ⟨0, is_object⟩ (by omega) rfl⟩
  case isFalse hfull =>
    obtain rfl := Option.some.inj h
    rw [if_neg hfull]
    exact ⟨rfl, .same rfl base⟩

theorem pop_level_counted_at (jems : jems_t σ) (base : Nat) :
    (pop_level jems).curr_level = jems.curr_level - 1 ∧ CountedAt base 0 jems (pop_level jems) := by
  unfold pop_level
  split
  case isTrue => exact ⟨rfl, .same (by rfl) base⟩
  case isFalse hzero =>
    refine ⟨?_, .same rfl base⟩
    omega

theorem open_eq (σ : Type) (key : Option CString) (is_object : Bool) :
    ∃ f : jems_t σ → Option (jems_t σ), Counts f (openCall key is_object).items ∧
      ∀ jems, runCall (openCall key is_object) jems = (f jems).bind fun jems => push_level jems is_object := by
  have hopen (c : Byte) : Counts (fun jems : jems_t σ => (commify jems).bind fun jems => emit_char jems c) 1 :=
    commify_counts.writes (emit_char_writes c)
  have hassoc (c : Byte) (jems : jems_t σ) :
      ((commify jems).bind fun jems => (emit_char jems c).bind fun jems => push_level jems is_object) =
        ((commify jems).bind fun jems => emit_char jems c).bind fun jems => push_level jems is_object :=
    (Option.bind_assoc _ _ _).symm
  cases key with
  | none =>
    cases is_object with
    | true => exact ⟨_, hopen (ch '{'), hassoc (ch '{')⟩
    | false => exact ⟨_, hopen (ch '['), hassoc (ch '[')⟩
  | some key =>
    cases is_object with
    | true =>
      refine ⟨_, (jems_string_counts key.memory).bind (hopen (ch '{')), fun jems => ?_⟩
      rw [Option.bind_assoc, ← funext (hassoc (ch '{'))]
      rfl
    | false =>
      refine ⟨_, (jems_string_counts key.memory).bind (hopen (ch '[')), fun jems => ?_⟩
      rw [Option.bind_assoc, ← funext (hassoc (ch '['))]
      rfl

theorem close_eq (σ : Type) (is_object : Bool) :
    ∃ f : jems_t σ → Option (jems_t σ), WritesOnly f ∧
      ∀ jems, runCall (closeCall is_object) jems = (f jems).map pop_level := by
  cases is_object with
  | true => exact ⟨_, emit_char_writes (ch '}'), fun jems => rfl⟩
  | false => exact ⟨_, emit_char_writes (ch ']'), fun jems => rfl⟩

/-! ## Balanced calls -/

theorem Nest.stays_le {top level : Nat} (n : Nest) (hbase : base ≤ level) (hstays : n.Stays top base level) :
    base ≤ n.levelAfter top level := by
  cases n with
  | item call isScalar => exact hbase
  | container key is_object inner => exact hstays.2

mutual
theorem Nest.runs (hm : m < 2 ^ 64) : (n : Nest) → ∀ jems jems' : jems_t σ, LevelsOk m jems →
    base ≤ jems.curr_level → n.Stays (m - 1) base jems.curr_level → runCalls n.calls jems = some jems' →
    jems'.curr_level = n.levelAfter (m - 1) jems.curr_level ∧
      CountedAt base (n.emittedAt (m - 1) base jems.curr_level) jems jems'
  | .item call isScalar, jems, jems', hok, hbase, hstays, h => by
    rw [Nest.calls, runCalls] at h
    obtain ⟨jems₁, hcall, h⟩ := Option.bind_eq_some_iff.mp h
    obtain rfl := Option.some.inj h
    exact (scalar_counts isScalar).counted_at hbase hcall
  | .container key is_object inner, jems, jems', hok, hbase, hstays, h => by
    obtain ⟨f, hf, hopen⟩ := open_eq σ key is_object
    obtain ⟨g, hg, hclose⟩ := close_eq σ is_object
    rw [Nest.calls, List.cons_append, runCalls, hopen, Option.bind_assoc] at h
    obtain ⟨jems₁, h₁, h⟩ := Option.bind_eq_some_iff.mp h
    obtain ⟨jems₂, h₂, h⟩ := Option.bind_eq_some_iff.mp h
    rw [runCalls_append] at h
    obtain ⟨jems₃, h₃, h⟩ := Option.bind_eq_some_iff.mp h
    rw [runCalls, hclose, Option.bind_eq_some_iff] at h
    obtain ⟨jems₄, h₄, h⟩ := h
    obtain rfl := Option.some.inj h
    obtain ⟨jems₅, h₅, rfl⟩ := Option.map_eq_some_iff.mp h₄
    obtain ⟨arg, rfl⟩ := hg jems₃ jems₅ h₅
    -- the opening call, what is inside, the closing call
    obtain ⟨hcurr₁, hcounted₁⟩ := hf.counted_at hbase h₁
    have hok₁ := hf.keeps jems jems₁ hok h₁
    obtain ⟨hcurr₂, hcounted₂⟩ := push_level_counted_at hm hok₁ (hcurr₁ ▸ hbase) h₂
    have hok₂ := push_level_keeps hm is_object jems₁ jems₂ hok₁ h₂
    rw [hcurr₁] at hcurr₂
    have hbase₂ : base ≤ jems₂.curr_level := by
      rw [hcurr₂]
      unfold pushed
      split <;> omega
    obtain ⟨hcurr₃, hcounted₃⟩ := nestsRuns hm inner jems₂ jems₃ hok₂ hbase₂ (by rw [hcurr₂]; exact hstays.1) h₃
    rw [hcurr₂] at hcurr₃ hcounted₃
    obtain ⟨hcurr₄, hcounted₄⟩ := pop_level_counted_at { jems₃ with arg } base
    refine ⟨hcurr₄.trans (by rw [hcurr₃]; rfl), ?_⟩
    have hwritten : CountedAt base 0 jems₃ { jems₃ with arg } := .same (by rfl) base
    exact (hcounted₁.trans hcounted₂).trans (hcounted₃.trans (hwritten.trans hcounted₄))
theorem nestsRuns (hm : m < 2 ^ 64) : (ns : List Nest) → ∀ jems jems' : jems_t σ, LevelsOk m jems →
    base ≤ jems.curr_level → nestsStay (m - 1) base ns jems.curr_level → runCalls (nestsCalls ns) jems = some jems' →
    jems'.curr_level = nestsLevelAfter (m - 1) ns jems.curr_level ∧
      CountedAt base (nestsEmittedAt (m - 1) base ns jems.curr_level) jems jems'
  | [], jems, jems', _, _, _, h => by
    obtain rfl := Option.some.inj h
    exact ⟨rfl, .same rfl base⟩
  | n :: ns, jems, jems', hok, hbase, hstays, h => by
    rw [nestsCalls, runCalls_append] at h
    obtain ⟨jems₁, h₁, h₂⟩ := Option.bind_eq_some_iff.mp h
    obtain ⟨hcurr₁, hcounted₁⟩ := n.runs hm jems jems₁ hok hbase hstays.1 h₁
    have hbase₁ : base ≤ jems₁.curr_level := by
      rw [hcurr₁]
      exact n.stays_le hbase hstays.1
    obtain ⟨hcurr₂, hcounted₂⟩ := nestsRuns hm ns jems₁ jems' (runCalls_keeps hm n.calls jems jems₁ hok h₁) hbase₁
      (by rw [hcurr₁]; exact hstays.2) h₂
    rw [hcurr₁] at hcurr₂ hcounted₂
    exact ⟨hcurr₂, hcounted₁.trans hcounted₂⟩
end

/-! ## The outer levels -/

/-- The current level is the same, the levels below it are untouched, and in it `items` items have been counted. -/
structure OuterKept (items : Nat) (jems jems' : jems_t σ) : Prop where
  curr_level : jems_curr_level jems' = jems_curr_level jems
  levels : CountedAt (jems_curr_level jems) items jems jems'

variable {ns : List Nest}

theorem outer_kept_fits (hm : m < 2 ^ 64) (hok : LevelsOk m jems) (h : runCalls (nestsCalls ns) jems = some jems')
    (hfits : jems.curr_level + nestsDepth ns ≤ m - 1) : OuterKept (nestsDirect ns) jems jems' := by
  obtain ⟨hcurr, hcounted⟩ := nestsRuns hm ns jems jems' hok le_rfl (nestsStay_fits ns _ hfits le_rfl) h
  rw [nestsLevelAfter_fits ns _ hfits] at hcurr
  rw [nestsEmittedAt_fits ns hfits] at hcounted
  exact ⟨hcurr, hcounted⟩

theorem not_outer_kept_deep (hm : m < 2 ^ 64) (hok : LevelsOk m jems)
    (h : runCalls (nestsCalls ns) jems = some jems') (hpos : 1 ≤ jems.curr_level)
    (hdeep : m - 1 < jems.curr_level + nestsDepth ns) (items : Nat) : ¬ OuterKept items jems jems' := by
  intro hkept
  have hcurr := (nestsRuns hm ns jems jems' hok (Nat.zero_le _) (nestsStay_zero _ ns _) h).1
  have hlower := nestsLevelAfter_deep ns jems.curr_level hpos (Nat.le_sub_one_of_lt hok.curr_level) hdeep
  rw [← hcurr] at hlower
  exact absurd hkept.curr_level hlower.ne

theorem usize_surplus (count direct surplus : Nat) :
    usize (count + (direct + surplus : Nat)) = usize (count + direct) ↔ 2 ^ 64 ∣ surplus := by
  unfold usize
  omega

theorem outer_kept_zero (hm : m < 2 ^ 64) (hok : LevelsOk m jems) (h : runCalls (nestsCalls ns) jems = some jems')
    (hzero : jems.curr_level = 0) :
    OuterKept (nestsDirect ns) jems jems' ↔ 2 ^ 64 ∣ nestsSurplus (m - 1) ns := by
  obtain ⟨hcurr, hcounted⟩ := nestsRuns hm ns jems jems' hok (Nat.zero_le _) (nestsStay_zero _ ns _) h
  rw [hzero] at hcurr hcounted
  rw [nestsEmittedAt_zero] at hcounted
  have hback : jems_curr_level jems' = jems_curr_level jems := by
    have := nestsLevelAfter_le (m - 1) ns 0
    rw [jems_curr_level, jems_curr_level, hcurr, hzero]
    omega
  obtain ⟨level, hlevel⟩ : ∃ level, jems.levels[0]? = some level := by
    have hlength : 0 < jems.levels.length := (Nat.zero_lt_of_lt hok.curr_level).trans_le hok.size
    exact ⟨_, List.getElem?_eq_getElem hlength⟩
  constructor
  · rintro ⟨-, hkept⟩
    rw [jems_curr_level, hzero] at hkept
    obtain ⟨level', hlevel', -, hcount'⟩ := hkept.counted level hlevel
    obtain ⟨level'', hlevel'', -, hcount''⟩ := hcounted.counted level hlevel
    obtain rfl := Option.some.inj (hlevel'.symm.trans hlevel'')
    exact (usize_surplus _ _ _).mp (hcount''.symm.trans hcount')
  · intro hdvd
    refine ⟨hback, ?_⟩
    rw [jems_curr_level, hzero]
    refine ⟨hcounted.below, fun level hlevel => ?_⟩
    obtain ⟨level', hlevel', hobject', hcount'⟩ := hcounted.counted level hlevel
    exact ⟨level', hlevel', hobject', hcount'.trans ((usize_surplus _ _ _).mpr hdvd)⟩

/-- The outer levels are kept exactly when there is a level for each container, or when the calls start at level 0 and
no item inside a container is counted there, or 2^64 of them or a multiple of that. -/
theorem outer_kept_iff (jems jems' : jems_t σ) (ns : List Nest) (hm : jems.max_level < 2 ^ 64)
    (hsize : jems.max_level ≤ jems.levels.length) (hcurr : jems.curr_level < jems.max_level)
    (h : runCalls (nestsCalls ns) jems = some jems') :
    OuterKept (nestsDirect ns) jems jems' ↔
      jems.curr_level + nestsDepth ns ≤ jems.max_level - 1 ∨
        jems.curr_level = 0 ∧ (Clean (jems.max_level - 1) ns ∨
          0 < nestsSurplus (jems.max_level - 1) ns ∧ 2 ^ 64 ∣ nestsSurplus (jems.max_level - 1) ns) := by
  have hok : LevelsOk jems.max_level jems := ⟨rfl, hsize, hcurr⟩
  by_cases hfits : jems.curr_level + nestsDepth ns ≤ jems.max_level - 1
  · exact iff_of_true (outer_kept_fits hm hok h hfits) (.inl hfits)
  by_cases hzero : jems.curr_level = 0
  · rw [outer_kept_zero hm hok h hzero, ← surplus_zero_iff]
    generalize nestsSurplus (jems.max_level - 1) ns = surplus
    constructor
    · intro hdvd
      exact .inr ⟨hzero, by omega⟩
    · rintro (hfits' | ⟨-, hnone | ⟨-, hdvd⟩⟩)
      · exact absurd hfits' hfits
      · rw [hnone]
        exact dvd_zero _
      · exact hdvd
  · refine iff_of_false (not_outer_kept_deep hm hok h (by omega) (by omega) _) ?_
    rintro (hfits' | ⟨hzero', -⟩)
    · exact hfits hfits'
    · exact hzero hzero'

/-- `[null]` from level 0, with two levels. -/
theorem outer_kept_array :
    OuterKept 1 (state record 2 [] ⟨0, false⟩ [⟨0, false⟩] [])
      (state record 2 [] ⟨1, false⟩ [⟨1, false⟩] (ascii "[null]")) :=
  (outer_kept_iff _ _ [.container none false [.item .null rfl]] (by decide) (by decide) (by decide) rfl).mpr
    (.inl (by decide))

/-- `[[],null]` with two levels: the last item is counted at level 0, where only the outer array is an item. -/
theorem outer_not_kept :
    runCalls (nestsCalls [.container none false [.container none false [], .item .null rfl]])
        (state record 2 [] ⟨0, false⟩ [⟨0, false⟩] []) =
      some (state record 2 [] ⟨2, false⟩ [⟨1, false⟩] (ascii "[[],null]")) ∧
    ¬ OuterKept 1 (state record 2 [] ⟨0, false⟩ [⟨0, false⟩] [])
      (state record 2 [] ⟨2, false⟩ [⟨1, false⟩] (ascii "[[],null]")) := by
  refine ⟨rfl, fun hkept => ?_⟩
  obtain ⟨level, hlevel, -, hcount⟩ := hkept.levels.counted ⟨0, false⟩ rfl
  obtain rfl : ⟨2, false⟩ = level := Option.some.inj hlevel
  exact absurd hcount (by decide)

end ToyTstat.Jems
