import ToyTstat.Jems.Spec

/-!
# Balanced calls

A balanced sequence of calls is a list of trees: a container has an opening call, what is inside, and a
closing call. The level is followed through it by hand: an opening call goes one level up, but not
above `top`, and a closing call goes one level down, but not below 0.
-/

open CLib ToyTstat.Code

namespace ToyTstat.Jems

/-- A call that neither resets nor opens nor closes. -/
def JemsCall.isScalar : JemsCall → Bool
  | .reset | .object_open | .object_close | .array_open | .array_close | .key_object_open _ | .key_array_open _ =>
    Bool.false
  | _ => Bool.true

/-- The items that a call emits. A key is an item. -/
def JemsCall.items : JemsCall → Nat
  | .reset | .object_close | .array_close => 0
  | .key_object_open _ | .key_array_open _ | .key_number _ _ | .key_integer _ _ | .key_string _ _ | .key_bytes _ _ _
  | .key_bool _ _ | .key_true _ | .key_false _ | .key_null _ | .key_literal _ _ _ => 2
  | _ => 1

inductive Nest
  | item (call : JemsCall) (isScalar : call.isScalar)
  | container (key : Option CString) (is_object : Bool) (inner : List Nest)

def openCall : Option CString → Bool → JemsCall
  | none, Bool.true => .object_open
  | none, Bool.false => .array_open
  | some key, Bool.true => .key_object_open key
  | some key, Bool.false => .key_array_open key

def closeCall (is_object : Bool) : JemsCall := if is_object then .object_close else .array_close

mutual
def Nest.calls : Nest → List JemsCall
  | .item call _ => [call]
  | .container key is_object inner => openCall key is_object :: nestsCalls inner ++ [closeCall is_object]
termination_by structural n => n
def nestsCalls : List Nest → List JemsCall
  | [] => []
  | n :: ns => n.calls ++ nestsCalls ns
termination_by structural ns => ns
end

mutual
/-- The containers that are open at once. -/
def Nest.depth : Nest → Nat
  | .item _ _ => 0
  | .container _ _ inner => nestsDepth inner + 1
termination_by structural n => n
def nestsDepth : List Nest → Nat
  | [] => 0
  | n :: ns => max n.depth (nestsDepth ns)
termination_by structural ns => ns
end

/-- The items that are not inside a container of the list. -/
def Nest.direct : Nest → Nat
  | .item call _ => call.items
  | .container key is_object _ => (openCall key is_object).items

def nestsDirect (ns : List Nest) : Nat := (ns.map Nest.direct).sum

/-! ## The level -/

/-- The level after an opening call. -/
def pushed (top level : Nat) : Nat := if level < top then level + 1 else level

mutual
def Nest.levelAfter (top : Nat) : Nest → Nat → Nat
  | .item _ _, level => level
  | .container _ _ inner, level => nestsLevelAfter top inner (pushed top level) - 1
termination_by structural n => n
def nestsLevelAfter (top : Nat) : List Nest → Nat → Nat
  | [], level => level
  | n :: ns, level => nestsLevelAfter top ns (n.levelAfter top level)
termination_by structural ns => ns
end

mutual
/-- The level is never below `base`. -/
def Nest.Stays (top base : Nat) : Nest → Nat → Prop
  | .item _ _, _ => True
  | .container _ _ inner, level =>
    nestsStay top base inner (pushed top level) ∧ base ≤ nestsLevelAfter top inner (pushed top level) - 1
termination_by structural n => n
def nestsStay (top base : Nat) : List Nest → Nat → Prop
  | [], _ => True
  | n :: ns, level => n.Stays top base level ∧ nestsStay top base ns (n.levelAfter top level)
termination_by structural ns => ns
end

mutual
/-- The items that are emitted while the level is `base`. -/
def Nest.emittedAt (top base : Nat) : Nest → Nat → Nat
  | .item call _, level => if level = base then call.items else 0
  | .container key is_object inner, level =>
    (if level = base then (openCall key is_object).items else 0) + nestsEmittedAt top base inner (pushed top level)
termination_by structural n => n
def nestsEmittedAt (top base : Nat) : List Nest → Nat → Nat
  | [], _ => 0
  | n :: ns, level => n.emittedAt top base level + nestsEmittedAt top base ns (n.levelAfter top level)
termination_by structural ns => ns
end

variable {top base level : Nat}

theorem pushed_le (top level : Nat) : pushed top level ≤ level + 1 := by
  unfold pushed
  split <;> omega

mutual
theorem Nest.levelAfter_le (top : Nat) : (n : Nest) → ∀ level, n.levelAfter top level ≤ level
  | .item _ _, level => Nat.le_refl level
  | .container _ _ inner, level => by
    have := nestsLevelAfter_le top inner (pushed top level)
    have := pushed_le top level
    rw [Nest.levelAfter]
    omega
theorem nestsLevelAfter_le (top : Nat) : (ns : List Nest) → ∀ level, nestsLevelAfter top ns level ≤ level
  | [], level => Nat.le_refl level
  | n :: ns, level => (nestsLevelAfter_le top ns _).trans (n.levelAfter_le top level)
end

mutual
theorem Nest.levelAfter_fits : (n : Nest) → ∀ level, level + n.depth ≤ top → n.levelAfter top level = level
  | .item _ _, _, _ => rfl
  | .container _ _ inner, level, h => by
    rw [Nest.depth] at h
    rw [Nest.levelAfter, pushed, if_pos (by omega), nestsLevelAfter_fits inner (level + 1) (by omega)]
    rfl
theorem nestsLevelAfter_fits : (ns : List Nest) → ∀ level, level + nestsDepth ns ≤ top →
    nestsLevelAfter top ns level = level
  | [], _, _ => rfl
  | n :: ns, level, h => by
    rw [nestsDepth] at h
    rw [nestsLevelAfter, n.levelAfter_fits level (by omega), nestsLevelAfter_fits ns level (by omega)]
end

mutual
theorem Nest.levelAfter_deep : (n : Nest) → ∀ level, 1 ≤ level → level ≤ top → top < level + n.depth →
    n.levelAfter top level < level
  | .item _ _, level, _, htop, h => by
    rw [Nest.depth] at h
    omega
  | .container _ _ inner, level, hpos, htop, h => by
    rw [Nest.depth] at h
    rw [Nest.levelAfter, pushed]
    by_cases hroom : level < top
    · rw [if_pos hroom]
      have := nestsLevelAfter_deep inner (level + 1) (by omega) hroom (by omega)
      omega
    · rw [if_neg hroom]
      have := nestsLevelAfter_le top inner level
      omega
theorem nestsLevelAfter_deep : (ns : List Nest) → ∀ level, 1 ≤ level → level ≤ top → top < level + nestsDepth ns →
    nestsLevelAfter top ns level < level
  | [], level, _, htop, h => by
    rw [nestsDepth] at h
    omega
  | n :: ns, level, hpos, htop, h => by
    rw [nestsDepth] at h
    rw [nestsLevelAfter]
    by_cases hfits : level + n.depth ≤ top
    · rw [n.levelAfter_fits level hfits]
      exact nestsLevelAfter_deep ns level hpos htop (by omega)
    · exact (nestsLevelAfter_le top ns _).trans_lt (n.levelAfter_deep level hpos htop (by omega))
end

/-! ## The items at a level -/

mutual
theorem Nest.stays_fits : (n : Nest) → ∀ level, level + n.depth ≤ top → base ≤ level → n.Stays top base level
  | .item _ _, _, _, _ => trivial
  | .container _ _ inner, level, h, hbase => by
    rw [Nest.depth] at h
    rw [Nest.Stays, pushed, if_pos (by omega), nestsLevelAfter_fits inner (level + 1) (by omega)]
    exact ⟨nestsStay_fits inner (level + 1) (by omega) (by omega), by omega⟩
theorem nestsStay_fits : (ns : List Nest) → ∀ level, level + nestsDepth ns ≤ top → base ≤ level →
    nestsStay top base ns level
  | [], _, _, _ => trivial
  | n :: ns, level, h, hbase => by
    rw [nestsDepth] at h
    rw [nestsStay, n.levelAfter_fits level (by omega)]
    exact ⟨n.stays_fits level (by omega) hbase, nestsStay_fits ns level (by omega) hbase⟩
end

mutual
theorem Nest.stays_zero (top : Nat) : (n : Nest) → ∀ level, n.Stays top 0 level
  | .item _ _, _ => trivial
  | .container _ _ inner, _ => ⟨nestsStay_zero top inner _, Nat.zero_le _⟩
theorem nestsStay_zero (top : Nat) : (ns : List Nest) → ∀ level, nestsStay top 0 ns level
  | [], _ => trivial
  | n :: ns, _ => ⟨n.stays_zero top _, nestsStay_zero top ns _⟩
end

mutual
theorem Nest.emittedAt_below : (n : Nest) → ∀ level, level + n.depth ≤ top → base < level →
    n.emittedAt top base level = 0
  | .item _ _, level, _, hbase => if_neg (by omega)
  | .container _ _ inner, level, h, hbase => by
    rw [Nest.depth] at h
    rw [Nest.emittedAt, if_neg (by omega), pushed, if_pos (by omega),
      nestsEmittedAt_below inner (level + 1) (by omega) (by omega)]
theorem nestsEmittedAt_below : (ns : List Nest) → ∀ level, level + nestsDepth ns ≤ top → base < level →
    nestsEmittedAt top base ns level = 0
  | [], _, _, _ => rfl
  | n :: ns, level, h, hbase => by
    rw [nestsDepth] at h
    rw [nestsEmittedAt, n.levelAfter_fits level (by omega), n.emittedAt_below level (by omega) hbase,
      nestsEmittedAt_below ns level (by omega) hbase]
end

theorem nestsEmittedAt_fits (ns : List Nest) (h : level + nestsDepth ns ≤ top) :
    nestsEmittedAt top level ns level = nestsDirect ns := by
  induction ns with
  | nil => rfl
  | cons n ns ih =>
    rw [nestsDepth] at h
    have hn : n.emittedAt top level level = n.direct := by
      cases n with
      | item call isScalar => exact if_pos rfl
      | container key is_object inner =>
        rw [Nest.depth] at h
        rw [Nest.emittedAt, if_pos rfl, pushed, if_pos (by omega),
          nestsEmittedAt_below inner (level + 1) (by omega) (by omega)]
        rfl
    rw [nestsEmittedAt, n.levelAfter_fits level (by omega), hn, ih (by omega)]
    rfl

/-! ## From level 0 -/

/-- The items inside the containers that are emitted at level 0. -/
def Nest.surplus (top : Nat) : Nest → Nat
  | .item _ _ => 0
  | .container _ _ inner => nestsEmittedAt top 0 inner (pushed top 0)

def nestsSurplus (top : Nat) (ns : List Nest) : Nat := (ns.map (Nest.surplus top)).sum

theorem nestsEmittedAt_zero (top : Nat) (ns : List Nest) :
    nestsEmittedAt top 0 ns 0 = nestsDirect ns + nestsSurplus top ns := by
  induction ns with
  | nil => rfl
  | cons n ns ih =>
    have hlevel : n.levelAfter top 0 = 0 := Nat.le_zero.mp (n.levelAfter_le top 0)
    have hn : n.emittedAt top 0 0 = n.direct + n.surplus top := by
      cases n with
      | item call isScalar =>
        rw [Nest.emittedAt, if_pos rfl]
        rfl
      | container key is_object inner =>
        rw [Nest.emittedAt, if_pos rfl]
        rfl
    rw [nestsEmittedAt, hlevel, hn, ih]
    simp only [nestsDirect, nestsSurplus, List.map_cons, List.sum_cons]
    omega

mutual
/-- `open_` containers are open now, and there have been as many as `most` at once: no item is emitted `top` or more
containers below the deepest point before it. -/
def Nest.CleanFrom (top : Nat) : Nest → Nat → Nat → Prop
  | .item _ _, open_, most => most < open_ + top
  | .container _ _ inner, open_, most =>
    most < open_ + top ∧ nestsCleanFrom top inner (open_ + 1) (max most (open_ + 1))
termination_by structural n => n
def nestsCleanFrom (top : Nat) : List Nest → Nat → Nat → Prop
  | [], _, _ => True
  | n :: ns, open_, most => n.CleanFrom top open_ most ∧ nestsCleanFrom top ns open_ (max most (open_ + n.depth))
termination_by structural ns => ns
end

/-- In each container, no item comes after a point that lies `top` or more containers deeper. -/
def Clean (top : Nat) (ns : List Nest) : Prop :=
  ∀ n ∈ ns, ∀ key is_object inner, n = .container key is_object inner → nestsCleanFrom top inner 1 1

theorem scalar_items_pos {call : JemsCall} (h : call.isScalar) : 0 < call.items := by
  cases call <;> simp_all [JemsCall.isScalar, JemsCall.items]

theorem openCall_items_pos (key : Option CString) (is_object : Bool) : 0 < (openCall key is_object).items := by
  cases key <;> cases is_object <;> exact Nat.succ_pos _

/-- The level where `open_` containers are open and there have been as many as `most`: each one above `top` has cost
a level, and level 0 has not been left behind. -/
def levelIn (top open_ most : Nat) : Nat := open_ - (most - top)

theorem levelIn_push {open_ most : Nat} (hpos : 1 ≤ levelIn top open_ most) (hmost : open_ ≤ most) :
    pushed top (levelIn top open_ most) = levelIn top (open_ + 1) (max most (open_ + 1)) := by
  unfold pushed levelIn at *
  split <;> omega

mutual
theorem Nest.clean_iff (top : Nat) : (n : Nest) → ∀ open_ most, 1 ≤ open_ → open_ ≤ most →
    (n.emittedAt top 0 (levelIn top open_ most) = 0 ↔ n.CleanFrom top open_ most) ∧
      (n.emittedAt top 0 (levelIn top open_ most) = 0 →
        n.levelAfter top (levelIn top open_ most) = levelIn top open_ (max most (open_ + n.depth)))
  | .item call isScalar, open_, most, hopen, hmost => by
    have hitems := scalar_items_pos isScalar
    rw [Nest.emittedAt, Nest.CleanFrom, Nest.levelAfter, Nest.depth, Nat.add_zero, Nat.max_eq_left hmost]
    refine ⟨?_, fun _ => rfl⟩
    unfold levelIn
    split <;> omega
  | .container key is_object inner, open_, most, hopen, hmost => by
    have hitems := openCall_items_pos key is_object
    rw [Nest.emittedAt, Nest.CleanFrom, Nest.levelAfter, Nest.depth]
    by_cases hzero : levelIn top open_ most = 0
    · rw [if_pos hzero]
      unfold levelIn at hzero
      exact ⟨by omega, by omega⟩
    · have hbelow : most < open_ + top := by
        unfold levelIn at hzero
        omega
      rw [if_neg hzero, Nat.zero_add, levelIn_push (by omega) hmost]
      obtain ⟨hclean, hlevel⟩ := nestsClean_iff top inner (open_ + 1) (max most (open_ + 1)) (by omega) (by omega)
      refine ⟨hclean.trans ⟨fun h => ⟨hbelow, h⟩, fun h => h.2⟩, fun hnone => ?_⟩
      rw [hlevel hnone]
      unfold levelIn
      omega
theorem nestsClean_iff (top : Nat) : (ns : List Nest) → ∀ open_ most, 1 ≤ open_ → open_ ≤ most →
    (nestsEmittedAt top 0 ns (levelIn top open_ most) = 0 ↔ nestsCleanFrom top ns open_ most) ∧
      (nestsEmittedAt top 0 ns (levelIn top open_ most) = 0 →
        nestsLevelAfter top ns (levelIn top open_ most) = levelIn top open_ (max most (open_ + nestsDepth ns)))
  | [], open_, most, _, hmost => by
    rw [nestsDepth, Nat.add_zero, Nat.max_eq_left hmost]
    exact ⟨⟨fun _ => trivial, fun _ => rfl⟩, fun _ => rfl⟩
  | n :: ns, open_, most, hopen, hmost => by
    obtain ⟨hclean, hlevel⟩ := n.clean_iff top open_ most hopen hmost
    obtain ⟨hrest, hend⟩ := nestsClean_iff top ns open_ (max most (open_ + n.depth)) hopen (by omega)
    rw [nestsEmittedAt, nestsCleanFrom, nestsLevelAfter, nestsDepth, Nat.add_eq_zero_iff, ← hclean, ← hrest]
    refine ⟨and_congr_right fun hnone => by rw [hlevel hnone], fun hnone => ?_⟩
    rw [hlevel hnone.1] at hnone ⊢
    rw [hend hnone.2]
    congr 1
    omega
end

theorem surplus_zero_iff (top : Nat) (ns : List Nest) : nestsSurplus top ns = 0 ↔ Clean top ns := by
  have hfirst : pushed top 0 = levelIn top 1 1 := by
    unfold pushed levelIn
    split <;> omega
  unfold nestsSurplus Clean
  rw [List.sum_eq_zero_iff]
  simp only [List.mem_map, forall_exists_index, and_imp, forall_apply_eq_imp_iff₂]
  apply forall₂_congr
  intro n _
  cases n with
  | item call isScalar => simp [Nest.surplus]
  | container key is_object inner =>
    rw [Nest.surplus, hfirst, (nestsClean_iff top inner 1 1 le_rfl le_rfl).1]
    constructor
    · rintro h _ _ _ ⟨⟩
      exact h
    · intro h
      exact h key is_object inner rfl

end ToyTstat.Jems
