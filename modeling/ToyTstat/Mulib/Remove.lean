import ToyTstat.Mulib.Sched

/-!
# Removing a deferred task

The loop closes the slots of the task on its way down the array. What the slots behind the count
hold does not matter, and they stay as they are.
-/

open CLib ToyTstat.Code ToyTstat.Code.mu_task_err_t

namespace ToyTstat.Mulib

/-! ## The slots that are used -/

/-- What `memmove` reads and writes to close slot `i`: the slots from `i` to the last one, unless `i` is the last. -/
def closeTouches (s : mu_sched_t) (i : Nat) : List Nat :=
  let to_move := s.deferred_task_count - (i + 1)
  if to_move > 0 then List.range' i (to_move + 1) else []

/-- What the loop reads and writes from `i` down. -/
def loopTouches (task : Ptr) : Nat → mu_sched_t → List Nat
  | 0, _ => []
  | i + 1, s =>
    i :: if (deferred_slot s i).task = task then closeTouches s i ++ loopTouches task i (remove_slot s i)
      else loopTouches task i s

/-- The slots that `mu_sched_remove_deferred_task` reads or writes, in its order. -/
def removeTouches (s : mu_sched_t) (task : Ptr) : List Nat := loopTouches task s.deferred_task_count s

variable {s : mu_sched_t} {held junk : List deferred_task_t} {task : Ptr} {i : Nat}

theorem closeTouches_lt : ∀ j ∈ closeTouches s i, j < s.deferred_task_count := by
  intro j hj
  unfold closeTouches at hj
  dsimp only at hj
  split at hj
  case isTrue hmove =>
    rw [List.mem_range'_1] at hj
    omega
  case isFalse => cases hj

theorem loopTouches_lt (hi : i ≤ s.deferred_task_count) :
    ∀ j ∈ loopTouches task i s, j < s.deferred_task_count := by
  induction i generalizing s with
  | zero => nofun
  | succ i ih =>
    intro j hj
    rw [loopTouches, List.mem_cons] at hj
    rcases hj with rfl | hj
    · exact hi
    split at hj
    case isTrue =>
      rcases List.mem_append.mp hj with hclose | hrest
      · exact closeTouches_lt j hclose
      -- one slot less is held from here on
      · have hcount : (remove_slot s i).deferred_task_count = s.deferred_task_count - 1 := rfl
        have := ih (s := remove_slot s i) (by omega) j hrest
        omega
    case isFalse => exact ih (Nat.le_of_succ_le hi) j hj

/-! ## The removal -/

theorem loop_not_found (h : Stored s held junk) (hi : i ≤ held.length) (hnone : ∀ e ∈ held.take i, e.task ≠ task)
    (err : mu_task_err_t) : remove_deferred_loop task i s err = (s, err) := by
  induction i with
  | zero => rfl
  | succ i ih =>
    have htake : held.take (i + 1) = held.take i ++ [held[i]] := by
      rw [List.take_add_one, List.getElem?_eq_getElem hi]
      rfl
    rw [htake] at hnone
    rw [remove_deferred_loop, h.slot hi, if_neg (hnone _ (List.mem_append_right _ List.mem_cons_self))]
    exact ih (Nat.le_of_succ_le hi) fun e he => hnone e (List.mem_append_left _ he)

theorem remove_not_found (h : Stored s held junk) (hnone : ∀ e ∈ held, e.task ≠ task) :
    mu_sched_remove_deferred_task s task = (s, MU_TASK_ERR_NOT_FOUND) := by
  rw [mu_sched_remove_deferred_task, h.count]
  exact loop_not_found h (Nat.le_refl _) (by rwa [List.take_length]) _

/-- The entries of the task are removed and nothing else is. `freed` is what the slots hold that are not used any
more: it is found from the entries held alone, and what is behind them stays there. -/
theorem remove_exact (task : Ptr) (held : List deferred_task_t) :
    ∃ freed : List deferred_task_t, ∀ (s : mu_sched_t) (junk : List deferred_task_t),
      s.deferred_task_count = held.length → s.s_deferred_tasks = held ++ junk →
      let r := mu_sched_remove_deferred_task s task
      let kept := held.filter (fun e => e.task ≠ task)
      r.1.deferred_task_count = kept.length ∧ r.1.s_deferred_tasks = kept ++ (freed ++ junk) ∧
        kept.length + freed.length = held.length ∧ SameElse s r.1 ∧
        r.2 = (if ∃ e ∈ held, e.task = task then MU_TASK_ERR_NONE else MU_TASK_ERR_NOT_FOUND) ∧
        ((∀ e ∈ held, e.task ≠ task) → r.1 = s) ∧ ∀ j ∈ removeTouches s task, j < s.deferred_task_count := by
  obtain ⟨freed, hlength, hspec⟩ := remove_stored task held
  refine ⟨freed, fun s junk hcount hslots => ?_⟩
  have h : Stored s held junk := ⟨hslots, hcount⟩
  obtain ⟨herr, hsame, hstored⟩ := hspec s junk h
  refine ⟨hstored.count, hstored.slots, hlength, hsame, herr, fun hnone => ?_, loopTouches_lt (Nat.le_refl _)⟩
  rw [remove_not_found h hnone]

/-- Task 7 is deferred four times: twice at the first slots, and at the last two. -/
theorem remove_exact_duplicates :
    ∃ freed : List deferred_task_t,
      let s := { staticStorage with
        s_deferred_tasks := [⟨9, 7⟩, ⟨8, 7⟩, ⟨6, 1⟩, ⟨5, 2⟩, ⟨4, 7⟩, ⟨3, 7⟩] ++ List.replicate 14 ⟨0, NULL⟩
        deferred_task_count := 6 }
      (mu_sched_remove_deferred_task s 7).1.deferred_task_count = 2 ∧
        (mu_sched_remove_deferred_task s 7).1.s_deferred_tasks =
          [⟨6, 1⟩, ⟨5, 2⟩] ++ (freed ++ List.replicate 14 ⟨0, NULL⟩) ∧
        (mu_sched_remove_deferred_task s 7).2 = MU_TASK_ERR_NONE := by
  obtain ⟨freed, hexact⟩ := remove_exact 7 [⟨9, 7⟩, ⟨8, 7⟩, ⟨6, 1⟩, ⟨5, 2⟩, ⟨4, 7⟩, ⟨3, 7⟩]
  refine ⟨freed, ?_⟩
  intro s
  obtain ⟨hcount, hslots, -, -, herr, -⟩ := hexact s (List.replicate 14 ⟨0, NULL⟩) rfl rfl
  exact ⟨hcount, hslots, herr⟩

end ToyTstat.Mulib
