import ToyTstat.Code.MuSched
import ToyTstat.Lib.StableSort

/-!
# The deferred tasks

The array is kept in reverse: its last used slot is the next task. Here the tasks are listed in the
order in which they are due to run, whatever their times.
-/

open CLib ToyTstat.Code ToyTstat.Code.mu_task_err_t

namespace ToyTstat.Mulib

/-- The deferred tasks, the next one first. -/
structure DeferredHolds (s : mu_sched_t) (queue : List deferred_task_t) : Prop where
  slots : s.s_deferred_tasks.length = MU_CONFIG_SCHED_MAX_DEFERRED_TASKS
  count : queue.length = s.deferred_task_count
  held : s.s_deferred_tasks.take s.deferred_task_count = queue.reverse

/-- All but the deferred tasks. -/
structure SameElse (s s' : mu_sched_t) : Prop where
  irq_tasks : s'.irq_tasks = s.irq_tasks
  asap_tasks : s'.asap_tasks = s.asap_tasks
  curr_task : s'.curr_task = s.curr_task
  clock : s'.clock = s.clock
  idle_task : s'.idle_task = s.idle_task

theorem SameElse.refl (s : mu_sched_t) : SameElse s s := ⟨rfl, rfl, rfl, rfl, rfl⟩

theorem SameElse.trans {s₁ s₂ s₃ : mu_sched_t} (h₁ : SameElse s₁ s₂) (h₂ : SameElse s₂ s₃) : SameElse s₁ s₃ :=
  ⟨h₂.irq_tasks.trans h₁.irq_tasks, h₂.asap_tasks.trans h₁.asap_tasks, h₂.curr_task.trans h₁.curr_task,
    h₂.clock.trans h₁.clock, h₂.idle_task.trans h₁.idle_task⟩

variable {s : mu_sched_t} {queue : List deferred_task_t} {entry : deferred_task_t} {task : Ptr}
  {at_time : mu_time_abs_t}

theorem DeferredHolds.count_le (h : DeferredHolds s queue) :
    s.deferred_task_count ≤ MU_CONFIG_SCHED_MAX_DEFERRED_TASKS := by
  have := congrArg List.length h.held
  rw [List.length_take, List.length_reverse, h.count, h.slots] at this
  omega

theorem DeferredHolds.slot (h : DeferredHolds s queue) {i : Nat} (hi : i < s.deferred_task_count) :
    queue.reverse[i]? = some (deferred_slot s i) := by
  have hlt : i < s.s_deferred_tasks.length := hi.trans_le (h.slots ▸ h.count_le)
  rw [← h.held, List.getElem?_take_of_lt hi, deferred_slot, List.getD_eq_getElem?_getD, List.getElem?_eq_getElem hlt]
  rfl

theorem DeferredHolds.take_succ (h : DeferredHolds s queue) {i : Nat} (hi : i < s.deferred_task_count) :
    queue.reverse.take (i + 1) = queue.reverse.take i ++ [deferred_slot s i] := by
  rw [List.take_add_one, h.slot hi]
  rfl

/-! ## The next task -/

theorem peek_empty (h : DeferredHolds s []) : peek_next_deferred_task s = none := by
  rw [peek_next_deferred_task, ← h.count]
  rfl

theorem peek_next (h : DeferredHolds s (entry :: queue)) : peek_next_deferred_task s = some entry := by
  have hcount : s.deferred_task_count = queue.length + 1 := h.count.symm
  have hlength : queue.reverse.length = queue.length := List.length_reverse
  have hslot := h.slot (i := queue.length) (by omega)
  rw [List.reverse_cons, ← hlength, List.getElem?_concat_length, hlength] at hslot
  rw [peek_next_deferred_task, hcount, if_pos (Nat.succ_pos _), Nat.add_sub_cancel]
  exact hslot.symm

theorem DeferredHolds.pop (h : DeferredHolds s (entry :: queue)) :
    DeferredHolds { s with deferred_task_count := s.deferred_task_count - 1 } queue := by
  have hcount : s.deferred_task_count = queue.length + 1 := h.count.symm
  have hheld := congrArg (List.take queue.length) h.held
  rw [List.take_take, List.reverse_cons, List.take_left' List.length_reverse, Nat.min_eq_left (by omega)] at hheld
  refine ⟨h.slots, ?_, ?_⟩
  · dsimp only
    omega
  · rw [hcount, Nat.add_sub_cancel]
    exact hheld

theorem fetch_empty (h : DeferredHolds s []) : fetch_runnable_deferred_task s = (s, NULL) := by
  rw [fetch_runnable_deferred_task, peek_empty h]

theorem fetch_next (h : DeferredHolds s (entry :: queue)) :
    fetch_runnable_deferred_task s =
      if mu_time_precedes s.clock entry.at_time then (s, NULL)
      else ({ s with deferred_task_count := s.deferred_task_count - 1 }, entry.task) := by
  rw [fetch_runnable_deferred_task, peek_next h, mu_sched_get_current_time]
  exact ite_not _ _ _

/-! ## Deferring -/

/-- The new task goes behind those that are not later. -/
abbrev insertDeferred (entry : deferred_task_t) (queue : List deferred_task_t) : List deferred_task_t :=
  insertBehind mu_time_follows deferred_task_t.at_time entry queue

theorem search_spec (h : DeferredHolds s queue) (at_time : mu_time_abs_t) {k : Nat} (hk : k ≤ s.deferred_task_count) :
    let later := fun e : deferred_task_t => !mu_time_follows e.at_time at_time
    sched_aux_search s at_time k ≤ k ∧
      (queue.reverse.take k).reverse.takeWhile later =
        ((queue.reverse.take k).drop (sched_aux_search s at_time k)).reverse ∧
      (queue.reverse.take k).reverse.dropWhile later = (queue.reverse.take (sched_aux_search s at_time k)).reverse := by
  -- what the search has found when it comes down from `k`
  induction k with
  | zero => exact ⟨Nat.le_refl 0, rfl, rfl⟩
  | succ k ih =>
    obtain ⟨hle, htake, hdrop⟩ := ih (by omega)
    dsimp only
    rw [h.take_succ hk, List.reverse_append, List.reverse_singleton, List.singleton_append, sched_aux_search]
    have hlen : (queue.reverse.take k).length = k := by
      rw [List.length_take, List.length_reverse, h.count]
      omega
    by_cases hfollows : mu_time_follows (deferred_slot s k).at_time at_time
    · rw [if_pos hfollows, List.takeWhile_cons_of_neg (by simp [hfollows]),
        List.dropWhile_cons_of_neg (by simp [hfollows]),
        List.drop_of_length_le (by rw [List.length_append, hlen]; rfl), h.take_succ hk, List.reverse_append]
      exact ⟨Nat.le_refl _, rfl, rfl⟩
    · rw [if_neg hfollows, List.takeWhile_cons_of_pos (by simp [hfollows]),
        List.dropWhile_cons_of_pos (by simp [hfollows]),
        List.drop_append_of_le_length (by omega), List.reverse_append, htake, hdrop]
      exact ⟨by omega, rfl, rfl⟩

theorem insert_slots (entry : deferred_task_t) {slots : List deferred_task_t} {i count : Nat} (hi : i ≤ count)
    (hcount : count < slots.length) :
    let moved := if count - i > 0 then memmove slots (i + 1) i (count - i) else slots
    (moved.set i entry).length = slots.length ∧
      (moved.set i entry).take (count + 1) = slots.take i ++ entry :: (slots.take count).drop i := by
  have hmoved : (if count - i > 0 then memmove slots (i + 1) i (count - i) else slots) =
      memmove slots (i + 1) i (count - i) := by
    split
    case isTrue => rfl
    case isFalse hzero => rw [Nat.eq_zero_of_not_pos hzero, memmove_zero]
  dsimp only
  rw [hmoved, List.length_set, length_memmove (by omega) (by omega)]
  exact ⟨rfl, take_open_slot hi hcount⟩

theorem sched_aux_full (h : DeferredHolds s queue) (hfull : queue.length = MU_CONFIG_SCHED_MAX_DEFERRED_TASKS)
    (task : Ptr) (at_time : mu_time_abs_t) : sched_aux s task at_time = (s, MU_TASK_ERR_SCHED_FULL) := by
  rw [sched_aux, if_pos (h.count ▸ hfull)]

theorem sched_aux_spec (h : DeferredHolds s queue) (hroom : queue.length ≠ MU_CONFIG_SCHED_MAX_DEFERRED_TASKS)
    (task : Ptr) (at_time : mu_time_abs_t) :
    (sched_aux s task at_time).2 = MU_TASK_ERR_NONE ∧ SameElse s (sched_aux s task at_time).1 ∧
      DeferredHolds (sched_aux s task at_time).1 (insertDeferred ⟨at_time, task⟩ queue) := by
  obtain ⟨hle, htake, hdrop⟩ := search_spec h at_time (Nat.le_refl s.deferred_task_count)
  have hcount := h.count_le
  have hlength := h.count
  have hall : queue.reverse.take s.deferred_task_count = queue.reverse :=
    List.take_of_length_le (by rw [List.length_reverse, h.count])
  rw [hall, List.reverse_reverse] at htake hdrop
  rw [sched_aux, if_neg (h.count ▸ hroom)]
  generalize sched_aux_search s at_time s.deferred_task_count = i at *
  obtain ⟨hslots, hheld⟩ :=
    insert_slots ⟨at_time, task⟩ hle (show s.deferred_task_count < s.s_deferred_tasks.length by rw [h.slots]; omega)
  have hfirst : s.s_deferred_tasks.take i = queue.reverse.take i := by
    rw [← h.held, List.take_take, Nat.min_eq_left hle]
  refine ⟨rfl, ⟨rfl, rfl, rfl, rfl, rfl⟩, ⟨hslots.trans h.slots, ?_, ?_⟩⟩
  · rw [(List.perm_orderedInsert _ _ _).length_eq, List.length_cons, hlength]
  · dsimp only at hheld ⊢
    unfold insertDeferred
    rw [insertBehind_eq, hheld, hfirst, h.held, List.reverse_append, List.reverse_cons, htake, hdrop,
      List.reverse_reverse, List.reverse_reverse, List.append_assoc, List.singleton_append]

/-! ## Removing -/

/-- What is in the array, in its order: the entries held, and behind them whatever was left there. -/
structure Stored (s : mu_sched_t) (held junk : List deferred_task_t) : Prop where
  slots : s.s_deferred_tasks = held ++ junk
  count : s.deferred_task_count = held.length

variable {held junk : List deferred_task_t} {i : Nat}

theorem DeferredHolds.stored (h : DeferredHolds s queue) :
    Stored s queue.reverse (s.s_deferred_tasks.drop s.deferred_task_count) := by
  constructor
  · rw [← h.held, List.take_append_drop]
  · rw [List.length_reverse, h.count]

theorem Stored.deferred (h : Stored s held junk)
    (hslots : s.s_deferred_tasks.length = MU_CONFIG_SCHED_MAX_DEFERRED_TASKS) : DeferredHolds s held.reverse := by
  refine ⟨hslots, ?_, ?_⟩
  · rw [List.length_reverse, h.count]
  · rw [h.slots, h.count, List.take_left, List.reverse_reverse]

theorem Stored.slot (h : Stored s held junk) (hi : i < held.length) : deferred_slot s i = held[i] := by
  rw [deferred_slot, h.slots, List.getD_append _ _ _ _ hi, List.getD_eq_getElem _ _ hi]

theorem Stored.remove_slot (h : Stored s held junk) (hi : i < held.length) :
    Stored (remove_slot s i) (held.take i ++ held.drop (i + 1)) (held.drop (held.length - 1) ++ junk) := by
  -- the last slot keeps its entry, but it is not held any more
  have hmoved : (Code.remove_slot s i).s_deferred_tasks =
      memmove s.s_deferred_tasks i (i + 1) (s.deferred_task_count - (i + 1)) := by
    rw [Code.remove_slot]
    dsimp only
    split
    case isTrue => rfl
    case isFalse hzero => rw [Nat.eq_zero_of_not_pos hzero, memmove_zero]
  have hcount : (Code.remove_slot s i).deferred_task_count = s.deferred_task_count - 1 := rfl
  have hrest : (held.drop (i + 1)).length = held.length - (i + 1) := List.length_drop
  have hlast : i + (held.length - (i + 1)) = held.length - 1 := by omega
  constructor
  · rw [hmoved, h.count, memmove, h.slots, hlast, List.take_append_of_le_length hi.le,
      List.drop_append_of_le_length hi, ← hrest, List.take_left, List.drop_append_of_le_length (Nat.sub_le _ _),
      List.append_assoc]
  · rw [hcount, h.count, List.length_append, List.length_take, hrest]
    omega

/-- What the loop has done when it has come down from `i`. What is left in the slots that it frees depends on
the entries held, and on nothing behind them. -/
theorem remove_loop_spec (task : Ptr) (held : List deferred_task_t) {i : Nat} (hi : i ≤ held.length) :
    ∃ freed : List deferred_task_t,
      ((held.take i).filter (fun e => e.task ≠ task) ++ held.drop i).length + freed.length = held.length ∧
      ∀ (s : mu_sched_t) (junk : List deferred_task_t) (err : mu_task_err_t), Stored s held junk →
        let r := remove_deferred_loop task i s err
        r.2 = (if ∃ e ∈ held.take i, e.task = task then MU_TASK_ERR_NONE else err) ∧ SameElse s r.1 ∧
          Stored r.1 ((held.take i).filter (fun e => e.task ≠ task) ++ held.drop i) (freed ++ junk) := by
  induction i generalizing held with
  | zero =>
    refine ⟨[], rfl, fun s junk err h => ⟨?_, SameElse.refl s, h⟩⟩
    rw [if_neg (by rintro ⟨e, he, -⟩; cases he)]
    rfl
  | succ i ih =>
    have htake : held.take (i + 1) = held.take i ++ [held[i]] := by
      rw [List.take_add_one, List.getElem?_eq_getElem hi]
      rfl
    by_cases htask : held[i].task = task
    · have hfirst : (held.take i).length = i := List.length_take_of_le (Nat.le_of_succ_le hi)
      obtain ⟨freed, hlength, hloop⟩ := ih (held.take i ++ held.drop (i + 1))
        (by rw [List.length_append, hfirst]; exact Nat.le_add_right _ _)
      rw [List.take_left' hfirst, List.drop_left' hfirst] at hlength
      rw [htake, List.filter_append, List.filter_cons_of_neg (by simp [htask]), List.filter_nil, List.append_nil]
      refine ⟨freed ++ held.drop (held.length - 1), ?_, fun s junk err h => ?_⟩
      · simp only [List.length_append, List.length_drop, hfirst] at hlength ⊢
        omega
      obtain ⟨herr, hsame, hstored⟩ := hloop _ _ MU_TASK_ERR_NONE (h.remove_slot hi)
      rw [List.take_left' hfirst, List.drop_left' hfirst] at hstored
      dsimp only
      rw [remove_deferred_loop, h.slot hi, if_pos htask, List.append_assoc,
        if_pos ⟨held[i], List.mem_append_right _ List.mem_cons_self, htask⟩]
      exact ⟨herr.trans (ite_self _), ⟨hsame.1, hsame.2, hsame.3, hsame.4, hsame.5⟩, hstored⟩
    · obtain ⟨freed, hlength, hloop⟩ := ih held (Nat.le_of_succ_le hi)
      have hsearch : (∃ e ∈ held.take i ++ [held[i]], e.task = task) ↔ ∃ e ∈ held.take i, e.task = task := by
        simp only [List.mem_append, List.mem_singleton, or_and_right, exists_or, exists_eq_left, htask, or_false]
      rw [htake, List.filter_append, List.filter_cons_of_pos (by simp [htask]), List.filter_nil, List.append_assoc,
        List.singleton_append, ← List.drop_eq_getElem_cons]
      refine ⟨freed, hlength, fun s junk err h => ?_⟩
      dsimp only
      rw [remove_deferred_loop, h.slot hi, if_neg htask, if_congr hsearch rfl rfl]
      exact hloop s junk err h

theorem remove_stored (task : Ptr) (held : List deferred_task_t) :
    ∃ freed : List deferred_task_t,
      (held.filter (fun e => e.task ≠ task)).length + freed.length = held.length ∧
      ∀ (s : mu_sched_t) (junk : List deferred_task_t), Stored s held junk →
        let r := mu_sched_remove_deferred_task s task
        r.2 = (if ∃ e ∈ held, e.task = task then MU_TASK_ERR_NONE else MU_TASK_ERR_NOT_FOUND) ∧ SameElse s r.1 ∧
          Stored r.1 (held.filter (fun e => e.task ≠ task)) (freed ++ junk) := by
  obtain ⟨freed, hlength, hloop⟩ := remove_loop_spec task held (Nat.le_refl held.length)
  rw [List.take_length, List.drop_length, List.append_nil] at hlength
  refine ⟨freed, hlength, fun s junk h => ?_⟩
  have hspec := hloop s junk MU_TASK_ERR_NOT_FOUND h
  rw [List.take_length, List.drop_length, List.append_nil, ← h.count] at hspec
  exact hspec

theorem remove_spec (h : DeferredHolds s queue) (task : Ptr) :
    (mu_sched_remove_deferred_task s task).2 =
        (if ∃ e ∈ queue, e.task = task then MU_TASK_ERR_NONE else MU_TASK_ERR_NOT_FOUND) ∧
      SameElse s (mu_sched_remove_deferred_task s task).1 ∧
      DeferredHolds (mu_sched_remove_deferred_task s task).1 (queue.filter (fun e => e.task ≠ task)) := by
  obtain ⟨freed, hlength, hspec⟩ := remove_stored task queue.reverse
  obtain ⟨herr, hsame, hstored⟩ := hspec _ _ h.stored
  have hslots : (mu_sched_remove_deferred_task s task).1.s_deferred_tasks.length =
      MU_CONFIG_SCHED_MAX_DEFERRED_TASKS := by
    have hbefore := congrArg List.length h.stored.slots
    have hafter := congrArg List.length hstored.slots
    rw [List.length_append] at hbefore hafter
    rw [List.length_append] at hafter
    have := h.slots
    omega
  have hholds := hstored.deferred hslots
  rw [← List.filter_reverse, List.reverse_reverse] at hholds
  simp only [List.mem_reverse] at herr
  exact ⟨herr, hsame, hholds⟩

end ToyTstat.Mulib
