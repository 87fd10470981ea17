import ToyTstat.Mulib.Deferred
import ToyTstat.Mulib.Mqueue
import ToyTstat.Mulib.Spsc

/-!
# The scheduler's three queues

What the functions of `mu_sched.c` do to the contents of the queues.
-/

open CLib ToyTstat.Code ToyTstat.Code.mu_task_err_t

namespace ToyTstat.Mulib

/-- The contents of the queues, each in the order in which the tasks are due to run. -/
structure Queues where
  irq : List Ptr
  asap : List Ptr
  deferred : List deferred_task_t

structure SchedHolds (s : mu_sched_t) (q : Queues) : Prop where
  irq : ∃ taken, SpscHolds MU_CONFIG_SCHED_MAX_IRQ_TASKS.toNat s.irq_tasks taken q.irq
  asap : ∃ head, Holds s.asap_tasks head q.asap
  capacity : s.asap_tasks.capacity = MU_CONFIG_SCHED_MAX_ASAP_TASKS
  deferred : DeferredHolds s q.deferred

/-- The static arrays have their sizes. -/
structure Sized (s : mu_sched_t) : Prop where
  irq : s.irq_tasks.store.slots.length = MU_CONFIG_SCHED_MAX_IRQ_TASKS.toNat
  asap : s.asap_tasks.storage.slots.length = MU_CONFIG_SCHED_MAX_ASAP_TASKS
  deferred : s.s_deferred_tasks.length = MU_CONFIG_SCHED_MAX_DEFERRED_TASKS

variable {s : mu_sched_t} {q : Queues} {irq asap : List Ptr} {deferred : List deferred_task_t} {entry : deferred_task_t}

theorem init_holds (h : Sized s) : SchedHolds (mu_sched_init s) ⟨[], [], []⟩ := by
  refine ⟨⟨0, spscHolds_init h.irq.ge rfl⟩, ⟨0, .nil h.asap.ge 0, rfl, rfl⟩, rfl, ⟨h.deferred, rfl, rfl⟩⟩

theorem SchedHolds.with_task (h : SchedHolds s q) (curr_task idle_task : Ptr) (clock : mu_time_abs_t) :
    SchedHolds { s with curr_task, clock, idle_task } q :=
  ⟨h.irq, h.asap, h.capacity, ⟨h.deferred.slots, h.deferred.count, h.deferred.held⟩⟩

theorem SchedHolds.of_same {s' : mu_sched_t} (h : SchedHolds s q) (hsame : SameElse s s')
    (hdeferred : DeferredHolds s' deferred) : SchedHolds s' { q with deferred } := by
  refine ⟨?_, ?_, ?_, hdeferred⟩
  · rw [hsame.irq_tasks]
    exact h.irq
  · rw [hsame.asap_tasks]
    exact h.asap
  · rw [hsame.asap_tasks]
    exact h.capacity

/-! ## Requests -/

theorem asap_full (h : SchedHolds s q) (hfull : q.asap.length = MU_CONFIG_SCHED_MAX_ASAP_TASKS) (task : Ptr) :
    mu_sched_asap s task = (s, MU_TASK_ERR_SCHED_FULL) := by
  obtain ⟨head, holds⟩ := h.asap
  rw [mu_sched_asap, holds.put_full (by rw [h.capacity, hfull]; exact Nat.lt_irrefl _)]
  rfl

theorem asap_spec (h : SchedHolds s q) (hroom : q.asap.length ≠ MU_CONFIG_SCHED_MAX_ASAP_TASKS) (task : Ptr) :
    (mu_sched_asap s task).2 = MU_TASK_ERR_NONE ∧
      SchedHolds (mu_sched_asap s task).1 { q with asap := q.asap ++ [task] } := by
  obtain ⟨head, holds⟩ := h.asap
  have hlt : q.asap.length < s.asap_tasks.capacity := by
    have := holds.ring.fits
    rw [h.capacity] at this ⊢
    omega
  have hput := holds.put hlt task
  have hcapacity : (mu_mqueue_put s.asap_tasks task).1.capacity = s.asap_tasks.capacity := by
    rw [mu_mqueue_put]
    split <;> rfl
  constructor
  · rw [mu_sched_asap, holds.put_result hlt]
    rfl
  · exact ⟨h.irq, ⟨head, hput⟩, hcapacity.trans h.capacity, ⟨h.deferred.slots, h.deferred.count, h.deferred.held⟩⟩

theorem from_isr_full (h : SchedHolds s q) (hfull : q.irq.length = MU_CONFIG_SCHED_MAX_IRQ_TASKS.toNat - 1)
    (task : Ptr) : mu_sched_from_isr s task = (s, MU_TASK_ERR_SCHED_FULL) := by
  obtain ⟨taken, holds⟩ := h.irq
  rw [mu_sched_from_isr, holds.put_full hfull]
  rfl

theorem from_isr_spec (h : SchedHolds s q) (hroom : q.irq.length ≠ MU_CONFIG_SCHED_MAX_IRQ_TASKS.toNat - 1)
    (task : Ptr) :
    (mu_sched_from_isr s task).2 = MU_TASK_ERR_NONE ∧
      SchedHolds (mu_sched_from_isr s task).1 { q with irq := q.irq ++ [task] } := by
  obtain ⟨taken, holds⟩ := h.irq
  obtain ⟨hput, hholds⟩ := holds.put hroom task
  constructor
  · rw [mu_sched_from_isr, hput]
    rfl
  · exact ⟨⟨taken, hholds⟩, h.asap, h.capacity, ⟨h.deferred.slots, h.deferred.count, h.deferred.held⟩⟩

theorem defer_full (h : SchedHolds s q) (hfull : q.deferred.length = MU_CONFIG_SCHED_MAX_DEFERRED_TASKS) (task : Ptr)
    (at_time : mu_time_abs_t) : sched_aux s task at_time = (s, MU_TASK_ERR_SCHED_FULL) :=
  sched_aux_full h.deferred hfull task at_time

theorem defer_spec (h : SchedHolds s q) (hroom : q.deferred.length ≠ MU_CONFIG_SCHED_MAX_DEFERRED_TASKS) (task : Ptr)
    (at_time : mu_time_abs_t) :
    (sched_aux s task at_time).2 = MU_TASK_ERR_NONE ∧ SameElse s (sched_aux s task at_time).1 ∧
      SchedHolds (sched_aux s task at_time).1 { q with deferred := insertDeferred ⟨at_time, task⟩ q.deferred } := by
  obtain ⟨herr, hsame, hholds⟩ := sched_aux_spec h.deferred hroom task at_time
  exact ⟨herr, hsame, h.of_same hsame hholds⟩

theorem remove_deferred_spec (h : SchedHolds s q) (task : Ptr) :
    SameElse s (mu_sched_remove_deferred_task s task).1 ∧
      SchedHolds (mu_sched_remove_deferred_task s task).1
        { q with deferred := q.deferred.filter (fun e => e.task ≠ task) } := by
  obtain ⟨-, hsame, hholds⟩ := remove_spec h.deferred task
  exact ⟨hsame, h.of_same hsame hholds⟩

/-! ## The conditions of a step -/

structure SameEnv (s s' : mu_sched_t) : Prop where
  clock : s'.clock = s.clock
  idle_task : s'.idle_task = s.idle_task

theorem step_irq_env (s : mu_sched_t) : SameEnv s (step_irq s).1 := ⟨rfl, rfl⟩

theorem step_irq_empty (h : SchedHolds s ⟨[], asap, deferred⟩) :
    step_irq s = ({ s with curr_task := NULL }, false) := by
  obtain ⟨taken, holds⟩ := h.irq
  rw [step_irq, holds.get_empty]
  rfl

theorem step_irq_next {task : Ptr} (h : SchedHolds s ⟨task :: irq, asap, deferred⟩) :
    (step_irq s).2 = true ∧ (step_irq s).1.curr_task = task ∧ SchedHolds (step_irq s).1 ⟨irq, asap, deferred⟩ := by
  obtain ⟨taken, holds⟩ := h.irq
  rw [step_irq, holds.get]
  exact ⟨rfl, rfl, ⟨taken + 1, holds.release⟩, h.asap, h.capacity,
    ⟨h.deferred.slots, h.deferred.count, h.deferred.held⟩⟩

theorem step_deferred_env (s : mu_sched_t) : SameEnv s (step_deferred s).1 := by
  rw [step_deferred, fetch_runnable_deferred_task]
  dsimp only
  split
  · split <;> exact ⟨rfl, rfl⟩
  · exact ⟨rfl, rfl⟩

theorem step_deferred_empty (h : SchedHolds s ⟨irq, asap, []⟩) :
    step_deferred s = ({ s with curr_task := NULL }, false) := by
  rw [step_deferred, fetch_empty h.deferred]
  rfl

theorem step_deferred_early (h : SchedHolds s ⟨irq, asap, entry :: deferred⟩)
    (hearly : mu_time_precedes s.clock entry.at_time) : step_deferred s = ({ s with curr_task := NULL }, false) := by
  rw [step_deferred, fetch_next h.deferred, if_pos hearly]
  rfl

theorem step_deferred_due (h : SchedHolds s ⟨irq, asap, entry :: deferred⟩)
    (hdue : ¬ mu_time_precedes s.clock entry.at_time) :
    (step_deferred s).2 = decide (entry.task ≠ NULL) ∧ (step_deferred s).1.curr_task = entry.task ∧
      SchedHolds (step_deferred s).1 ⟨irq, asap, deferred⟩ := by
  have hpop := h.deferred.pop
  rw [step_deferred, fetch_next h.deferred, if_neg hdue]
  exact ⟨rfl, rfl, h.irq, h.asap, h.capacity, ⟨hpop.slots, hpop.count, hpop.held⟩⟩

theorem step_asap_env (s : mu_sched_t) : SameEnv s (step_asap s).1 := ⟨rfl, rfl⟩

theorem step_asap_empty (h : SchedHolds s ⟨irq, [], deferred⟩) :
    step_asap s = ({ s with curr_task := NULL }, false) := by
  obtain ⟨head, holds⟩ := h.asap
  rw [step_asap, mu_mqueue_get, holds.access_empty]
  rfl

theorem step_asap_next {task : Ptr} (h : SchedHolds s ⟨irq, task :: asap, deferred⟩) :
    (step_asap s).2 = true ∧ (step_asap s).1.curr_task = task ∧ SchedHolds (step_asap s).1 ⟨irq, asap, deferred⟩ := by
  obtain ⟨head, holds⟩ := h.asap
  rw [step_asap, mu_mqueue_get, holds.access, if_pos rfl]
  exact ⟨rfl, rfl, h.irq, ⟨head + 1, holds.get⟩, h.capacity, ⟨h.deferred.slots, h.deferred.count, h.deferred.held⟩⟩

theorem step_call_spec (h : SchedHolds s q) :
    (step_call s).2 = mu_task_call s.curr_task ∧ SchedHolds (step_call s).1 q ∧ SameEnv s (step_call s).1 := by
  rw [step_call]
  cases mu_task_call s.curr_task with
  | none => exact ⟨rfl, h.with_task NULL s.idle_task s.clock, rfl, rfl⟩
  | some task => exact ⟨rfl, h, rfl, rfl⟩

theorem step_from_asap_eq (s : mu_sched_t) :
    step_from_asap s =
      if (step_asap s).2 then step_call (step_asap s).1 else step_call (step_idle (step_asap s).1) := rfl

theorem step_from_deferred_eq (s : mu_sched_t) :
    step_from_deferred s =
      if (step_deferred s).2 then step_call (step_deferred s).1 else step_from_asap (step_deferred s).1 := rfl

theorem mu_sched_step_eq (s : mu_sched_t) :
    mu_sched_step s = if (step_irq s).2 then step_call (step_irq s).1 else step_from_deferred (step_irq s).1 := rfl

/-! ## The machine -/

inductive SchedEvent
  /-- From now on `clock_fn` returns `now`. -/
  | clock (now : mu_time_abs_t)
  | set_idle_task (task : Ptr)
  | asap (task : Ptr)
  | from_isr (task : Ptr)
  | defer_until (task : Ptr) (at_time : mu_time_abs_t)
  | defer_for (task : Ptr) (in_time : mu_time_rel_t)
  | remove_deferred_task (task : Ptr)
  /-- Up to the call of the task. -/
  | step
  /-- The task returns to the step. -/
  | task_done

inductive SchedOutput
  | answered (err : mu_task_err_t)
  | called (task : Option Ptr)
deriving DecidableEq, Repr

def schedStep (s : mu_sched_t) : SchedEvent → mu_sched_t × List SchedOutput
  | .clock now => ({ s with clock := now }, [])
  | .set_idle_task task => (mu_sched_set_idle_task s task, [])
  | .asap task => ((mu_sched_asap s task).1, [.answered (mu_sched_asap s task).2])
  | .from_isr task => ((mu_sched_from_isr s task).1, [.answered (mu_sched_from_isr s task).2])
  | .defer_until task at_time =>
    ((mu_sched_defer_until s task at_time).1, [.answered (mu_sched_defer_until s task at_time).2])
  | .defer_for task in_time =>
    ((mu_sched_defer_for s task in_time).1, [.answered (mu_sched_defer_for s task in_time).2])
  | .remove_deferred_task task =>
    ((mu_sched_remove_deferred_task s task).1, [.answered (mu_sched_remove_deferred_task s task).2])
  | .step => ((mu_sched_step s).1, [.called (mu_sched_step s).2])
  | .task_done => (step_end s, [])

def schedMachine : Machine mu_sched_t SchedEvent SchedOutput := ⟨schedStep⟩

/-- The static storage when the program starts. -/
def staticStorage : mu_sched_t where
  irq_tasks := ⟨0, 0, 0, ⟨List.replicate 8 NULL, by decide⟩⟩
  asap_tasks := ⟨⟨List.replicate 20 NULL, by decide⟩, 0, 0, 0, NULL, NULL⟩
  s_deferred_tasks := List.replicate 20 ⟨0, NULL⟩
  deferred_task_count := 0
  curr_task := NULL
  clock := 0
  idle_task := NULL

theorem staticStorage_sized : Sized staticStorage := ⟨rfl, rfl, rfl⟩

end ToyTstat.Mulib
