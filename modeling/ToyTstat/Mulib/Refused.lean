import ToyTstat.Code.MuTask
import ToyTstat.Mulib.Sched

/-!
# A task that the scheduler refuses

The state of a task is set before it is scheduled again, and it is not set back when the queue is full.
-/

open CLib ToyTstat.Code ToyTstat.Code.mu_task_err_t

namespace ToyTstat.Mulib

/-- The calls that set the state of a task and schedule a task. -/
inductive TaskCall
  | yield
  | defer_for (in_time : mu_time_rel_t)
  | defer_until (at_time : mu_time_abs_t)
  | transfer (to_task : Ptr)
deriving DecidableEq, Repr

namespace TaskCall

def run (s : mu_sched_t) (self : Ptr) (task : mu_task_t) (next_state : mu_task_state_t) :
    TaskCall → mu_sched_t × mu_task_t × mu_task_err_t
  | yield => mu_task_yield s self task next_state
  | defer_for in_time => mu_task_defer_for s self task next_state in_time
  | defer_until at_time => mu_task_defer_until s self task next_state at_time
  | transfer to_task => mu_task_transfer s task next_state to_task

/-- The queue that the call asks is full. -/
def Full (s : mu_sched_t) : TaskCall → Prop
  | yield | transfer _ => s.asap_tasks.count = s.asap_tasks.capacity
  | defer_for _ | defer_until _ => s.deferred_task_count = MU_CONFIG_SCHED_MAX_DEFERRED_TASKS

end TaskCall

variable {s : mu_sched_t} {call : TaskCall}

/-! ## The queues -/

theorem asap_refused (hfull : s.asap_tasks.count = s.asap_tasks.capacity) (task : Ptr) :
    mu_sched_asap s task = (s, MU_TASK_ERR_SCHED_FULL) := by
  unfold mu_sched_asap mu_mqueue_put mu_mqueue_is_full
  simp [hfull]

theorem asap_accepted (hroom : s.asap_tasks.count ≠ s.asap_tasks.capacity) (task : Ptr) :
    (mu_sched_asap s task).2 = MU_TASK_ERR_NONE := by
  unfold mu_sched_asap mu_mqueue_put mu_mqueue_is_full
  simp [hroom]

theorem deferred_refused (hfull : s.deferred_task_count = MU_CONFIG_SCHED_MAX_DEFERRED_TASKS) (task : Ptr)
    (at_time : mu_time_abs_t) : sched_aux s task at_time = (s, MU_TASK_ERR_SCHED_FULL) := by
  unfold sched_aux
  exact if_pos hfull

theorem deferred_accepted (hroom : s.deferred_task_count ≠ MU_CONFIG_SCHED_MAX_DEFERRED_TASKS) (task : Ptr)
    (at_time : mu_time_abs_t) : (sched_aux s task at_time).2 = MU_TASK_ERR_NONE := by
  unfold sched_aux
  rw [if_neg hroom]

/-! ## The calls -/

theorem call_sets_state (s : mu_sched_t) (self : Ptr) (task : mu_task_t) (next_state : mu_task_state_t)
    (call : TaskCall) : (call.run s self task next_state).2.1 = { task with state := next_state } := by
  cases call <;> exact mu_task_set_state_eq task next_state

theorem call_full (hfull : call.Full s) (self : Ptr) (task : mu_task_t) (next_state : mu_task_state_t) :
    (call.run s self task next_state).1 = s ∧
      (call.run s self task next_state).2.2 = MU_TASK_ERR_SCHED_FULL := by
  cases call with
  | yield => simp [TaskCall.run, mu_task_yield, asap_refused hfull]
  | defer_for in_time => simp [TaskCall.run, mu_task_defer_for, mu_sched_defer_for, deferred_refused hfull]
  | defer_until at_time => simp [TaskCall.run, mu_task_defer_until, mu_sched_defer_until, deferred_refused hfull]
  | transfer to_task => simp [TaskCall.run, mu_task_transfer, asap_refused hfull]

theorem call_room (hroom : ¬ call.Full s) (self : Ptr) (task : mu_task_t) (next_state : mu_task_state_t) :
    (call.run s self task next_state).2.2 = MU_TASK_ERR_NONE := by
  cases call with
  | yield => exact asap_accepted hroom self
  | defer_for in_time => exact deferred_accepted hroom self _
  | defer_until at_time => exact deferred_accepted hroom self at_time
  | transfer to_task => exact asap_accepted hroom to_task

theorem call_refused_iff (s : mu_sched_t) (self : Ptr) (task : mu_task_t) (next_state : mu_task_state_t)
    (call : TaskCall) : (call.run s self task next_state).2.2 ≠ MU_TASK_ERR_NONE ↔ call.Full s := by
  constructor
  · intro herr
    by_contra hroom
    exact herr (call_room hroom self task next_state)
  · intro hfull
    rw [(call_full hfull self task next_state).2]
    decide

/-- A call that is refused leaves the scheduler as it is. The task has its next state all the same, and nothing else
of it has changed. -/
theorem call_refused (s : mu_sched_t) (self : Ptr) (task : mu_task_t) (next_state : mu_task_state_t) (call : TaskCall)
    (herr : (call.run s self task next_state).2.2 ≠ MU_TASK_ERR_NONE) :
    call.Full s ∧ (call.run s self task next_state).1 = s ∧
      (call.run s self task next_state).2 = ({ task with state := next_state }, MU_TASK_ERR_SCHED_FULL) ∧
      ((call.run s self task next_state).2.1.state = task.state ↔ next_state = task.state) := by
  have hfull := (call_refused_iff s self task next_state call).mp herr
  obtain ⟨hsched, hcode⟩ := call_full hfull self task next_state
  have hstate := call_sets_state s self task next_state call
  refine ⟨hfull, hsched, Prod.ext hstate hcode, ?_⟩
  rw [hstate]

/-- The asap queue with the 20 tasks that it has room for. -/
def fullSched : mu_sched_t :=
  (List.range' 1 20).foldl (fun s task => (mu_sched_asap s task).1) (mu_sched_init staticStorage)

theorem call_refused_yield :
    TaskCall.yield.Full fullSched ∧ (TaskCall.yield.run fullSched 21 ⟨0, NULL⟩ 1).1 = fullSched ∧
      (TaskCall.yield.run fullSched 21 ⟨0, NULL⟩ 1).2 = (⟨1, NULL⟩, MU_TASK_ERR_SCHED_FULL) ∧
      ((TaskCall.yield.run fullSched 21 ⟨0, NULL⟩ 1).2.1.state = 0 ↔ (1 : mu_task_state_t) = 0) :=
  call_refused fullSched 21 ⟨0, NULL⟩ 1 .yield (by decide +kernel)

/-- A refused yield has changed the state of the task. -/
theorem refused_changes_state :
    ¬ ∀ (s : mu_sched_t) (self : Ptr) (task : mu_task_t) (next_state : mu_task_state_t) (call : TaskCall),
      (call.run s self task next_state).2.2 ≠ MU_TASK_ERR_NONE →
        (call.run s self task next_state).2.1.state = task.state ∧ (call.run s self task next_state).1 = s := by
  intro hclaim
  have hstate := (hclaim fullSched 21 ⟨0, NULL⟩ 1 .yield (by decide +kernel)).1
  exact absurd hstate (by decide +kernel)

end ToyTstat.Mulib
