import ToyTstat.Code.MuSched

/-!
# `mu_task.c` and `task_info.c`: task states

The scheduler knows a task by its pointer. The memory of the task belongs to its module, and a
function that schedules the task gets both. No hook is installed, and the log is left out.
-/

namespace ToyTstat.Code

open mu_task_err_t

abbrev mu_task_state_t := UInt32

structure mu_task_t where
  state : mu_task_state_t
  user_info : Ptr
deriving DecidableEq, Repr

/-- The function of the task is known by the task. -/
def mu_task_init (task : mu_task_t) (initial_state : mu_task_state_t) (user_info : Ptr) : mu_task_t :=
  { task with state := initial_state, user_info }

def mu_task_get_state (task : mu_task_t) : mu_task_state_t := task.state

def mu_task_set_state (task : mu_task_t) (state : mu_task_state_t) : mu_task_t :=
  let prev_state := mu_task_get_state task
  if state ≠ prev_state then { task with state } else task

def mu_task_wait (task : mu_task_t) (next_state : mu_task_state_t) : mu_task_t × mu_task_err_t :=
  (mu_task_set_state task next_state, MU_TASK_ERR_NONE)

/-- `self` is the pointer to the task. Its state is set before, and the scheduler does not look at it. -/
def mu_task_yield (s : mu_sched_t) (self : Ptr) (task : mu_task_t) (next_state : mu_task_state_t) :
    mu_sched_t × mu_task_t × mu_task_err_t :=
  let (s, err) := mu_sched_asap s self
  (s, mu_task_set_state task next_state, err)

def mu_task_defer_for (s : mu_sched_t) (self : Ptr) (task : mu_task_t) (next_state : mu_task_state_t)
    (in_time : mu_time_rel_t) : mu_sched_t × mu_task_t × mu_task_err_t :=
  let (s, err) := mu_sched_defer_for s self in_time
  (s, mu_task_set_state task next_state, err)

def mu_task_defer_until (s : mu_sched_t) (self : Ptr) (task : mu_task_t) (next_state : mu_task_state_t)
    (at_time : mu_time_abs_t) : mu_sched_t × mu_task_t × mu_task_err_t :=
  let (s, err) := mu_sched_defer_until s self at_time
  (s, mu_task_set_state task next_state, err)

def mu_task_transfer (s : mu_sched_t) (from_task : mu_task_t) (final_state : mu_task_state_t) (to_task : Ptr) :
    mu_sched_t × mu_task_t × mu_task_err_t :=
  let (s, err) := mu_sched_asap s to_task
  (s, mu_task_set_state from_task final_state, err)

/-- The source does not declare `continuation`: it is any task. -/
def task_info (s : mu_sched_t) (continuation : Ptr) (task : mu_task_t) (terminal_state : mu_task_state_t) :
    mu_sched_t × mu_task_t :=
  let (s, task, _) := mu_task_transfer s task terminal_state continuation
  (s, task)

@[simp]
theorem mu_task_set_state_eq (task : mu_task_t) (state : mu_task_state_t) :
    mu_task_set_state task state = { task with state } := by
  unfold mu_task_set_state mu_task_get_state
  by_cases h : state = task.state
  · simp [h]
  · simp [h]

end ToyTstat.Code
