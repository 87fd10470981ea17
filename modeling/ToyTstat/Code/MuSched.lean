import ToyTstat.Code.MuQueue
import ToyTstat.Lib.Slots

/-!
# `mu_time.c` and `mu_sched.c`: time and the scheduler

The static storage of the scheduler is one state. The arrays `s_irq_store` and `s_now_store` are the
storage of the two queues in it. A step is modelled up to the call of the task.
-/

open CLib

namespace ToyTstat.Code

/-! ## Time -/

abbrev mu_time_abs_t := UInt64

abbrev mu_time_rel_t := Int64

def mu_time_offset (t : mu_time_abs_t) (dt : mu_time_rel_t) : mu_time_abs_t := t + dt.toUInt64

def mu_time_difference (t1 t2 : mu_time_abs_t) : mu_time_rel_t := (t1 - t2).toInt64

def mu_time_precedes (t1 t2 : mu_time_abs_t) : Bool := mu_time_difference t1 t2 < 0

def mu_time_equals (t1 t2 : mu_time_abs_t) : Bool := t1 = t2

def mu_time_follows (t1 t2 : mu_time_abs_t) : Bool := mu_time_difference t1 t2 > 0

/-! ## The state -/

def MU_CONFIG_SCHED_MAX_DEFERRED_TASKS : Nat := 20

def MU_CONFIG_SCHED_MAX_IRQ_TASKS : UInt16 := 8

def MU_CONFIG_SCHED_MAX_ASAP_TASKS : Nat := 20

structure deferred_task_t where
  at_time : mu_time_abs_t
  task : Ptr
deriving DecidableEq, Repr, Inhabited

structure mu_sched_t where
  irq_tasks : mu_spsc_t
  asap_tasks : mu_mqueue_t
  s_deferred_tasks : List deferred_task_t
  deferred_task_count : Nat
  curr_task : Ptr
  /-- What `clock_fn` returns when it is called next. -/
  clock : mu_time_abs_t
  idle_task : Ptr

open mu_task_err_t mu_spsc_err_t

def mu_sched_init (s : mu_sched_t) : mu_sched_t :=
  { s with
    irq_tasks := (mu_spsc_init s.irq_tasks s.irq_tasks.store MU_CONFIG_SCHED_MAX_IRQ_TASKS).1
    asap_tasks := mu_mqueue_init s.asap_tasks s.asap_tasks.storage MU_CONFIG_SCHED_MAX_ASAP_TASKS NULL NULL
    deferred_task_count := 0
    curr_task := NULL
    idle_task := NULL }

def mu_sched_reset (s : mu_sched_t) : mu_sched_t := { s with deferred_task_count := 0 }

def mu_sched_get_current_time (s : mu_sched_t) : mu_time_abs_t := s.clock

def mu_sched_set_idle_task (s : mu_sched_t) (task : Ptr) : mu_sched_t := { s with idle_task := task }

/-! ## Private code -/

/-- `s_deferred_tasks[i]` -/
def deferred_slot (s : mu_sched_t) (i : Nat) : deferred_task_t := s.s_deferred_tasks.getD i default

def peek_next_deferred_task (s : mu_sched_t) : Option deferred_task_t :=
  if s.deferred_task_count > 0 then some (deferred_slot s (s.deferred_task_count - 1)) else none

def fetch_runnable_deferred_task (s : mu_sched_t) : mu_sched_t × Ptr :=
  let now := mu_sched_get_current_time s
  match peek_next_deferred_task s with
  | some deferred_task =>
    if ¬ mu_time_precedes now deferred_task.at_time then
      ({ s with deferred_task_count := s.deferred_task_count - 1 }, deferred_task.task)
    else (s, NULL)
  | none => (s, NULL)

/-- The linear search for the insertion point, from `i` down. -/
def sched_aux_search (s : mu_sched_t) (at_time : mu_time_abs_t) : Nat → Nat
  | 0 => 0
  | i + 1 => if mu_time_follows (deferred_slot s i).at_time at_time then i + 1 else sched_aux_search s at_time i

def sched_aux (s : mu_sched_t) (task : Ptr) (at_time : mu_time_abs_t) : mu_sched_t × mu_task_err_t :=
  if s.deferred_task_count = MU_CONFIG_SCHED_MAX_DEFERRED_TASKS then (s, MU_TASK_ERR_SCHED_FULL)
  else
    let i := sched_aux_search s at_time s.deferred_task_count
    let to_move := s.deferred_task_count - i
    let slots := if to_move > 0 then memmove s.s_deferred_tasks (i + 1) i to_move else s.s_deferred_tasks
    ({ s with s_deferred_tasks := slots.set i ⟨at_time, task⟩, deferred_task_count := s.deferred_task_count + 1 },
      MU_TASK_ERR_NONE)

/-- `mu_mqueue_peek` leaves the queue as it is, and calls nothing. -/
def mu_sched_peek_next_task (s : mu_sched_t) : Ptr :=
  match peek_next_deferred_task s with
  | some deferred_task => deferred_task.task
  | none =>
    let (_, task, _, result) := mu_mqueue_peek s.asap_tasks
    if ¬ result then NULL else task

/-! ## Scheduling -/

/-- The queue's task is `NULL`, so nothing is called. -/
def mu_sched_asap (s : mu_sched_t) (task : Ptr) : mu_sched_t × mu_task_err_t :=
  let (asap_tasks, _, result) := mu_mqueue_put s.asap_tasks task
  ({ s with asap_tasks }, if result = false then MU_TASK_ERR_SCHED_FULL else MU_TASK_ERR_NONE)

def mu_sched_from_isr (s : mu_sched_t) (task : Ptr) : mu_sched_t × mu_task_err_t :=
  let (irq_tasks, err) := mu_spsc_put s.irq_tasks task
  ({ s with irq_tasks }, if err = MU_SPSC_ERR_FULL then MU_TASK_ERR_SCHED_FULL else MU_TASK_ERR_NONE)

def mu_sched_defer_until (s : mu_sched_t) (task : Ptr) (at_time : mu_time_abs_t) : mu_sched_t × mu_task_err_t :=
  sched_aux s task at_time

def mu_sched_defer_for (s : mu_sched_t) (task : Ptr) (in_time : mu_time_rel_t) : mu_sched_t × mu_task_err_t :=
  sched_aux s task (mu_time_offset (mu_sched_get_current_time s) in_time)

def remove_slot (s : mu_sched_t) (i : Nat) : mu_sched_t :=
  let to_move := s.deferred_task_count - (i + 1)
  { s with
    s_deferred_tasks := if to_move > 0 then memmove s.s_deferred_tasks i (i + 1) to_move else s.s_deferred_tasks
    deferred_task_count := s.deferred_task_count - 1 }

/-- The loop of `mu_sched_remove_deferred_task`, from `i` down. -/
def remove_deferred_loop (task : Ptr) : Nat → mu_sched_t → mu_task_err_t → mu_sched_t × mu_task_err_t
  | 0, s, err => (s, err)
  | i + 1, s, err =>
    if (deferred_slot s i).task = task then remove_deferred_loop task i (remove_slot s i) MU_TASK_ERR_NONE
    else remove_deferred_loop task i s err

def mu_sched_remove_deferred_task (s : mu_sched_t) (task : Ptr) : mu_sched_t × mu_task_err_t :=
  remove_deferred_loop task s.deferred_task_count s MU_TASK_ERR_NOT_FOUND

/-! ## The step -/

/-- The first condition. -/
def step_irq (s : mu_sched_t) : mu_sched_t × Bool :=
  let (irq_tasks, item, err) := mu_spsc_get s.irq_tasks
  ({ s with irq_tasks, curr_task := item }, err = MU_SPSC_ERR_NONE)

/-- The second condition. -/
def step_deferred (s : mu_sched_t) : mu_sched_t × Bool :=
  let (s, task) := fetch_runnable_deferred_task s
  ({ s with curr_task := task }, task ≠ NULL)

/-- The third condition. The queue's task is `NULL`, so nothing is called. -/
def step_asap (s : mu_sched_t) : mu_sched_t × Bool :=
  let (asap_tasks, element, _, result) := mu_mqueue_get s.asap_tasks
  ({ s with asap_tasks, curr_task := element }, result = true)

def step_idle (s : mu_sched_t) : mu_sched_t := { s with curr_task := s.idle_task }

/-- After the call. -/
def step_end (s : mu_sched_t) : mu_sched_t := { s with curr_task := NULL }

/-- The task that is called, if there is one. -/
def step_call (s : mu_sched_t) : mu_sched_t × Option Ptr :=
  match mu_task_call s.curr_task with
  | none => (step_end s, none)
  | some task => (s, some task)

/-- The branches from the third condition on. -/
def step_from_asap (s : mu_sched_t) : mu_sched_t × Option Ptr :=
  let (s, found) := step_asap s
  if found then step_call s else step_call (step_idle s)

/-- The branches from the second condition on. -/
def step_from_deferred (s : mu_sched_t) : mu_sched_t × Option Ptr :=
  let (s, found) := step_deferred s
  if found then step_call s else step_from_asap s

/-- Up to the call. `step_end` comes after it. -/
def mu_sched_step (s : mu_sched_t) : mu_sched_t × Option Ptr :=
  let (s, found) := step_irq s
  if found then step_call s else step_from_deferred s

end ToyTstat.Code
