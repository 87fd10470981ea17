import ToyTstat.Code.MuTask

/-!
# `mu_timer.c`: timers

The memory of a timer is arbitrary before `mu_timer_init`, so its state is a machine word.
-/

open CLib

namespace ToyTstat.Code

abbrev mu_timer_state_t := UInt32

def MU_TIMER_STATE_IDLE : mu_timer_state_t := 0

def MU_TIMER_STATE_RUNNING : mu_timer_state_t := 1

structure mu_timer_t where
  task : mu_task_t
  state : mu_timer_state_t
  on_completion : Ptr
  delay_tics : mu_time_rel_t
  delay_until : mu_time_abs_t
  periodic : Bool
deriving DecidableEq, Repr

def mu_timer_init (timer : mu_timer_t) : mu_timer_t :=
  { timer with task := mu_task_init timer.task MU_TIMER_STATE_IDLE NULL }

/-- `self` is the pointer to the task of the timer. -/
def mu_timer_stop (s : mu_sched_t) (self : Ptr) (timer : mu_timer_t) : mu_sched_t × mu_timer_t :=
  let s := if timer.state = MU_TIMER_STATE_RUNNING then (mu_sched_remove_deferred_task s self).1 else s
  (s, { timer with state := MU_TIMER_STATE_IDLE })

/-- What `mu_sched_defer_until` returns is not looked at. -/
def mu_timer_start (s : mu_sched_t) (self : Ptr) (timer : mu_timer_t) (delay_tics : mu_time_rel_t) (periodic : Bool)
    (on_completion : Ptr) : mu_sched_t × mu_timer_t :=
  let (s, timer) := mu_timer_stop s self timer
  let now := s.clock -- `mu_sched_get_clock_source()()`
  let delay_until := mu_time_offset now delay_tics
  let timer := { timer with delay_tics, delay_until, periodic, state := MU_TIMER_STATE_RUNNING, on_completion }
  ((mu_sched_defer_until s self delay_until).1, timer)

def mu_timer_is_running (timer : mu_timer_t) : Bool := timer.state = MU_TIMER_STATE_RUNNING

def mu_timer_is_stopped (timer : mu_timer_t) : Bool := timer.state ≠ MU_TIMER_STATE_RUNNING

/-- Up to the call of `on_completion`: the task that is called is returned. In any other state nothing is done. -/
def mu_timer_fn (s : mu_sched_t) (self : Ptr) (timer : mu_timer_t) : mu_sched_t × mu_timer_t × Option Ptr :=
  if timer.state = MU_TIMER_STATE_RUNNING then
    if timer.periodic then
      let delay_until := mu_time_offset timer.delay_until timer.delay_tics
      ((mu_sched_defer_until s self delay_until).1, { timer with delay_until }, mu_task_call timer.on_completion)
    else (s, { timer with state := MU_TIMER_STATE_IDLE }, mu_task_call timer.on_completion)
  else (s, timer, none)

end ToyTstat.Code
