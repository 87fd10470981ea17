import ToyTstat.Code.MuSched

/-!
# `mu_periodic.c`: periodic timers

The scheduler knows the task of a timer by its pointer, and nothing reads the memory of that task. Two
functions call the target task. Each is modelled up to that call, and its `_end` comes after the call.
-/

open CLib

namespace ToyTstat.Code

structure mu_periodic_t where
  _target_task : Ptr
  _period : mu_time_rel_t
  _trigger_at : mu_time_abs_t
deriving DecidableEq, Repr

def mu_periodic_init (timer : mu_periodic_t) : mu_periodic_t := { timer with _target_task := NULL, _period := 0 }

def mu_periodic_is_running (timer : mu_periodic_t) : Bool := timer._period ≠ 0

/-- Up to `mu_task_call` of `target_task`. A timer that runs already gives `none`: the function returns `false`. -/
def mu_periodic_start (s : mu_sched_t) (timer : mu_periodic_t) (period : mu_time_rel_t) (target_task : Ptr) :
    Option mu_periodic_t :=
  if mu_periodic_is_running timer then none
  else
    let now := s.clock -- `mu_sched_get_clock_source()()`
    let _trigger_at := mu_time_offset now period
    some { timer with _target_task := target_task, _period := period, _trigger_at }

/-- `self` is the pointer to the task of the timer. What `mu_sched_defer_until` returns is not looked at. -/
def mu_periodic_start_end (s : mu_sched_t) (self : Ptr) (timer : mu_periodic_t) : mu_sched_t × Bool :=
  ((mu_sched_defer_until s self timer._trigger_at).1, true)

def mu_periodic_stop (s : mu_sched_t) (self : Ptr) (timer : mu_periodic_t) : mu_sched_t × mu_periodic_t × Bool :=
  if ¬ mu_periodic_is_running timer then (s, timer, false)
  else ((mu_sched_remove_deferred_task s self).1, { timer with _period := 0 }, true)

/-- The task that is given to `mu_task_call`. A timer that does not run calls nothing. -/
def timer_fn (timer : mu_periodic_t) : Option Ptr :=
  if mu_periodic_is_running timer then some timer._target_task else none

/-- The period is read after the call. -/
def timer_fn_end (s : mu_sched_t) (self : Ptr) (timer : mu_periodic_t) : mu_sched_t × mu_periodic_t :=
  let _trigger_at := mu_time_offset timer._trigger_at timer._period
  ((mu_sched_defer_until s self _trigger_at).1, { timer with _trigger_at })

end ToyTstat.Code
