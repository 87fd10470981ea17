import ToyTstat.Code.MuPeriodic
import ToyTstat.Mulib.Deadline

/-!
# Periodic timers and the scheduler

A periodic timer calls its target before it is deferred again. The target starts and stops the timer
from inside that call, and other tasks use the scheduler.
-/

open CLib ToyTstat.Code

namespace ToyTstat.Mulib

/-! ## Runs -/

/-- A function that waits for the target task to return. -/
inductive Caller
  | mu_periodic_start
  | timer_fn
deriving DecidableEq

structure PeriodicRun where
  sched : mu_sched_t
  timer : mu_periodic_t
  /-- The latest call comes first. -/
  callers : List Caller
  /-- The target is the task of the timer itself, so `timer_fn` is called next. -/
  recalled : Bool
  /-- The time of the last start. -/
  started_at : mu_time_abs_t
  /-- How often `timer_fn` has called the target since the last start. -/
  triggers : Nat

inductive PeriodicEvent
  | start (period : mu_time_rel_t) (target_task : Ptr)
  | stop
  /-- The target task returns. -/
  | target_done
  /-- A call by another task, or a step. -/
  | sched (e : SchedEvent)

/-- A start, up to the call of the target. -/
def PeriodicRun.started (r : PeriodicRun) (timer : mu_periodic_t) : PeriodicRun :=
  { r with timer, started_at := r.sched.clock, triggers := 0 }

/-- A trigger, up to the call of the target. -/
def PeriodicRun.triggered (r : PeriodicRun) : PeriodicRun := { r with recalled := false, triggers := r.triggers + 1 }

/-- A step, up to the call of the task. -/
def PeriodicRun.stepped (r : PeriodicRun) : PeriodicRun := { r with sched := (mu_sched_step r.sched).1 }

/-- What the caller does after the call of the target. The output is what it returns. -/
def endCall (self : Ptr) (r : PeriodicRun) : Caller → PeriodicRun × List Bool
  | .mu_periodic_start =>
    let (sched, result) := mu_periodic_start_end r.sched self r.timer
    ({ r with sched }, [result])
  | .timer_fn =>
    let (sched, timer) := timer_fn_end r.sched self r.timer
    ({ r with sched, timer }, [])

/-- A call of `NULL` returns at once. -/
def callTarget (self : Ptr) (r : PeriodicRun) (caller : Caller) (target_task : Ptr) : PeriodicRun × List Bool :=
  match mu_task_call target_task with
  | none => endCall self r caller
  | some task => ({ r with callers := caller :: r.callers, recalled := task = self }, [])

/-- The task of the timer is called. -/
def callTimerFn (self : Ptr) (r : PeriodicRun) : PeriodicRun × List Bool :=
  match timer_fn r.timer with
  | none => ({ r with recalled := false }, [])
  | some target_task => callTarget self r.triggered .timer_fn target_task

def periodicEvent (self : Ptr) (r : PeriodicRun) : PeriodicEvent → PeriodicRun × List Bool
  | .start period target_task =>
    match mu_periodic_start r.sched r.timer period target_task with
    | none => (r, [false])
    | some timer => callTarget self (r.started timer) .mu_periodic_start target_task
  | .stop =>
    let (sched, timer, result) := mu_periodic_stop r.sched self r.timer
    ({ r with sched, timer }, [result])
  | .target_done =>
    match r.callers with
    | [] => (r, [])
    | caller :: callers => endCall self { r with callers } caller
  | .sched .step =>
    if (mu_sched_step r.sched).2 = some self then callTimerFn self r.stepped else (r.stepped, [])
  | .sched e => ({ r with sched := (schedStep r.sched e).1 }, [])

def periodicMachine (self : Ptr) : Machine PeriodicRun PeriodicEvent Bool where
  step r e := if r.recalled then callTimerFn self r else periodicEvent self r e

/-- The scheduler and the timer have been initialized. -/
def periodicInit (s : mu_sched_t) (timer : mu_periodic_t) : PeriodicRun :=
  ⟨mu_sched_init s, mu_periodic_init timer, [], false, 0, 0⟩

def HasRoom (s : mu_sched_t) : Prop := s.deferred_task_count < MU_CONFIG_SCHED_MAX_DEFERRED_TASKS

instance (s : mu_sched_t) : Decidable (HasRoom s) := inferInstanceAs (Decidable (_ < _))

/-- Periods are positive, a deferral finds a slot, and no other task touches the task of the timer. -/
def PeriodicOk (self : Ptr) (r : PeriodicRun) : PeriodicEvent → Prop
  | .start period target_task =>
    0 < period ∧ (¬ mu_periodic_is_running r.timer → target_task = NULL → HasRoom r.sched)
  | .stop => True
  | .target_done => r.callers ≠ [] → HasRoom r.sched
  | .sched e => e.names ≠ some self

instance (self : Ptr) (r : PeriodicRun) : DecidablePred (PeriodicOk self r)
  | .start period target_task =>
    inferInstanceAs (Decidable (0 < period ∧
      (¬ mu_periodic_is_running r.timer → target_task = NULL → HasRoom r.sched)))
  | .stop => isTrue trivial
  | .target_done => inferInstanceAs (Decidable (r.callers ≠ [] → HasRoom r.sched))
  | .sched e => inferInstanceAs (Decidable (e.names ≠ some self))

/-! ## One pending trigger -/

/-- The entry that waits for the next trigger. The call by the start comes first, and each trigger is a period later. -/
def nextTrigger (self : Ptr) (r : PeriodicRun) : deferred_task_t :=
  ⟨deadline r.started_at r.timer._period (r.triggers + 1), self⟩

structure OnePending (task : Ptr) (r : PeriodicRun) : Prop where
  entries : own task (r.sched.s_deferred_tasks.take r.sched.deferred_task_count) =
    if mu_periodic_is_running r.timer then [nextTrigger task r] else []
  /-- A step calls the task of the timer only while the timer runs, and not before its next trigger. -/
  triggered : (mu_sched_step r.sched).2 = some task →
    mu_periodic_is_running r.timer ∧ ¬ mu_time_precedes r.sched.clock (nextTrigger task r).at_time

instance (self : Ptr) (r : PeriodicRun) : Decidable (OnePending self r) :=
  decidable_of_iff
    (own self (r.sched.s_deferred_tasks.take r.sched.deferred_task_count) =
        (if mu_periodic_is_running r.timer then [nextTrigger self r] else []) ∧
      ((mu_sched_step r.sched).2 = some self →
        mu_periodic_is_running r.timer ∧ ¬ mu_time_precedes r.sched.clock (nextTrigger self r).at_time))
    ⟨fun h => ⟨h.1, h.2⟩, fun h => ⟨h.entries, h.triggered⟩⟩

/-- The state between two operations. -/
def OnePendingBetween (self : Ptr) (r : PeriodicRun) : Prop := r.callers = [] → OnePending self r

instance (self : Ptr) : DecidablePred (OnePendingBetween self) :=
  fun r => inferInstanceAs (Decidable (r.callers = [] → OnePending self r))

/-- The target stops the timer while a caller waits for it. -/
def StopsInside (r : PeriodicRun) : PeriodicEvent → Prop
  | .stop => r.callers ≠ []
  | _ => False

/-- The target stops the timer, and later in the run no caller waits for the target any more. -/
def StoppedInside (self : Ptr) : List PeriodicEvent → PeriodicRun → Prop
  | [], _ => False
  | e :: es, r =>
    let r' := ((periodicMachine self).step r e).1
    StopsInside r e ∧ ¬ (periodicMachine self).Always (fun r => r.callers ≠ []) es r' ∨ StoppedInside self es r'

instance (r : PeriodicRun) : DecidablePred (StopsInside r)
  | .stop => inferInstanceAs (Decidable (r.callers ≠ []))
  | .start .. => isFalse id
  | .target_done => isFalse id
  | .sched _ => isFalse id

instance decidableStoppedInside (self : Ptr) :
    (es : List PeriodicEvent) → (r : PeriodicRun) → Decidable (StoppedInside self es r)
  | [], _ => isFalse id
  | e :: es, r =>
    haveI := decidableStoppedInside self es ((periodicMachine self).step r e).1
    inferInstanceAs (Decidable (StopsInside r e ∧ ¬ (periodicMachine self).Always (fun r => r.callers ≠ []) es
      ((periodicMachine self).step r e).1 ∨ StoppedInside self es ((periodicMachine self).step r e).1))

/-! ## The task of the timer -/

variable {self : Ptr} {s : mu_sched_t} {q : Queues}

theorem OwnTask.room (h : OwnTask self s q) (hroom : HasRoom s) :
    q.deferred.length ≠ MU_CONFIG_SCHED_MAX_DEFERRED_TASKS := by
  unfold HasRoom at hroom
  rw [← h.holds.deferred.count] at hroom
  exact hroom.ne

theorem OwnTask.stored (h : OwnTask self s q) :
    own self (s.s_deferred_tasks.take s.deferred_task_count) = (own self q.deferred).reverse := by
  rw [h.holds.deferred.held]
  exact List.filter_reverse

theorem own_put_length (hroom : q.deferred.length ≠ MU_CONFIG_SCHED_MAX_DEFERRED_TASKS) (at_time : mu_time_abs_t) :
    (own self (q.putDeferred ⟨at_time, self⟩).deferred).length = (own self q.deferred).length + 1 := by
  unfold own Queues.putDeferred
  rw [if_neg hroom]
  have hperm : (insertDeferred ⟨at_time, self⟩ q.deferred).Perm _ := List.perm_orderedInsert _ _ _
  have hlength := (hperm.filter fun e => decide (e.task = self)).length_eq
  rw [List.filter_cons_of_pos (by simp)] at hlength
  exact hlength

/-! ## The calls of the target -/

variable {r : PeriodicRun} {e : PeriodicEvent}

/-- The time to which the caller defers the timer. -/
def dueAt (timer : mu_periodic_t) : Caller → mu_time_abs_t
  | .mu_periodic_start => timer._trigger_at
  | .timer_fn => mu_time_offset timer._trigger_at timer._period

theorem endCall_state (self : Ptr) (r : PeriodicRun) (caller : Caller) :
    (endCall self r caller).1 =
      { r with
        sched := (mu_sched_defer_until r.sched self (dueAt r.timer caller)).1
        timer := { r.timer with _trigger_at := dueAt r.timer caller } } := by
  cases caller with
  | mu_periodic_start => rfl
  | timer_fn => rfl

theorem callTarget_null (self : Ptr) (r : PeriodicRun) (caller : Caller) :
    callTarget self r caller NULL = endCall self r caller := by
  unfold callTarget mu_task_call
  rw [if_pos rfl]

theorem callTarget_task {target_task : Ptr} (h : target_task ≠ NULL) (self : Ptr) (r : PeriodicRun) (caller : Caller) :
    callTarget self r caller target_task =
      ({ r with callers := caller :: r.callers, recalled := target_task = self }, []) := by
  unfold callTarget mu_task_call
  rw [if_neg h]

theorem callTimerFn_running (h : r.timer._period ≠ 0) (self : Ptr) :
    callTimerFn self r = callTarget self r.triggered .timer_fn r.timer._target_task := by
  unfold callTimerFn timer_fn mu_periodic_is_running
  rw [if_pos (decide_eq_true h)]

theorem callTimerFn_stopped (h : r.timer._period = 0) (self : Ptr) :
    callTimerFn self r = ({ r with recalled := false }, []) := by
  unfold callTimerFn timer_fn mu_periodic_is_running
  rw [if_neg (by simpa using h)]

/-- The target is the task of the timer, so the calls never return. -/
structure Endless (task : Ptr) (r : PeriodicRun) : Prop where
  recalled : r.recalled = true
  target : r.timer._target_task = task
  running : r.timer._period ≠ 0
  inside : r.callers ≠ []

theorem callTarget_cases (hrunning : r.timer._period ≠ 0) (self : Ptr) (caller : Caller) :
    r.timer._target_task = NULL ∧ callTarget self r caller r.timer._target_task = endCall self r caller ∨
      callTarget self r caller r.timer._target_task =
        ({ r with callers := caller :: r.callers, recalled := false }, []) ∨
      Endless self (callTarget self r caller r.timer._target_task).1 := by
  by_cases hnull : r.timer._target_task = NULL
  · rw [hnull, callTarget_null]
    exact .inl ⟨rfl, rfl⟩
  rw [callTarget_task hnull]
  by_cases hself : r.timer._target_task = self
  · exact .inr (.inr ⟨decide_eq_true hself, hself, hrunning, List.cons_ne_nil _ _⟩)
  · rw [decide_eq_false hself]
    exact .inr (.inl rfl)

/-- A caller is about to call the target, and no entry waits. -/
structure AboutToCall (task : Ptr) (caller : Caller) (r : PeriodicRun) (q : Queues) : Prop where
  own_task : OwnTask task r.sched q
  returned : r.recalled = false
  alone : r.callers = []
  running : r.timer._period ≠ 0
  due : dueAt r.timer caller = (nextTrigger task r).at_time
  entries : own task q.deferred = []

/-- Where the timer stands if its target has never stopped it in a call. -/
inductive Stands (task : Ptr) (r : PeriodicRun) (q : Queues) : Prop
  | stopped (callers : r.callers = []) (period : r.timer._period = 0) (entries : own task q.deferred = [])
  | waiting (callers : r.callers = []) (period : r.timer._period ≠ 0)
      (due : r.timer._trigger_at = (nextTrigger task r).at_time)
      (entries : own task q.deferred = [nextTrigger task r])
  | called (caller : Caller) (callers : r.callers = [caller]) (period : r.timer._period ≠ 0)
      (due : dueAt r.timer caller = (nextTrigger task r).at_time) (entries : own task q.deferred = [])

structure Steady (task : Ptr) (r : PeriodicRun) (q : Queues) : Prop where
  own_task : OwnTask task r.sched q
  returned : r.recalled = false
  stands : Stands task r q

/-- The target has stopped the timer in a call. The callers that wait defer the timer once each. -/
structure Astray (task : Ptr) (r : PeriodicRun) (q : Queues) : Prop where
  own_task : OwnTask task r.sched q
  returned : r.recalled = false
  inside : r.callers ≠ []
  surplus : r.timer._period ≠ 0 → 2 ≤ (own task q.deferred).length + r.callers.length

variable {caller : Caller} {callers : List Caller}

theorem steady_end (h : AboutToCall self caller r q) (hroom : q.deferred.length ≠ MU_CONFIG_SCHED_MAX_DEFERRED_TASKS) :
    ∃ q', Steady self (endCall self r caller).1 q' := by
  rw [endCall_state]
  refine ⟨_, h.own_task.defer _, h.returned, .waiting h.alone h.running h.due ?_⟩
  rw [own_put_self h.entries hroom, h.due]
  rfl

theorem steady_call (h : AboutToCall self caller r q)
    (hroom : r.timer._target_task = NULL → q.deferred.length ≠ MU_CONFIG_SCHED_MAX_DEFERRED_TASKS) :
    (∃ q', Steady self (callTarget self r caller r.timer._target_task).1 q') ∨
      Endless self (callTarget self r caller r.timer._target_task).1 := by
  rcases callTarget_cases h.running self caller with ⟨hnull, hcall⟩ | hcall | hendless
  · rw [hcall]
    exact .inl (steady_end h (hroom hnull))
  · rw [hcall]
    refine .inl ⟨q, h.own_task, rfl, .called caller ?_ h.running h.due h.entries⟩
    rw [h.alone]
  · exact .inr hendless

theorem endCall_adds (h : OwnTask self r.sched q) (hroom : q.deferred.length ≠ MU_CONFIG_SCHED_MAX_DEFERRED_TASKS)
    (caller : Caller) :
    ∃ q', OwnTask self (endCall self r caller).1.sched q' ∧
      (own self q'.deferred).length = (own self q.deferred).length + 1 := by
  rw [endCall_state]
  exact ⟨_, h.defer _, own_put_length hroom _⟩

theorem astray_call (h : OwnTask self r.sched q) (hreturned : r.recalled = false) (hinside : r.callers ≠ [])
    (hrunning : r.timer._period ≠ 0)
    (hroom : r.timer._target_task = NULL → q.deferred.length ≠ MU_CONFIG_SCHED_MAX_DEFERRED_TASKS) (caller : Caller) :
    (∃ q', Astray self (callTarget self r caller r.timer._target_task).1 q') ∨
      Endless self (callTarget self r caller r.timer._target_task).1 := by
  have hcallers : 0 < r.callers.length := List.length_pos_of_ne_nil hinside
  rcases callTarget_cases hrunning self caller with ⟨hnull, hcall⟩ | hcall | hendless
  · obtain ⟨q', hafter, hlength⟩ := endCall_adds h (hroom hnull) caller
    rw [hcall]
    rw [endCall_state] at hafter ⊢
    refine .inl ⟨q', hafter, hreturned, hinside, fun _ => ?_⟩
    dsimp only
    omega
  · rw [hcall]
    refine .inl ⟨q, h, rfl, List.cons_ne_nil _ _, fun _ => ?_⟩
    rw [List.length_cons]
    omega
  · exact .inr hendless

theorem endless_step (h : Endless self r) (hself : self ≠ NULL) (e : PeriodicEvent) :
    Endless self ((periodicMachine self).step r e).1 := by
  dsimp only [periodicMachine]
  rw [h.recalled, if_pos rfl, callTimerFn_running h.running, h.target, callTarget_task hself]
  exact ⟨decide_eq_true rfl, h.target, h.running, List.cons_ne_nil _ _⟩

/-! ## The events, by what they find -/

theorem start_running (h : r.timer._period ≠ 0) (self : Ptr) (period : mu_time_rel_t) (target_task : Ptr) :
    periodicEvent self r (.start period target_task) = (r, [false]) := by
  have hstart : mu_periodic_start r.sched r.timer period target_task = none := if_pos (decide_eq_true h)
  unfold periodicEvent
  dsimp only
  rw [hstart]

theorem start_stopped (h : r.timer._period = 0) (self : Ptr) (period : mu_time_rel_t) (target_task : Ptr) :
    periodicEvent self r (.start period target_task) =
      callTarget self (r.started ⟨target_task, period, mu_time_offset r.sched.clock period⟩) .mu_periodic_start
        target_task := by
  have hstart : mu_periodic_start r.sched r.timer period target_task =
      some ⟨target_task, period, mu_time_offset r.sched.clock period⟩ :=
    if_neg (by simpa [mu_periodic_is_running] using h)
  unfold periodicEvent
  dsimp only
  rw [hstart]

theorem stop_running (h : r.timer._period ≠ 0) (self : Ptr) :
    periodicEvent self r .stop =
      ({ r with
        sched := (mu_sched_remove_deferred_task r.sched self).1
        timer := { r.timer with _period := 0 } }, [true]) := by
  unfold periodicEvent mu_periodic_stop mu_periodic_is_running
  rw [if_neg (by simpa using h)]

theorem stop_stopped (h : r.timer._period = 0) (self : Ptr) : periodicEvent self r .stop = (r, [false]) := by
  unfold periodicEvent mu_periodic_stop mu_periodic_is_running
  rw [if_pos (by simpa using h)]

theorem done_called (h : r.callers = caller :: callers) (self : Ptr) :
    periodicEvent self r .target_done = endCall self { r with callers } caller := by
  unfold periodicEvent
  rw [h]

theorem done_outside (h : r.callers = []) (self : Ptr) : periodicEvent self r .target_done = (r, []) := by
  unfold periodicEvent
  rw [h]

theorem step_called (h : (mu_sched_step r.sched).2 = some self) :
    periodicEvent self r (.sched .step) = callTimerFn self r.stepped := by
  unfold periodicEvent
  exact if_pos h

theorem step_not_called (h : (mu_sched_step r.sched).2 ≠ some self) :
    periodicEvent self r (.sched .step) = (r.stepped, []) := by
  unfold periodicEvent
  exact if_neg h

theorem periodicEvent_sched {e : SchedEvent} (hstep : e ≠ .step) :
    periodicEvent self r (.sched e) = ({ r with sched := (schedStep r.sched e).1 }, []) := by
  cases e with
  | step => exact absurd rfl hstep
  | _ => rfl

theorem sched_event (h : OwnTask self r.sched q) (hself : self ≠ NULL) {e : SchedEvent} (he : e.names ≠ some self) :
    ∃ s' q', OwnTask self s' q' ∧
      (periodicEvent self r (.sched e) = ({ r with sched := s' }, []) ∧
          own self q'.deferred = own self q.deferred ∨
        periodicEvent self r (.sched e) = callTimerFn self { r with sched := s' } ∧
          q'.deferred.length ≠ MU_CONFIG_SCHED_MAX_DEFERRED_TASKS ∧
          ∃ entry, own self q.deferred = entry :: own self q'.deferred) := by
  by_cases hstep : e = .step
  case neg =>
    obtain ⟨hafter, hkept⟩ := h.other he hstep
    exact ⟨_, _, hafter, .inl ⟨periodicEvent_sched hstep, hkept⟩⟩
  subst hstep
  obtain ⟨hafter, -, hcases⟩ := h.step hself
  refine ⟨_, _, hafter, ?_⟩
  rcases hcases with ⟨hother, hkept⟩ | ⟨hcalled, hroom, entry, -, hown⟩
  · exact .inl ⟨step_not_called hother, hkept⟩
  · exact .inr ⟨step_called hcalled, hroom, entry, hown⟩

/-! ## A timer that is not stopped in a call -/

theorem steady_pending (h : Steady self r q) (hself : self ≠ NULL) : OnePendingBetween self r := by
  intro hbetween
  obtain ⟨-, -, hcases⟩ := h.own_task.step hself
  have hstored := h.own_task.stored
  cases h.stands with
  | stopped _ hperiod hentries =>
    refine ⟨?_, fun hcalled => ?_⟩
    · rw [hstored, hentries, mu_periodic_is_running, if_neg (by simpa using hperiod)]
      rfl
    · rcases hcases with ⟨hother, -⟩ | ⟨-, -, entry, -, hown⟩
      · exact absurd hcalled hother
      · rw [hentries] at hown
        cases hown
  | waiting _ hperiod _ hentries =>
    have hrunning : mu_periodic_is_running r.timer = true := decide_eq_true hperiod
    refine ⟨?_, fun hcalled => ⟨hrunning, ?_⟩⟩
    · rw [hstored, hentries, if_pos hrunning]
      rfl
    · rcases hcases with ⟨hother, -⟩ | ⟨-, -, entry, hdue, hown⟩
      · exact absurd hcalled hother
      · rw [hentries] at hown
        obtain ⟨rfl, -⟩ := List.cons.inj hown
        exact hdue
  | called caller hcallers => simp [hcallers] at hbetween

theorem stands_same {s' : mu_sched_t} {q' : Queues} (h : Stands self r q)
    (hkept : own self q'.deferred = own self q.deferred) : Stands self { r with sched := s' } q' := by
  cases h with
  | stopped hcallers hperiod hentries => exact .stopped hcallers hperiod (hkept.trans hentries)
  | waiting hcallers hperiod hdue hentries => exact .waiting hcallers hperiod hdue (hkept.trans hentries)
  | called caller hcallers hperiod hdue hentries =>
    exact .called caller hcallers hperiod hdue (hkept.trans hentries)

theorem period_ne_zero {period : mu_time_rel_t} (h : 0 < period) : period ≠ 0 := by
  rintro rfl
  exact absurd h (by decide)

theorem start_room {period : mu_time_rel_t} {target_task : Ptr} (hok : PeriodicOk self r (.start period target_task))
    (hstopped : r.timer._period = 0) (hnull : target_task = NULL) : HasRoom r.sched := by
  refine hok.2 ?_ hnull
  unfold mu_periodic_is_running
  simpa using hstopped

theorem steady_start {period : mu_time_rel_t} {target_task : Ptr} (h : Steady self r q)
    (hok : PeriodicOk self r (.start period target_task)) :
    (∃ q', Steady self (periodicEvent self r (.start period target_task)).1 q') ∨
      Endless self (periodicEvent self r (.start period target_task)).1 := by
  by_cases hrunning : r.timer._period ≠ 0
  · rw [start_running hrunning]
    exact .inl ⟨q, h⟩
  rw [not_not] at hrunning
  rw [start_stopped hrunning]
  cases h.stands with
  | stopped hcallers _ hentries =>
    have hready : AboutToCall self .mu_periodic_start
        (r.started ⟨target_task, period, mu_time_offset r.sched.clock period⟩) q :=
      ⟨h.own_task, h.returned, hcallers, period_ne_zero hok.1, (deadline_one _ _).symm, hentries⟩
    exact steady_call hready fun hnull => h.own_task.room (start_room hok hrunning hnull)
  | waiting _ hother => exact absurd hrunning hother
  | called _ _ hother => exact absurd hrunning hother

theorem steady_stop (h : Steady self r q) (houtside : r.callers = []) :
    ∃ q', Steady self (periodicEvent self r .stop).1 q' := by
  by_cases hrunning : r.timer._period ≠ 0
  · rw [stop_running hrunning]
    exact ⟨_, h.own_task.remove, h.returned, .stopped houtside rfl (own_remove_self q)⟩
  · rw [stop_stopped (not_not.mp hrunning)]
    exact ⟨q, h⟩

theorem steady_done (h : Steady self r q) (hok : PeriodicOk self r .target_done) :
    ∃ q', Steady self (periodicEvent self r .target_done).1 q' := by
  cases h.stands with
  | stopped hcallers =>
    rw [done_outside hcallers]
    exact ⟨q, h⟩
  | waiting hcallers =>
    rw [done_outside hcallers]
    exact ⟨q, h⟩
  | called caller hcallers hperiod hdue hentries =>
    have hinside : r.callers ≠ [] := hcallers ▸ List.cons_ne_nil _ _
    rw [done_called hcallers]
    exact steady_end ⟨h.own_task, h.returned, rfl, hperiod, hdue, hentries⟩ (h.own_task.room (hok hinside))

theorem steady_sched (h : Steady self r q) (hself : self ≠ NULL) {e : SchedEvent} (he : e.names ≠ some self) :
    (∃ q', Steady self (periodicEvent self r (.sched e)).1 q') ∨
      Endless self (periodicEvent self r (.sched e)).1 := by
  obtain ⟨s', q', hafter, ⟨hevent, hkept⟩ | ⟨hevent, hroom, entry, hown⟩⟩ := sched_event h.own_task hself he
  · rw [hevent]
    exact .inl ⟨q', hafter, h.returned, stands_same h.stands hkept⟩
  rw [hevent]
  cases h.stands with
  | stopped _ _ hentries =>
    rw [hentries] at hown
    cases hown
  | called _ _ _ _ hentries =>
    rw [hentries] at hown
    cases hown
  | waiting hcallers hperiod hdue hentries =>
    rw [hentries] at hown
    -- the next trigger is a period later
    have hnext : mu_time_offset r.timer._trigger_at r.timer._period =
        deadline r.started_at r.timer._period (r.triggers + 1 + 1) := by
      rw [hdue, deadline_succ]
      rfl
    have hready : AboutToCall self .timer_fn { r with sched := s' }.triggered q' :=
      ⟨hafter, rfl, hcallers, hperiod, hnext, (List.cons.inj hown).2.symm⟩
    rw [callTimerFn_running (r := { r with sched := s' }) hperiod]
    exact steady_call hready fun _ => hroom

/-! ## A timer that is stopped in a call -/

theorem astray_stop (h : OwnTask self r.sched q) (hreturned : r.recalled = false) (hinside : r.callers ≠ []) :
    ∃ q', Astray self (periodicEvent self r .stop).1 q' := by
  by_cases hrunning : r.timer._period ≠ 0
  · rw [stop_running hrunning]
    exact ⟨_, h.remove, hreturned, hinside, fun hperiod => absurd rfl hperiod⟩
  · rw [stop_stopped (not_not.mp hrunning)]
    exact ⟨q, h, hreturned, hinside, fun hperiod => absurd hperiod hrunning⟩

theorem astray_start {period : mu_time_rel_t} {target_task : Ptr} (h : Astray self r q)
    (hok : PeriodicOk self r (.start period target_task)) :
    (∃ q', Astray self (periodicEvent self r (.start period target_task)).1 q') ∨
      Endless self (periodicEvent self r (.start period target_task)).1 := by
  by_cases hrunning : r.timer._period ≠ 0
  · rw [start_running hrunning]
    exact .inl ⟨q, h⟩
  rw [not_not] at hrunning
  rw [start_stopped hrunning]
  exact astray_call (r := r.started ⟨target_task, period, _⟩) h.own_task h.returned h.inside (period_ne_zero hok.1)
    (fun hnull => h.own_task.room (start_room hok hrunning hnull)) .mu_periodic_start

theorem astray_done (h : Astray self r q) (hok : PeriodicOk self r .target_done) :
    (∃ q', Astray self (periodicEvent self r .target_done).1 q') ∨
      ¬ OnePendingBetween self (periodicEvent self r .target_done).1 := by
  -- the last caller leaves an entry too many
  cases hcallers : r.callers with
  | nil => exact absurd hcallers h.inside
  | cons caller callers =>
    obtain ⟨q', hafter, hlength⟩ := endCall_adds (r := { r with callers }) h.own_task
      (h.own_task.room (hok h.inside)) caller
    have hsurplus := h.surplus
    rw [hcallers, List.length_cons] at hsurplus
    rw [done_called hcallers]
    rw [endCall_state] at hafter ⊢
    cases hrest : callers with
    | cons next rest =>
      refine .inl ⟨q', hafter, h.returned, List.cons_ne_nil _ _, fun hperiod => ?_⟩
      have := hsurplus hperiod
      rw [← hrest]
      dsimp only
      omega
    | nil =>
      refine .inr fun hpending => ?_
      have hentries := congrArg List.length (hpending rfl).entries
      rw [hafter.stored, List.length_reverse, hlength] at hentries
      rw [hrest, List.length_nil] at hsurplus
      split at hentries
      case isTrue hrunning =>
        have := hsurplus (of_decide_eq_true hrunning)
        rw [List.length_singleton] at hentries
        omega
      case isFalse =>
        rw [List.length_nil] at hentries
        omega

theorem astray_sched (h : Astray self r q) (hself : self ≠ NULL) {e : SchedEvent} (he : e.names ≠ some self) :
    (∃ q', Astray self (periodicEvent self r (.sched e)).1 q') ∨
      Endless self (periodicEvent self r (.sched e)).1 := by
  obtain ⟨s', q', hafter, ⟨hevent, hkept⟩ | ⟨hevent, hroom, -⟩⟩ := sched_event h.own_task hself he
  · rw [hevent]
    exact .inl ⟨q', hafter, h.returned, h.inside, hkept ▸ h.surplus⟩
  rw [hevent]
  by_cases hrunning : r.timer._period ≠ 0
  · rw [callTimerFn_running (r := { r with sched := s' }) hrunning]
    exact astray_call (r := { r with sched := s' }.triggered) hafter rfl h.inside hrunning (fun _ => hroom) .timer_fn
  · rw [callTimerFn_stopped (r := { r with sched := s' }) (not_not.mp hrunning)]
    exact .inl ⟨q', hafter, rfl, h.inside, fun hperiod => absurd hperiod hrunning⟩

/-! ## Runs of a timer -/

theorem periodic_returned (h : r.recalled = false) (e : PeriodicEvent) :
    (periodicMachine self).step r e = periodicEvent self r e := by
  dsimp only [periodicMachine]
  rw [h, if_neg Bool.false_ne_true]

/-- A timer is steady until its target stops it in a call. -/
theorem steady_step (h : Steady self r q) (hself : self ≠ NULL) (hok : PeriodicOk self r e) :
    ¬ StopsInside r e ∧ ((∃ q', Steady self ((periodicMachine self).step r e).1 q') ∨
        Endless self ((periodicMachine self).step r e).1) ∨
      StopsInside r e ∧ ∃ q', Astray self ((periodicMachine self).step r e).1 q' := by
  rw [periodic_returned h.returned]
  cases e with
  | start period target_task => exact .inl ⟨id, steady_start h hok⟩
  | target_done => exact .inl ⟨id, .inl (steady_done h hok)⟩
  | sched e => exact .inl ⟨id, steady_sched h hself hok⟩
  | stop =>
    by_cases houtside : r.callers = []
    · exact .inl ⟨fun hinside => hinside houtside, .inl (steady_stop h houtside)⟩
    · exact .inr ⟨houtside, astray_stop h.own_task h.returned houtside⟩

theorem astray_step (h : Astray self r q) (hself : self ≠ NULL) (hok : PeriodicOk self r e) :
    (∃ q', Astray self ((periodicMachine self).step r e).1 q') ∨
      Endless self ((periodicMachine self).step r e).1 ∨
      ¬ OnePendingBetween self ((periodicMachine self).step r e).1 := by
  rw [periodic_returned h.returned]
  cases e with
  | start period target_task => exact (astray_start h hok).imp_right .inl
  | target_done => exact (astray_done h hok).imp_right .inr
  | sched e => exact (astray_sched h hself hok).imp_right .inl
  | stop => exact .inl (astray_stop h.own_task h.returned h.inside)

/-- Some caller waits in every state of the run. -/
def Inside (self : Ptr) (es : List PeriodicEvent) (r : PeriodicRun) : Prop :=
  (periodicMachine self).Always (fun r => r.callers ≠ []) es r

theorem Inside.pending {es : List PeriodicEvent} (h : Inside self es r) :
    (periodicMachine self).Always (OnePendingBetween self) es r :=
  h.imp fun _ hinside hbetween => absurd hbetween hinside

theorem Inside.not_stopped {es : List PeriodicEvent} (h : Inside self es r) : ¬ StoppedInside self es r := by
  induction es generalizing r with
  | nil => exact id
  | cons e es ih =>
    rintro (⟨-, hends⟩ | hlater)
    · exact hends h.2
    · exact ih h.2 hlater

theorem endless_inside (h : Endless self r) (hself : self ≠ NULL) (es : List PeriodicEvent) : Inside self es r := by
  induction es generalizing r with
  | nil => exact h.inside
  | cons e es ih => exact ⟨h.inside, ih (endless_step h hself e)⟩

theorem astray_inside (h : Astray self r q) (hself : self ≠ NULL) {es : List PeriodicEvent}
    (hok : (periodicMachine self).Meets (PeriodicOk self) es r)
    (hpending : (periodicMachine self).Always (OnePendingBetween self) es r) : Inside self es r := by
  induction es generalizing r q with
  | nil => exact h.inside
  | cons e es ih =>
    refine ⟨h.inside, ?_⟩
    rcases astray_step h hself hok.1 with ⟨q', hafter⟩ | hendless | hlost
    · exact ih hafter hok.2 hpending.2
    · exact endless_inside hendless hself es
    · exact absurd hpending.2.start hlost

theorem steady_always_iff (h : Steady self r q) (hself : self ≠ NULL) {es : List PeriodicEvent}
    (hok : (periodicMachine self).Meets (PeriodicOk self) es r) :
    (periodicMachine self).Always (OnePendingBetween self) es r ↔ ¬ StoppedInside self es r := by
  induction es generalizing r q with
  | nil => exact iff_of_true (steady_pending h hself) id
  | cons e es ih =>
    have hnow := steady_pending h hself
    have hcons : (periodicMachine self).Always (OnePendingBetween self) (e :: es) r ↔
        (periodicMachine self).Always (OnePendingBetween self) es ((periodicMachine self).step r e).1 :=
      and_iff_right hnow
    rw [hcons, StoppedInside]
    rcases steady_step h hself hok.1 with ⟨houtside, ⟨q', hafter⟩ | hendless⟩ | ⟨hinside, q', hafter⟩
    · rw [ih hafter hok.2]
      simp [houtside]
    · have hforever := endless_inside hendless hself es
      exact iff_of_true hforever.pending (by simp [houtside, hforever.not_stopped])
    · constructor
      · intro hpending
        have hwaits := astray_inside hafter hself hok.2 hpending
        rintro (⟨-, hends⟩ | hlater)
        · exact hends hwaits
        · exact hwaits.not_stopped hlater
      · intro hnever
        by_contra hlost
        refine hnever (.inl ⟨hinside, fun hwaits => hlost ?_⟩)
        exact Inside.pending hwaits

theorem steady_init (hs : Sized s) (hself : self ≠ NULL) (timer : mu_periodic_t) :
    Steady self (periodicInit s timer) ⟨[], [], []⟩ :=
  ⟨⟨init_holds hs, ⟨List.not_mem_nil, List.not_mem_nil⟩, hself.symm⟩, rfl, .stopped rfl rfl rfl⟩

/-- Where every deferral finds a slot, a periodic timer has exactly one pending trigger while it runs and none
otherwise, between all operations of a run, unless its target stops it inside an operation that comes to its end. -/
theorem one_pending_iff (self : Ptr) (hself : self ≠ NULL) (s : mu_sched_t) (hs : Sized s) (timer : mu_periodic_t)
    (es : List PeriodicEvent) (hok : (periodicMachine self).Meets (PeriodicOk self) es (periodicInit s timer)) :
    (periodicMachine self).Always (OnePendingBetween self) es (periodicInit s timer) ↔
      ¬ StoppedInside self es (periodicInit s timer) :=
  steady_always_iff (steady_init hs hself timer) hself hok

/-- Task 5 is the one of the timer. The target 8 starts its timer again, which is refused, and takes a step. Triggers
come late, the timer is stopped and started, and the second target is `NULL`. -/
theorem one_pending_iff_stopped_outside :
    let timer : mu_periodic_t := ⟨7, -1, 0xffffffff⟩
    let es : List PeriodicEvent :=
      [.start 10 8, .start 20 9, .target_done, .sched (.defer_until 6 10), .sched (.clock 65), .sched .step,
        .sched .step, .target_done, .sched .step, .target_done, .stop, .sched .step, .start 3 NULL,
        .sched (.clock 68), .sched .step]
    (periodicMachine 5).Always (OnePendingBetween 5) es (periodicInit staticStorage timer) := by
  exact (one_pending_iff 5 (by decide) staticStorage staticStorage_sized _ _ (by decide +kernel)).mpr
    (by decide +kernel)

/-- The target stops its timer while the start waits: an entry stays. It stops and starts the timer: two entries stay,
and the target is triggered twice in the first period. -/
theorem one_pending_not_kept :
    let r := periodicInit staticStorage ⟨0, 0, 0⟩
    let stopped : List PeriodicEvent := [.start 10 8, .stop, .target_done]
    let restarted : List PeriodicEvent :=
      [.start 10 8, .stop, .start 10 8, .target_done, .target_done, .sched (.clock 10), .sched .step, .target_done,
        .sched .step]
    let entries (r : PeriodicRun) := own 5 (r.sched.s_deferred_tasks.take r.sched.deferred_task_count)
    let after_stop := ((periodicMachine 5).run stopped r).1
    let after_restart := ((periodicMachine 5).run (restarted.take 5) r).1
    let triggered := ((periodicMachine 5).run restarted r).1
    (periodicMachine 5).Meets (PeriodicOk 5) stopped r ∧ (periodicMachine 5).Meets (PeriodicOk 5) restarted r ∧
      after_stop.callers = [] ∧ mu_periodic_is_running after_stop.timer = false ∧ entries after_stop = [⟨10, 5⟩] ∧
      after_restart.callers = [] ∧ entries after_restart = [⟨10, 5⟩, ⟨10, 5⟩] ∧
      triggered.sched.clock = 10 ∧ triggered.triggers = 2 ∧
      ¬ (periodicMachine 5).Always (OnePendingBetween 5) stopped r ∧
      ¬ (periodicMachine 5).Always (OnePendingBetween 5) restarted r := by
  decide +kernel

end ToyTstat.Mulib
