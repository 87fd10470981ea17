import ToyTstat.Code.MuTimer
import ToyTstat.Mulib.Contents

/-!
# Timers and the scheduler

A timer has its state in its own memory and its deadline in the scheduler. Runs start and stop one
timer in any order, also from inside `on_completion`, while other tasks use the scheduler.
-/

open CLib ToyTstat.Code ToyTstat.Code.mu_task_err_t

namespace ToyTstat.Mulib

/-! ## Runs -/

structure TimerRun where
  sched : mu_sched_t
  timer : mu_timer_t
  /-- `mu_timer_fn` has called the task of the timer itself. Before it returns, nothing else can happen. -/
  recalled : Bool

inductive TimerEvent
  | start (delay_tics : mu_time_rel_t) (periodic : Bool) (on_completion : Ptr)
  | stop
  /-- A call by another task, or a step. -/
  | sched (e : SchedEvent)

/-- The task of the timer is called. The output is the time at which `on_completion` is called. -/
def callTimer (self : Ptr) (r : TimerRun) : TimerRun × List mu_time_abs_t :=
  let (sched, timer, called) := mu_timer_fn r.sched self r.timer
  (⟨sched, timer, called = some self⟩, if mu_timer_is_running r.timer then [r.sched.clock] else [])

def timerEvent (self : Ptr) (r : TimerRun) : TimerEvent → TimerRun × List mu_time_abs_t
  | .start delay_tics periodic on_completion =>
    let (sched, timer) := mu_timer_start r.sched self r.timer delay_tics periodic on_completion
    ({ r with sched, timer }, [])
  | .stop =>
    let (sched, timer) := mu_timer_stop r.sched self r.timer
    ({ r with sched, timer }, [])
  | .sched .step =>
    let (sched, called) := mu_sched_step r.sched
    if called = some self then callTimer self { r with sched } else ({ r with sched }, [])
  | .sched e => ({ r with sched := (schedStep r.sched e).1 }, [])

def timerMachine (self : Ptr) : Machine TimerRun TimerEvent mu_time_abs_t where
  step r e := if r.recalled then callTimer self r else timerEvent self r e

/-- The task that the call is about. -/
def SchedEvent.names : SchedEvent → Option Ptr
  | .set_idle_task task => some task
  | .asap task => some task
  | .from_isr task => some task
  | .defer_until task _ => some task
  | .defer_for task _ => some task
  | .remove_deferred_task task => some task
  | .clock _ | .step | .task_done => none

/-- No other task schedules the task of the timer, removes it or makes it the idle task. -/
def Apart (self : Ptr) : TimerEvent → Prop
  | .sched e => e.names ≠ some self
  | _ => True

instance (self : Ptr) : DecidablePred (Apart self)
  | .sched e => inferInstanceAs (Decidable (e.names ≠ some self))
  | .start .. => isTrue trivial
  | .stop => isTrue trivial

/-! ## The contents of the queues -/

/-- The deferred entries of one task. -/
def own (self : Ptr) (queue : List deferred_task_t) : List deferred_task_t := queue.filter fun e => e.task = self

variable {self task : Ptr} {q : Queues} {entry : deferred_task_t} {now : mu_time_abs_t}

theorem own_cons_self (h : entry.task = self) (queue : List deferred_task_t) :
    own self (entry :: queue) = entry :: own self queue :=
  List.filter_cons_of_pos (by simpa using h)

theorem own_cons_other (h : entry.task ≠ self) (queue : List deferred_task_t) :
    own self (entry :: queue) = own self queue :=
  List.filter_cons_of_neg (by simpa using h)

theorem own_remove_self (q : Queues) : own self (q.remove self).deferred = [] := by
  unfold own Queues.remove
  simp

theorem own_remove_other (h : task ≠ self) (q : Queues) : own self (q.remove task).deferred = own self q.deferred := by
  unfold own Queues.remove
  rw [List.filter_filter]
  apply List.filter_congr
  intro e he
  by_cases hself : e.task = self
  · simp [hself, h.symm]
  · simp [hself]

theorem own_put_other (h : entry.task ≠ self) (q : Queues) :
    own self (q.putDeferred entry).deferred = own self q.deferred := by
  unfold own Queues.putDeferred
  split
  · rfl
  · exact filter_insertBehind _ _ (by simpa using h) _

theorem own_put_self (hnone : own self q.deferred = [])
    (hroom : q.deferred.length ≠ MU_CONFIG_SCHED_MAX_DEFERRED_TASKS) (at_time : mu_time_abs_t) :
    own self (q.putDeferred ⟨at_time, self⟩).deferred = [⟨at_time, self⟩] := by
  unfold own Queues.putDeferred
  rw [if_neg hroom]
  exact filter_insertBehind_alone _ _ (by simp) hnone

theorem own_put_self_le (hnone : own self q.deferred = []) (at_time : mu_time_abs_t) :
    (own self (q.putDeferred ⟨at_time, self⟩).deferred).length ≤ 1 := by
  by_cases hfull : q.deferred.length = MU_CONFIG_SCHED_MAX_DEFERRED_TASKS
  · unfold Queues.putDeferred
    rw [if_pos hfull, hnone]
    exact Nat.zero_le 1
  · rw [own_put_self hnone hfull]
    exact le_rfl

/-- The task waits nowhere but among the deferred tasks. -/
structure OnlyDeferred (task : Ptr) (q : Queues) : Prop where
  irq : task ∉ q.irq
  asap : task ∉ q.asap

theorem onlyDeferred_put (h : OnlyDeferred self q) (entry : deferred_task_t) :
    OnlyDeferred self (q.putDeferred entry) := by
  unfold Queues.putDeferred
  split
  · exact h
  · exact ⟨h.irq, h.asap⟩

theorem onlyDeferred_asap (h : OnlyDeferred self q) (htask : task ≠ self) : OnlyDeferred self (q.putAsap task) := by
  unfold Queues.putAsap
  split
  · exact h
  · exact ⟨h.irq, by simp [h.asap, htask.symm]⟩

theorem onlyDeferred_irq (h : OnlyDeferred self q) (htask : task ≠ self) : OnlyDeferred self (q.putIrq task) := by
  unfold Queues.putIrq
  split
  · exact h
  · exact ⟨by simp [h.irq, htask.symm], h.asap⟩

theorem putAsap_deferred (q : Queues) (task : Ptr) : (q.putAsap task).deferred = q.deferred := by
  unfold Queues.putAsap
  split <;> rfl

theorem putIrq_deferred (q : Queues) (task : Ptr) : (q.putIrq task).deferred = q.deferred := by
  unfold Queues.putIrq
  split <;> rfl

theorem onlyDeferred_remove (h : OnlyDeferred self q) (task : Ptr) : OnlyDeferred self (q.remove task) :=
  ⟨h.irq, h.asap⟩

theorem takeAsap_other (h : OnlyDeferred self q) :
    q.takeAsap.2 ≠ some self ∧ OnlyDeferred self q.takeAsap.1 ∧ q.takeAsap.1.deferred = q.deferred := by
  unfold Queues.takeAsap
  have hasap := h.asap
  split
  · rename_i task asap heq
    rw [heq, List.mem_cons, not_or] at hasap
    exact ⟨fun heq => hasap.1 (Option.some.inj heq).symm, ⟨h.irq, hasap.2⟩, rfl⟩
  · exact ⟨nofun, h, rfl⟩

theorem take_cases (h : OnlyDeferred self q) (hself : self ≠ NULL) (now : mu_time_abs_t) :
    OnlyDeferred self (q.take now).1 ∧
      ((q.take now).2 ≠ some self ∧ own self (q.take now).1.deferred = own self q.deferred ∨
        (q.take now).2 = some self ∧ ∃ entry, ¬ mu_time_precedes now entry.at_time ∧
          own self q.deferred = entry :: own self (q.take now).1.deferred ∧
          q.deferred.length = (q.take now).1.deferred.length + 1) := by
  cases hirq : q.irq with
  | cons task irq =>
    have hother := h.irq
    rw [hirq, List.mem_cons, not_or] at hother
    rw [Queues.take_irq hirq]
    exact ⟨⟨hother.2, h.asap⟩, .inl ⟨fun heq => hother.1 (Option.some.inj heq).symm, rfl⟩⟩
  | nil =>
    rw [Queues.take_irq_none hirq]
    obtain ⟨hasap, honly, hkept⟩ := takeAsap_other h
    cases hdeferred : q.deferred with
    | nil =>
      rw [Queues.takeDeferred_none hdeferred, hkept, hdeferred]
      exact ⟨honly, .inl ⟨hasap, rfl⟩⟩
    | cons entry rest =>
      by_cases hearly : mu_time_precedes now entry.at_time
      · rw [Queues.takeDeferred_early hdeferred hearly, hkept, hdeferred]
        exact ⟨honly, .inl ⟨hasap, rfl⟩⟩
      by_cases hnull : entry.task = NULL
      · have hrest : OnlyDeferred self { q with deferred := rest } := ⟨h.irq, h.asap⟩
        obtain ⟨hasap, honly, hkept⟩ := takeAsap_other hrest
        rw [Queues.takeDeferred_null hdeferred hearly hnull, hkept, own_cons_other (hnull ▸ hself.symm)]
        exact ⟨honly, .inl ⟨hasap, rfl⟩⟩
      rw [Queues.takeDeferred_due hdeferred hearly hnull]
      refine ⟨⟨h.irq, h.asap⟩, ?_⟩
      by_cases htask : entry.task = self
      · exact .inr ⟨congrArg some htask, entry, hearly, own_cons_self htask rest, rfl⟩
      · exact .inl ⟨fun heq => htask (Option.some.inj heq), (own_cons_other htask rest).symm⟩

theorem after_other {e : SchedEvent} (h : OnlyDeferred self q) (he : e.names ≠ some self) (hstep : e ≠ .step)
    (now : mu_time_abs_t) :
    OnlyDeferred self (q.after now e) ∧ own self (q.after now e).deferred = own self q.deferred := by
  cases e with
  | clock _ => exact ⟨h, rfl⟩
  | set_idle_task _ => exact ⟨h, rfl⟩
  | task_done => exact ⟨h, rfl⟩
  | step => exact absurd rfl hstep
  | asap task =>
    have htask : task ≠ self := fun heq => he (congrArg some heq)
    exact ⟨onlyDeferred_asap h htask, congrArg (own self) (putAsap_deferred q task)⟩
  | from_isr task =>
    have htask : task ≠ self := fun heq => he (congrArg some heq)
    exact ⟨onlyDeferred_irq h htask, congrArg (own self) (putIrq_deferred q task)⟩
  | defer_until task at_time =>
    have htask : task ≠ self := fun heq => he (congrArg some heq)
    exact ⟨onlyDeferred_put h _, own_put_other htask q⟩
  | defer_for task in_time =>
    have htask : task ≠ self := fun heq => he (congrArg some heq)
    exact ⟨onlyDeferred_put h _, own_put_other htask q⟩
  | remove_deferred_task task =>
    have htask : task ≠ self := fun heq => he (congrArg some heq)
    exact ⟨onlyDeferred_remove h task, own_remove_other htask q⟩

theorem remove_none (h : own self q.deferred = []) : q.remove self = q := by
  unfold own at h
  unfold Queues.remove
  rw [List.filter_eq_nil_iff] at h
  rw [List.filter_eq_self.mpr]
  intro e he
  simpa using h e he

/-! ## The task of a timer -/

variable {s : mu_sched_t}

theorem call_eq_self (hself : self ≠ NULL) {task : Ptr} : mu_task_call task = some self ↔ task = self := by
  unfold mu_task_call
  split
  case isTrue hnull =>
    rw [hnull]
    exact ⟨nofun, fun heq => absurd heq.symm hself⟩
  case isFalse => exact Option.some_inj

theorem call_other {idle : Ptr} (hself : self ≠ NULL) (hidle : idle ≠ self) {taken : Option Ptr}
    (htaken : taken ≠ some self) : mu_task_call (taken.getD idle) ≠ some self := by
  rw [Ne, call_eq_self hself]
  cases taken with
  | none => exact hidle
  | some task => exact fun heq => htaken (congrArg some heq)

/-- The task of a timer. Only the timer schedules it. -/
structure OwnTask (task : Ptr) (s : mu_sched_t) (q : Queues) : Prop where
  holds : SchedHolds s q
  only : OnlyDeferred task q
  idle : s.idle_task ≠ task

theorem OwnTask.defer (h : OwnTask self s q) (at_time : mu_time_abs_t) :
    OwnTask self (mu_sched_defer_until s self at_time).1 (q.putDeferred ⟨at_time, self⟩) := by
  obtain ⟨hsame, hholds⟩ := holds_defer h.holds self at_time
  exact ⟨hholds, onlyDeferred_put h.only _, fun heq => h.idle (hsame.idle_task.symm.trans heq)⟩

theorem OwnTask.remove (h : OwnTask self s q) :
    OwnTask self (mu_sched_remove_deferred_task s self).1 (q.remove self) := by
  obtain ⟨hsame, hholds⟩ := remove_deferred_spec h.holds self
  exact ⟨hholds, onlyDeferred_remove h.only self, fun heq => h.idle (hsame.idle_task.symm.trans heq)⟩

theorem OwnTask.step (h : OwnTask self s q) (hself : self ≠ NULL) :
    OwnTask self (mu_sched_step s).1 (q.take s.clock).1 ∧ SameEnv s (mu_sched_step s).1 ∧
      ((mu_sched_step s).2 ≠ some self ∧ own self (q.take s.clock).1.deferred = own self q.deferred ∨
        (mu_sched_step s).2 = some self ∧
          (q.take s.clock).1.deferred.length ≠ MU_CONFIG_SCHED_MAX_DEFERRED_TASKS ∧
          ∃ entry, ¬ mu_time_precedes s.clock entry.at_time ∧
            own self q.deferred = entry :: own self (q.take s.clock).1.deferred) := by
  -- a step calls another task, or it takes the next entry of the timer, which is due
  obtain ⟨hholds, hcalled, henv⟩ := step_taken h.holds
  obtain ⟨honly, hcases⟩ := take_cases h.only hself s.clock
  refine ⟨⟨hholds, honly, henv.idle_task ▸ h.idle⟩, henv, ?_⟩
  rw [hcalled]
  rcases hcases with ⟨hother, hkept⟩ | ⟨htaken, entry, hdue, hown, hlength⟩
  · exact .inl ⟨call_other hself h.idle hother, hkept⟩
  · have hbound := h.holds.deferred.count_le
    rw [← h.holds.deferred.count] at hbound
    rw [htaken]
    exact .inr ⟨(call_eq_self hself).mpr rfl, by omega, entry, hdue, hown⟩

theorem schedStep_idle (h : SchedHolds s q) (hidle : s.idle_task ≠ self) {e : SchedEvent}
    (he : e.names ≠ some self) : (schedStep s e).1.idle_task ≠ self := by
  cases e with
  | set_idle_task task => exact fun heq => he (congrArg some heq)
  | defer_until task at_time =>
    rw [← (holds_defer h task at_time).1.idle_task] at hidle
    exact hidle
  | defer_for task in_time =>
    rw [← (holds_defer h task (mu_time_offset s.clock in_time)).1.idle_task] at hidle
    exact hidle
  | remove_deferred_task task =>
    rw [← (remove_deferred_spec h task).1.idle_task] at hidle
    exact hidle
  | step =>
    rw [← (step_taken h).2.2.idle_task] at hidle
    exact hidle
  | clock _ => exact hidle
  | asap _ => exact hidle
  | from_isr _ => exact hidle
  | task_done => exact hidle

theorem OwnTask.other (h : OwnTask self s q) {e : SchedEvent} (he : e.names ≠ some self) (hstep : e ≠ .step) :
    OwnTask self (schedStep s e).1 (q.after s.clock e) ∧
      own self (q.after s.clock e).deferred = own self q.deferred := by
  obtain ⟨honly, hkept⟩ := after_other h.only he hstep s.clock
  exact ⟨⟨holds_after h.holds e, honly, schedStep_idle h.holds h.idle he⟩, hkept⟩

/-! ## What holds of every run -/

/-- However the timer came to its state: a timer that is stopped has no entry, and one that runs has one at most. -/
structure Tidy (task : Ptr) (r : TimerRun) (q : Queues) : Prop where
  holds : SchedHolds r.sched q
  only : OnlyDeferred task q
  idle : r.sched.idle_task ≠ task
  stopped : r.timer.state ≠ MU_TIMER_STATE_RUNNING → own task q.deferred = []
  single : r.recalled = false → (own task q.deferred).length ≤ 1
  /-- A timer that calls its own task again and again. -/
  recalled : r.recalled = true → r.timer.state = MU_TIMER_STATE_RUNNING →
    r.timer.periodic = true ∧ r.timer.on_completion = task

variable {r : TimerRun} {delay_tics : mu_time_rel_t} {periodic : Bool} {on_completion : Ptr}

theorem Tidy.own_task (h : Tidy self r q) : OwnTask self r.sched q := ⟨h.holds, h.only, h.idle⟩

theorem timer_stop_spec (h : Tidy self r q) :
    SchedHolds (mu_timer_stop r.sched self r.timer).1 (q.remove self) ∧
      SameElse r.sched (mu_timer_stop r.sched self r.timer).1 := by
  unfold mu_timer_stop
  by_cases hrunning : r.timer.state = MU_TIMER_STATE_RUNNING
  · rw [if_pos hrunning]
    obtain ⟨hsame, hholds⟩ := remove_deferred_spec h.holds self
    exact ⟨hholds, hsame⟩
  · rw [if_neg hrunning, remove_none (h.stopped hrunning)]
    exact ⟨h.holds, SameElse.refl _⟩

theorem timer_start_spec (h : Tidy self r q) (delay_tics : mu_time_rel_t) (periodic : Bool) (on_completion : Ptr) :
    SchedHolds (mu_timer_start r.sched self r.timer delay_tics periodic on_completion).1
        ((q.remove self).putDeferred ⟨mu_time_offset r.sched.clock delay_tics, self⟩) ∧
      SameElse r.sched (mu_timer_start r.sched self r.timer delay_tics periodic on_completion).1 := by
  obtain ⟨hholds, hsame⟩ := timer_stop_spec h
  obtain ⟨hsame', hholds'⟩ := holds_defer hholds self (mu_time_offset r.sched.clock delay_tics)
  unfold mu_timer_start
  dsimp only
  rw [hsame.clock]
  exact ⟨hholds', hsame.trans hsame'⟩

theorem tidy_stop (h : Tidy self r q) : Tidy self (timerEvent self r .stop).1 (q.remove self) := by
  obtain ⟨hholds, hsame⟩ := timer_stop_spec h
  have hnone : own self (q.remove self).deferred = [] := own_remove_self q
  refine ⟨hholds, onlyDeferred_remove h.only self, ?_, fun _ => hnone, fun _ => ?_, fun _ hrunning => ?_⟩
  · exact fun heq => h.idle (hsame.idle_task.symm.trans heq)
  · rw [hnone]
    exact Nat.zero_le 1
  · exact absurd hrunning (by decide : MU_TIMER_STATE_IDLE ≠ MU_TIMER_STATE_RUNNING)

theorem tidy_start (h : Tidy self r q) (hrecalled : r.recalled = false) :
    Tidy self (timerEvent self r (.start delay_tics periodic on_completion)).1
      ((q.remove self).putDeferred ⟨mu_time_offset r.sched.clock delay_tics, self⟩) := by
  obtain ⟨hholds, hsame⟩ := timer_start_spec h delay_tics periodic on_completion
  refine ⟨hholds, onlyDeferred_put (onlyDeferred_remove h.only self) _, ?_, fun hstopped => absurd rfl hstopped,
    fun _ => own_put_self_le (own_remove_self q) _, fun hcalled => ?_⟩
  · exact fun heq => h.idle (hsame.idle_task.symm.trans heq)
  · exact absurd (hrecalled.symm.trans hcalled) Bool.false_ne_true

/-- What the call of the task does to the queues. -/
def afterCall (self : Ptr) (timer : mu_timer_t) (q : Queues) : Queues :=
  if timer.state = MU_TIMER_STATE_RUNNING ∧ timer.periodic then
    q.putDeferred ⟨mu_time_offset timer.delay_until timer.delay_tics, self⟩
  else q

theorem call_periodic (hrunning : r.timer.state = MU_TIMER_STATE_RUNNING) (hperiodic : r.timer.periodic) :
    callTimer self r =
      (⟨(mu_sched_defer_until r.sched self (mu_time_offset r.timer.delay_until r.timer.delay_tics)).1,
        { r.timer with delay_until := mu_time_offset r.timer.delay_until r.timer.delay_tics },
        mu_task_call r.timer.on_completion = some self⟩, [r.sched.clock]) := by
  unfold callTimer mu_timer_fn mu_timer_is_running
  rw [if_pos hrunning, if_pos hperiodic, if_pos (decide_eq_true hrunning)]

theorem call_once (hrunning : r.timer.state = MU_TIMER_STATE_RUNNING) (hperiodic : ¬ r.timer.periodic) :
    callTimer self r =
      (⟨r.sched, { r.timer with state := MU_TIMER_STATE_IDLE }, mu_task_call r.timer.on_completion = some self⟩,
        [r.sched.clock]) := by
  unfold callTimer mu_timer_fn mu_timer_is_running
  rw [if_pos hrunning, if_neg hperiodic, if_pos (decide_eq_true hrunning)]

theorem call_stopped (hstopped : r.timer.state ≠ MU_TIMER_STATE_RUNNING) :
    callTimer self r = ({ r with recalled := false }, []) := by
  unfold callTimer mu_timer_fn mu_timer_is_running
  rw [if_neg hstopped, if_neg (by simpa using hstopped)]
  rfl

theorem tidy_call (hself : self ≠ NULL) (h : OwnTask self r.sched q)
    (stopped : r.timer.state ≠ MU_TIMER_STATE_RUNNING → own self q.deferred = [])
    (popped : r.recalled = false → own self q.deferred = [])
    (recalled : r.recalled = true → r.timer.state = MU_TIMER_STATE_RUNNING →
      r.timer.periodic = true ∧ r.timer.on_completion = self) :
    Tidy self (callTimer self r).1 (afterCall self r.timer q) := by
  unfold afterCall
  by_cases hrunning : r.timer.state = MU_TIMER_STATE_RUNNING
  · have hpopped : r.timer.periodic = false ∨ r.timer.on_completion ≠ self → own self q.deferred = [] := by
      intro hother
      apply popped
      by_contra hcalled
      obtain ⟨hperiodic, hcall⟩ := recalled (by simpa using hcalled) hrunning
      simp [hperiodic, hcall] at hother
    by_cases hperiodic : r.timer.periodic
    · rw [call_periodic hrunning hperiodic, if_pos ⟨hrunning, hperiodic⟩]
      obtain ⟨hholds, honly, hidle⟩ := h.defer (mu_time_offset r.timer.delay_until r.timer.delay_tics)
      refine ⟨hholds, honly, hidle, fun hstopped => absurd hrunning hstopped, fun hcalled => ?_,
        fun hcalled _ => ⟨hperiodic, (call_eq_self hself).mp (of_decide_eq_true hcalled)⟩⟩
      have hother := mt (call_eq_self hself).mpr (of_decide_eq_false hcalled)
      exact own_put_self_le (hpopped (.inr hother)) _
    · rw [call_once hrunning hperiodic, if_neg (fun hboth => hperiodic hboth.2)]
      have hnone := hpopped (.inl (by simpa using hperiodic))
      have hidle : MU_TIMER_STATE_IDLE ≠ MU_TIMER_STATE_RUNNING := by decide
      refine ⟨h.holds, h.only, h.idle, fun _ => hnone, fun _ => ?_, fun _ hstate => absurd hstate hidle⟩
      rw [hnone]
      exact Nat.zero_le 1
  · rw [call_stopped hrunning, if_neg (fun hboth => hrunning hboth.1)]
    refine ⟨h.holds, h.only, h.idle, stopped, fun _ => ?_, nofun⟩
    rw [stopped hrunning]
    exact Nat.zero_le 1

theorem step_cases (h : Tidy self r q) (hself : self ≠ NULL) (hrecalled : r.recalled = false) :
    let s' := (mu_sched_step r.sched).1
    let q' := (q.take r.sched.clock).1
    OwnTask self s' q' ∧ SameEnv r.sched s' ∧
      ((mu_sched_step r.sched).2 ≠ some self ∧ own self q'.deferred = own self q.deferred ∨
        (mu_sched_step r.sched).2 = some self ∧ own self q'.deferred = [] ∧
          q'.deferred.length ≠ MU_CONFIG_SCHED_MAX_DEFERRED_TASKS ∧
          ∃ entry, own self q.deferred = [entry] ∧ ¬ mu_time_precedes r.sched.clock entry.at_time) := by
  obtain ⟨hafter, henv, hcases⟩ := h.own_task.step hself
  refine ⟨hafter, henv, ?_⟩
  rcases hcases with hother | ⟨hcalled, hroom, entry, hdue, hown⟩
  · exact .inl hother
  · have hsingle := h.single hrecalled
    rw [hown, List.length_cons] at hsingle
    have hnone : own self (q.take r.sched.clock).1.deferred = [] := List.eq_nil_of_length_eq_zero (by omega)
    rw [hnone] at hown
    exact .inr ⟨hcalled, hnone, hroom, entry, hown, hdue⟩

theorem tidy_other {s' : mu_sched_t} {q' : Queues} (h : Tidy self r q) (hafter : OwnTask self s' q')
    (hkept : own self q'.deferred = own self q.deferred) : Tidy self { r with sched := s' } q' := by
  refine ⟨hafter.holds, hafter.only, hafter.idle, fun hstopped => ?_, fun hrecalled => ?_, h.recalled⟩
  · rw [hkept]
    exact h.stopped hstopped
  · rw [hkept]
    exact h.single hrecalled

theorem tidy_sched (h : Tidy self r q) {e : SchedEvent} (he : e.names ≠ some self) (hstep : e ≠ .step) :
    Tidy self { r with sched := (schedStep r.sched e).1 } (q.after r.sched.clock e) := by
  obtain ⟨hafter, hkept⟩ := h.own_task.other he hstep
  exact tidy_other h hafter hkept

theorem timerEvent_sched {e : SchedEvent} (hstep : e ≠ .step) :
    timerEvent self r (.sched e) = ({ r with sched := (schedStep r.sched e).1 }, []) := by
  cases e with
  | step => exact absurd rfl hstep
  | _ => rfl

theorem tidy_step (hself : self ≠ NULL) (r : TimerRun) (e : TimerEvent) (he : Apart self e)
    (h : ∃ q, Tidy self r q) : ∃ q, Tidy self ((timerMachine self).step r e).1 q := by
  obtain ⟨q, h⟩ := h
  dsimp only [timerMachine]
  cases hrecalled : r.recalled with
  | true =>
    rw [if_pos rfl]
    exact ⟨_, tidy_call hself h.own_task h.stopped (fun hnot => absurd (hrecalled.symm.trans hnot) nofun) h.recalled⟩
  | false =>
    rw [if_neg Bool.false_ne_true]
    cases e with
    | start delay_tics periodic on_completion => exact ⟨_, tidy_start h hrecalled⟩
    | stop => exact ⟨_, tidy_stop h⟩
    | sched e =>
      by_cases hstep : e = .step
      · subst hstep
        obtain ⟨hafter, -, hcases⟩ := step_cases h hself hrecalled
        unfold timerEvent
        dsimp only
        rcases hcases with ⟨hother, hkept⟩ | ⟨hcalled, hnone, -⟩
        · rw [if_neg hother]
          exact ⟨_, tidy_other h hafter hkept⟩
        · rw [if_pos hcalled]
          exact ⟨_, tidy_call hself hafter (fun _ => hnone) (fun _ => hnone) h.recalled⟩
      · rw [timerEvent_sched hstep]
        exact ⟨_, tidy_sched h he hstep⟩

theorem tidy_init (hs : Sized s) (hself : self ≠ NULL) (timer : mu_timer_t) :
    Tidy self ⟨mu_sched_init s, timer, false⟩ ⟨[], [], []⟩ :=
  ⟨init_holds hs, ⟨List.not_mem_nil, List.not_mem_nil⟩, hself.symm, fun _ => rfl, fun _ => Nat.zero_le 1, nofun⟩

/-! ## A running timer is a scheduled timer -/

def RunningScheduled (self : Ptr) (r : TimerRun) : Prop :=
  own self (r.sched.s_deferred_tasks.take r.sched.deferred_task_count) =
    if mu_timer_is_running r.timer then [⟨r.timer.delay_until, self⟩] else []

instance (self : Ptr) (r : TimerRun) : Decidable (RunningScheduled self r) :=
  inferInstanceAs (Decidable (_ = _))

/-- A start finds a slot, and a periodic timer does not call its own task. -/
def StartOk (self : Ptr) (r : TimerRun) : TimerEvent → Prop
  | .start _ periodic on_completion =>
    (mu_timer_is_running r.timer ∨ r.sched.deferred_task_count < MU_CONFIG_SCHED_MAX_DEFERRED_TASKS) ∧
      (periodic → on_completion ≠ self)
  | _ => True

instance (self : Ptr) (r : TimerRun) : DecidablePred (StartOk self r)
  | .start _ periodic on_completion =>
    inferInstanceAs (Decidable ((mu_timer_is_running r.timer ∨
      r.sched.deferred_task_count < MU_CONFIG_SCHED_MAX_DEFERRED_TASKS) ∧ (periodic → on_completion ≠ self)))
  | .sched _ => isTrue trivial
  | .stop => isTrue trivial

structure Armed (task : Ptr) (r : TimerRun) (q : Queues) : Prop where
  tidy : Tidy task r q
  armed : r.timer.state = MU_TIMER_STATE_RUNNING → own task q.deferred = [⟨r.timer.delay_until, task⟩]
  outside : r.timer.state = MU_TIMER_STATE_RUNNING → r.timer.periodic → r.timer.on_completion ≠ task

theorem Armed.not_recalled (h : Armed self r q) (hrecalled : r.recalled = true) :
    r.timer.state ≠ MU_TIMER_STATE_RUNNING := by
  intro hrunning
  obtain ⟨hperiodic, hcall⟩ := h.tidy.recalled hrecalled hrunning
  exact h.outside hrunning hperiodic hcall

theorem Armed.scheduled (h : Armed self r q) : RunningScheduled self r := by
  have hheld := h.tidy.holds.deferred.held
  unfold RunningScheduled mu_timer_is_running
  rw [hheld]
  unfold own at *
  rw [List.filter_reverse]
  by_cases hrunning : r.timer.state = MU_TIMER_STATE_RUNNING
  · have harmed := h.armed hrunning
    unfold own at harmed
    rw [harmed, if_pos (decide_eq_true hrunning)]
    rfl
  · have hstopped := h.tidy.stopped hrunning
    unfold own at hstopped
    rw [hstopped, if_neg (by simpa using hrunning)]
    rfl

theorem room_remove (h : Tidy self r q) (hroom : own self q.deferred ≠ [] ∨
    r.sched.deferred_task_count < MU_CONFIG_SCHED_MAX_DEFERRED_TASKS) :
    (q.remove self).deferred.length ≠ MU_CONFIG_SCHED_MAX_DEFERRED_TASKS := by
  have hsplit := (q.deferred.filter_append_perm fun e => decide (e.task = self)).length_eq
  have hbound := h.holds.deferred.count_le
  have hremoved : (q.remove self).deferred = q.deferred.filter (fun e => !decide (e.task = self)) := by
    simp [Queues.remove]
  rw [List.length_append, ← hremoved] at hsplit
  rw [← h.holds.deferred.count] at hbound hroom
  rcases hroom with hown | hcount
  · have := List.length_pos_of_ne_nil hown
    unfold own at this
    omega
  · omega

theorem armed_start (h : Tidy self r q) (hrecalled : r.recalled = false)
    (hroom : (q.remove self).deferred.length ≠ MU_CONFIG_SCHED_MAX_DEFERRED_TASKS)
    (houtside : periodic → on_completion ≠ self) :
    Armed self (timerEvent self r (.start delay_tics periodic on_completion)).1
      ((q.remove self).putDeferred ⟨mu_time_offset r.sched.clock delay_tics, self⟩) := by
  have hclock := (timer_stop_spec h).2.clock
  refine ⟨tidy_start h hrecalled, fun _ => ?_, fun _ => houtside⟩
  rw [own_put_self (own_remove_self q) hroom]
  unfold timerEvent mu_timer_start
  dsimp only
  rw [hclock]

theorem armed_call {s' : mu_sched_t} {q' : Queues} (h : Armed self r q) (hself : self ≠ NULL)
    (hafter : OwnTask self s' q') (hnone : own self q'.deferred = [])
    (hroom : q'.deferred.length ≠ MU_CONFIG_SCHED_MAX_DEFERRED_TASKS) :
    Armed self (callTimer self { r with sched := s' }).1 (afterCall self r.timer q') := by
  refine ⟨tidy_call hself hafter (fun _ => hnone) (fun _ => hnone) h.tidy.recalled, ?_, ?_⟩
  all_goals
    by_cases hrunning : r.timer.state = MU_TIMER_STATE_RUNNING
    case neg =>
      rw [call_stopped (r := { r with sched := s' }) hrunning]
      exact fun hstate => absurd hstate hrunning
    by_cases hperiodic : r.timer.periodic
    case neg =>
      rw [call_once (r := { r with sched := s' }) hrunning hperiodic]
      exact fun hstate => absurd hstate (by decide : MU_TIMER_STATE_IDLE ≠ MU_TIMER_STATE_RUNNING)
    rw [call_periodic (r := { r with sched := s' }) hrunning hperiodic]
  · unfold afterCall
    rw [if_pos ⟨hrunning, hperiodic⟩]
    exact fun _ => own_put_self hnone hroom _
  · exact h.outside

theorem armed_other {s' : mu_sched_t} {q' : Queues} (h : Armed self r q) (htidy : Tidy self { r with sched := s' } q')
    (hkept : own self q'.deferred = own self q.deferred) : Armed self { r with sched := s' } q' :=
  ⟨htidy, fun hrunning => hkept.trans (h.armed hrunning), h.outside⟩

theorem armed_step (hself : self ≠ NULL) (r : TimerRun) (e : TimerEvent) (he : Apart self e ∧ StartOk self r e)
    (h : ∃ q, Armed self r q) : ∃ q, Armed self ((timerMachine self).step r e).1 q := by
  obtain ⟨q, h⟩ := h
  dsimp only [timerMachine]
  cases hrecalled : r.recalled with
  | true =>
    have hstopped := h.not_recalled hrecalled
    have htidy := tidy_call hself h.tidy.own_task h.tidy.stopped
      (fun hnot => absurd (hrecalled.symm.trans hnot) nofun) h.tidy.recalled
    rw [if_pos rfl]
    refine ⟨_, htidy, ?_, ?_⟩
    all_goals
      rw [call_stopped hstopped]
      exact fun hstate => absurd hstate hstopped
  | false =>
    rw [if_neg Bool.false_ne_true]
    cases e with
    | start delay_tics periodic on_completion =>
      obtain ⟨hroom, houtside⟩ := he.2
      refine ⟨_, armed_start h.tidy hrecalled (room_remove h.tidy (hroom.imp_left fun hrunning => ?_)) houtside⟩
      rw [h.armed (of_decide_eq_true hrunning)]
      exact List.cons_ne_nil _ _
    | stop =>
      have hidle : MU_TIMER_STATE_IDLE ≠ MU_TIMER_STATE_RUNNING := by decide
      exact ⟨_, tidy_stop h.tidy, fun hstate => absurd hstate hidle, fun hstate => absurd hstate hidle⟩
    | sched e =>
      by_cases hstep : e = .step
      · subst hstep
        obtain ⟨hafter, -, hcases⟩ := step_cases h.tidy hself hrecalled
        unfold timerEvent
        dsimp only
        rcases hcases with ⟨hother, hkept⟩ | ⟨hcalled, hnone, hroom, -⟩
        · rw [if_neg hother]
          exact ⟨_, armed_other h (tidy_other h.tidy hafter hkept) hkept⟩
        · rw [if_pos hcalled]
          exact ⟨_, armed_call h hself hafter hnone hroom⟩
      · rw [timerEvent_sched hstep]
        exact ⟨_, armed_other h (tidy_sched h.tidy he.1 hstep) (after_other h.tidy.only he.1 hstep _).2⟩

theorem armed_init (hs : Sized s) (hself : self ≠ NULL) {timer : mu_timer_t}
    (hstate : timer.state ≠ MU_TIMER_STATE_RUNNING) :
    Armed self ⟨mu_sched_init s, mu_timer_init timer, false⟩ ⟨[], [], []⟩ :=
  ⟨tidy_init hs hself _, fun hrunning => absurd hrunning hstate, fun hrunning => absurd hrunning hstate⟩

/-- A timer whose memory did not say that it runs is a scheduled timer whenever it runs, if each start finds a slot. -/
theorem running_always_scheduled (self : Ptr) (hself : self ≠ NULL) (s : mu_sched_t) (hs : Sized s) (timer : mu_timer_t)
    (hstate : timer.state ≠ MU_TIMER_STATE_RUNNING) (es : List TimerEvent)
    (hok : (timerMachine self).Meets (fun r e => Apart self e ∧ StartOk self r e) es
      ⟨mu_sched_init s, mu_timer_init timer, false⟩) :
    mu_timer_is_stopped (mu_timer_init timer) ∧
      (timerMachine self).Always (RunningScheduled self) es ⟨mu_sched_init s, mu_timer_init timer, false⟩ := by
  refine ⟨decide_eq_true hstate, ?_⟩
  have harmed := Machine.always_of_meets (armed_step hself) hok ⟨_, armed_init hs hself hstate⟩
  refine harmed.imp fun r h => ?_
  obtain ⟨q, h⟩ := h
  exact h.scheduled

/-- Task 5 is a periodic timer that is stopped in its third period, with memory that was all ones. -/
theorem running_always_scheduled_periodic :
    let timer : mu_timer_t := ⟨⟨0xffffffff, 7⟩, 0xffffffff, 7, -1, 0, true⟩
    let es : List TimerEvent :=
      [.start 10 true 8, .sched (.defer_until 6 10), .sched (.clock 25), .sched .step, .sched .step, .sched .step,
        .stop]
    (timerMachine 5).Always (RunningScheduled 5) es ⟨mu_sched_init staticStorage, mu_timer_init timer, false⟩ := by
  exact (running_always_scheduled 5 (by decide) staticStorage staticStorage_sized _ (by decide) _ (by decide +kernel)).2

/-- The memory says that the timer runs; twenty other tasks are deferred before the start; a periodic timer calls its
own task. -/
theorem running_not_scheduled :
    let start (timer : mu_timer_t) : TimerRun := ⟨mu_sched_init staticStorage, mu_timer_init timer, false⟩
    let full := List.replicate 20 (TimerEvent.sched (.defer_until 6 9))
    mu_timer_is_stopped (mu_timer_init ⟨⟨0, 0⟩, 1, 0, 0, 0, false⟩) = false ∧
      ¬ RunningScheduled 5 ((timerMachine 5).run (full ++ [.start 10 false 8]) (start ⟨⟨0, 0⟩, 0, 0, 0, 0, false⟩)).1 ∧
      ¬ RunningScheduled 5 ((timerMachine 5).run [.start 10 true 5, .sched (.clock 10), .sched .step, .stop]
        (start ⟨⟨0, 0⟩, 0, 0, 0, 0, false⟩)).1 := by
  decide +kernel

end ToyTstat.Mulib
