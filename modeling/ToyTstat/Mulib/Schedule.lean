import ToyTstat.Lib.StableSort
import ToyTstat.Lib.Window
import ToyTstat.Mulib.Sched

/-!
# The scheduler keeps to time

The schedule that is meant has its deferred tasks in the order of the calls, and looks for the
earliest one at every step. The code finds the same one as long as the times fit into one window.
-/

open CLib ToyTstat.Code ToyTstat.Code.mu_task_err_t

namespace ToyTstat.Mulib

/-! ## The schedule that is meant -/

structure Schedule where
  irq : List Ptr
  asap : List Ptr
  deferred : List deferred_task_t
  clock : mu_time_abs_t
  idle_task : Ptr

/-- The signed time from `now` until the task is due. -/
def timeLeft (now : mu_time_abs_t) (e : deferred_task_t) : Int := (mu_time_difference e.at_time now).toInt

namespace Schedule

/-- The deferred task with the least time left, and of several such tasks the one deferred first. -/
noncomputable def earliest (q : Schedule) : Option deferred_task_t := q.deferred.argmin (timeLeft q.clock)

/-- The head of the asap queue, or the idle task. -/
def runAsap (q : Schedule) : Schedule × Option Ptr :=
  match q.asap with
  | task :: asap => ({ q with asap }, mu_task_call task)
  | [] => (q, mu_task_call q.idle_task)

/-- A deferred `NULL` that is due is dropped, and the step goes on as if no task were due. -/
noncomputable def runDeferred (q : Schedule) : Schedule × Option Ptr :=
  match q.earliest with
  | some entry =>
    if timeLeft q.clock entry ≤ 0 then
      let q := { q with deferred := q.deferred.erase entry }
      if entry.task = NULL then q.runAsap else (q, some entry.task)
    else q.runAsap
  | none => q.runAsap

noncomputable def run (q : Schedule) : Schedule × Option Ptr :=
  match q.irq with
  | task :: irq => ({ q with irq }, mu_task_call task)
  | [] => q.runDeferred

def defer (q : Schedule) (task : Ptr) (at_time : mu_time_abs_t) : Schedule × List SchedOutput :=
  if q.deferred.length = MU_CONFIG_SCHED_MAX_DEFERRED_TASKS then (q, [.answered MU_TASK_ERR_SCHED_FULL])
  else ({ q with deferred := q.deferred ++ [⟨at_time, task⟩] }, [.answered MU_TASK_ERR_NONE])

noncomputable def step (q : Schedule) : SchedEvent → Schedule × List SchedOutput
  | .clock now => ({ q with clock := now }, [])
  | .set_idle_task task => ({ q with idle_task := task }, [])
  | .asap task =>
    if q.asap.length = MU_CONFIG_SCHED_MAX_ASAP_TASKS then (q, [.answered MU_TASK_ERR_SCHED_FULL])
    else ({ q with asap := q.asap ++ [task] }, [.answered MU_TASK_ERR_NONE])
  | .from_isr task =>
    if q.irq.length = MU_CONFIG_SCHED_MAX_IRQ_TASKS.toNat - 1 then (q, [.answered MU_TASK_ERR_SCHED_FULL])
    else ({ q with irq := q.irq ++ [task] }, [.answered MU_TASK_ERR_NONE])
  | .defer_until task at_time => q.defer task at_time
  | .defer_for task in_time => q.defer task (mu_time_offset q.clock in_time)
  | .remove_deferred_task task =>
    ({ q with deferred := q.deferred.filter (fun e => e.task ≠ task) },
      [.answered (if ∃ e ∈ q.deferred, e.task = task then MU_TASK_ERR_NONE else MU_TASK_ERR_NOT_FOUND)])
  | .step => (q.run.1, [.called q.run.2])
  | .task_done => (q, [])

end Schedule

noncomputable def scheduleMachine : Machine Schedule SchedEvent SchedOutput := ⟨Schedule.step⟩

/-! ## Time in a window -/

def pendingTimes (s : mu_sched_t) : List mu_time_abs_t :=
  (s.s_deferred_tasks.take s.deferred_task_count).map deferred_task_t.at_time

/-- The current time and all pending times lie in one window. -/
def Windowed (s : mu_sched_t) : Prop := ∃ base, InWindow base (s.clock :: pendingTimes s)

theorem follows_iff {base t1 t2 : mu_time_abs_t} (h1 : offset base t1 < halfCircle)
    (h2 : offset base t2 < halfCircle) : mu_time_follows t1 t2 ↔ offset base t2 < offset base t1 := by
  rw [mu_time_follows, decide_eq_true_iff, gt_iff_lt, Int64.lt_iff_toInt_lt, mu_time_difference,
    signed_difference h1 h2, Int64.toInt_zero]
  omega

theorem precedes_iff {base t1 t2 : mu_time_abs_t} (h1 : offset base t1 < halfCircle)
    (h2 : offset base t2 < halfCircle) : mu_time_precedes t1 t2 ↔ offset base t1 < offset base t2 := by
  rw [mu_time_precedes, decide_eq_true_iff, Int64.lt_iff_toInt_lt, mu_time_difference, signed_difference h1 h2,
    Int64.toInt_zero]
  omega

theorem timeLeft_eq {base now : mu_time_abs_t} {e : deferred_task_t} (hnow : offset base now < halfCircle)
    (he : offset base e.at_time < halfCircle) : timeLeft now e = (offset base e.at_time : Int) - offset base now := by
  rw [timeLeft, mu_time_difference, signed_difference he hnow]

abbrev Sorted (calls queue : List deferred_task_t) : Prop :=
  StableSort mu_time_follows deferred_task_t.at_time calls queue

variable {s : mu_sched_t} {base : mu_time_abs_t} {queue calls : List deferred_task_t} {entry : deferred_task_t}

theorem mem_pendingTimes (h : DeferredHolds s queue) {t : mu_time_abs_t} :
    t ∈ pendingTimes s ↔ ∃ e ∈ queue, e.at_time = t := by
  rw [pendingTimes, h.held, List.mem_map]
  simp only [List.mem_reverse]

theorem in_window (hwindow : InWindow base (s.clock :: pendingTimes s)) (h : DeferredHolds s queue) :
    ∀ e ∈ queue, offset base e.at_time < halfCircle := by
  intro e he
  exact hwindow _ (List.mem_cons_of_mem _ ((mem_pendingTimes h).mpr ⟨e, he, rfl⟩))

theorem ranked_of_window {times : List mu_time_abs_t} (h : InWindow base times) :
    RankedBy mu_time_follows (offset base) times :=
  fun a ha b hb => follows_iff (h a ha) (h b hb)

/-- The code's next task is the earliest one. -/
theorem earliest_eq {now : mu_time_abs_t} (hsorted : Sorted calls (entry :: queue))
    (hnow : offset base now < halfCircle) (hwindow : ∀ e ∈ calls, offset base e.at_time < halfCircle) :
    calls.argmin (timeLeft now) = some entry := by
  have hentry : offset base entry.at_time < halfCircle := hwindow entry (hsorted.mem_iff.mp List.mem_cons_self)
  apply hsorted.argmin
  · intro e he
    rw [follows_iff hentry (hwindow e he), timeLeft_eq hnow (hwindow e he), timeLeft_eq hnow hentry]
    omega
  · intro e he heq
    rw [timeLeft_eq hnow (hwindow e he), timeLeft_eq hnow hentry] at heq
    have : offset base e.at_time = offset base entry.at_time := by omega
    exact eq_of_offset_eq this

/-! ## The refinement -/

/-- The code's state stands for the schedule. -/
structure Schedules (s : mu_sched_t) (q : Schedule) : Prop where
  queues : ∃ queue, SchedHolds s ⟨q.irq, q.asap, queue⟩ ∧ Sorted q.deferred queue
  clock : s.clock = q.clock
  idle_task : s.idle_task = q.idle_task

variable {q : Schedule}

theorem schedules_defer (h : Schedules s q) (task : Ptr) (at_time : mu_time_abs_t)
    (hwindow : Windowed (sched_aux s task at_time).1) :
    Schedules (sched_aux s task at_time).1 (q.defer task at_time).1 ∧
      [.answered (sched_aux s task at_time).2] = (q.defer task at_time).2 := by
  obtain ⟨⟨queue, hholds, hsorted⟩, hclock, hidle⟩ := h
  rw [Schedule.defer, ← hsorted.length_eq]
  by_cases hfull : queue.length = MU_CONFIG_SCHED_MAX_DEFERRED_TASKS
  · rw [if_pos hfull, defer_full hholds hfull]
    exact ⟨⟨⟨queue, hholds, hsorted⟩, hclock, hidle⟩, rfl⟩
  · obtain ⟨herr, hsame, hdeferred⟩ := defer_spec hholds hfull task at_time
    obtain ⟨base, hbase⟩ := hwindow
    have hranked : RankedBy mu_time_follows (offset base) (at_time :: q.deferred.map deferred_task_t.at_time) := by
      have hin := in_window hbase hdeferred.deferred
      refine ranked_of_window fun t ht => ?_
      rcases List.mem_cons.mp ht with rfl | ht
      · exact hin ⟨t, task⟩ ((List.perm_orderedInsert _ _ _).mem_iff.mpr List.mem_cons_self)
      · obtain ⟨e, he, rfl⟩ := List.mem_map.mp ht
        have hmem := hsorted.mem_iff.mpr he
        exact hin e ((List.perm_orderedInsert _ _ _).mem_iff.mpr (List.mem_cons_of_mem _ hmem))
    rw [if_neg hfull, herr]
    refine ⟨⟨⟨_, hdeferred, ?_⟩, hsame.clock.trans hclock, hsame.idle_task.trans hidle⟩, rfl⟩
    exact hsorted.insert (x := ⟨at_time, task⟩) hranked

theorem schedules_remove (h : Schedules s q) (task : Ptr) :
    Schedules (schedStep s (.remove_deferred_task task)).1 (q.step (.remove_deferred_task task)).1 ∧
      (schedStep s (.remove_deferred_task task)).2 = (q.step (.remove_deferred_task task)).2 := by
  obtain ⟨⟨queue, hholds, hsorted⟩, hclock, hidle⟩ := h
  obtain ⟨hsame, hremoved⟩ := remove_deferred_spec hholds task
  refine ⟨⟨⟨_, hremoved, hsorted.filter _⟩, hsame.clock.trans hclock, hsame.idle_task.trans hidle⟩, ?_⟩
  dsimp only [schedStep, Schedule.step]
  rw [(remove_spec hholds.deferred task).1]
  simp only [hsorted.mem_iff]

/-! ### The step -/

theorem schedules_call (h : Schedules s q) :
    Schedules (step_call s).1 q ∧ (step_call s).2 = mu_task_call s.curr_task := by
  obtain ⟨⟨queue, hholds, hsorted⟩, hclock, hidle⟩ := h
  obtain ⟨hcalled, hkept, henv⟩ := step_call_spec hholds
  exact ⟨⟨⟨queue, hkept, hsorted⟩, henv.clock.trans hclock, henv.idle_task.trans hidle⟩, hcalled⟩

theorem schedules_with_task (h : Schedules s q) (curr_task : Ptr) : Schedules { s with curr_task } q := by
  obtain ⟨⟨queue, hholds, hsorted⟩, hclock, hidle⟩ := h
  exact ⟨⟨queue, hholds.with_task curr_task s.idle_task s.clock, hsorted⟩, hclock, hidle⟩

theorem schedules_runAsap (h : Schedules s q) :
    Schedules (step_from_asap s).1 q.runAsap.1 ∧ (step_from_asap s).2 = q.runAsap.2 := by
  have hidle := h.idle_task
  obtain ⟨queue, hholds, hsorted⟩ := h.queues
  rw [step_from_asap_eq, Schedule.runAsap]
  cases hasap : q.asap with
  | nil =>
    rw [hasap] at hholds
    rw [step_asap_empty hholds, if_neg Bool.false_ne_true, ← hidle]
    exact schedules_call (schedules_with_task h s.idle_task)
  | cons task asap =>
    rw [hasap] at hholds
    obtain ⟨hfound, rfl, hnext⟩ := step_asap_next hholds
    have henv := step_asap_env s
    rw [hfound, if_pos rfl]
    exact schedules_call ⟨⟨queue, hnext, hsorted⟩, henv.clock.trans h.clock, henv.idle_task.trans h.idle_task⟩

theorem schedules_runDeferred (h : Schedules s q) (hwindow : Windowed s) :
    Schedules (step_from_deferred s).1 q.runDeferred.1 ∧ (step_from_deferred s).2 = q.runDeferred.2 := by
  obtain ⟨queue, hholds, hsorted⟩ := h.queues
  obtain ⟨base, hbase⟩ := hwindow
  have hin := in_window hbase hholds.deferred
  have hnow : offset base q.clock < halfCircle := h.clock ▸ hbase s.clock List.mem_cons_self
  rw [step_from_deferred_eq, Schedule.runDeferred, Schedule.earliest]
  cases queue with
  | nil =>
    have hnone : q.deferred = [] := List.eq_nil_of_length_eq_zero hsorted.length_eq.symm
    rw [step_deferred_empty hholds, if_neg Bool.false_ne_true, hnone]
    exact schedules_runAsap (schedules_with_task h NULL)
  | cons entry rest =>
    have hentry := hin entry List.mem_cons_self
    rw [earliest_eq hsorted hnow fun e he => hin e (hsorted.mem_iff.mpr he)]
    have hdue : mu_time_precedes s.clock entry.at_time ↔ ¬ timeLeft q.clock entry ≤ 0 := by
      rw [h.clock, precedes_iff hnow hentry, timeLeft_eq hnow hentry]
      omega
    by_cases hearly : mu_time_precedes s.clock entry.at_time
    · rw [step_deferred_early hholds hearly, if_neg Bool.false_ne_true]
      dsimp only
      rw [if_neg (hdue.mp hearly)]
      exact schedules_runAsap (schedules_with_task h NULL)
    · obtain ⟨hfound, htask, hnext⟩ := step_deferred_due hholds hearly
      have henv := step_deferred_env s
      have hpopped : Schedules (step_deferred s).1 { q with deferred := q.deferred.erase entry } :=
        ⟨⟨rest, hnext, hsorted.pop⟩, henv.clock.trans h.clock, henv.idle_task.trans h.idle_task⟩
      dsimp only
      rw [hfound, if_pos (not_not.mp (mt hdue.mpr hearly))]
      by_cases hnull : entry.task = NULL
      · rw [if_neg (by simpa using hnull), if_pos hnull]
        exact schedules_runAsap hpopped
      · rw [if_pos (by simpa using hnull), if_neg hnull]
        have hcall := schedules_call hpopped
        rw [htask, mu_task_call, if_neg hnull] at hcall
        exact hcall

theorem schedules_run (h : Schedules s q) (hwindow : Windowed s) :
    Schedules (mu_sched_step s).1 q.run.1 ∧ (mu_sched_step s).2 = q.run.2 := by
  obtain ⟨queue, hholds, hsorted⟩ := h.queues
  rw [mu_sched_step_eq, Schedule.run]
  cases hirq : q.irq with
  | nil =>
    rw [hirq] at hholds
    rw [step_irq_empty hholds, if_neg Bool.false_ne_true]
    exact schedules_runDeferred (schedules_with_task h NULL) hwindow
  | cons task irq =>
    rw [hirq] at hholds
    obtain ⟨hfound, rfl, hnext⟩ := step_irq_next hholds
    have henv := step_irq_env s
    rw [hfound, if_pos rfl]
    exact schedules_call ⟨⟨queue, hnext, hsorted⟩, henv.clock.trans h.clock, henv.idle_task.trans h.idle_task⟩

theorem schedules_step : Machine.RefinesWhile schedMachine scheduleMachine Windowed Schedules := by
  intro s q e hbefore hafter h
  have hclock := h.clock
  have hidle := h.idle_task
  obtain ⟨queue, hholds, hsorted⟩ := h.queues
  dsimp only [schedMachine, scheduleMachine] at hafter ⊢
  cases e with
  | clock now => exact ⟨⟨⟨queue, hholds.with_task s.curr_task s.idle_task now, hsorted⟩, rfl, hidle⟩, rfl⟩
  | set_idle_task task => exact ⟨⟨⟨queue, hholds.with_task s.curr_task task s.clock, hsorted⟩, hclock, rfl⟩, rfl⟩
  | asap task =>
    rw [schedStep, Schedule.step]
    by_cases hfull : q.asap.length = MU_CONFIG_SCHED_MAX_ASAP_TASKS
    · rw [if_pos hfull, asap_full hholds hfull]
      exact ⟨h, rfl⟩
    · obtain ⟨herr, hput⟩ := asap_spec hholds hfull task
      rw [if_neg hfull, herr]
      exact ⟨⟨⟨queue, hput, hsorted⟩, hclock, hidle⟩, rfl⟩
  | from_isr task =>
    rw [schedStep, Schedule.step]
    by_cases hfull : q.irq.length = MU_CONFIG_SCHED_MAX_IRQ_TASKS.toNat - 1
    · rw [if_pos hfull, from_isr_full hholds hfull]
      exact ⟨h, rfl⟩
    · obtain ⟨herr, hput⟩ := from_isr_spec hholds hfull task
      rw [if_neg hfull, herr]
      exact ⟨⟨⟨queue, hput, hsorted⟩, hclock, hidle⟩, rfl⟩
  | defer_until task at_time => exact schedules_defer h task at_time hafter
  | defer_for task in_time =>
    have hdefer := schedules_defer h task (mu_time_offset s.clock in_time) hafter
    rw [hclock] at hdefer
    rw [schedStep, mu_sched_defer_for, mu_sched_get_current_time, hclock]
    exact hdefer
  | remove_deferred_task task => exact schedules_remove h task
  | step =>
    obtain ⟨hrel, hcalled⟩ := schedules_run h hbefore
    exact ⟨hrel, congrArg (fun task => [SchedOutput.called task]) hcalled⟩
  | task_done => exact ⟨schedules_with_task h NULL, rfl⟩

theorem schedules_init (h : Sized s) : Schedules (mu_sched_init s) ⟨[], [], [], s.clock, NULL⟩ :=
  ⟨⟨[], init_holds h, .nil⟩, rfl, rfl⟩

/-- While all times fit into one window, the code answers and calls what the schedule does. -/
theorem sched_keeps_schedule (s : mu_sched_t) (hs : Sized s) (es : List SchedEvent)
    (hwindow : schedMachine.Always Windowed es (mu_sched_init s)) :
    let c := schedMachine.run es (mu_sched_init s)
    let q := scheduleMachine.run es ⟨[], [], [], s.clock, NULL⟩
    c.2 = q.2 ∧ Schedules c.1 q.1 := by
  obtain ⟨hrel, hout⟩ := schedules_step.run hwindow (schedules_init hs)
  exact ⟨hout, hrel⟩

/-- The clock wraps past zero, and two tasks are due at one time. -/
theorem sched_keeps_schedule_over_wrap :
    (scheduleMachine.run
      [.clock 18446744073709551611, .defer_until 7 3, .defer_until 8 18446744073709551614, .defer_until 9 3, .asap 6,
        .step, .task_done, .clock 4, .step, .defer_until 5 4, .task_done, .step, .step, .step, .step]
      ⟨[], [], [], 0, NULL⟩).2 =
      [.answered MU_TASK_ERR_NONE, .answered MU_TASK_ERR_NONE, .answered MU_TASK_ERR_NONE, .answered MU_TASK_ERR_NONE,
        .called (some 6), .called (some 8), .answered MU_TASK_ERR_NONE, .called (some 7), .called (some 9),
        .called (some 5), .called none] := by
  have hwindow : schedMachine.Always (fun s => InWindow 18446744073709551606 (s.clock :: pendingTimes s))
      [.clock 18446744073709551611, .defer_until 7 3, .defer_until 8 18446744073709551614, .defer_until 9 3, .asap 6,
        .step, .task_done, .clock 4, .step, .defer_until 5 4, .task_done, .step, .step, .step, .step]
      (mu_sched_init staticStorage) := by
    decide +kernel
  exact (sched_keeps_schedule staticStorage staticStorage_sized _ (hwindow.imp fun s h => ⟨_, h⟩)).1.symm.trans
    (by decide +kernel)

/-- Tasks 5 and `NULL` are due, but the head of the asap queue is called. -/
theorem sched_not_keeps_schedule :
    let es : List SchedEvent := [.defer_until NULL 0, .defer_until 5 0, .asap 6]
    let s := (schedMachine.run es (mu_sched_init staticStorage)).1
    schedMachine.Always (fun s => InWindow 0 (s.clock :: pendingTimes s)) es (mu_sched_init staticStorage) ∧
      s.irq_tasks.head = s.irq_tasks.tail ∧
      (⟨0, 5⟩ : deferred_task_t) ∈ s.s_deferred_tasks.take s.deferred_task_count ∧
      ¬ mu_time_precedes s.clock 0 ∧
      (mu_sched_step s).2 = some 6 := by
  decide +kernel

end ToyTstat.Mulib
