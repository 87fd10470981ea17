import ToyTstat.Mulib.Contents

/-!
# Looking at the next task

`mu_sched_peek_next_task` looks at the deferred tasks and the asap queue in the order of a step, but
it does not look at the clock.
-/

open CLib ToyTstat.Code

namespace ToyTstat.Mulib

/-- The task that a step takes from the queues: what it calls if there is no idle task. -/
def stepTakes (s : mu_sched_t) : Ptr := (mu_sched_step (mu_sched_set_idle_task s NULL)).2.getD NULL

/-- The task at the head of the asap queue, `NULL` in an empty one. -/
def asapNext (s : mu_sched_t) : Ptr := (mu_mqueue_peek s.asap_tasks).2.1

/-- The next deferred task, if there is one, is due, or it is also the next one of the asap queue. -/
def PeekOk (s : mu_sched_t) : Prop :=
  ∀ entry, peek_next_deferred_task s = some entry →
    ¬ mu_time_precedes s.clock entry.at_time ∧ entry.task ≠ NULL ∨ entry.task = asapNext s

variable {s : mu_sched_t} {q : Queues} {entry : deferred_task_t} {deferred : List deferred_task_t}

theorem call_getD (task : Ptr) : (mu_task_call task).getD NULL = task := by
  rw [mu_task_call]
  split
  case isTrue hnull => exact hnull.symm
  case isFalse => rfl

theorem stepTakes_eq (h : SchedHolds s q) : stepTakes s = (q.take s.clock).2.getD NULL := by
  obtain ⟨-, hcalled, -⟩ := step_taken (h.with_task s.curr_task NULL s.clock)
  unfold stepTakes mu_sched_set_idle_task
  rw [hcalled, call_getD]

theorem step_calls (h : SchedHolds s q) :
    (mu_sched_step s).2 = mu_task_call (stepTakes s) ∨
      stepTakes s = NULL ∧ (mu_sched_step s).2 = mu_task_call s.idle_task := by
  obtain ⟨-, hcalled, -⟩ := step_taken h
  rw [hcalled, stepTakes_eq h]
  cases (q.take s.clock).2 with
  | none => exact .inr ⟨rfl, rfl⟩
  | some task => exact .inl rfl

theorem asap_peek (h : SchedHolds s q) :
    mu_mqueue_peek s.asap_tasks = (s.asap_tasks, q.takeAsap.2.getD NULL, none, q.takeAsap.2.isSome) := by
  obtain ⟨head, holds⟩ := h.asap
  rw [mu_mqueue_peek, Queues.takeAsap]
  cases hasap : q.asap with
  | nil =>
    rw [hasap] at holds
    exact holds.access_empty false
  | cons task asap =>
    rw [hasap] at holds
    exact holds.access false

theorem asapNext_eq (h : SchedHolds s q) : asapNext s = q.takeAsap.2.getD NULL := by
  rw [asapNext, asap_peek h]

theorem peek_deferred (h : DeferredHolds s (entry :: deferred)) : mu_sched_peek_next_task s = entry.task := by
  rw [mu_sched_peek_next_task, peek_next h]

theorem peek_asap (h : SchedHolds s q) (hnone : q.deferred = []) : mu_sched_peek_next_task s = asapNext s := by
  have hdeferred := h.deferred
  rw [hnone] at hdeferred
  rw [mu_sched_peek_next_task, peek_empty hdeferred, asapNext, asap_peek h]
  cases q.takeAsap.2 <;> rfl

theorem peek_iff (h : SchedHolds s q) (hirq : q.irq = []) :
    mu_sched_peek_next_task s = stepTakes s ↔ PeekOk s := by
  have hasap := asapNext_eq h
  rw [stepTakes_eq h, Queues.take_irq_none hirq]
  unfold PeekOk
  cases hdeferred : q.deferred with
  | nil =>
    rw [peek_asap h hdeferred, peek_empty (h.deferred_eq hdeferred).deferred, Queues.takeDeferred_none hdeferred]
    exact ⟨fun _ => nofun, fun _ => hasap⟩
  | cons entry deferred =>
    have hnext := (h.deferred_eq hdeferred).deferred
    -- without the head of the deferred tasks, the asap queue is the same
    have hrest : ({ q with deferred } : Queues).takeAsap.2 = q.takeAsap.2 := by
      rw [Queues.takeAsap, Queues.takeAsap]
      cases q.asap <;> rfl
    rw [peek_deferred hnext, peek_next hnext]
    simp only [Option.some.injEq, forall_eq']
    by_cases hearly : mu_time_precedes s.clock entry.at_time
    · rw [Queues.takeDeferred_early hdeferred hearly, ← hasap]
      simp [hearly]
    by_cases hnull : entry.task = NULL
    · rw [Queues.takeDeferred_null hdeferred hearly hnull, hrest, ← hasap]
      simp [hnull]
    · rw [Queues.takeDeferred_due hdeferred hearly hnull]
      simp [hearly, hnull]

/-- `mu_sched_peek_next_task` foretells the step exactly when it does not meet a task that is not due. -/
theorem peek_agrees_iff (s : mu_sched_t) (hs : Sized s) (es : List LifeEvent)
    (hirq : (lifeMachine.run es (mu_sched_init s)).1.irq_tasks.head =
      (lifeMachine.run es (mu_sched_init s)).1.irq_tasks.tail) :
    mu_sched_peek_next_task (lifeMachine.run es (mu_sched_init s)).1 =
        stepTakes (lifeMachine.run es (mu_sched_init s)).1 ↔
      PeekOk (lifeMachine.run es (mu_sched_init s)).1 := by
  obtain ⟨q, hq⟩ := life_holds s hs es
  obtain ⟨taken, holds⟩ := hq.irq
  exact peek_iff hq (holds.empty_iff.mp hirq)

/-- A task that is due, and one in the asap queue. -/
theorem peek_agrees_due :
    mu_sched_peek_next_task
        (lifeMachine.run [.call (.defer_until 7 5), .call (.asap 8), .call (.clock 6)]
          (mu_sched_init staticStorage)).1 =
      stepTakes
        (lifeMachine.run [.call (.defer_until 7 5), .call (.asap 8), .call (.clock 6)]
          (mu_sched_init staticStorage)).1 := by
  refine (peek_agrees_iff staticStorage staticStorage_sized _ rfl).mpr fun entry hentry => ?_
  obtain rfl : (⟨5, 7⟩ : deferred_task_t) = entry := Option.some.inj hentry
  exact .inl (by decide)

/-- Task 7 is not due, and the step calls task 8. -/
theorem peek_not_agrees :
    let s := (lifeMachine.run [.call (.defer_until 7 5), .call (.asap 8)] (mu_sched_init staticStorage)).1
    s.irq_tasks.head = s.irq_tasks.tail ∧ mu_sched_peek_next_task s = 7 ∧ stepTakes s = 8 ∧
      (mu_sched_step s).2 = some 8 := by
  decide +kernel

end ToyTstat.Mulib
