import ToyTstat.Mulib.Sched

/-!
# What a call does to the contents

One operation on the three lists for each call of the scheduler. Full queues and due times are part
of it, so a call on the code's state is always that operation on its contents.
-/

open CLib ToyTstat.Code ToyTstat.Code.mu_task_err_t

namespace ToyTstat.Mulib

namespace Queues

def putAsap (q : Queues) (task : Ptr) : Queues :=
  if q.asap.length = MU_CONFIG_SCHED_MAX_ASAP_TASKS then q else { q with asap := q.asap ++ [task] }

def putIrq (q : Queues) (task : Ptr) : Queues :=
  if q.irq.length = MU_CONFIG_SCHED_MAX_IRQ_TASKS.toNat - 1 then q else { q with irq := q.irq ++ [task] }

def putDeferred (q : Queues) (entry : deferred_task_t) : Queues :=
  if q.deferred.length = MU_CONFIG_SCHED_MAX_DEFERRED_TASKS then q
  else { q with deferred := insertDeferred entry q.deferred }

def remove (q : Queues) (task : Ptr) : Queues :=
  { q with deferred := q.deferred.filter (fun e => e.task ≠ task) }

/-- What is left in the queues, and the task at the head of the asap queue. -/
def takeAsap (q : Queues) : Queues × Option Ptr :=
  match q.asap with
  | task :: asap => ({ q with asap }, some task)
  | [] => (q, none)

/-- A deferred `NULL` that is due is dropped. -/
def takeDeferred (q : Queues) (now : mu_time_abs_t) : Queues × Option Ptr :=
  match q.deferred with
  | entry :: deferred =>
    if mu_time_precedes now entry.at_time then q.takeAsap
    else if entry.task = NULL then { q with deferred }.takeAsap
    else ({ q with deferred }, some entry.task)
  | [] => q.takeAsap

/-- What a step at the time `now` leaves in the queues, and the task that it takes from them. -/
def take (q : Queues) (now : mu_time_abs_t) : Queues × Option Ptr :=
  match q.irq with
  | task :: irq => ({ q with irq }, some task)
  | [] => q.takeDeferred now

/-- The contents after an event. -/
def after (q : Queues) (now : mu_time_abs_t) : SchedEvent → Queues
  | .asap task => q.putAsap task
  | .from_isr task => q.putIrq task
  | .defer_until task at_time => q.putDeferred ⟨at_time, task⟩
  | .defer_for task in_time => q.putDeferred ⟨mu_time_offset now in_time, task⟩
  | .remove_deferred_task task => q.remove task
  | .step => (q.take now).1
  | .clock _ | .set_idle_task _ | .task_done => q

variable {q : Queues} {now : mu_time_abs_t} {task : Ptr} {irq : List Ptr} {entry : deferred_task_t}
  {rest : List deferred_task_t}

theorem take_irq (h : q.irq = task :: irq) : q.take now = ({ q with irq }, some task) := by
  rw [take, h]

theorem take_irq_none (h : q.irq = []) : q.take now = q.takeDeferred now := by
  rw [take, h]

theorem takeDeferred_none (h : q.deferred = []) : q.takeDeferred now = q.takeAsap := by
  rw [takeDeferred, h]

theorem takeDeferred_early (h : q.deferred = entry :: rest) (hearly : mu_time_precedes now entry.at_time) :
    q.takeDeferred now = q.takeAsap := by
  rw [takeDeferred, h]
  exact if_pos hearly

theorem takeDeferred_null (h : q.deferred = entry :: rest) (hdue : ¬ mu_time_precedes now entry.at_time)
    (hnull : entry.task = NULL) : q.takeDeferred now = { q with deferred := rest }.takeAsap := by
  rw [takeDeferred, h]
  dsimp only
  rw [if_neg hdue, if_pos hnull]

theorem takeDeferred_due (h : q.deferred = entry :: rest) (hdue : ¬ mu_time_precedes now entry.at_time)
    (htask : entry.task ≠ NULL) : q.takeDeferred now = ({ q with deferred := rest }, some entry.task) := by
  rw [takeDeferred, h]
  dsimp only
  rw [if_neg hdue, if_neg htask]

end Queues

variable {s : mu_sched_t} {q : Queues} {irq asap : List Ptr} {deferred : List deferred_task_t}

/-! One of the lists is known. -/

theorem SchedHolds.irq_eq (h : SchedHolds s q) (heq : q.irq = irq) : SchedHolds s ⟨irq, q.asap, q.deferred⟩ :=
  heq ▸ h

theorem SchedHolds.asap_eq (h : SchedHolds s q) (heq : q.asap = asap) : SchedHolds s ⟨q.irq, asap, q.deferred⟩ :=
  heq ▸ h

theorem SchedHolds.deferred_eq (h : SchedHolds s q) (heq : q.deferred = deferred) :
    SchedHolds s ⟨q.irq, q.asap, deferred⟩ :=
  heq ▸ h

theorem holds_reset (h : SchedHolds s q) : SchedHolds (mu_sched_reset s) { q with deferred := [] } :=
  ⟨h.irq, h.asap, h.capacity, ⟨h.deferred.slots, rfl, rfl⟩⟩

theorem holds_asap (h : SchedHolds s q) (task : Ptr) : SchedHolds (mu_sched_asap s task).1 (q.putAsap task) := by
  rw [Queues.putAsap]
  by_cases hfull : q.asap.length = MU_CONFIG_SCHED_MAX_ASAP_TASKS
  · rw [if_pos hfull, asap_full h hfull]
    exact h
  · rw [if_neg hfull]
    exact (asap_spec h hfull task).2

theorem holds_from_isr (h : SchedHolds s q) (task : Ptr) :
    SchedHolds (mu_sched_from_isr s task).1 (q.putIrq task) := by
  rw [Queues.putIrq]
  by_cases hfull : q.irq.length = MU_CONFIG_SCHED_MAX_IRQ_TASKS.toNat - 1
  · rw [if_pos hfull, from_isr_full h hfull]
    exact h
  · rw [if_neg hfull]
    exact (from_isr_spec h hfull task).2

theorem holds_defer (h : SchedHolds s q) (task : Ptr) (at_time : mu_time_abs_t) :
    SameElse s (sched_aux s task at_time).1 ∧
      SchedHolds (sched_aux s task at_time).1 (q.putDeferred ⟨at_time, task⟩) := by
  rw [Queues.putDeferred]
  by_cases hfull : q.deferred.length = MU_CONFIG_SCHED_MAX_DEFERRED_TASKS
  · rw [if_pos hfull, defer_full h hfull]
    exact ⟨SameElse.refl s, h⟩
  · rw [if_neg hfull]
    exact (defer_spec h hfull task at_time).2

/-! ## The step -/

theorem step_call_taken {s₀ : mu_sched_t} (h : SchedHolds s q) (henv : SameEnv s₀ s) {task : Ptr}
    (htask : s.curr_task = task) :
    SchedHolds (step_call s).1 q ∧ (step_call s).2 = mu_task_call task ∧ SameEnv s₀ (step_call s).1 := by
  obtain ⟨hcalled, hkept, hsame⟩ := step_call_spec h
  rw [htask] at hcalled
  exact ⟨hkept, hcalled, hsame.clock.trans henv.clock, hsame.idle_task.trans henv.idle_task⟩

/-! `s₀` is the state in which the step began. -/

variable {s₀ : mu_sched_t}

theorem step_asap_taken (h : SchedHolds s q) (henv : SameEnv s₀ s) :
    SchedHolds (step_from_asap s).1 q.takeAsap.1 ∧
      (step_from_asap s).2 = mu_task_call (q.takeAsap.2.getD s₀.idle_task) ∧ SameEnv s₀ (step_from_asap s).1 := by
  rw [step_from_asap_eq, Queues.takeAsap]
  cases hasap : q.asap with
  | nil =>
    rw [step_asap_empty (h.asap_eq hasap), if_neg Bool.false_ne_true]
    exact step_call_taken (h.with_task s.idle_task s.idle_task s.clock) ⟨henv.clock, henv.idle_task⟩ henv.idle_task
  | cons task asap =>
    obtain ⟨hfound, htask, hnext⟩ := step_asap_next (h.asap_eq hasap)
    rw [hfound, if_pos rfl]
    exact step_call_taken hnext ⟨henv.clock, henv.idle_task⟩ htask

theorem step_deferred_taken (h : SchedHolds s q) (henv : SameEnv s₀ s) :
    SchedHolds (step_from_deferred s).1 (q.takeDeferred s₀.clock).1 ∧
      (step_from_deferred s).2 = mu_task_call ((q.takeDeferred s₀.clock).2.getD s₀.idle_task) ∧
      SameEnv s₀ (step_from_deferred s).1 := by
  have hnone : SchedHolds { s with curr_task := NULL } q := h.with_task NULL s.idle_task s.clock
  rw [step_from_deferred_eq, ← henv.clock]
  cases hdeferred : q.deferred with
  | nil =>
    rw [step_deferred_empty (h.deferred_eq hdeferred), if_neg Bool.false_ne_true, Queues.takeDeferred_none hdeferred]
    exact step_asap_taken hnone ⟨henv.clock, henv.idle_task⟩
  | cons entry deferred =>
    have hnext := h.deferred_eq hdeferred
    by_cases hearly : mu_time_precedes s.clock entry.at_time
    · rw [step_deferred_early hnext hearly, if_neg Bool.false_ne_true, Queues.takeDeferred_early hdeferred hearly]
      exact step_asap_taken hnone ⟨henv.clock, henv.idle_task⟩
    obtain ⟨hfound, htask, hrest⟩ := step_deferred_due hnext hearly
    have hsame := step_deferred_env s
    have hnow : SameEnv s₀ (step_deferred s).1 :=
      ⟨hsame.clock.trans henv.clock, hsame.idle_task.trans henv.idle_task⟩
    rw [hfound]
    by_cases hnull : entry.task = NULL
    · rw [if_neg (by simpa using hnull), Queues.takeDeferred_null hdeferred hearly hnull]
      exact step_asap_taken hrest hnow
    · rw [if_pos (by simpa using hnull), Queues.takeDeferred_due hdeferred hearly hnull]
      exact step_call_taken hrest hnow htask

theorem step_taken (h : SchedHolds s q) :
    SchedHolds (mu_sched_step s).1 (q.take s.clock).1 ∧
      (mu_sched_step s).2 = mu_task_call ((q.take s.clock).2.getD s.idle_task) ∧ SameEnv s (mu_sched_step s).1 := by
  rw [mu_sched_step_eq]
  cases hirq : q.irq with
  | nil =>
    rw [step_irq_empty (h.irq_eq hirq), if_neg Bool.false_ne_true, Queues.take_irq_none hirq]
    exact step_deferred_taken (h.with_task NULL s.idle_task s.clock) ⟨rfl, rfl⟩
  | cons task irq =>
    obtain ⟨hfound, htask, hnext⟩ := step_irq_next (h.irq_eq hirq)
    rw [hfound, if_pos rfl, Queues.take_irq hirq]
    exact step_call_taken hnext (step_irq_env s) htask

theorem holds_after (h : SchedHolds s q) (e : SchedEvent) : SchedHolds (schedStep s e).1 (q.after s.clock e) := by
  cases e with
  | clock now => exact h.with_task s.curr_task s.idle_task now
  | set_idle_task task => exact h.with_task s.curr_task task s.clock
  | asap task => exact holds_asap h task
  | from_isr task => exact holds_from_isr h task
  | defer_until task at_time => exact (holds_defer h task at_time).2
  | defer_for task in_time => exact (holds_defer h task _).2
  | remove_deferred_task task => exact (remove_deferred_spec h task).2
  | step => exact (step_taken h).1
  | task_done => exact h.with_task NULL s.idle_task s.clock

/-! ## The contents, computed -/

def irqContents (q : mu_spsc_t) : List Ptr :=
  (List.range ((q.tail + (q.mask + 1) - q.head) % (q.mask + 1))).map fun i =>
    q.store.read ((q.head + i) % (q.mask + 1))

def asapContents (q : mu_mqueue_t) : List Ptr :=
  (List.range q.count).map fun i => q.storage.read ((q.index + (q.capacity - q.count) + i) % q.capacity)

/-- What the queues hold, computed from the state of the code. -/
def contents (s : mu_sched_t) : Queues where
  irq := irqContents s.irq_tasks
  asap := asapContents s.asap_tasks
  deferred := (s.s_deferred_tasks.take s.deferred_task_count).reverse

theorem irqContents_eq {n taken : Nat} {queue : mu_spsc_t} (h : SpscHolds n queue taken irq) :
    irqContents queue = irq := by
  have hroom := h.room
  have hmask : queue.mask + 1 = n := by
    rw [h.mask]
    omega
  have hhead : taken % n < n := Nat.mod_lt _ (by omega)
  have hlength : ((taken + irq.length) % n + n - taken % n) % n = irq.length := by
    rw [Nat.add_sub_assoc hhead.le, Nat.mod_add_mod, ← Nat.mod_add_div taken n]
    rw [Nat.add_mul_mod_self_left, Nat.mod_mod]
    rw [show taken % n + n * (taken / n) + irq.length + (n - taken % n) = irq.length + n * (taken / n + 1) by
      rw [Nat.mul_add]
      omega]
    rw [Nat.add_mul_mod_self_left, Nat.mod_eq_of_lt hroom]
  have hslots := h.ring.items_eq NULL
  unfold irqContents PtrArray.read
  rw [hmask, h.head, h.tail, hlength]
  simpa only [Nat.mod_add_mod] using hslots

theorem asapContents_eq {head : Nat} {queue : mu_mqueue_t} (h : Holds queue head asap) :
    asapContents queue = asap := by
  have hfits := h.ring.fits
  have hslot (i : Nat) : ((head + asap.length) % queue.capacity + (queue.capacity - asap.length) + i) % queue.capacity =
      (head + i) % queue.capacity := by
    rw [Nat.add_assoc, Nat.mod_add_mod]
    rw [show head + asap.length + (queue.capacity - asap.length + i) = head + i + queue.capacity by omega]
    rw [Nat.add_mod_right]
  unfold asapContents PtrArray.read
  rw [h.count, h.index]
  simp only [hslot]
  exact h.ring.items_eq NULL

theorem SchedHolds.contents_eq (h : SchedHolds s q) : contents s = q := by
  obtain ⟨_, hirq⟩ := h.irq
  obtain ⟨_, hasap⟩ := h.asap
  unfold contents
  rw [irqContents_eq hirq, asapContents_eq hasap, h.deferred.held, List.reverse_reverse]

/-! ## Runs with resets -/

inductive LifeEvent
  | call (e : SchedEvent)
  | reset

def lifeMachine : Machine mu_sched_t LifeEvent SchedOutput where
  step
    | s, .call e => schedStep s e
    | s, .reset => (mu_sched_reset s, [])

theorem life_step_holds (s : mu_sched_t) (e : LifeEvent) (h : ∃ q, SchedHolds s q) :
    ∃ q, SchedHolds (lifeMachine.step s e).1 q := by
  obtain ⟨q, hq⟩ := h
  cases e with
  | call e => exact ⟨_, holds_after hq e⟩
  | reset => exact ⟨_, holds_reset hq⟩

/-- In every reachable state the queues hold something. -/
theorem life_holds (s : mu_sched_t) (h : Sized s) (es : List LifeEvent) :
    ∃ q, SchedHolds (lifeMachine.run es (mu_sched_init s)).1 q :=
  Machine.run_invariant life_step_holds es ⟨_, init_holds h⟩

end ToyTstat.Mulib
