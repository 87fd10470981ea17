import Mathlib.Logic.Function.Basic
import ToyTstat.Mulib.Sched

/-!
# No request is lost

Every request that is accepted gets a number, and a book says where it is. The book is no part of
the code: it follows what the code answers and where the code finds the task of a step.
-/

open CLib ToyTstat.Code ToyTstat.Code.mu_task_err_t

namespace ToyTstat.Mulib

/-! ## The book -/

inductive QueueName
  | irq
  | asap
  | deferred
deriving DecidableEq, Repr

structure Request where
  id : Nat
  queue : QueueName
  task : Ptr
  /-- For a deferred task. -/
  at_time : mu_time_abs_t
deriving DecidableEq, Repr

def Request.entry (r : Request) : deferred_task_t := ⟨r.at_time, r.task⟩

def enqueue (request : Request) (waiting : List Request) : List Request :=
  if request.queue = .deferred then insertBehind mu_time_follows Request.at_time request waiting
  else waiting ++ [request]

theorem enqueue_perm (request : Request) (waiting : List Request) :
    (enqueue request waiting).Perm (request :: waiting) := by
  rw [enqueue]
  split
  · exact List.perm_orderedInsert _ _ _
  · exact List.perm_append_singleton _ _

structure Book where
  accepted : Nat
  /-- The requests that wait, the next one first. -/
  held : QueueName → List Request
  ran : List Request
  dropped : List Request

namespace Book

def empty : Book := ⟨0, fun _ => [], [], []⟩

def all (b : Book) : List Request := b.held .irq ++ b.held .asap ++ b.held .deferred ++ b.ran ++ b.dropped

def accept (b : Book) (queue : QueueName) (task : Ptr) (at_time : mu_time_abs_t) : Book :=
  let request : Request := ⟨b.accepted, queue, task, at_time⟩
  { b with
    accepted := b.accepted + 1
    held := Function.update b.held queue (enqueue request (b.held queue)) }

def run (b : Book) (queue : QueueName) : Book :=
  match b.held queue with
  | [] => b
  | request :: rest => { b with held := Function.update b.held queue rest, ran := b.ran ++ [request] }

def drop (b : Book) (task : Ptr) : Book :=
  { b with
    held := Function.update b.held .deferred ((b.held .deferred).filter (fun r => r.task ≠ task))
    dropped := b.dropped ++ (b.held .deferred).filter (fun r => r.task = task) }

theorem accept_all (b : Book) (queue : QueueName) (task : Ptr) (at_time : mu_time_abs_t) :
    (b.accept queue task at_time).all.Perm (⟨b.accepted, queue, task, at_time⟩ :: b.all) := by
  have henqueue := enqueue_perm ⟨b.accepted, queue, task, at_time⟩ (b.held queue)
  rw [List.perm_iff_count]
  intro r
  have hcount := henqueue.count_eq r
  cases queue <;>
    simp [all, accept, Function.update, List.count_append, List.count_cons] at hcount ⊢ <;> omega

theorem run_all (b : Book) (queue : QueueName) : (b.run queue).all.Perm b.all := by
  rw [run]
  cases hheld : b.held queue with
  | nil => exact List.Perm.refl _
  | cons request rest =>
    rw [List.perm_iff_count]
    intro r
    cases queue <;>
      simp [all, hheld, Function.update, List.count_append, List.count_cons] <;> omega

theorem drop_all (b : Book) (task : Ptr) : (b.drop task).all.Perm b.all := by
  rw [List.perm_iff_count]
  intro r
  have hsplit := ((b.held .deferred).filter_append_perm fun r => decide (r.task = task)).count_eq r
  simp [all, drop, Function.update, List.count_append] at hsplit ⊢
  omega

end Book

/-! ## Runs -/

/-- Where the foreground is in a step: between two conditions, or not in a condition. -/
inductive Phase
  | ready
  | irq_empty
  | none_due
deriving DecidableEq, Repr

structure SchedRun where
  sched : mu_sched_t
  phase : Phase
  book : Book

inductive RequestEvent
  /-- A call. Of a step only the first condition is evaluated. -/
  | call (e : SchedEvent)
  /-- The next condition of the step. -/
  | poll

inductive RequestOutput
  | answered (err : mu_task_err_t)
  | removed (task : Ptr)
  | ran (task : Ptr)
  | idled (task : Option Ptr)
deriving DecidableEq, Repr

def RequestOutput.ran? : RequestOutput → Option Ptr
  | .ran task => some task
  | _ => none

def RequestOutput.accepts : RequestOutput → Bool
  | .answered err => err = MU_TASK_ERR_NONE
  | _ => false

/-- The answer to a request. -/
def answer (r : SchedRun) (result : mu_sched_t × mu_task_err_t) (queue : QueueName) (task : Ptr)
    (at_time : mu_time_abs_t) : SchedRun × List RequestOutput :=
  ({ r with
      sched := result.1
      book := if result.2 = MU_TASK_ERR_NONE then r.book.accept queue task at_time else r.book },
    [.answered result.2])

/-- A condition of the step: the task found is called, or the step goes on. -/
def condition (r : SchedRun) (result : mu_sched_t × Bool) (queue : QueueName) (next : Phase) :
    SchedRun × List RequestOutput :=
  if result.2 then
    (⟨(step_call result.1).1, .ready, r.book.run queue⟩, (step_call result.1).2.toList.map .ran)
  else (⟨result.1, next, r.book⟩, [])

def poll (r : SchedRun) : SchedRun × List RequestOutput :=
  match r.phase with
  | .ready => (r, [])
  | .irq_empty => condition r (step_deferred r.sched) .deferred .none_due
  | .none_due =>
    if (step_asap r.sched).2 then condition r (step_asap r.sched) .asap .ready
    else
      let called := step_call (step_idle (step_asap r.sched).1)
      (⟨called.1, .ready, r.book⟩, [.idled called.2])

def call (r : SchedRun) : SchedEvent → SchedRun × List RequestOutput
  | .clock now => ({ r with sched := { r.sched with clock := now } }, [])
  | .set_idle_task task => ({ r with sched := mu_sched_set_idle_task r.sched task }, [])
  | .asap task => answer r (mu_sched_asap r.sched task) .asap task 0
  | .from_isr task => answer r (mu_sched_from_isr r.sched task) .irq task 0
  | .defer_until task at_time => answer r (mu_sched_defer_until r.sched task at_time) .deferred task at_time
  | .defer_for task in_time =>
    answer r (mu_sched_defer_for r.sched task in_time) .deferred task (mu_time_offset r.sched.clock in_time)
  | .remove_deferred_task task =>
    ({ r with sched := (mu_sched_remove_deferred_task r.sched task).1, book := r.book.drop task }, [.removed task])
  | .step => condition r (step_irq r.sched) .irq .irq_empty
  | .task_done => ({ r with sched := step_end r.sched }, [])

/-- What may come between two conditions of a step. -/
def SchedEvent.interrupts : SchedEvent → Bool
  | .clock _ => true
  | .from_isr _ => true
  | _ => false

def requestMachine : Machine SchedRun RequestEvent RequestOutput where
  step
    | r, .call e => if r.phase = .ready ∨ e.interrupts then call r e else (r, [])
    | r, .poll => poll r

def RequestEvent.NonNull : RequestEvent → Prop
  | .call (.asap task) => task ≠ NULL
  | .call (.from_isr task) => task ≠ NULL
  | .call (.defer_until task _) => task ≠ NULL
  | .call (.defer_for task _) => task ≠ NULL
  | _ => True

/-- A step that nothing interrupts is `mu_sched_step`. -/
theorem step_uninterrupted (r : SchedRun) (h : r.phase = .ready) :
    let polled := requestMachine.run [.call .step, .poll, .poll] r
    let stepped := mu_sched_step r.sched
    polled.1.sched = stepped.1 ∧ polled.1.phase = .ready ∧
      (polled.2 = stepped.2.toList.map .ran ∨ polled.2 = [.idled stepped.2]) := by
  simp only [Machine.run_cons, Machine.run_nil, requestMachine, h, true_or, if_true, call, mu_sched_step_eq,
    step_from_deferred_eq, step_from_asap_eq]
  cases hirq : (step_irq r.sched).2 with
  | true => simp [condition, hirq, poll]
  | false =>
    cases hdeferred : (step_deferred (step_irq r.sched).1).2 with
    | true => simp [condition, hirq, poll, hdeferred]
    | false =>
      cases hasap : (step_asap (step_deferred (step_irq r.sched).1).1).2 with
      | true => simp [condition, hirq, poll, hdeferred, hasap]
      | false => simp [condition, hirq, poll, hdeferred, hasap]

/-! ## The account -/

/-- What is in the queues according to the book. -/
def Book.queues (b : Book) : Queues :=
  ⟨(b.held .irq).map Request.task, (b.held .asap).map Request.task, (b.held .deferred).map Request.entry⟩

structure Accounted (r : SchedRun) (outputs : List RequestOutput) : Prop where
  /-- The book has every request that was answered `MU_TASK_ERR_NONE`. -/
  accepted : outputs.countP RequestOutput.accepts = r.book.accepted
  /-- Each accepted request is in one place of the book, once. -/
  once : (r.book.all.map Request.id).Perm (List.range r.book.accepted)
  /-- The queues hold the requests that wait. -/
  held : SchedHolds r.sched r.book.queues
  /-- Each of them waits in its own queue. -/
  own : ∀ queue, ∀ request ∈ r.book.held queue, request.queue = queue ∧ request.task ≠ NULL
  /-- The tasks of the requests that ran were called, and no others. -/
  ran : outputs.filterMap RequestOutput.ran? = r.book.ran.map Request.task
  dropped : ∀ request ∈ r.book.dropped, request.queue = .deferred ∧ .removed request.task ∈ outputs

variable {r : SchedRun} {outputs : List RequestOutput} {s : mu_sched_t} {task : Ptr} {at_time : mu_time_abs_t}

theorem accounted_same (h : Accounted r outputs) (hheld : SchedHolds s r.book.queues) (phase : Phase)
    {more : List RequestOutput} (hnone : more.countP RequestOutput.accepts = 0)
    (hmore : more.filterMap RequestOutput.ran? = []) : Accounted ⟨s, phase, r.book⟩ (outputs ++ more) := by
  refine ⟨?_, h.once, hheld, h.own, ?_, ?_⟩
  · rw [List.countP_append, hnone, Nat.add_zero]
    exact h.accepted
  · rw [List.filterMap_append, hmore, List.append_nil]
    exact h.ran
  · intro request hrequest
    obtain ⟨hqueue, hremoved⟩ := h.dropped request hrequest
    exact ⟨hqueue, List.mem_append_left _ hremoved⟩

theorem mem_accept {b : Book} {queue q : QueueName} {request : Request}
    (h : request ∈ (b.accept queue task at_time).held q) :
    request ∈ b.held q ∨ q = queue ∧ request = ⟨b.accepted, queue, task, at_time⟩ := by
  by_cases hq : q = queue
  · subst hq
    rw [Book.accept] at h
    dsimp only at h
    rw [Function.update_self] at h
    rcases List.mem_cons.mp ((enqueue_perm _ _).mem_iff.mp h) with hnew | hold
    · exact .inr ⟨rfl, hnew⟩
    · exact .inl hold
  · rw [Book.accept] at h
    dsimp only at h
    rw [Function.update_of_ne hq] at h
    exact .inl h

theorem accounted_accept (h : Accounted r outputs) {queue : QueueName} (htask : task ≠ NULL)
    (hheld : SchedHolds s (r.book.accept queue task at_time).queues) :
    Accounted ⟨s, r.phase, r.book.accept queue task at_time⟩ (outputs ++ [.answered MU_TASK_ERR_NONE]) := by
  refine ⟨?_, ?_, hheld, ?_, ?_, ?_⟩
  · rw [List.countP_append, h.accepted]
    rfl
  · refine ((r.book.accept_all queue task at_time).map Request.id).trans ?_
    rw [List.map_cons, Book.accept, List.range_succ]
    exact (h.once.cons r.book.accepted).trans (List.perm_append_singleton _ _).symm
  · intro q request hrequest
    rcases mem_accept hrequest with hold | ⟨rfl, rfl⟩
    · exact h.own q request hold
    · exact ⟨rfl, htask⟩
  · rw [List.filterMap_append]
    exact (List.append_nil _).trans h.ran
  · intro request hrequest
    obtain ⟨hqueue, hremoved⟩ := h.dropped request hrequest
    exact ⟨hqueue, List.mem_append_left _ hremoved⟩

theorem accounted_run (h : Accounted r outputs) {queue : QueueName} {request : Request} {rest : List Request}
    (hnext : r.book.held queue = request :: rest) (hheld : SchedHolds s (r.book.run queue).queues) (phase : Phase) :
    Accounted ⟨s, phase, r.book.run queue⟩ (outputs ++ [.ran request.task]) := by
  have hrun : r.book.run queue =
      { r.book with held := Function.update r.book.held queue rest, ran := r.book.ran ++ [request] } := by
    rw [Book.run, hnext]
  refine ⟨?_, ((r.book.run_all queue).map Request.id).trans ?_, hheld, ?_, ?_, ?_⟩
  · rw [hrun, List.countP_append, h.accepted]
    rfl
  · rw [hrun]
    exact h.once
  · intro q r' hr'
    rw [hrun] at hr'
    by_cases hq : q = queue
    · subst hq
      dsimp only at hr'
      rw [Function.update_self] at hr'
      exact h.own q r' (hnext ▸ List.mem_cons_of_mem request hr')
    · dsimp only at hr'
      rw [Function.update_of_ne hq] at hr'
      exact h.own q r' hr'
  · rw [hrun, List.filterMap_append, h.ran, List.map_append]
    rfl
  · intro r' hr'
    rw [hrun] at hr'
    obtain ⟨hqueue, hremoved⟩ := h.dropped r' hr'
    exact ⟨hqueue, List.mem_append_left _ hremoved⟩

theorem accounted_drop (h : Accounted r outputs) (hheld : SchedHolds s (r.book.drop task).queues) :
    Accounted ⟨s, r.phase, r.book.drop task⟩ (outputs ++ [.removed task]) := by
  refine ⟨?_, ((r.book.drop_all task).map Request.id).trans h.once, hheld, ?_, ?_, ?_⟩
  · rw [List.countP_append, h.accepted]
    rfl
  · intro q request hrequest
    by_cases hq : q = .deferred
    · subst hq
      exact h.own .deferred request (List.mem_filter.mp hrequest).1
    · dsimp only [Book.drop] at hrequest
      rw [Function.update_of_ne hq] at hrequest
      exact h.own q request hrequest
  · rw [List.filterMap_append]
    exact (List.append_nil _).trans h.ran
  · intro request hrequest
    rcases List.mem_append.mp hrequest with hold | hnew
    · obtain ⟨hqueue, hremoved⟩ := h.dropped request hold
      exact ⟨hqueue, List.mem_append_left _ hremoved⟩
    · obtain ⟨hmem, htask⟩ := List.mem_filter.mp hnew
      rw [of_decide_eq_true htask]
      exact ⟨(h.own .deferred request hmem).1, List.mem_append_right _ List.mem_cons_self⟩

/-! ## The queues of the book -/

theorem queues_irq {b : Book} {waiting : List Request} (h : b.held .irq = waiting) :
    b.queues = ⟨waiting.map Request.task, b.queues.asap, b.queues.deferred⟩ := by
  rw [Book.queues, h]

theorem queues_asap {b : Book} {waiting : List Request} (h : b.held .asap = waiting) :
    b.queues = ⟨b.queues.irq, waiting.map Request.task, b.queues.deferred⟩ := by
  rw [Book.queues, h]

theorem queues_deferred {b : Book} {waiting : List Request} (h : b.held .deferred = waiting) :
    b.queues = ⟨b.queues.irq, b.queues.asap, waiting.map Request.entry⟩ := by
  rw [Book.queues, h]

theorem queues_accept_irq (b : Book) (task : Ptr) (at_time : mu_time_abs_t) :
    (b.accept .irq task at_time).queues = { b.queues with irq := b.queues.irq ++ [task] } := by
  simp [Book.queues, Book.accept, enqueue, Function.update]

theorem queues_accept_asap (b : Book) (task : Ptr) (at_time : mu_time_abs_t) :
    (b.accept .asap task at_time).queues = { b.queues with asap := b.queues.asap ++ [task] } := by
  simp [Book.queues, Book.accept, enqueue, Function.update]

theorem queues_accept_deferred (b : Book) (task : Ptr) (at_time : mu_time_abs_t) :
    (b.accept .deferred task at_time).queues =
      { b.queues with deferred := insertDeferred ⟨at_time, task⟩ b.queues.deferred } := by
  have hmap (request : Request) (waiting : List Request) :
      (insertBehind mu_time_follows Request.at_time request waiting).map Request.entry =
        insertDeferred request.entry (waiting.map Request.entry) :=
    List.map_orderedInsert _ _ _ _ _ (fun _ _ => Iff.rfl) fun _ _ => Iff.rfl
  simp only [Book.queues, Book.accept, enqueue, Function.update_self, if_true, hmap]
  rfl

theorem queues_drop (b : Book) (task : Ptr) :
    (b.drop task).queues = { b.queues with deferred := b.queues.deferred.filter (fun e => e.task ≠ task) } := by
  simp only [Book.queues, Book.drop, List.filter_map]
  simp [Function.update, Function.comp_def, Request.entry]
  rfl

theorem queues_run_irq {b : Book} {request : Request} {rest : List Request} (h : b.held .irq = request :: rest) :
    (b.run .irq).queues = ⟨rest.map Request.task, b.queues.asap, b.queues.deferred⟩ := by
  simp [Book.queues, Book.run, h, Function.update]

theorem queues_run_asap {b : Book} {request : Request} {rest : List Request} (h : b.held .asap = request :: rest) :
    (b.run .asap).queues = ⟨b.queues.irq, rest.map Request.task, b.queues.deferred⟩ := by
  simp [Book.queues, Book.run, h, Function.update]

theorem queues_run_deferred {b : Book} {request : Request} {rest : List Request}
    (h : b.held .deferred = request :: rest) :
    (b.run .deferred).queues = ⟨b.queues.irq, b.queues.asap, rest.map Request.entry⟩ := by
  simp [Book.queues, Book.run, h, Function.update]

/-! ## Every event keeps the account -/

theorem accounted_found (h : Accounted r outputs) {queue : QueueName} {request : Request} {rest : List Request}
    (hnext : r.book.held queue = request :: rest) {result : mu_sched_t × Bool} (hfound : result.2 = true)
    (htask : result.1.curr_task = request.task) (hheld : SchedHolds result.1 (r.book.run queue).queues) (next : Phase) :
    Accounted (condition r result queue next).1 (outputs ++ (condition r result queue next).2) := by
  have hnull := (h.own queue request (hnext ▸ List.mem_cons_self)).2
  obtain ⟨hcalled, hkept, -⟩ := step_call_spec hheld
  rw [htask, mu_task_call, if_neg hnull] at hcalled
  rw [condition, if_pos hfound, hcalled]
  exact accounted_run h hnext hkept .ready

theorem accounted_not_found (h : Accounted r outputs) {result : mu_sched_t × Bool} (hfound : result.2 = false)
    (hheld : SchedHolds result.1 r.book.queues) (queue : QueueName) (next : Phase) :
    Accounted (condition r result queue next).1 (outputs ++ (condition r result queue next).2) := by
  rw [condition, hfound, if_neg Bool.false_ne_true]
  exact accounted_same h hheld next rfl rfl

theorem accounted_step_irq (h : Accounted r outputs) :
    Accounted (condition r (step_irq r.sched) .irq .irq_empty).1
      (outputs ++ (condition r (step_irq r.sched) .irq .irq_empty).2) := by
  have hheld := h.held
  cases hnext : r.book.held .irq with
  | nil =>
    rw [queues_irq hnext] at hheld
    rw [step_irq_empty hheld]
    exact accounted_not_found h rfl (h.held.with_task NULL _ _) _ _
  | cons request rest =>
    rw [queues_irq hnext] at hheld
    obtain ⟨hfound, htask, hkept⟩ := step_irq_next hheld
    rw [← queues_run_irq hnext] at hkept
    exact accounted_found h hnext hfound htask hkept _

theorem accounted_step_deferred (h : Accounted r outputs) :
    Accounted (condition r (step_deferred r.sched) .deferred .none_due).1
      (outputs ++ (condition r (step_deferred r.sched) .deferred .none_due).2) := by
  have hheld := h.held
  cases hnext : r.book.held .deferred with
  | nil =>
    rw [queues_deferred hnext] at hheld
    rw [step_deferred_empty hheld]
    exact accounted_not_found h rfl (h.held.with_task NULL _ _) _ _
  | cons request rest =>
    rw [queues_deferred hnext] at hheld
    by_cases hearly : mu_time_precedes r.sched.clock request.entry.at_time
    · rw [step_deferred_early hheld hearly]
      exact accounted_not_found h rfl (h.held.with_task NULL _ _) _ _
    · have hnull := (h.own .deferred request (hnext ▸ List.mem_cons_self)).2
      obtain ⟨hfound, htask, hkept⟩ := step_deferred_due hheld hearly
      rw [← queues_run_deferred hnext] at hkept
      exact accounted_found h hnext (hfound.trans (decide_eq_true hnull)) htask hkept _

theorem accounted_step_asap (h : Accounted r outputs) (hphase : r.phase = .none_due) :
    Accounted (poll r).1 (outputs ++ (poll r).2) := by
  have hheld := h.held
  rw [poll, hphase]
  dsimp only
  cases hnext : r.book.held .asap with
  | nil =>
    rw [queues_asap hnext] at hheld
    rw [step_asap_empty hheld, if_neg Bool.false_ne_true]
    obtain ⟨-, hkept, -⟩ := step_call_spec (h.held.with_task r.sched.idle_task r.sched.idle_task r.sched.clock)
    exact accounted_same h hkept .ready rfl rfl
  | cons request rest =>
    rw [queues_asap hnext] at hheld
    obtain ⟨hfound, htask, hkept⟩ := step_asap_next hheld
    rw [← queues_run_asap hnext] at hkept
    rw [hfound, if_pos rfl]
    exact accounted_found h hnext hfound htask hkept _

theorem accounted_poll (h : Accounted r outputs) : Accounted (poll r).1 (outputs ++ (poll r).2) := by
  cases hphase : r.phase with
  | ready =>
    rw [poll, hphase]
    exact accounted_same h h.held r.phase rfl rfl
  | irq_empty =>
    rw [poll, hphase]
    exact accounted_step_deferred h
  | none_due => exact accounted_step_asap h hphase

/-- A request that is made in the state is refused exactly when its queue is full, and then changes nothing. -/
def RefusedWhenFull (r : SchedRun) (request : mu_sched_t → mu_sched_t × mu_task_err_t) (queue : QueueName)
    (limit : Nat) : Prop :=
  (request r.sched).2 = (if (r.book.held queue).length = limit then MU_TASK_ERR_SCHED_FULL else MU_TASK_ERR_NONE) ∧
    ((request r.sched).2 = MU_TASK_ERR_SCHED_FULL → (request r.sched).1 = r.sched)

theorem refused_of_cases {request : mu_sched_t → mu_sched_t × mu_task_err_t} {queue : QueueName} {limit : Nat}
    (hfull : (r.book.held queue).length = limit → request r.sched = (r.sched, MU_TASK_ERR_SCHED_FULL))
    (hroom : (r.book.held queue).length ≠ limit → (request r.sched).2 = MU_TASK_ERR_NONE) :
    RefusedWhenFull r request queue limit := by
  unfold RefusedWhenFull
  by_cases h : (r.book.held queue).length = limit
  · rw [if_pos h, hfull h]
    exact ⟨rfl, fun _ => rfl⟩
  · rw [if_neg h, hroom h]
    exact ⟨rfl, nofun⟩

theorem refused_asap (h : Accounted r outputs) (task : Ptr) :
    RefusedWhenFull r (mu_sched_asap · task) .asap MU_CONFIG_SCHED_MAX_ASAP_TASKS := by
  apply refused_of_cases
  · intro hfull
    exact asap_full h.held (by rwa [Book.queues, List.length_map]) task
  · intro hroom
    exact (asap_spec h.held (by rwa [Book.queues, List.length_map]) task).1

theorem refused_from_isr (h : Accounted r outputs) (task : Ptr) :
    RefusedWhenFull r (mu_sched_from_isr · task) .irq (MU_CONFIG_SCHED_MAX_IRQ_TASKS.toNat - 1) := by
  apply refused_of_cases
  · intro hfull
    exact from_isr_full h.held (by rwa [Book.queues, List.length_map]) task
  · intro hroom
    exact (from_isr_spec h.held (by rwa [Book.queues, List.length_map]) task).1

theorem refused_defer (h : Accounted r outputs) (task : Ptr) (at_time : mu_time_abs_t) :
    RefusedWhenFull r (sched_aux · task at_time) .deferred MU_CONFIG_SCHED_MAX_DEFERRED_TASKS := by
  apply refused_of_cases
  · intro hfull
    exact defer_full h.held (by rwa [Book.queues, List.length_map]) task at_time
  · intro hroom
    exact (defer_spec h.held (by rwa [Book.queues, List.length_map]) task at_time).1

theorem refused_defer_for (h : Accounted r outputs) (task : Ptr) (in_time : mu_time_rel_t) :
    RefusedWhenFull r (mu_sched_defer_for · task in_time) .deferred MU_CONFIG_SCHED_MAX_DEFERRED_TASKS := by
  apply refused_of_cases
  · intro hfull
    exact defer_full h.held (by rwa [Book.queues, List.length_map]) task _
  · intro hroom
    exact (defer_spec h.held (by rwa [Book.queues, List.length_map]) task _).1

theorem accounted_answer (h : Accounted r outputs) (request : mu_sched_t → mu_sched_t × mu_task_err_t)
    {queue : QueueName} {limit : Nat} (htask : task ≠ NULL) (hrefused : RefusedWhenFull r request queue limit)
    (hput : (r.book.held queue).length ≠ limit →
      SchedHolds (request r.sched).1 (r.book.accept queue task at_time).queues) :
    Accounted (answer r (request r.sched) queue task at_time).1
      (outputs ++ (answer r (request r.sched) queue task at_time).2) := by
  obtain ⟨herr, hsame⟩ := hrefused
  rw [answer]
  by_cases hfull : (r.book.held queue).length = limit
  · rw [if_pos hfull] at herr
    rw [hsame herr, herr, if_neg nofun]
    exact accounted_same h h.held r.phase rfl rfl
  · rw [if_neg hfull] at herr
    rw [herr, if_pos rfl]
    exact accounted_accept h htask (hput hfull)

theorem accounted_defer (h : Accounted r outputs) (htask : task ≠ NULL) (at_time : mu_time_abs_t) :
    Accounted (answer r (sched_aux r.sched task at_time) .deferred task at_time).1
      (outputs ++ (answer r (sched_aux r.sched task at_time) .deferred task at_time).2) := by
  refine accounted_answer h (sched_aux · task at_time) htask (refused_defer h task at_time) fun hroom => ?_
  rw [queues_accept_deferred]
  exact (defer_spec h.held (by rwa [Book.queues, List.length_map]) task at_time).2.2

theorem accounted_call (h : Accounted r outputs) (e : SchedEvent) (hnull : (RequestEvent.call e).NonNull) :
    Accounted (call r e).1 (outputs ++ (call r e).2) := by
  cases e with
  | clock now => exact accounted_same h (h.held.with_task _ _ now) r.phase rfl rfl
  | set_idle_task task => exact accounted_same h (h.held.with_task _ task _) r.phase rfl rfl
  | asap task =>
    refine accounted_answer h (mu_sched_asap · task) hnull (refused_asap h task) fun hroom => ?_
    rw [queues_accept_asap]
    exact (asap_spec h.held (by rwa [Book.queues, List.length_map]) task).2
  | from_isr task =>
    refine accounted_answer h (mu_sched_from_isr · task) hnull (refused_from_isr h task) fun hroom => ?_
    rw [queues_accept_irq]
    exact (from_isr_spec h.held (by rwa [Book.queues, List.length_map]) task).2
  | defer_until task at_time => exact accounted_defer h hnull at_time
  | defer_for task in_time => exact accounted_defer h hnull (mu_time_offset r.sched.clock in_time)
  | remove_deferred_task task =>
    obtain ⟨-, hremoved⟩ := remove_deferred_spec h.held task
    rw [← queues_drop] at hremoved
    exact accounted_drop h hremoved
  | step => exact accounted_step_irq h
  | task_done => exact accounted_same h (h.held.with_task NULL _ _) r.phase rfl rfl

theorem accounted_step (r : SchedRun) (outputs : List RequestOutput) (e : RequestEvent) (hnull : e.NonNull)
    (h : Accounted r outputs) : Accounted (requestMachine.step r e).1 (outputs ++ (requestMachine.step r e).2) := by
  cases e with
  | poll => exact accounted_poll h
  | call e =>
    dsimp only [requestMachine]
    split
    case isTrue => exact accounted_call h e hnull
    case isFalse => exact accounted_same h h.held r.phase rfl rfl

def requestStart (s : mu_sched_t) : SchedRun := ⟨mu_sched_init s, .ready, .empty⟩

theorem accounted_start (hs : Sized s) : Accounted (requestStart s) [] :=
  ⟨rfl, List.Perm.refl _, init_holds hs, fun _ _ hrequest => absurd hrequest List.not_mem_nil, rfl,
    fun _ hrequest => absurd hrequest List.not_mem_nil⟩

/-- At every moment of every run each accepted request is in one place, and a request is refused
exactly when its queue is full. -/
theorem no_request_lost (s : mu_sched_t) (hs : Sized s) (es : List RequestEvent) (hnull : ∀ e ∈ es, e.NonNull) :
    let r := (requestMachine.run es (requestStart s)).1
    Accounted r (requestMachine.run es (requestStart s)).2 ∧
      ∀ task at_time in_time,
        RefusedWhenFull r (mu_sched_asap · task) .asap 20 ∧
        RefusedWhenFull r (mu_sched_from_isr · task) .irq 7 ∧
        RefusedWhenFull r (mu_sched_defer_until · task at_time) .deferred 20 ∧
        RefusedWhenFull r (mu_sched_defer_for · task in_time) .deferred 20 := by
  have h := Machine.run_trace accounted_step hnull (accounted_start hs)
  rw [List.nil_append] at h
  refine ⟨h, fun task at_time in_time => ⟨?_, ?_, ?_, ?_⟩⟩
  · exact refused_asap h task
  · exact refused_from_isr h task
  · exact refused_defer h task at_time
  · exact refused_defer_for h task in_time

/-- Interrupts come between the conditions of the first step, and the task that it calls asks to run again. -/
theorem no_request_lost_interrupted :
    let es : List RequestEvent :=
      [.call (.asap 1), .call (.defer_until 2 5), .call .step, .call (.from_isr 3), .poll, .call (.clock 9),
        .call (.from_isr 3), .poll, .call (.asap 1), .call .task_done, .call (.remove_deferred_task 2), .call .step]
    Accounted (requestMachine.run es (requestStart staticStorage)).1
      (requestMachine.run es (requestStart staticStorage)).2 :=
  (no_request_lost staticStorage staticStorage_sized
    [.call (.asap 1), .call (.defer_until 2 5), .call .step, .call (.from_isr 3), .poll, .call (.clock 9),
      .call (.from_isr 3), .poll, .call (.asap 1), .call .task_done, .call (.remove_deferred_task 2), .call .step]
    (by simp [RequestEvent.NonNull, NULL])).1

end ToyTstat.Mulib
