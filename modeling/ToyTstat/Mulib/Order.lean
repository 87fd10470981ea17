import ToyTstat.Mulib.Requests

/-!
# First come, first served

A request in the irq or the asap queue waits for the requests before it and for no others: each turn of
its queue runs the first of them.
-/

open CLib ToyTstat.Code ToyTstat.Code.mu_task_err_t

namespace ToyTstat.Mulib

variable {r : SchedRun} {b b' : Book} {outputs : List RequestOutput} {queue : QueueName} {task : Ptr}
  {at_time : mu_time_abs_t} {request : Request}

/-! ## Turns -/

/-- The event evaluates the condition of the queue. -/
def turn : QueueName → SchedRun → RequestEvent → Bool
  | .irq, r, .call .step => r.phase = .ready
  | .asap, r, .poll => r.phase = .none_due
  | _, _, _ => false

/-- How often a run comes to the queue. -/
def turns (queue : QueueName) : List RequestEvent → SchedRun → Nat
  | [], _ => 0
  | e :: es, r => (turn queue r e).toNat + turns queue es (requestMachine.step r e).1

/-- At a turn the first request runs. A new one comes behind the others. -/
structure Advances (queue : QueueName) (served : Bool) (b b' : Book) : Prop where
  held : ∃ new : Option Request, b'.held queue = (b.held queue).drop served.toNat ++ new.toList ∧
    ∀ request ∈ new, request.id = b.accepted ∧ request.queue = queue
  ran : ∃ others, b'.ran = b.ran ++ (b.held queue).take served.toNat ++ others ∧
    ∀ other ∈ others, other.queue ≠ queue

theorem advances_same (b : Book) : Advances queue false b b :=
  ⟨⟨none, by simp⟩, ⟨[], by simp⟩⟩

theorem advances_accept (hqueue : queue ≠ .deferred) (b : Book) (other : QueueName) (task : Ptr)
    (at_time : mu_time_abs_t) : Advances queue false b (b.accept other task at_time) := by
  refine ⟨?_, ⟨[], by simp [Book.accept]⟩⟩
  unfold Book.accept
  dsimp only
  by_cases hother : queue = other
  · subst hother
    refine ⟨some ⟨b.accepted, queue, task, at_time⟩, ?_, by simp⟩
    simp [enqueue, hqueue]
  · refine ⟨none, ?_, by simp⟩
    simp [Function.update_of_ne hother]

theorem advances_drop (hqueue : queue ≠ .deferred) (b : Book) (task : Ptr) : Advances queue false b (b.drop task) := by
  refine ⟨⟨none, ?_, by simp⟩, ⟨[], by simp [Book.drop]⟩⟩
  simp [Book.drop, Function.update_of_ne hqueue]

theorem advances_run (queue : QueueName) (b : Book) : Advances queue true b (b.run queue) := by
  unfold Book.run
  cases hheld : b.held queue with
  | nil => exact ⟨⟨none, by simp [hheld]⟩, ⟨[], by simp [hheld]⟩⟩
  | cons request rest => exact ⟨⟨none, by simp [hheld]⟩, ⟨[], by simp [hheld]⟩⟩

theorem advances_run_other {other : QueueName} (hother : queue ≠ other)
    (hown : ∀ request ∈ b.held other, request.queue = other) : Advances queue false b (b.run other) := by
  unfold Book.run
  cases hheld : b.held other with
  | nil => exact advances_same b
  | cons request rest =>
    have hrequest := hown request (hheld ▸ List.mem_cons_self)
    refine ⟨⟨none, ?_, by simp⟩, ⟨[request], by simp, ?_⟩⟩
    · simp [Function.update_of_ne hother]
    · simp only [List.mem_singleton, forall_eq, hrequest]
      exact hother.symm

/-! ## One event -/

theorem run_empty (h : b.held queue = []) : b.run queue = b := by
  rw [Book.run, h]

theorem step_irq_book (h : Accounted r outputs) :
    (condition r (step_irq r.sched) .irq .irq_empty).1.book = r.book.run .irq := by
  have hheld := h.held
  unfold condition
  cases hnext : r.book.held .irq with
  | nil =>
    rw [queues_irq hnext] at hheld
    rw [step_irq_empty hheld, if_neg Bool.false_ne_true, run_empty hnext]
  | cons request rest =>
    rw [queues_irq hnext] at hheld
    rw [(step_irq_next hheld).1, if_pos rfl]

theorem poll_asap_book (h : Accounted r outputs) (hphase : r.phase = .none_due) :
    (poll r).1.book = r.book.run .asap := by
  have hheld := h.held
  rw [poll, hphase]
  dsimp only
  cases hnext : r.book.held .asap with
  | nil =>
    rw [queues_asap hnext] at hheld
    rw [step_asap_empty hheld, if_neg Bool.false_ne_true, run_empty hnext]
  | cons request rest =>
    rw [queues_asap hnext] at hheld
    rw [(step_asap_next hheld).1, if_pos rfl, condition, (step_asap_next hheld).1, if_pos rfl]

theorem condition_book (r : SchedRun) (result : mu_sched_t × Bool) (queue : QueueName) (next : Phase) :
    (condition r result queue next).1.book = r.book ∨ (condition r result queue next).1.book = r.book.run queue := by
  unfold condition
  split
  · exact .inr rfl
  · exact .inl rfl

theorem answer_book (r : SchedRun) (result : mu_sched_t × mu_task_err_t) (queue : QueueName) (task : Ptr)
    (at_time : mu_time_abs_t) :
    (answer r result queue task at_time).1.book = r.book ∨
      (answer r result queue task at_time).1.book = r.book.accept queue task at_time := by
  unfold answer
  dsimp only
  split
  · exact .inr rfl
  · exact .inl rfl

theorem advances_answer (hqueue : queue ≠ .deferred) (r : SchedRun) (result : mu_sched_t × mu_task_err_t)
    (other : QueueName) (task : Ptr) (at_time : mu_time_abs_t) :
    Advances queue false r.book (answer r result other task at_time).1.book := by
  rcases answer_book r result other task at_time with hsame | haccept
  · rw [hsame]
    exact advances_same r.book
  · rw [haccept]
    exact advances_accept hqueue r.book other task at_time

theorem Accounted.run_other (h : Accounted r outputs) {other : QueueName} (hother : queue ≠ other) :
    Advances queue false r.book (r.book.run other) :=
  advances_run_other hother fun request hrequest => (h.own other request hrequest).1

theorem advances_poll (h : Accounted r outputs) (hqueue : queue ≠ .deferred) :
    Advances queue (turn queue r .poll) r.book (poll r).1.book := by
  cases hphase : r.phase with
  | ready =>
    have hturn : turn queue r .poll = false := by
      cases queue <;> simp [turn, hphase]
    rw [hturn, poll, hphase]
    exact advances_same r.book
  | irq_empty =>
    have hturn : turn queue r .poll = false := by
      cases queue <;> simp [turn, hphase]
    rw [hturn, poll, hphase]
    dsimp only
    rcases condition_book r (step_deferred r.sched) .deferred .none_due with hsame | hrun
    · rw [hsame]
      exact advances_same r.book
    · rw [hrun]
      exact h.run_other hqueue
  | none_due =>
    rw [poll_asap_book h hphase]
    cases queue with
    | irq => exact h.run_other (by decide)
    | asap =>
      rw [turn, hphase]
      exact advances_run .asap r.book
    | deferred => exact absurd rfl hqueue

theorem advances_call (h : Accounted r outputs) (hqueue : queue ≠ .deferred) (e : SchedEvent)
    (hready : r.phase = .ready ∨ e.interrupts) :
    Advances queue (turn queue r (.call e)) r.book (call r e).1.book := by
  have hturn (hstep : e ≠ .step) : turn queue r (.call e) = false := by
    cases queue <;> cases e <;> first | rfl | exact absurd rfl hstep
  cases e with
  | step =>
    have hphase : r.phase = .ready := hready.resolve_right Bool.false_ne_true
    unfold call
    rw [step_irq_book h]
    cases queue with
    | irq =>
      rw [turn, hphase]
      exact advances_run .irq r.book
    | asap => exact h.run_other (by decide)
    | deferred => exact absurd rfl hqueue
  | asap task =>
    rw [hturn (by simp)]
    exact advances_answer hqueue r _ .asap task 0
  | from_isr task =>
    rw [hturn (by simp)]
    exact advances_answer hqueue r _ .irq task 0
  | defer_until task at_time =>
    rw [hturn (by simp)]
    exact advances_answer hqueue r _ .deferred task at_time
  | defer_for task in_time =>
    rw [hturn (by simp)]
    exact advances_answer hqueue r _ .deferred task _
  | remove_deferred_task task =>
    rw [hturn (by simp)]
    exact advances_drop hqueue r.book task
  | clock now =>
    rw [hturn (by simp)]
    exact advances_same r.book
  | set_idle_task task =>
    rw [hturn (by simp)]
    exact advances_same r.book
  | task_done =>
    rw [hturn (by simp)]
    exact advances_same r.book

theorem advances_step (h : Accounted r outputs) (hqueue : queue ≠ .deferred) (e : RequestEvent) :
    Advances queue (turn queue r e) r.book (requestMachine.step r e).1.book := by
  cases e with
  | poll => exact advances_poll h hqueue
  | call e =>
    dsimp only [requestMachine]
    by_cases hready : r.phase = .ready ∨ e.interrupts
    · rw [if_pos hready]
      exact advances_call h hqueue e hready
    · have hturn : turn queue r (.call e) = false := by
        rw [not_or] at hready
        cases queue <;> cases e <;> simp [turn, hready.1]
      rw [if_neg hready, hturn]
      exact advances_same r.book

/-! ## In order -/

/-- The requests of a queue that have run, and those that wait. -/
def Book.line (b : Book) (queue : QueueName) : List Request := b.ran.filter (·.queue = queue) ++ b.held queue

def InOrder (b : Book) : Prop :=
  ∀ queue ≠ QueueName.deferred, (b.line queue).Pairwise (fun earlier later => earlier.id < later.id)

theorem Advances.line {served : Bool} (h : Advances queue served b b')
    (hown : ∀ request ∈ b.held queue, request.queue = queue) :
    ∃ new : Option Request, b'.line queue = b.line queue ++ new.toList ∧ ∀ request ∈ new, request.id = b.accepted := by
  obtain ⟨⟨new, hheld, hnew⟩, ⟨others, hran, hothers⟩⟩ := h
  have htaken : ((b.held queue).take served.toNat).filter (·.queue = queue) = (b.held queue).take served.toNat := by
    rw [List.filter_eq_self]
    intro request hrequest
    exact decide_eq_true (hown request (List.mem_of_mem_take hrequest))
  have hnone : others.filter (·.queue = queue) = [] := by
    rw [List.filter_eq_nil_iff]
    intro other hother
    simpa using hothers other hother
  refine ⟨new, ?_, fun request hrequest => (hnew request hrequest).1⟩
  unfold Book.line
  rw [hran, hheld, List.filter_append, List.filter_append, htaken, hnone, List.append_nil, List.append_assoc,
    List.append_assoc, ← List.append_assoc (List.take _ _), List.take_append_drop]

theorem line_accepted (h : Accounted r outputs) (hmem : request ∈ r.book.line queue) :
    request.id < r.book.accepted := by
  have hall : request ∈ r.book.all := by
    unfold Book.all
    simp only [List.mem_append]
    rcases List.mem_append.mp hmem with hran | hheld
    · exact .inl (.inr (List.mem_filter.mp hran).1)
    · cases queue with
      | irq => tauto
      | asap => tauto
      | deferred => tauto
  exact List.mem_range.mp (h.once.mem_iff.mp (List.mem_map_of_mem hall))

theorem inOrder_step (h : Accounted r outputs) (hin : InOrder r.book) (e : RequestEvent) :
    InOrder (requestMachine.step r e).1.book := by
  intro queue hqueue
  have hadvances := advances_step h hqueue e
  obtain ⟨new, hline, hnew⟩ := hadvances.line fun request hrequest => (h.own queue request hrequest).1
  rw [hline, List.pairwise_append]
  refine ⟨hin queue hqueue, ?_, ?_⟩
  · cases new <;> simp
  · intro earlier hearlier later hlater
    rw [hnew later (by simpa using hlater)]
    exact line_accepted h hearlier

theorem inOrder_empty : InOrder .empty := fun _ _ => List.Pairwise.nil

/-- In every run the requests of the irq queue run in the order in which they were accepted, and so do those of the
asap queue. The ones that wait are the last. -/
theorem served_in_order (s : mu_sched_t) (hs : Sized s) (es : List RequestEvent) (hnull : ∀ e ∈ es, e.NonNull) :
    let result := requestMachine.run es (requestStart s)
    InOrder result.1.book ∧ result.2.filterMap RequestOutput.ran? = result.1.book.ran.map Request.task := by
  have hstep (r : SchedRun) (outputs : List RequestOutput) (e : RequestEvent) (he : e.NonNull)
      (h : Accounted r outputs ∧ InOrder r.book) :
      Accounted (requestMachine.step r e).1 (outputs ++ (requestMachine.step r e).2) ∧
        InOrder (requestMachine.step r e).1.book :=
    ⟨accounted_step r outputs e he h.1, inOrder_step h.1 h.2 e⟩
  have hstart : Accounted (requestStart s) [] ∧ InOrder (requestStart s).book := ⟨accounted_start hs, inOrder_empty⟩
  obtain ⟨haccounted, hin⟩ := Machine.run_trace hstep hnull hstart
  exact ⟨hin, haccounted.ran⟩

/-- Two tasks wait for the foreground, and the one that comes first is called again. -/
theorem served_in_order_twice :
    InOrder (requestMachine.run [.call (.asap 1), .call (.asap 2), .call (.asap 1), .call .step, .poll,
      .call (.from_isr 3), .poll, .call .task_done, .call .step] (requestStart staticStorage)).1.book :=
  (served_in_order staticStorage staticStorage_sized [.call (.asap 1), .call (.asap 2), .call (.asap 1),
    .call .step, .poll, .call (.from_isr 3), .poll, .call .task_done, .call .step]
    (by simp [RequestEvent.NonNull, NULL])).1

/-! ## In time -/

theorem ran_stays (h : Accounted r outputs) (hran : request ∈ r.book.ran) {es : List RequestEvent}
    (hnull : ∀ e ∈ es, e.NonNull) : request ∈ (requestMachine.run es r).1.book.ran := by
  have hstep (r : SchedRun) (outputs : List RequestOutput) (e : RequestEvent) (he : e.NonNull)
      (h : Accounted r outputs ∧ request ∈ r.book.ran) :
      Accounted (requestMachine.step r e).1 (outputs ++ (requestMachine.step r e).2) ∧
        request ∈ (requestMachine.step r e).1.book.ran := by
    obtain ⟨haccounted, hran⟩ := h
    have hadvances : Advances .irq _ _ _ := advances_step haccounted (by decide) e
    obtain ⟨others, hmore, -⟩ := hadvances.ran
    refine ⟨accounted_step r outputs e he haccounted, ?_⟩
    rw [hmore, List.append_assoc]
    exact List.mem_append_left _ hran
  exact (Machine.run_trace hstep hnull ⟨h, hran⟩).2

theorem waits_run (h : Accounted r outputs) (hqueue : queue ≠ .deferred) {es : List RequestEvent}
    (hnull : ∀ e ∈ es, e.NonNull) {before after : List Request} (hheld : r.book.held queue = before ++ request :: after)
    (hturns : before.length < turns queue es r) : request ∈ (requestMachine.run es r).1.book.ran := by
  -- by induction on the run: at each turn there is one request less before it
  induction es generalizing r outputs before after with
  | nil => exact absurd hturns (Nat.not_lt_zero _)
  | cons e es ih =>
    have hadvances := advances_step h hqueue e
    have hnext := accounted_step r outputs e (hnull e List.mem_cons_self) h
    have hrest : ∀ e ∈ es, e.NonNull := fun e' he' => hnull e' (List.mem_cons_of_mem e he')
    rw [turns] at hturns
    rw [Machine.run_cons]
    generalize turn queue r e = served at hadvances hturns
    obtain ⟨⟨new, hheld', -⟩, others, hran, -⟩ := hadvances
    rw [hheld] at hheld' hran
    cases served with
    | false =>
      rw [Bool.toNat_false, Nat.zero_add] at hturns
      rw [Bool.toNat_false, List.drop_zero, List.append_assoc, List.cons_append] at hheld'
      exact ih hnext hrest hheld' hturns
    | true =>
      cases before with
      | nil =>
        refine ran_stays hnext ?_ hrest
        rw [hran]
        simp
      | cons first before =>
        rw [Bool.toNat_true, List.cons_append, List.drop_one, List.tail_cons, List.append_assoc,
          List.cons_append] at hheld'
        rw [Bool.toNat_true, List.length_cons] at hturns
        exact ih hnext hrest hheld' (by omega)

/-- In every run a request in the irq or the asap queue has run once its queue has had one turn more than there were
requests before it, whatever else is asked for. -/
theorem served_in_time (s : mu_sched_t) (hs : Sized s) (es es' : List RequestEvent) (hnull : ∀ e ∈ es, e.NonNull)
    (hnull' : ∀ e ∈ es', e.NonNull) (queue : QueueName) (hqueue : queue ≠ .deferred) (before after : List Request)
    (request : Request)
    (hheld : (requestMachine.run es (requestStart s)).1.book.held queue = before ++ request :: after)
    (hturns : before.length < turns queue es' (requestMachine.run es (requestStart s)).1) :
    request ∈ (requestMachine.run es' (requestMachine.run es (requestStart s)).1).1.book.ran := by
  have h := Machine.run_trace accounted_step hnull (accounted_start hs)
  exact waits_run h hqueue hnull' hheld hturns

/-- The second request runs at the second turn, although the interrupt asks again and again. -/
theorem served_in_time_second :
    (⟨1, .asap, 2, 0⟩ : Request) ∈
      (requestMachine.run [.call .step, .call (.from_isr 3), .poll, .poll, .call .task_done, .call .step,
        .call .task_done, .call .step, .poll, .poll]
        (requestMachine.run [.call (.asap 1), .call (.asap 2)] (requestStart staticStorage)).1).1.book.ran :=
  served_in_time staticStorage staticStorage_sized [.call (.asap 1), .call (.asap 2)] _
    (by simp [RequestEvent.NonNull, NULL]) (by simp [RequestEvent.NonNull, NULL]) .asap (by decide)
    [⟨0, .asap, 1, 0⟩] [] _ (by decide +kernel) (by decide +kernel)

end ToyTstat.Mulib
