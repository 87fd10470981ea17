import ToyTstat.Mulib.Contents
import ToyTstat.Mulib.Requests

/-!
# Requests and the reset

A book is kept over whole steps and over resets. Its requests are numbered, so those made before a
reset are known by their numbers.
-/

open CLib ToyTstat.Code ToyTstat.Code.mu_task_err_t

namespace ToyTstat.Mulib

namespace Book

/-- The next request of a queue. -/
def take (b : Book) (queue : QueueName) : Book × Option Request := (b.run queue, (b.held queue).head?)

/-- What the reset forgets. -/
def reset (b : Book) : Book :=
  { b with held := Function.update b.held .deferred [], dropped := b.dropped ++ b.held .deferred }

end Book

structure LifeRun where
  sched : mu_sched_t
  book : Book

/-! ## Runs -/

def record (r : LifeRun) (result : mu_sched_t × mu_task_err_t) (queue : QueueName) (task : Ptr)
    (at_time : mu_time_abs_t) : LifeRun :=
  ⟨result.1, if result.2 = MU_TASK_ERR_NONE then r.book.accept queue task at_time else r.book⟩

/-- The third condition of a step, and the request that it takes. -/
def bookAsap (s : mu_sched_t) (b : Book) : Book × Option Request :=
  if (step_asap s).2 then b.take .asap else (b, none)

/-- The second condition. A deferred `NULL` that is due is taken too, and the step goes on. -/
def bookDeferred (s : mu_sched_t) (b : Book) : Book × Option Request :=
  if (step_deferred s).2 then b.take .deferred
  else if (step_deferred s).1.deferred_task_count = s.deferred_task_count then bookAsap (step_deferred s).1 b
  else bookAsap (step_deferred s).1 (b.take .deferred).1

def bookStep (s : mu_sched_t) (b : Book) : Book × Option Request :=
  if (step_irq s).2 then b.take .irq else bookDeferred (step_irq s).1 b

/-- The step, and the request that is run. -/
def trackStep (r : LifeRun) : LifeRun × List Request :=
  (⟨(mu_sched_step r.sched).1, (bookStep r.sched r.book).1⟩,
    if (mu_sched_step r.sched).2.isSome then (bookStep r.sched r.book).2.toList else [])

def track (r : LifeRun) : LifeEvent → LifeRun × List Request
  | .call (.asap task) => (record r (mu_sched_asap r.sched task) .asap task 0, [])
  | .call (.from_isr task) => (record r (mu_sched_from_isr r.sched task) .irq task 0, [])
  | .call (.defer_until task at_time) =>
    (record r (mu_sched_defer_until r.sched task at_time) .deferred task at_time, [])
  | .call (.defer_for task in_time) =>
    (record r (mu_sched_defer_for r.sched task in_time) .deferred task (mu_time_offset r.sched.clock in_time), [])
  | .call (.remove_deferred_task task) =>
    (⟨(mu_sched_remove_deferred_task r.sched task).1, r.book.drop task⟩, [])
  | .call .step => trackStep r
  | .call e => (⟨(schedStep r.sched e).1, r.book⟩, [])
  | .reset => (⟨mu_sched_reset r.sched, r.book.reset⟩, [])

/-- The outputs are the requests that are run. -/
def trackMachine : Machine LifeRun LifeEvent Request := ⟨track⟩

theorem track_sched (r : LifeRun) (e : LifeEvent) :
    (trackMachine.step r e).1.sched = (lifeMachine.step r.sched e).1 := by
  rcases e with (_ | _ | _ | _ | _ | _ | _ | _ | _) | _ <;> rfl

/-! ## The book is right -/

variable {s : mu_sched_t} {b : Book} {r : LifeRun} {request : Request}

/-- What a step takes stood in the book, and nothing comes into it. -/
structure Taken (b : Book) (taken : Book × Option Request) : Prop where
  accepted : taken.1.accepted = b.accepted
  held : ∀ queue, ∀ request ∈ taken.1.held queue, request ∈ b.held queue
  request : ∀ request ∈ taken.2, ∃ queue, request ∈ b.held queue

theorem taken_none (b : Book) : Taken b (b, none) := ⟨rfl, fun _ _ h => h, nofun⟩

theorem taken_take (b : Book) (queue : QueueName) : Taken b (b.take queue) := by
  unfold Book.take Book.run
  cases hheld : b.held queue with
  | nil => exact taken_none b
  | cons request rest =>
    refine ⟨rfl, fun q request' h => ?_, fun request' h => ⟨queue, ?_⟩⟩
    · by_cases hq : q = queue
      · subst hq
        dsimp only at h
        rw [Function.update_self] at h
        rw [hheld]
        exact List.mem_cons_of_mem _ h
      · dsimp only at h
        rwa [Function.update_of_ne hq] at h
    · obtain rfl : request = request' := Option.some.inj h
      rw [hheld]
      exact List.mem_cons_self

theorem taken_trans {b' : Book} {taken : Book × Option Request} {first : Option Request} (h : Taken b (b', first))
    (h' : Taken b' taken) : Taken b taken := by
  refine ⟨h'.accepted.trans h.accepted, fun queue request hr => h.held _ _ (h'.held _ _ hr), fun request hr => ?_⟩
  obtain ⟨queue, hq⟩ := h'.request request hr
  exact ⟨queue, h.held _ _ hq⟩

theorem taken_step (s : mu_sched_t) (b : Book) : Taken b (bookStep s b) := by
  have hasap : ∀ s b, Taken b (bookAsap s b) := by
    intro s b
    unfold bookAsap
    split
    · exact taken_take b .asap
    · exact taken_none b
  unfold bookStep bookDeferred
  split
  · exact taken_take b .irq
  split
  · exact taken_take b .deferred
  split
  · exact hasap _ b
  · exact taken_trans (taken_take b .deferred) (hasap _ _)

/-- What waits after an event was there before, or it is new and has the next number. -/
structure Grows (b b' : Book) : Prop where
  accepted : b.accepted ≤ b'.accepted
  held : ∀ queue, ∀ request ∈ b'.held queue,
    request ∈ b.held queue ∨ request.id = b.accepted ∧ b.accepted < b'.accepted

theorem Taken.grows {taken : Book × Option Request} (h : Taken b taken) : Grows b taken.1 :=
  ⟨h.accepted.ge, fun queue request hr => .inl (h.held queue request hr)⟩

theorem grows_record (r : LifeRun) (result : mu_sched_t × mu_task_err_t) (queue : QueueName) (task : Ptr)
    (at_time : mu_time_abs_t) : Grows r.book (record r result queue task at_time).book := by
  unfold record
  split
  · refine ⟨Nat.le_succ _, fun q request hr => ?_⟩
    rcases mem_accept hr with hold | ⟨rfl, rfl⟩
    · exact .inl hold
    · exact .inr ⟨rfl, Nat.lt_succ_self _⟩
  · exact (taken_none r.book).grows

theorem grows_deferred {held dropped : List Request} (hsub : ∀ request ∈ held, request ∈ b.held .deferred) :
    Grows b { b with held := Function.update b.held .deferred held, dropped } := by
  refine ⟨le_rfl, fun queue request hr => .inl ?_⟩
  dsimp only at hr
  by_cases hqueue : queue = .deferred
  · subst hqueue
    rw [Function.update_self] at hr
    exact hsub request hr
  · rwa [Function.update_of_ne hqueue] at hr

theorem track_grows (r : LifeRun) (e : LifeEvent) : Grows r.book (track r e).1.book := by
  cases e with
  | reset => exact grows_deferred nofun
  | call e =>
    cases e with
    | clock now => exact (taken_none r.book).grows
    | set_idle_task task => exact (taken_none r.book).grows
    | task_done => exact (taken_none r.book).grows
    | asap task => exact grows_record r _ _ _ _
    | from_isr task => exact grows_record r _ _ _ _
    | defer_until task at_time => exact grows_record r _ _ _ _
    | defer_for task in_time => exact grows_record r _ _ _ _
    | remove_deferred_task task => exact grows_deferred fun request hr => (List.mem_filter.mp hr).1
    | step => exact (taken_step r.sched r.book).grows

theorem bookAsap_queues (h : SchedHolds s b.queues) :
    (bookAsap s b).1.queues = b.queues.takeAsap.1 ∧ (bookAsap s b).2.map Request.task = b.queues.takeAsap.2 := by
  unfold bookAsap Queues.takeAsap Book.take
  cases hnext : b.held .asap with
  | nil =>
    rw [queues_asap hnext] at h ⊢
    rw [step_asap_empty h, if_neg Bool.false_ne_true]
    exact ⟨queues_asap hnext, rfl⟩
  | cons request rest =>
    rw [queues_asap hnext] at h ⊢
    rw [(step_asap_next h).1, if_pos rfl]
    exact ⟨queues_run_asap hnext, rfl⟩

theorem bookDeferred_queues (h : SchedHolds s b.queues) :
    (bookDeferred s b).1.queues = (b.queues.takeDeferred s.clock).1 ∧
      (bookDeferred s b).2.map Request.task = (b.queues.takeDeferred s.clock).2 := by
  have hnone : SchedHolds { s with curr_task := NULL } b.queues := h.with_task NULL s.idle_task s.clock
  unfold bookDeferred Book.take
  cases hnext : b.held .deferred with
  | nil =>
    have hdeferred : b.queues.deferred = [] := congrArg (List.map Request.entry) hnext
    rw [step_deferred_empty (h.deferred_eq hdeferred), if_neg Bool.false_ne_true, if_pos rfl,
      Queues.takeDeferred_none hdeferred]
    exact bookAsap_queues hnone
  | cons request rest =>
    have hdeferred : b.queues.deferred = request.entry :: rest.map Request.entry :=
      congrArg (List.map Request.entry) hnext
    have hrun := queues_run_deferred hnext
    have hheld := h.deferred_eq hdeferred
    by_cases hearly : mu_time_precedes s.clock request.entry.at_time
    · rw [step_deferred_early hheld hearly, if_neg Bool.false_ne_true, if_pos rfl,
        Queues.takeDeferred_early hdeferred hearly]
      exact bookAsap_queues hnone
    obtain ⟨hfound, -, hrest⟩ := step_deferred_due hheld hearly
    have hcount : (step_deferred s).1.deferred_task_count ≠ s.deferred_task_count := by
      rw [← hrest.deferred.count, ← hheld.deferred.count, List.length_cons]
      exact (Nat.lt_succ_self _).ne
    rw [hfound]
    by_cases hnull : request.entry.task = NULL
    · rw [if_neg (by simpa using hnull), if_neg hcount, Queues.takeDeferred_null hdeferred hearly hnull, ← hrun]
      rw [← hrun] at hrest
      exact bookAsap_queues hrest
    · rw [if_pos (by simpa using hnull), Queues.takeDeferred_due hdeferred hearly hnull]
      exact ⟨hrun, rfl⟩

theorem bookStep_queues (h : SchedHolds s b.queues) :
    (bookStep s b).1.queues = (b.queues.take s.clock).1 ∧
      (bookStep s b).2.map Request.task = (b.queues.take s.clock).2 := by
  unfold bookStep Book.take
  cases hnext : b.held .irq with
  | nil =>
    have hirq : b.queues.irq = [] := congrArg (List.map Request.task) hnext
    rw [step_irq_empty (h.irq_eq hirq), if_neg Bool.false_ne_true, Queues.take_irq_none hirq]
    exact bookDeferred_queues (h.with_task NULL s.idle_task s.clock)
  | cons request rest =>
    have hirq : b.queues.irq = request.task :: rest.map Request.task := congrArg (List.map Request.task) hnext
    rw [(step_irq_next (h.irq_eq hirq)).1, if_pos rfl, Queues.take_irq hirq]
    exact ⟨queues_run_irq hnext, rfl⟩

structure Tracks (r : LifeRun) : Prop where
  held : SchedHolds r.sched r.book.queues
  numbered : ∀ queue, ∀ request ∈ r.book.held queue, request.id < r.book.accepted

theorem holds_record (h : SchedHolds r.sched r.book.queues) {result : mu_sched_t × mu_task_err_t} {queue : QueueName}
    {task : Ptr} {at_time : mu_time_abs_t}
    (hresult : result = (r.sched, MU_TASK_ERR_SCHED_FULL) ∨
      result.2 = MU_TASK_ERR_NONE ∧ SchedHolds result.1 (r.book.accept queue task at_time).queues) :
    SchedHolds (record r result queue task at_time).sched (record r result queue task at_time).book.queues := by
  unfold record
  rcases hresult with rfl | ⟨hnone, hheld⟩
  · exact h
  · rw [if_pos hnone]
    exact hheld

theorem holds_record_defer (h : SchedHolds r.sched r.book.queues) (task : Ptr) (at_time : mu_time_abs_t) :
    let r' := record r (sched_aux r.sched task at_time) .deferred task at_time
    SchedHolds r'.sched r'.book.queues := by
  apply holds_record h
  rw [queues_accept_deferred]
  by_cases hfull : r.book.queues.deferred.length = MU_CONFIG_SCHED_MAX_DEFERRED_TASKS
  · exact .inl (defer_full h hfull task at_time)
  · obtain ⟨herr, -, hheld⟩ := defer_spec h hfull task at_time
    exact .inr ⟨herr, hheld⟩

theorem track_holds (h : SchedHolds r.sched r.book.queues) (e : LifeEvent) :
    SchedHolds (track r e).1.sched (track r e).1.book.queues := by
  cases e with
  | reset =>
    have hqueues : r.book.reset.queues = { r.book.queues with deferred := [] } := by
      simp [Book.queues, Book.reset, Function.update]
    have hreset := holds_reset h
    rwa [← hqueues] at hreset
  | call e =>
    cases e with
    | clock now => exact h.with_task r.sched.curr_task r.sched.idle_task now
    | set_idle_task task => exact h.with_task r.sched.curr_task task r.sched.clock
    | task_done => exact h.with_task NULL r.sched.idle_task r.sched.clock
    | asap task =>
      apply holds_record h
      rw [queues_accept_asap]
      by_cases hfull : r.book.queues.asap.length = MU_CONFIG_SCHED_MAX_ASAP_TASKS
      · exact .inl (asap_full h hfull task)
      · exact .inr (asap_spec h hfull task)
    | from_isr task =>
      apply holds_record h
      rw [queues_accept_irq]
      by_cases hfull : r.book.queues.irq.length = MU_CONFIG_SCHED_MAX_IRQ_TASKS.toNat - 1
      · exact .inl (from_isr_full h hfull task)
      · exact .inr (from_isr_spec h hfull task)
    | defer_until task at_time => exact holds_record_defer h task at_time
    | defer_for task in_time => exact holds_record_defer h task _
    | remove_deferred_task task =>
      have hremoved := (remove_deferred_spec h task).2
      rw [← queues_drop] at hremoved
      exact hremoved
    | step =>
      have hstep := (step_taken h).1
      rw [← (bookStep_queues h).1] at hstep
      exact hstep

theorem tracks_step (r : LifeRun) (e : LifeEvent) (h : Tracks r) : Tracks (trackMachine.step r e).1 := by
  have hgrows := track_grows r e
  refine ⟨track_holds h.held e, fun queue request hr => ?_⟩
  rcases hgrows.held queue request hr with hold | ⟨hid, hlt⟩
  · exact (h.numbered queue request hold).trans_le hgrows.accepted
  · rwa [hid]

theorem tracks_init (hs : Sized s) : Tracks ⟨mu_sched_init s, .empty⟩ := ⟨init_holds hs, nofun⟩

/-! ## Behind a reset -/

/-- No request with a task waits that is numbered below `n`, and none of `ran` is. -/
structure Forgot (n : Nat) (r : LifeRun) (ran : List Request) : Prop where
  holds : SchedHolds r.sched r.book.queues
  accepted : n ≤ r.book.accepted
  held : ∀ queue, ∀ request ∈ r.book.held queue, request.task ≠ NULL → n ≤ request.id
  ran : ∀ request ∈ ran, n ≤ request.id

theorem run_waited (h : SchedHolds r.sched r.book.queues) (hrun : request ∈ (trackStep r).2) :
    request.task ≠ NULL ∧ ∃ queue, request ∈ r.book.held queue := by
  obtain ⟨-, hcalled, -⟩ := step_taken h
  have htaken := taken_step r.sched r.book
  have hqueues := (bookStep_queues h).2
  dsimp only [trackStep] at hrun
  split at hrun
  case isFalse => cases hrun
  case isTrue hsome =>
    rw [Option.mem_toList] at hrun
    rw [hrun] at hqueues
    rw [hcalled, ← hqueues] at hsome
    refine ⟨?_, htaken.request request hrun⟩
    intro hnull
    rw [Option.map_some, Option.getD_some, hnull] at hsome
    cases hsome

theorem forgot_step {n : Nat} (r : LifeRun) (ran : List Request) (e : LifeEvent) (h : Forgot n r ran) :
    Forgot n (trackMachine.step r e).1 (ran ++ (trackMachine.step r e).2) := by
  have hgrows := track_grows r e
  refine ⟨track_holds h.holds e, h.accepted.trans hgrows.accepted, fun queue request hr htask => ?_,
    fun request hr => ?_⟩
  · rcases hgrows.held queue request hr with hold | ⟨hid, -⟩
    · exact h.held queue request hold htask
    · exact hid ▸ h.accepted
  · rcases List.mem_append.mp hr with hold | hnew
    · exact h.ran request hold
    · have hrun : request ∈ (trackStep r).2 := by
        rcases e with (_ | _ | _ | _ | _ | _ | _ | _ | _) | _ <;> first | exact hnew | cases hnew
      obtain ⟨htask, queue, hwaited⟩ := run_waited h.holds hrun
      exact h.held queue request hwaited htask

theorem forgot_run {n : Nat} (es : List LifeEvent) (h : Forgot n r []) :
    Forgot n (trackMachine.run es r).1 (trackMachine.run es r).2 := by
  have hstep : ∀ r ran e, True → Forgot n r ran →
      Forgot n (trackMachine.step r e).1 (ran ++ (trackMachine.step r e).2) :=
    fun r ran e _ => forgot_step r ran e
  exact Machine.run_trace hstep (fun _ _ => trivial) h

/-! ## What is left -/

theorem next_taken (h : SchedHolds s b.queues) (hdeferred : b.held .deferred = []) {rest : List Request}
    (hnext : b.held .irq ++ b.held .asap = request :: rest) :
    (bookStep s b).2 = some request ∧ (bookStep s b).1.held .deferred = [] ∧
      (bookStep s b).1.held .irq ++ (bookStep s b).1.held .asap = rest := by
  unfold bookStep Book.take
  cases hirq : b.held .irq with
  | cons first waiting =>
    rw [hirq] at hnext
    obtain ⟨rfl, rfl⟩ := List.cons.inj hnext
    have hqueue : b.queues.irq = first.task :: waiting.map Request.task := congrArg (List.map Request.task) hirq
    rw [(step_irq_next (h.irq_eq hqueue)).1, if_pos rfl]
    simp [Book.run, hirq, hdeferred, Function.update]
  | nil =>
    rw [hirq, List.nil_append] at hnext
    have hirq' : b.queues.irq = [] := congrArg (List.map Request.task) hirq
    have hdeferred' : b.queues.deferred = [] := congrArg (List.map Request.entry) hdeferred
    have hasap : b.queues.asap = request.task :: rest.map Request.task := congrArg (List.map Request.task) hnext
    have hnone : SchedHolds { s with curr_task := NULL } b.queues := h.with_task NULL s.idle_task s.clock
    rw [step_irq_empty (h.irq_eq hirq'), if_neg Bool.false_ne_true]
    unfold bookDeferred bookAsap Book.take
    rw [step_deferred_empty (hnone.deferred_eq hdeferred'), if_neg Bool.false_ne_true, if_pos rfl,
      (step_asap_next (hnone.asap_eq hasap)).1, if_pos rfl]
    simp [Book.run, hirq, hnext, hdeferred, Function.update]

/-- After enough steps every request with a task is run. -/
theorem left_runs {waiting : List Request} (h : SchedHolds r.sched r.book.queues)
    (hdeferred : r.book.held .deferred = []) (hwaiting : r.book.held .irq ++ r.book.held .asap = waiting)
    (hmem : request ∈ waiting) (htask : request.task ≠ NULL) : ∃ es, request ∈ (trackMachine.run es r).2 := by
  induction waiting generalizing r with
  | nil => cases hmem
  | cons first rest ih =>
    obtain ⟨hfirst, hdeferred', hrest⟩ := next_taken h hdeferred hwaiting
    rcases List.mem_cons.mp hmem with rfl | hmem
    · refine ⟨[.call .step], ?_⟩
      obtain ⟨-, hcalled, -⟩ := step_taken h
      rw [← (bookStep_queues h).2, hfirst, Option.map_some, Option.getD_some, mu_task_call, if_neg htask] at hcalled
      rw [Machine.run_cons, Machine.run_nil, List.append_nil]
      dsimp only [trackMachine, track, trackStep]
      rw [hcalled, hfirst]
      exact List.mem_cons_self
    · obtain ⟨es, hes⟩ := ih (track_holds h (.call .step)) hdeferred' hrest hmem
      refine ⟨.call .step :: es, ?_⟩
      rw [Machine.run_cons]
      exact List.mem_append_right _ hes

/-- Behind a reset no earlier request is run, exactly when the irq queue and the asap queue held no task. -/
theorem reset_forgets_iff (s : mu_sched_t) (hs : Sized s) (es : List LifeEvent) :
    let r := (trackMachine.run es ⟨mu_sched_init s, .empty⟩).1
    SchedHolds r.sched r.book.queues ∧
      ((∀ es', ∀ request ∈ (trackMachine.run es' (trackMachine.step r .reset).1).2, r.book.accepted ≤ request.id) ↔
        ∀ task ∈ r.book.queues.irq ++ r.book.queues.asap, task = NULL) := by
  have htracks : Tracks (trackMachine.run es ⟨mu_sched_init s, .empty⟩).1 :=
    Machine.run_invariant tracks_step es (tracks_init hs)
  generalize (trackMachine.run es ⟨mu_sched_init s, .empty⟩).1 = r at htracks
  have hreset : SchedHolds _ _ := track_holds htracks.held .reset
  have hqueues : r.book.queues.irq ++ r.book.queues.asap =
      (r.book.held .irq ++ r.book.held .asap).map Request.task := List.map_append.symm
  refine ⟨htracks.held, ?_⟩
  rw [hqueues, List.forall_mem_map]
  constructor
  · intro hforgets request hr
    by_contra htask
    obtain ⟨es', hrun⟩ := left_runs (r := (trackMachine.step r .reset).1) hreset rfl rfl hr htask
    have hlt : request.id < r.book.accepted := by
      rcases List.mem_append.mp hr with hirq | hasap
      · exact htracks.numbered _ _ hirq
      · exact htracks.numbered _ _ hasap
    exact absurd (hforgets es' request hrun) (not_le.mpr hlt)
  · intro hnull es'
    have hforgot : Forgot r.book.accepted (trackMachine.step r .reset).1 [] := by
      refine ⟨hreset, le_rfl, fun queue request hr htask => ?_, nofun⟩
      cases queue with
      | irq => exact absurd (hnull request (List.mem_append_left _ hr)) htask
      | asap => exact absurd (hnull request (List.mem_append_right _ hr)) htask
      | deferred => cases hr
    exact (forgot_run es' hforgot).ran

/-- Behind the reset the deferred task 7 is not run, and task 8 is. -/
theorem reset_forgets_deferred :
    let r := (trackMachine.run [.call (.defer_until 7 5), .reset] ⟨mu_sched_init staticStorage, .empty⟩).1
    (∀ es', ∀ request ∈ (trackMachine.run es' r).2, 1 ≤ request.id) ∧
      (trackMachine.run [.call (.defer_until 8 5), .call (.clock 6), .call .step, .call .step] r).2 =
        [⟨1, .deferred, 8, 5⟩] := by
  refine ⟨?_, by decide +kernel⟩
  exact (reset_forgets_iff staticStorage staticStorage_sized [.call (.defer_until 7 5)]).2.mpr (by decide +kernel)

/-- Task 7 is in the asap queue, and behind the reset it is run. -/
theorem reset_not_forgets :
    let r := (trackMachine.run [.call (.asap 7)] ⟨mu_sched_init staticStorage, .empty⟩).1
    r.book.accepted = 1 ∧
      (trackMachine.run [.call .step] (trackMachine.step r .reset).1).2 = [⟨0, .asap, 7, 0⟩] ∧
      (mu_sched_step (mu_sched_reset r.sched)).2 = some 7 := by
  decide +kernel

end ToyTstat.Mulib
