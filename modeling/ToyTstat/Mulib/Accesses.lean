import ToyTstat.Mulib.Requests

/-!
# Interrupts between two memory accesses of a step

The first condition of a step reads the queue that the interrupts write. Here an interrupt may come
between any two memory accesses of that read. A run of this kind is a run in which the condition is
evaluated at once: when `tail` is read and the queue is empty, or else when `head` is written.
-/

open CLib ToyTstat.Code ToyTstat.Code.mu_task_err_t ToyTstat.Code.mu_spsc_err_t

namespace ToyTstat.Mulib

/-! ## Runs -/

structure MemoryRun where
  run : SchedRun
  /-- Where `mu_spsc_get` is, if the step is in it. -/
  pc : Option GetPc

inductive MemoryEvent
  /-- A call. A step only begins. -/
  | call (e : SchedEvent)
  /-- The next memory access of `mu_spsc_get`. -/
  | access (tail_first : Bool)
  /-- The next condition of the step. -/
  | poll

def memoryCall (a : MemoryRun) : SchedEvent → MemoryRun × List RequestOutput
  | .step => (⟨a.run, some .start⟩, [])
  | e => (⟨(call a.run e).1, a.pc⟩, (call a.run e).2)

/-- What the access returns ends the condition. -/
def memoryGet (r : SchedRun) (tail_first : Bool) (pc : GetPc) : MemoryRun × List RequestOutput :=
  let (irq_tasks, pc, result) := mu_spsc_get_access tail_first r.sched.irq_tasks pc
  match result with
  | none => (⟨{ r with sched := { r.sched with irq_tasks } }, some pc⟩, [])
  | some (item, err) =>
    let returned := ({ r.sched with irq_tasks, curr_task := item }, decide (err = MU_SPSC_ERR_NONE))
    (⟨(condition r returned .irq .irq_empty).1, none⟩, (condition r returned .irq .irq_empty).2)

def memoryMachine : Machine MemoryRun MemoryEvent RequestOutput where
  step
    | a, .call e => if a.pc = none ∧ a.run.phase = .ready ∨ e.interrupts then memoryCall a e else (a, [])
    | a, .access tail_first =>
      match a.pc with
      | none => (a, [])
      | some pc => memoryGet a.run tail_first pc
    | a, .poll =>
      match a.pc with
      | none => (⟨(poll a.run).1, none⟩, (poll a.run).2)
      | some _ => (a, [])

def MemoryEvent.NonNull : MemoryEvent → Prop
  | .call e => (RequestEvent.call e).NonNull
  | _ => True

/-- The access from which on it is certain what the condition finds. -/
def decides (tail_first : Bool) (q : mu_spsc_t) : GetPc → Bool
  | .start => tail_first ∧ q.head = q.tail
  | .compare_tail head => head = q.tail
  | .release _ _ => true
  | _ => false

/-- The condition is evaluated at once, at that access. -/
def atOnce (a : MemoryRun) : MemoryEvent → List RequestEvent
  | .call .step => []
  | .call e => if a.pc = none ∨ e.interrupts then [.call e] else []
  | .access tail_first => if a.pc.any (decides tail_first a.run.sched.irq_tasks) then [.call .step] else []
  | .poll => if a.pc = none then [.poll] else []

theorem get_at_once (r : SchedRun) (tail_first : Bool) (h : r.phase = .ready) :
    let q := r.sched.irq_tasks
    let accesses := List.replicate (if q.head = q.tail then 2 else 6) (MemoryEvent.access tail_first)
    let evaluated := condition r (step_irq r.sched) .irq .irq_empty
    memoryMachine.run (.call .step :: accesses) ⟨r, none⟩ = (⟨evaluated.1, none⟩, evaluated.2) := by
  obtain ⟨⟨q, asap_tasks, slots, count, curr_task, clock, idle_task⟩, phase, book⟩ := r
  obtain rfl : phase = .ready := h
  by_cases hempty : q.head = q.tail
  · cases tail_first <;>
      simp [Machine.run_cons, List.replicate_succ, memoryMachine, memoryCall, memoryGet, mu_spsc_get_access,
        GetPc.compared, step_irq, mu_spsc_get, hempty]
  · cases tail_first <;>
      simp [Machine.run_cons, List.replicate_succ, memoryMachine, memoryCall, memoryGet, mu_spsc_get_access,
        GetPc.compared, step_irq, mu_spsc_get, hempty]

/-! ## What the get relies on -/

/-- A get that finds the queue empty has no access left to make, or only the read of `head` does not come yet. -/
def Reading (q : mu_spsc_t) : GetPc → Prop
  | .start => True
  | .compare_tail head => head = q.head
  | .compare_head tail => q.head ≠ tail ∧ q.head ≠ q.tail
  | .index => q.head ≠ q.tail
  | .fetch head => q.head ≠ q.tail ∧ head = q.head
  | .advance item => q.head ≠ q.tail ∧ item = q.store.read q.head
  | .release item head => q.head ≠ q.tail ∧ item = q.store.read q.head ∧ head = q.head

variable {n taken : Nat} {q : mu_spsc_t} {items : List Ptr}

theorem put_first (h : SpscHolds n q taken items) (hne : q.head ≠ q.tail) (item : Ptr) :
    (mu_spsc_put q item).1.head ≠ (mu_spsc_put q item).1.tail ∧
      (mu_spsc_put q item).1.store.read (mu_spsc_put q item).1.head = q.store.read q.head := by
  obtain ⟨x, rest, rfl⟩ := List.exists_cons_of_ne_nil (mt h.empty_iff.mpr hne)
  by_cases hfull : (x :: rest).length = n - 1
  · rw [h.put_full hfull]
    exact ⟨hne, rfl⟩
  · obtain ⟨-, hput⟩ := h.put hfull item
    rw [List.cons_append] at hput
    refine ⟨?_, hput.read.trans h.read.symm⟩
    intro hempty
    exact List.cons_ne_nil x _ (hput.empty_iff.mp hempty)

theorem reading_put (h : SpscHolds n q taken items) {pc : GetPc} (hpc : Reading q pc) (item : Ptr) :
    Reading (mu_spsc_put q item).1 pc := by
  have hhead := mu_spsc_put_head q item
  cases pc with
  | start => trivial
  | compare_tail head => exact hpc.trans hhead.symm
  | compare_head tail =>
    obtain ⟨htail, hne⟩ := hpc
    exact ⟨hhead ▸ htail, (put_first h hne item).1⟩
  | index => exact (put_first h hpc item).1
  | fetch head =>
    obtain ⟨hne, hfetch⟩ := hpc
    exact ⟨(put_first h hne item).1, hfetch.trans hhead.symm⟩
  | advance item' =>
    obtain ⟨hne, hitem⟩ := hpc
    obtain ⟨hne', hread⟩ := put_first h hne item
    exact ⟨hne', hitem.trans hread.symm⟩
  | release item' head =>
    obtain ⟨hne, hitem, hfetch⟩ := hpc
    obtain ⟨hne', hread⟩ := put_first h hne item
    exact ⟨hne', hitem.trans hread.symm, hfetch.trans hhead.symm⟩

/-! ## The simulation -/

/-- The condition has found no task. -/
def irqPassed (r : SchedRun) : SchedRun := { r with sched := { r.sched with curr_task := NULL }, phase := .irq_empty }

/-- The run with accesses, and the one in which the condition is evaluated at once. -/
inductive Linked : MemoryRun → SchedRun → Prop
  | outside (r : SchedRun) : Linked ⟨r, none⟩ r
  | before {r : SchedRun} {pc : GetPc} : r.phase = .ready → Reading r.sched.irq_tasks pc → Linked ⟨r, some pc⟩ r
  /-- The queue was empty when `tail` was read. -/
  | after (r : SchedRun) : r.phase = .ready → Linked ⟨r, some (.compare_head r.sched.irq_tasks.head)⟩ (irqPassed r)

/-- The event on the one side, its events on the other. -/
def Matched (a : MemoryRun) (e : MemoryEvent) (r : SchedRun) : Prop :=
  Linked (memoryMachine.step a e).1 (requestMachine.run (atOnce a e) r).1 ∧
    (memoryMachine.step a e).2 = (requestMachine.run (atOnce a e) r).2

variable {a : MemoryRun} {r : SchedRun} {e : MemoryEvent} {pc : GetPc}

theorem matched_none (hevents : atOnce a e = []) (hlinked : Linked (memoryMachine.step a e).1 r)
    (hout : (memoryMachine.step a e).2 = []) : Matched a e r := by
  unfold Matched
  rw [hevents]
  exact ⟨hlinked, hout⟩

theorem matched_one {event : RequestEvent} (hevents : atOnce a e = [event])
    (hlinked : Linked (memoryMachine.step a e).1 (requestMachine.step r event).1)
    (hout : (memoryMachine.step a e).2 = (requestMachine.step r event).2) : Matched a e r := by
  unfold Matched
  rw [hevents, Machine.run_cons, Machine.run_nil, List.append_nil]
  exact ⟨hlinked, hout⟩

theorem request_call {e : SchedEvent} (h : r.phase = .ready ∨ e.interrupts) :
    requestMachine.step r (.call e) = call r e :=
  if_pos h

theorem request_step (h : r.phase = .ready) :
    requestMachine.step r (.call .step) = condition r (step_irq r.sched) .irq .irq_empty :=
  request_call (.inl h)

/-! ### Accesses -/

theorem step_irqPassed (hempty : r.sched.irq_tasks.head = r.sched.irq_tasks.tail) :
    condition r (step_irq r.sched) .irq .irq_empty = (irqPassed r, []) := by
  rw [step_irq, mu_spsc_get, if_pos hempty]
  rfl

theorem memory_compared {tail_first : Bool} {head tail : Nat}
    (hnext : mu_spsc_get_access tail_first r.sched.irq_tasks pc = (r.sched.irq_tasks, GetPc.compared head tail)) :
    memoryGet r tail_first pc = (if head = tail then ⟨irqPassed r, none⟩ else ⟨r, some .index⟩, []) := by
  rw [memoryGet, hnext, GetPc.compared]
  by_cases heq : head = tail
  · rw [if_pos heq, if_pos heq]
    rfl
  · rw [if_neg heq, if_neg heq]

theorem atOnce_access (tail_first : Bool) :
    atOnce ⟨r, some pc⟩ (.access tail_first) =
      if decides tail_first r.sched.irq_tasks pc then [.call .step] else [] := rfl

theorem matched_undecided {next : GetPc} {tail_first : Bool} (hphase : r.phase = .ready)
    (hget : memoryGet r tail_first pc = (⟨r, some next⟩, []))
    (hnot : decides tail_first r.sched.irq_tasks pc = false) (hnext : Reading r.sched.irq_tasks next) :
    Matched ⟨r, some pc⟩ (.access tail_first) r := by
  have hstep : memoryMachine.step ⟨r, some pc⟩ (.access tail_first) = (⟨r, some next⟩, []) := hget
  refine matched_none ?_ ?_ ?_
  · rw [atOnce_access, hnot, if_neg Bool.false_ne_true]
  · rw [hstep]
    exact .before hphase hnext
  · rw [hstep]

theorem matched_decided {a' : MemoryRun} {outputs : List RequestOutput} {tail_first : Bool} (hphase : r.phase = .ready)
    (hget : memoryGet r tail_first pc = (a', outputs)) (hdecides : decides tail_first r.sched.irq_tasks pc = true)
    (hlinked : Linked a' (condition r (step_irq r.sched) .irq .irq_empty).1)
    (hout : outputs = (condition r (step_irq r.sched) .irq .irq_empty).2) :
    Matched ⟨r, some pc⟩ (.access tail_first) r := by
  have hstep : memoryMachine.step ⟨r, some pc⟩ (.access tail_first) = (a', outputs) := hget
  have hevents : atOnce ⟨r, some pc⟩ (.access tail_first) = [.call .step] :=
    (atOnce_access tail_first).trans (if_pos hdecides)
  refine matched_one hevents ?_ ?_
  · rw [hstep, request_step hphase]
    exact hlinked
  · rw [hstep, request_step hphase]
    exact hout

theorem matched_start (hphase : r.phase = .ready) (tail_first : Bool) :
    Matched ⟨r, some .start⟩ (.access tail_first) r := by
  cases tail_first with
  | false => exact matched_undecided hphase rfl rfl rfl
  | true =>
    by_cases hempty : r.sched.irq_tasks.head = r.sched.irq_tasks.tail
    · -- the queue is empty, whatever comes before `head` is read
      have hpassed : Linked ⟨r, some (.compare_head r.sched.irq_tasks.tail)⟩ (irqPassed r) :=
        hempty ▸ Linked.after r hphase
      refine matched_decided hphase rfl (by simp [decides, hempty]) ?_ ?_
      · rw [step_irqPassed hempty]
        exact hpassed
      · rw [step_irqPassed hempty]
    · exact matched_undecided hphase rfl (by simp [decides, hempty]) ⟨hempty, hempty⟩

theorem matched_compare_tail (hphase : r.phase = .ready) (tail_first : Bool) :
    Matched ⟨r, some (.compare_tail r.sched.irq_tasks.head)⟩ (.access tail_first) r := by
  have hget : memoryGet r tail_first (.compare_tail r.sched.irq_tasks.head) = _ := memory_compared rfl
  by_cases hempty : r.sched.irq_tasks.head = r.sched.irq_tasks.tail
  · rw [if_pos hempty] at hget
    refine matched_decided hphase hget (decide_eq_true hempty) ?_ ?_
    · rw [step_irqPassed hempty]
      exact .outside _
    · rw [step_irqPassed hempty]
  · rw [if_neg hempty] at hget
    exact matched_undecided hphase hget (decide_eq_false hempty) hempty

theorem matched_compare_head {tail : Nat} (hphase : r.phase = .ready) (tail_first : Bool)
    (hpc : Reading r.sched.irq_tasks (.compare_head tail)) :
    Matched ⟨r, some (.compare_head tail)⟩ (.access tail_first) r := by
  have hget : memoryGet r tail_first (.compare_head tail) = _ := memory_compared rfl
  rw [if_neg hpc.1] at hget
  exact matched_undecided hphase hget rfl hpc.2

theorem matched_release {item : Ptr} {head : Nat} (hphase : r.phase = .ready) (tail_first : Bool)
    (hpc : Reading r.sched.irq_tasks (.release item head)) :
    Matched ⟨r, some (.release item head)⟩ (.access tail_first) r := by
  obtain ⟨hne, rfl, rfl⟩ := hpc
  have hfound : step_irq r.sched = ({ r.sched with
      irq_tasks := { r.sched.irq_tasks with head := u16 ((r.sched.irq_tasks.head + 1) &&& r.sched.irq_tasks.mask) }
      curr_task := r.sched.irq_tasks.store.read r.sched.irq_tasks.head }, true) := by
    rw [step_irq, mu_spsc_get, if_neg hne]
    rfl
  refine matched_decided hphase rfl rfl ?_ ?_
  · rw [hfound]
    exact .outside _
  · rw [hfound]
    rfl

theorem matched_before (hphase : r.phase = .ready) (hpc : Reading r.sched.irq_tasks pc) (tail_first : Bool) :
    Matched ⟨r, some pc⟩ (.access tail_first) r := by
  cases pc with
  | start => exact matched_start hphase tail_first
  | compare_tail head =>
    obtain rfl : head = r.sched.irq_tasks.head := hpc
    exact matched_compare_tail hphase tail_first
  | compare_head tail => exact matched_compare_head hphase tail_first hpc
  | index => exact matched_undecided hphase rfl rfl ⟨hpc, rfl⟩
  | fetch head =>
    obtain ⟨hne, rfl⟩ := hpc
    exact matched_undecided hphase rfl rfl ⟨hne, rfl⟩
  | advance item => exact matched_undecided hphase rfl rfl ⟨hpc.1, hpc.2, rfl⟩
  | release item head => exact matched_release hphase tail_first hpc

theorem matched_after (tail_first : Bool) :
    Matched ⟨r, some (.compare_head r.sched.irq_tasks.head)⟩ (.access tail_first) (irqPassed r) := by
  have hget : memoryGet r tail_first (.compare_head r.sched.irq_tasks.head) = _ := memory_compared rfl
  rw [if_pos rfl] at hget
  have hstep : memoryMachine.step ⟨r, some (.compare_head r.sched.irq_tasks.head)⟩ (.access tail_first) =
      (⟨irqPassed r, none⟩, []) := hget
  refine matched_none rfl ?_ ?_
  · rw [hstep]
    exact .outside _
  · rw [hstep]

theorem matched_access (h : Linked a r) (tail_first : Bool) : Matched a (.access tail_first) r := by
  cases h with
  | outside r => exact matched_none rfl (.outside r) rfl
  | before hphase hpc => exact matched_before hphase hpc tail_first
  | after r hphase => exact matched_after tail_first

theorem matched_poll (h : Linked a r) : Matched a .poll r := by
  cases h with
  | outside r => exact matched_one rfl (.outside _) rfl
  | before hphase hpc => exact matched_none rfl (.before hphase hpc) rfl
  | after r hphase => exact matched_none rfl (.after r hphase) rfl

/-! ### Calls -/

theorem memoryCall_other (a : MemoryRun) {e : SchedEvent} (h : e ≠ .step) :
    memoryCall a e = (⟨(call a.run e).1, a.pc⟩, (call a.run e).2) ∧
      atOnce a (.call e) = if a.pc = none ∨ e.interrupts then [.call e] else [] := by
  cases e with
  | step => exact absurd rfl h
  | clock now => exact ⟨rfl, rfl⟩
  | set_idle_task task => exact ⟨rfl, rfl⟩
  | asap task => exact ⟨rfl, rfl⟩
  | from_isr task => exact ⟨rfl, rfl⟩
  | defer_until task at_time => exact ⟨rfl, rfl⟩
  | defer_for task in_time => exact ⟨rfl, rfl⟩
  | remove_deferred_task task => exact ⟨rfl, rfl⟩
  | task_done => exact ⟨rfl, rfl⟩

theorem interrupts_cases {e : SchedEvent} (h : e.interrupts) :
    (∃ now, e = .clock now) ∨ ∃ task, e = .from_isr task := by
  cases e with
  | clock now => exact .inl ⟨now, rfl⟩
  | from_isr task => exact .inr ⟨task, rfl⟩
  | set_idle_task task => cases h
  | asap task => cases h
  | defer_until task at_time => cases h
  | defer_for task in_time => cases h
  | remove_deferred_task task => cases h
  | step => cases h
  | task_done => cases h

theorem interrupt_reading {queues : Queues} (h : SchedHolds r.sched queues) (hpc : Reading r.sched.irq_tasks pc)
    {e : SchedEvent} (he : e.interrupts) :
    (call r e).1.phase = r.phase ∧ Reading (call r e).1.sched.irq_tasks pc := by
  obtain ⟨now, rfl⟩ | ⟨task, rfl⟩ := interrupts_cases he
  · exact ⟨rfl, hpc⟩
  · obtain ⟨taken, holds⟩ := h.irq
    exact ⟨rfl, reading_put holds hpc task⟩

theorem interrupt_passed {e : SchedEvent} (he : e.interrupts) :
    (call r e).1.phase = r.phase ∧ (call r e).1.sched.irq_tasks.head = r.sched.irq_tasks.head ∧
      call (irqPassed r) e = (irqPassed (call r e).1, (call r e).2) := by
  obtain ⟨now, rfl⟩ | ⟨task, rfl⟩ := interrupts_cases he
  · exact ⟨rfl, rfl, rfl⟩
  · exact ⟨rfl, mu_spsc_put_head _ task, rfl⟩

theorem memory_step_call {e : SchedEvent} (h : a.pc = none ∧ a.run.phase = .ready ∨ e.interrupts) :
    memoryMachine.step a (.call e) = memoryCall a e :=
  if_pos h

theorem memory_step_ignored {e : SchedEvent} (h : ¬ (a.pc = none ∧ a.run.phase = .ready ∨ e.interrupts)) :
    memoryMachine.step a (.call e) = (a, []) :=
  if_neg h

theorem matched_step (h : Linked a r) : Matched a (.call .step) r := by
  by_cases hready : a.pc = none ∧ a.run.phase = .ready
  · have hstep : memoryMachine.step a (.call .step) = (⟨a.run, some .start⟩, []) := memory_step_call (.inl hready)
    obtain ⟨hpc, hphase⟩ := hready
    cases h with
    | outside r =>
      refine matched_none rfl ?_ ?_
      · rw [hstep]
        exact .before hphase trivial
      · rw [hstep]
    | before _ _ => cases hpc
    | after _ _ => cases hpc
  · have hstep : memoryMachine.step a (.call .step) = (a, []) :=
      memory_step_ignored fun hor => hready (hor.resolve_right Bool.false_ne_true)
    refine matched_none rfl ?_ ?_
    · rw [hstep]
      exact h
    · rw [hstep]

theorem matched_ignored {e : SchedEvent} (h : Linked a r) (hpc : a.pc ≠ none) (hstep : e ≠ .step)
    (hnot : ¬ e.interrupts) : Matched a (.call e) r := by
  have hignored : memoryMachine.step a (.call e) = (a, []) :=
    memory_step_ignored fun hor => hor.elim (fun hready => hpc hready.1) hnot
  refine matched_none ?_ ?_ ?_
  · rw [(memoryCall_other a hstep).2, if_neg (not_or.mpr ⟨hpc, hnot⟩)]
  · rw [hignored]
    exact h
  · rw [hignored]

theorem matched_call {queues : Queues} (hheld : SchedHolds r.sched queues) (h : Linked a r) (e : SchedEvent) :
    Matched a (.call e) r := by
  by_cases hstep : e = .step
  · rw [hstep]
    exact matched_step h
  obtain ⟨hcall, hevents⟩ := memoryCall_other a hstep
  by_cases hinterrupts : e.interrupts
  · rw [if_pos (.inr hinterrupts)] at hevents
    rw [← memory_step_call (.inr hinterrupts)] at hcall
    refine matched_one hevents ?_ ?_
    · rw [hcall, request_call (.inr hinterrupts)]
      cases h with
      | outside r => exact .outside _
      | before hphase hpc =>
        obtain ⟨hphase', hpc'⟩ := interrupt_reading hheld hpc hinterrupts
        exact .before (hphase'.trans hphase) hpc'
      | after r hphase =>
        obtain ⟨hphase', hhead, hpassed⟩ := interrupt_passed (r := r) hinterrupts
        rw [hpassed, ← hhead]
        exact .after _ (hphase'.trans hphase)
    · rw [hcall, request_call (.inr hinterrupts)]
      cases h with
      | outside r => rfl
      | before hphase hpc => rfl
      | after r hphase => rw [(interrupt_passed (r := r) hinterrupts).2.2]
  · cases h with
    | before hphase hpc => exact matched_ignored (.before hphase hpc) (Option.some_ne_none _) hstep hinterrupts
    | after r hphase => exact matched_ignored (.after r hphase) (Option.some_ne_none _) hstep hinterrupts
    | outside r =>
      rw [if_pos (.inl rfl)] at hevents
      by_cases hphase : r.phase = .ready
      · rw [← memory_step_call (.inl ⟨rfl, hphase⟩)] at hcall
        refine matched_one hevents ?_ ?_
        · rw [hcall, request_call (.inl hphase)]
          exact .outside _
        · rw [hcall, request_call (.inl hphase)]
      · have hignored : memoryMachine.step ⟨r, none⟩ (.call e) = (⟨r, none⟩, []) :=
          memory_step_ignored fun hor => hor.elim (fun hready => hphase hready.2) hinterrupts
        have hsame : requestMachine.step r (.call e) = (r, []) :=
          if_neg (not_or.mpr ⟨hphase, hinterrupts⟩)
        refine matched_one hevents ?_ ?_
        · rw [hignored, hsame]
          exact .outside r
        · rw [hignored, hsame]

/-! ## Whole runs -/

theorem atOnce_nonNull (a : MemoryRun) {e : MemoryEvent} (he : e.NonNull) : ∀ e' ∈ atOnce a e, e'.NonNull := by
  cases e with
  | call e =>
    by_cases hstep : e = .step
    · rw [hstep]
      exact fun e' he' => absurd he' List.not_mem_nil
    · rw [(memoryCall_other a hstep).2]
      intro e' he'
      split at he'
      · obtain rfl := List.mem_singleton.mp he'
        exact he
      · exact absurd he' List.not_mem_nil
  | access tail_first =>
    intro e' he'
    rw [atOnce] at he'
    split at he'
    · obtain rfl := List.mem_singleton.mp he'
      trivial
    · exact absurd he' List.not_mem_nil
  | poll =>
    intro e' he'
    rw [atOnce] at he'
    split at he'
    · obtain rfl := List.mem_singleton.mp he'
      trivial
    · exact absurd he' List.not_mem_nil

theorem Linked.accounted {outputs : List RequestOutput} (h : Linked a r) (hr : Accounted r outputs) :
    Accounted a.run outputs := by
  -- the queues of both hold the same, and so the book of the one is right about the other
  cases h with
  | outside r => exact hr
  | before hphase hpc => exact hr
  | after r hphase =>
    exact ⟨hr.accepted, hr.once, hr.held.with_task r.sched.curr_task r.sched.idle_task r.sched.clock, hr.own, hr.ran,
      hr.dropped⟩

theorem memory_simulated :
    Machine.SimulatedBy memoryMachine requestMachine atOnce MemoryEvent.NonNull
      fun a r => Linked a r ∧ ∃ outputs, Accounted r outputs := by
  rintro a r e hnull ⟨hlinked, outputs, haccounted⟩
  obtain ⟨hlinked', hout⟩ : Matched a e r := by
    cases e with
    | call e => exact matched_call haccounted.held hlinked e
    | access tail_first => exact matched_access hlinked tail_first
    | poll => exact matched_poll hlinked
  exact ⟨⟨hlinked', _, Machine.run_trace accounted_step (atOnce_nonNull a hnull) haccounted⟩, hout⟩

def memoryStart (s : mu_sched_t) : MemoryRun := ⟨requestStart s, none⟩

theorem Linked.run_eq (h : Linked a r) (hpc : a.pc = none) : a.run = r := by
  cases h with
  | outside r => rfl
  | before _ _ => cases hpc
  | after _ _ => cases hpc

/-- Wherever the interrupts come, the outputs are those of the run in which the condition is evaluated at once. So is
the state, unless the get is under way, and every accepted request has its place at every moment. -/
theorem accesses_atomic (s : mu_sched_t) (hs : Sized s) (es : List MemoryEvent) (hnull : ∀ e ∈ es, e.NonNull) :
    let a := (memoryMachine.run es (memoryStart s)).1
    let outputs := (memoryMachine.run es (memoryStart s)).2
    let evaluated := requestMachine.run (memoryMachine.translated atOnce es (memoryStart s)) (requestStart s)
    outputs = evaluated.2 ∧ (a.pc = none → a.run = evaluated.1) ∧ Accounted a.run outputs := by
  have hevents := Machine.forall_mem_translated (m := memoryMachine) atOnce_nonNull hnull (memoryStart s)
  have hstart : Linked (memoryStart s) (requestStart s) := .outside _
  obtain ⟨⟨hlinked, -⟩, hout⟩ := memory_simulated.run hnull ⟨hstart, [], accounted_start hs⟩
  have haccounted := Machine.run_trace accounted_step hevents (accounted_start hs)
  rw [List.nil_append, ← hout] at haccounted
  exact ⟨hout, hlinked.run_eq, hlinked.accounted haccounted⟩

/-- Interrupts come after the read of `tail` of an empty queue, and between the fetch and the release. -/
theorem accesses_atomic_interrupted :
    let es : List MemoryEvent :=
      [.call (.asap 1), .call .step, .access true, .call (.from_isr 3), .access true, .poll, .poll, .call .task_done,
        .call .step, .access false, .access false, .access false, .access false, .call (.from_isr 4), .access false,
        .access false]
    let a := (memoryMachine.run es (memoryStart staticStorage)).1
    let outputs := (memoryMachine.run es (memoryStart staticStorage)).2
    let evaluated :=
      requestMachine.run (memoryMachine.translated atOnce es (memoryStart staticStorage))
        (requestStart staticStorage)
    outputs = evaluated.2 ∧ (a.pc = none → a.run = evaluated.1) ∧ Accounted a.run outputs :=
  accesses_atomic staticStorage staticStorage_sized
    [.call (.asap 1), .call .step, .access true, .call (.from_isr 3), .access true, .poll, .poll, .call .task_done,
      .call .step, .access false, .access false, .access false, .access false, .call (.from_isr 4), .access false,
      .access false]
    (by simp [MemoryEvent.NonNull, RequestEvent.NonNull, NULL])

/-- The outputs of that run. -/
example :
    (memoryMachine.run
      [.call (.asap 1), .call .step, .access true, .call (.from_isr 3), .access true, .poll, .poll, .call .task_done,
        .call .step, .access false, .access false, .access false, .access false, .call (.from_isr 4), .access false,
        .access false] (memoryStart staticStorage)).2 =
      [.answered MU_TASK_ERR_NONE, .answered MU_TASK_ERR_NONE, .ran 1, .answered MU_TASK_ERR_NONE, .ran 3] := by
  decide

end ToyTstat.Mulib
