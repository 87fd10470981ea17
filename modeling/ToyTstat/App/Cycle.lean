import ToyTstat.App.Receive
import ToyTstat.Code.TstatApp
import ToyTstat.Code.TstatModel
import ToyTstat.Mulib.Contents

/-!
# The control cycle

`tstat_app` waits for `model_iface`, and `model_iface` for the serial line. A task that waits runs
again only if it is in a queue, or if another task knows it.
-/

open CLib ToyTstat.Code ToyTstat.Code.mu_task_err_t ToyTstat.Mulib

namespace ToyTstat.App

variable {model_t : Type} {ext : External model_t} {at_ : Pointers} {continuation task other : Ptr} {s : mu_sched_t}
  {q : Queues} {now : mu_time_abs_t}

/-! ## Where a task waits -/

/-- The task is in a queue of the scheduler. -/
def Queued (task : Ptr) (q : Queues) : Prop :=
  task ∈ q.irq ∨ task ∈ q.asap ∨ task ∈ q.deferred.map deferred_task_t.task

instance (task : Ptr) (q : Queues) : Decidable (Queued task q) := inferInstanceAs (Decidable (_ ∨ _ ∨ _))

theorem Queued.putAsap (h : Queued task q) (other : Ptr) : Queued task (q.putAsap other) := by
  unfold Queues.putAsap
  split
  · exact h
  · rcases h with hirq | hasap | hdeferred
    · exact .inl hirq
    · exact .inr (.inl (List.mem_append_left _ hasap))
    · exact .inr (.inr hdeferred)

theorem Queued.putIrq (h : Queued task q) (other : Ptr) : Queued task (q.putIrq other) := by
  unfold Queues.putIrq
  split
  · exact h
  · rcases h with hirq | hrest
    · exact .inl (List.mem_append_left _ hirq)
    · exact .inr hrest

theorem Queued.putDeferred (h : Queued task q) (entry : deferred_task_t) : Queued task (q.putDeferred entry) := by
  unfold Queues.putDeferred
  split
  · exact h
  · rcases h with hirq | hasap | hdeferred
    · exact .inl hirq
    · exact .inr (.inl hasap)
    · obtain ⟨e, he, rfl⟩ := List.mem_map.mp hdeferred
      refine .inr (.inr (List.mem_map_of_mem ?_))
      exact (List.perm_orderedInsert _ _ _).mem_iff.mpr (List.mem_cons_of_mem _ he)

theorem queued_remove_other (h : other ≠ task) : Queued task (q.remove other) ↔ Queued task q := by
  unfold Queued Queues.remove
  refine or_congr_right (or_congr_right ?_)
  simp only [List.mem_map, List.mem_filter, decide_eq_true_eq]
  constructor
  · rintro ⟨e, ⟨he, -⟩, htask⟩
    exact ⟨e, he, htask⟩
  · rintro ⟨e, he, rfl⟩
    exact ⟨e, ⟨he, h.symm⟩, rfl⟩

theorem queued_remove_self : Queued task (q.remove task) ↔ task ∈ q.irq ∨ task ∈ q.asap := by
  have hnone : task ∉ (q.deferred.filter fun e => e.task ≠ task).map deferred_task_t.task := by
    simp
  unfold Queued Queues.remove
  rw [or_iff_left hnone]

theorem queued_after (h : Queued task q) {e : SchedEvent} (hstep : e ≠ .step) (he : e ≠ .remove_deferred_task task) :
    Queued task (q.after now e) := by
  cases e with
  | clock _ => exact h
  | set_idle_task _ => exact h
  | asap other => exact h.putAsap other
  | from_isr other => exact h.putIrq other
  | defer_until other _ => exact h.putDeferred _
  | defer_for other _ => exact h.putDeferred _
  | remove_deferred_task other =>
    refine (queued_remove_other fun heq => he ?_).mpr h
    rw [heq]
  | step => exact absurd rfl hstep
  | task_done => exact h

theorem queued_takeAsap : Queued task q ↔ Queued task q.takeAsap.1 ∨ q.takeAsap.2 = some task := by
  unfold Queues.takeAsap
  cases hasap : q.asap with
  | nil => simp
  | cons first rest =>
    simp only [Queued, hasap, List.mem_cons, Option.some.injEq]
    rw [eq_comm (a := first)]
    tauto

theorem queued_takeDeferred (htask : task ≠ NULL) :
    Queued task q ↔ Queued task (q.takeDeferred now).1 ∨ (q.takeDeferred now).2 = some task := by
  cases hdeferred : q.deferred with
  | nil =>
    rw [Queues.takeDeferred_none hdeferred]
    exact queued_takeAsap
  | cons entry rest =>
    by_cases hearly : mu_time_precedes now entry.at_time
    · rw [Queues.takeDeferred_early hdeferred hearly]
      exact queued_takeAsap
    have hfirst : Queued task q ↔ Queued task { q with deferred := rest } ∨ entry.task = task := by
      simp only [Queued, hdeferred, List.map_cons, List.mem_cons]
      rw [eq_comm (a := entry.task)]
      tauto
    by_cases hnull : entry.task = NULL
    · have hother : entry.task ≠ task := by
        rw [hnull]
        exact htask.symm
      rw [Queues.takeDeferred_null hdeferred hearly hnull, hfirst, or_iff_left hother]
      exact queued_takeAsap
    · rw [Queues.takeDeferred_due hdeferred hearly hnull, hfirst, Option.some.injEq]

theorem queued_take (htask : task ≠ NULL) :
    Queued task q ↔ Queued task (q.take now).1 ∨ (q.take now).2 = some task := by
  cases hirq : q.irq with
  | nil =>
    rw [Queues.take_irq_none hirq]
    exact queued_takeDeferred htask
  | cons first rest =>
    rw [Queues.take_irq hirq]
    simp only [Queued, hirq, List.mem_cons, Option.some.injEq]
    rw [eq_comm (a := first)]
    tauto

/-! ## Runs -/

structure Cycle (model_t : Type) where
  sched : mu_sched_t
  app : tstat_app_t model_t
  iface : model_iface_t
  /-- What `coms_mgr_had_error` returns. -/
  coms_had_error : Bool

inductive CycleEvent
  /-- `tstat_app_start` is called. -/
  | start (on_completion : Ptr)
  /-- A receive ends, and `model_iface` is scheduled. -/
  | received (rx_buf : List Byte) (had_error : Bool)
  /-- A step, or what other code asks of the scheduler. `returned` is what a function without a `return` statement
  returns in the step. -/
  | sched (e : SchedEvent) (returned : Bool)

/-- The scheduler has called a task. What another task does comes in other events. -/
def callTask (ext : External model_t) (at_ : Pointers) (continuation : Ptr) (c : Cycle model_t) (task : Ptr)
    (returned : Bool) : Cycle model_t :=
  if task = at_.tstat_app then
    let (sched, app, iface) := tstat_app_fn ext at_ c.sched c.app c.iface returned
    { c with sched := step_end sched, app, iface }
  else if task = at_.model_iface then
    let (sched, iface, model) := model_iface_fn ext c.sched continuation c.iface c.app.model returned c.coms_had_error
    { c with sched := step_end sched, iface, app := { c.app with model } }
  else c

def cycleStep (ext : External model_t) (at_ : Pointers) (continuation : Ptr) (c : Cycle model_t) :
    CycleEvent → Cycle model_t
  | .start on_completion =>
    let (sched, app) := tstat_app_start c.sched at_.tstat_app c.app on_completion
    { c with sched, app }
  | .received rx_buf had_error =>
    { c with
      sched := (mu_sched_asap c.sched at_.model_iface).1
      iface := { c.iface with rx_buf }
      coms_had_error := had_error }
  | .sched .step returned =>
    let (sched, called) := mu_sched_step c.sched
    match called with
    | some task => callTask ext at_ continuation { c with sched } task returned
    | none => { c with sched }
  | .sched e _ => { c with sched := (schedStep c.sched e).1 }

def cycleMachine (ext : External model_t) (at_ : Pointers) (continuation : Ptr) :
    Machine (Cycle model_t) CycleEvent Unit where
  step c e := (cycleStep ext at_ continuation c e, [])

/-! ## The wake-up -/

/-- `tstat_app` waits for `model_iface`. -/
def Parked (app : tstat_app_t model_t) : Prop :=
  app.task.state = TSTAT_APP_STATE_AWAIT_PULL_MODEL ∨ app.task.state = TSTAT_APP_STATE_AWAIT_PUSH_MODEL

/-- `model_iface` will schedule `tstat_app` when it is done. -/
def Registered (at_ : Pointers) (iface : model_iface_t) : Prop :=
  iface.task.state ≠ MODEL_IFACE_STATE_IDLE ∧ iface.on_completion = at_.tstat_app

/-- If `tstat_app` waits, something will run it. -/
def Awaited (at_ : Pointers) (c : Cycle model_t) : Prop :=
  Parked c.app → Queued at_.tstat_app (contents c.sched) ∨ Registered at_ c.iface

instance (app : tstat_app_t model_t) : Decidable (Parked app) := inferInstanceAs (Decidable (_ ∨ _))

instance (at_ : Pointers) (iface : model_iface_t) : Decidable (Registered at_ iface) :=
  inferInstanceAs (Decidable (_ ∧ _))

instance (at_ : Pointers) (c : Cycle model_t) : Decidable (Awaited at_ c) :=
  inferInstanceAs (Decidable (_ → _ ∨ _))

/-! ## The condition -/

/-- The call of `model_iface` ends the pull. -/
def EndsPull (iface : model_iface_t) (returned : Bool) : Prop :=
  iface.task.state = MODEL_IFACE_STATE_START_RQST ∧ returned = false ∨
    iface.task.state = MODEL_IFACE_STATE_AWAIT_RQST

/-- `task` still gets into the asap queue behind the task that `task_info` schedules. -/
def HasRoom (continuation task : Ptr) (q : Queues) : Prop :=
  q.asap.length + 2 ≤ MU_CONFIG_SCHED_MAX_ASAP_TASKS ∨
    continuation = task ∧ q.asap.length < MU_CONFIG_SCHED_MAX_ASAP_TASKS

/-- What a call of `tstat_app` needs, if the queues hold `q` when it begins. -/
def AppKeeps (ext : External model_t) (at_ : Pointers) (app : tstat_app_t model_t) (iface : model_iface_t)
    (q : Queues) : Prop :=
  app.task.state = TSTAT_APP_STATE_START_PUSH_MODEL → model_iface_push ext app.model →
    Queued at_.tstat_app q ∨ Registered at_ iface

/-- What a call of `model_iface` needs for a parked `tstat_app`. -/
def IfaceKeeps (at_ : Pointers) (continuation : Ptr) (iface : model_iface_t) (q : Queues) (returned : Bool) : Prop :=
  EndsPull iface returned → Queued at_.tstat_app q ∨ HasRoom continuation at_.tstat_app q

def CallKeeps (ext : External model_t) (at_ : Pointers) (continuation : Ptr) (c : Cycle model_t) (q : Queues)
    (task : Ptr) (returned : Bool) : Prop :=
  if task = at_.tstat_app then AppKeeps ext at_ c.app c.iface q
  else task = at_.model_iface → Parked c.app → IfaceKeeps at_ continuation c.iface q returned

/-- The condition on an event in a state. It is about the task that a step takes, and about removals by other code. -/
def KeepsWakeUp (ext : External model_t) (at_ : Pointers) (continuation : Ptr) (c : Cycle model_t) : CycleEvent → Prop
  | .sched .step returned =>
    let (q, task) := (contents c.sched).take c.sched.clock
    CallKeeps ext at_ continuation c q (task.getD c.sched.idle_task) returned
  | .sched (.remove_deferred_task task) _ =>
    task = at_.tstat_app → Parked c.app →
      (task ∈ (contents c.sched).irq ∨ task ∈ (contents c.sched).asap) ∨ Registered at_ c.iface
  | _ => True

instance (iface : model_iface_t) (returned : Bool) : Decidable (EndsPull iface returned) :=
  inferInstanceAs (Decidable (_ ∨ _))

instance (continuation task : Ptr) (q : Queues) : Decidable (HasRoom continuation task q) :=
  inferInstanceAs (Decidable (_ ∨ _))

instance (ext : External model_t) (at_ : Pointers) (app : tstat_app_t model_t) (iface : model_iface_t) (q : Queues) :
    Decidable (AppKeeps ext at_ app iface q) :=
  inferInstanceAs (Decidable (_ → _ → _ ∨ _))

instance (at_ : Pointers) (continuation : Ptr) (iface : model_iface_t) (q : Queues) (returned : Bool) :
    Decidable (IfaceKeeps at_ continuation iface q returned) :=
  inferInstanceAs (Decidable (_ → _ ∨ _))

instance (ext : External model_t) (at_ : Pointers) (continuation : Ptr) (c : Cycle model_t) (q : Queues) (task : Ptr)
    (returned : Bool) : Decidable (CallKeeps ext at_ continuation c q task returned) :=
  inferInstanceAs (Decidable (if task = at_.tstat_app then AppKeeps ext at_ c.app c.iface q
    else task = at_.model_iface → Parked c.app → IfaceKeeps at_ continuation c.iface q returned))

instance (ext : External model_t) (at_ : Pointers) (continuation : Ptr) (c : Cycle model_t) :
    DecidablePred (KeepsWakeUp ext at_ continuation c)
  | .start _ | .received _ _ => isTrue trivial
  | .sched .step returned => inferInstanceAs (Decidable (CallKeeps ext at_ continuation c _ _ returned))
  | .sched (.remove_deferred_task task) _ => inferInstanceAs (Decidable (task = at_.tstat_app → _ → _))
  | .sched (.clock _) _ | .sched (.set_idle_task _) _ | .sched (.asap _) _ | .sched (.from_isr _) _
  | .sched (.defer_until _ _) _ | .sched (.defer_for _ _) _ | .sched .task_done _ => isTrue trivial

/-- `task_info_endgame` does what it is documented to do: it sets the terminal state and schedules the continuation, if
there is one. -/
structure Transfers (ext : External model_t) : Prop where
  state : ∀ s task terminal_state had_error continuation,
    (ext.task_info_endgame s task terminal_state had_error continuation).2 = { task with state := terminal_state }
  sched : ∀ s task terminal_state had_error continuation,
    (ext.task_info_endgame s task terminal_state had_error continuation).1 = (mu_sched_asap s continuation).1 ∨
      continuation = NULL ∧ (ext.task_info_endgame s task terminal_state had_error continuation).1 = s

/-! ## The calls -/

variable {app : tstat_app_t model_t} {iface : model_iface_t} {model : model_t} {returned had_error : Bool}
  {on_completion : Ptr}

theorem not_parked (state : mu_task_state_t) (h : app.task.state = state)
    (hpull : state ≠ TSTAT_APP_STATE_AWAIT_PULL_MODEL) (hpush : state ≠ TSTAT_APP_STATE_AWAIT_PUSH_MODEL) :
    ¬ Parked app := by
  unfold Parked
  rw [h]
  simp [hpull, hpush]

theorem tstat_app_endgame_spec (hext : Transfers ext) (h : SchedHolds s q) (app : tstat_app_t model_t)
    (had_error : Bool) :
    (∃ q', SchedHolds (tstat_app_endgame ext s app had_error).1 q') ∧
      ¬ Parked (tstat_app_endgame ext s app had_error).2 := by
  unfold tstat_app_endgame
  dsimp only
  constructor
  · rcases hext.sched s app.task TSTAT_APP_STATE_IDLE had_error app.on_completion with hput | ⟨-, hsame⟩
    · rw [hput]
      exact ⟨_, holds_asap h _⟩
    · rw [hsame]
      exact ⟨q, h⟩
  · apply not_parked TSTAT_APP_STATE_IDLE
    · rw [hext.state]
    · decide
    · decide

theorem mu_task_yield_eq (s : mu_sched_t) (self : Ptr) (task : mu_task_t) (next_state : mu_task_state_t) :
    mu_task_yield s self task next_state =
      ((mu_sched_asap s self).1, { task with state := next_state }, (mu_sched_asap s self).2) := by
  unfold mu_task_yield
  simp

theorem mu_task_wait_eq (task : mu_task_t) (next_state : mu_task_state_t) :
    (mu_task_wait task next_state).1 = { task with state := next_state } := by
  unfold mu_task_wait
  simp

theorem model_iface_pull_eq (s : mu_sched_t) (task : Ptr) (iface : model_iface_t) (model on_completion : Ptr) :
    model_iface_pull s task iface model on_completion =
      ((mu_sched_asap s task).1,
        { iface with
          model, on_completion, had_error := false
          task := { iface.task with state := MODEL_IFACE_STATE_START_RQST } }) := by
  unfold model_iface_pull
  dsimp only
  rw [mu_task_yield_eq]

/-- After a call of `tstat_app`, it is awaited exactly when it was before a push. -/
def AppCall (ext : External model_t) (at_ : Pointers) (app : tstat_app_t model_t) (iface : model_iface_t) (q : Queues)
    (result : mu_sched_t × tstat_app_t model_t × model_iface_t) : Prop :=
  ∃ q', SchedHolds result.1 q' ∧
    ((Parked result.2.1 → Queued at_.tstat_app q' ∨ Registered at_ result.2.2) ↔ AppKeeps ext at_ app iface q)

theorem appCall_of_awaited {result : mu_sched_t × tstat_app_t model_t × model_iface_t} {state : mu_task_state_t}
    (hstate : app.task.state = state) (hother : state ≠ TSTAT_APP_STATE_START_PUSH_MODEL) {q' : Queues}
    (h : SchedHolds result.1 q') (hafter : Parked result.2.1 → Registered at_ result.2.2) :
    AppCall ext at_ app iface q result := by
  refine ⟨q', h, ?_⟩
  constructor
  · intro _ hpush
    exact absurd (hstate.symm.trans hpush) hother
  · intro _ hparked
    exact .inr (hafter hparked)

theorem appCall_endgame (hext : Transfers ext) {state : mu_task_state_t} (hstate : app.task.state = state)
    (hother : state ≠ TSTAT_APP_STATE_START_PUSH_MODEL) {q' : Queues} (h : SchedHolds s q') (had_error : Bool)
    {iface' : model_iface_t} :
    AppCall ext at_ app iface q
      ((tstat_app_endgame ext s app had_error).1, (tstat_app_endgame ext s app had_error).2, iface') := by
  obtain ⟨⟨q', hq'⟩, hover⟩ := tstat_app_endgame_spec hext h app had_error
  exact appCall_of_awaited hstate hother hq' fun hparked => absurd hparked hover

theorem tstat_app_fn_spec (hext : Transfers ext) (h : SchedHolds s q) (returned : Bool) :
    AppCall ext at_ app iface q (tstat_app_fn ext at_ s app iface returned) := by
  have hstart : MODEL_IFACE_STATE_START_RQST ≠ MODEL_IFACE_STATE_IDLE := by decide
  unfold tstat_app_fn mu_task_get_state
  simp only [model_iface_pull_eq, mu_task_yield_eq, mu_task_wait_eq]
  by_cases hidle : app.task.state = TSTAT_APP_STATE_IDLE
  · rw [if_pos hidle]
    exact appCall_of_awaited hidle (by decide) h fun hparked =>
      absurd hparked (not_parked _ hidle (by decide) (by decide))
  rw [if_neg hidle]
  by_cases hpull : app.task.state = TSTAT_APP_STATE_START_PULL_MODEL
  · have hput := holds_asap h at_.model_iface
    rw [if_pos hpull]
    cases returned with
    | false => exact appCall_endgame hext hpull (by decide) hput true
    | true => exact appCall_of_awaited hpull (by decide) hput fun _ => ⟨hstart, rfl⟩
  rw [if_neg hpull]
  by_cases hpulled : app.task.state = TSTAT_APP_STATE_AWAIT_PULL_MODEL
  · rw [if_pos hpulled]
    by_cases herror : model_iface_had_error iface
    · rw [if_pos herror]
      exact appCall_endgame hext hpulled (by decide) h true
    · rw [if_neg herror]
      exact appCall_of_awaited hpulled (by decide) (holds_asap h at_.tstat_app) fun hparked =>
        absurd hparked (not_parked TSTAT_APP_STATE_UPDATE_MODEL rfl (by decide) (by decide))
  rw [if_neg hpulled]
  by_cases hupdate : app.task.state = TSTAT_APP_STATE_UPDATE_MODEL
  · rw [if_pos hupdate]
    exact appCall_of_awaited hupdate (by decide) (holds_asap h at_.tstat_app) fun hparked =>
      absurd hparked (not_parked TSTAT_APP_STATE_START_PUSH_MODEL rfl (by decide) (by decide))
  rw [if_neg hupdate]
  by_cases hpush : app.task.state = TSTAT_APP_STATE_START_PUSH_MODEL
  · rw [if_pos hpush]
    unfold AppCall AppKeeps
    by_cases hpushed : model_iface_push ext app.model
    · rw [if_neg (not_not_intro hpushed)]
      refine ⟨q, h, ?_⟩
      have hparked : Parked { app with task := { app.task with state := TSTAT_APP_STATE_AWAIT_PUSH_MODEL } } := .inr rfl
      simp only [hparked, hpush, hpushed, true_imp_iff]
    · obtain ⟨⟨q', hq'⟩, hover⟩ := tstat_app_endgame_spec hext h app true
      rw [if_pos hpushed]
      refine ⟨q', hq', ?_⟩
      simp [hover, hpushed]
  rw [if_neg hpush]
  by_cases hwaits : app.task.state = TSTAT_APP_STATE_AWAIT_PUSH_MODEL
  · rw [if_pos hwaits]
    by_cases herror : model_iface_had_error iface
    · rw [if_pos herror]
      exact appCall_endgame hext hwaits (by decide) h true
    · rw [if_neg herror]
      exact appCall_endgame hext hwaits (by decide) h false
  rw [if_neg hwaits]
  exact appCall_of_awaited rfl hpush h fun hparked => absurd hparked (not_parked _ rfl hpulled hwaits)

theorem queued_putAsap_iff (hroom : q.asap.length ≠ MU_CONFIG_SCHED_MAX_ASAP_TASKS) :
    Queued task (q.putAsap other) ↔ Queued task q ∨ other = task := by
  unfold Queues.putAsap
  rw [if_neg hroom]
  simp only [Queued, List.mem_append, List.mem_singleton]
  rw [eq_comm (a := other)]
  tauto

theorem queued_handed_iff (hfits : q.asap.length ≤ MU_CONFIG_SCHED_MAX_ASAP_TASKS)
    (h : Queued task q ∨ on_completion = task) :
    Queued task ((q.putAsap continuation).putAsap on_completion) ↔ Queued task q ∨ HasRoom continuation task q := by
  by_cases hqueued : Queued task q
  · simp [hqueued, (hqueued.putAsap continuation).putAsap on_completion]
  have hcompletion : on_completion = task := h.resolve_left hqueued
  unfold HasRoom
  by_cases hfull : q.asap.length = MU_CONFIG_SCHED_MAX_ASAP_TASKS
  · have hsame (other : Ptr) : q.putAsap other = q := if_pos hfull
    rw [hsame, hsame, hfull]
    simp [hqueued]
  have hput : Queued task (q.putAsap continuation) ↔ _ := queued_putAsap_iff hfull
  have hlength : (q.putAsap continuation).asap.length = q.asap.length + 1 := by
    unfold Queues.putAsap
    rw [if_neg hfull]
    simp
  by_cases hlast : q.asap.length + 1 = MU_CONFIG_SCHED_MAX_ASAP_TASKS
  · have hsame : (q.putAsap continuation).putAsap on_completion = q.putAsap continuation :=
      if_pos (hlength.trans hlast)
    rw [hsame, hput]
    constructor
    · rintro (hmem | rfl)
      · exact .inl hmem
      · exact .inr (.inr ⟨rfl, by omega⟩)
    · rintro (hmem | hroom | ⟨heq, -⟩)
      · exact .inl hmem
      · omega
      · exact .inr heq
  · rw [queued_putAsap_iff (hlength ▸ hlast)]
    constructor
    · intro _
      exact .inr (.inl (by omega))
    · intro _
      exact .inr hcompletion

theorem model_iface_endgame_eq (s : mu_sched_t) (continuation : Ptr) (iface : model_iface_t) (had_error : Bool) :
    model_iface_endgame s continuation iface had_error =
      (handed s continuation iface.on_completion,
        { iface with had_error, task := { iface.task with state := MODEL_IFACE_STATE_IDLE } }) := by
  unfold model_iface_endgame task_info mu_task_transfer handed
  simp

/-- What a call of `model_iface` leaves, if something will run `tstat_app` when it begins. -/
def IfaceCall (at_ : Pointers) (continuation : Ptr) (iface : model_iface_t) (q : Queues) (returned : Bool)
    (result : mu_sched_t × model_iface_t × model_t) : Prop :=
  ∃ q', SchedHolds result.1 q' ∧
    (Queued at_.tstat_app q ∨ Registered at_ iface →
      (Queued at_.tstat_app q' ∨ Registered at_ result.2.1 ↔ IfaceKeeps at_ continuation iface q returned))

theorem ifaceCall_endgame (h : SchedHolds s q) (hends : EndsPull iface returned) :
    IfaceCall at_ continuation iface q returned
      ((model_iface_endgame s continuation iface had_error).1, (model_iface_endgame s continuation iface had_error).2,
        model) := by
  have hfits : q.asap.length ≤ MU_CONFIG_SCHED_MAX_ASAP_TASKS := by
    obtain ⟨_, hasap⟩ := h.asap
    have hfits := hasap.ring.fits
    rwa [h.capacity] at hfits
  rw [model_iface_endgame_eq]
  refine ⟨_, holds_asap (holds_asap h continuation) iface.on_completion, fun hbefore => ?_⟩
  have hover : ¬ Registered at_ { iface with
      had_error, task := { iface.task with state := MODEL_IFACE_STATE_IDLE } } := fun hreg => hreg.1 rfl
  unfold IfaceKeeps
  simp only [hover, hends, true_imp_iff, or_false]
  exact queued_handed_iff hfits (hbefore.imp_right And.right)

theorem ifaceCall_goes_on {result : mu_sched_t × model_iface_t × model_t} (h : SchedHolds result.1 q)
    (hgoes : ¬ EndsPull iface returned) (hreg : Registered at_ iface → Registered at_ result.2.1) :
    IfaceCall at_ continuation iface q returned result := by
  refine ⟨q, h, fun hbefore => ?_⟩
  constructor
  · intro _ hends
    exact absurd hends hgoes
  · intro _
    exact hbefore.imp_right hreg

theorem model_iface_fn_spec (ext : External model_t) (h : SchedHolds s q) (model : model_t)
    (returned had_error : Bool) :
    IfaceCall at_ continuation iface q returned
      (model_iface_fn ext s continuation iface model returned had_error) := by
  have hbusy : MODEL_IFACE_STATE_AWAIT_RQST ≠ MODEL_IFACE_STATE_IDLE := by decide
  unfold model_iface_fn mu_task_get_state
  simp only [mu_task_wait_eq]
  by_cases hidle : iface.task.state = MODEL_IFACE_STATE_IDLE
  · have hgoes : ¬ EndsPull iface returned := by
      unfold EndsPull
      rw [hidle]
      cases returned <;> decide
    rw [if_pos hidle]
    exact ifaceCall_goes_on h hgoes id
  rw [if_neg hidle]
  by_cases hstart : iface.task.state = MODEL_IFACE_STATE_START_RQST
  · rw [if_pos hstart]
    cases returned with
    | false => exact ifaceCall_endgame h (.inl ⟨hstart, rfl⟩)
    | true =>
      have hgoes : ¬ EndsPull iface true := by
        unfold EndsPull
        rw [hstart]
        decide
      exact ifaceCall_goes_on h hgoes fun hreg => ⟨hbusy, hreg.2⟩
  rw [if_neg hstart]
  by_cases hawait : iface.task.state = MODEL_IFACE_STATE_AWAIT_RQST
  · rw [if_pos hawait]
    cases had_error with
    | true => exact ifaceCall_endgame h (.inr hawait)
    | false => exact ifaceCall_endgame h (.inr hawait)
  · have hgoes : ¬ EndsPull iface returned := by
      unfold EndsPull
      simp [hstart, hawait]
    rw [if_neg hawait]
    exact ifaceCall_goes_on h hgoes id

/-! ## One event -/

variable {c : Cycle model_t}

theorem awaited_iff (h : SchedHolds c.sched q) :
    Awaited at_ c ↔ (Parked c.app → Queued at_.tstat_app q ∨ Registered at_ c.iface) := by
  unfold Awaited
  rw [h.contents_eq]

/-- The event keeps the queues, and `tstat_app` awaited on its condition. -/
def EventSpec (ext : External model_t) (at_ : Pointers) (continuation : Ptr) (c : Cycle model_t) (e : CycleEvent) :
    Prop :=
  (∃ q', SchedHolds (cycleStep ext at_ continuation c e).sched q') ∧
    (Awaited at_ (cycleStep ext at_ continuation c e) ↔ KeepsWakeUp ext at_ continuation c e)

theorem call_other (c : Cycle model_t) {task : Ptr} (happ : task ≠ at_.tstat_app) (hiface : task ≠ at_.model_iface)
    (returned : Bool) :
    (match mu_task_call task with
      | some task => callTask ext at_ continuation c task returned
      | none => c) = c := by
  unfold mu_task_call
  by_cases hnull : task = NULL
  · rw [if_pos hnull]
  · rw [if_neg hnull]
    dsimp only
    unfold callTask
    rw [if_neg happ, if_neg hiface]

theorem step_event_spec (hext : Transfers ext) (h : SchedHolds c.sched q) (hawaited : Awaited at_ c) (returned : Bool) :
    EventSpec ext at_ continuation c (.sched .step returned) := by
  rw [awaited_iff h] at hawaited
  obtain ⟨hleft, hcalled, -⟩ := step_taken h
  have hqueued : Queued at_.tstat_app q ↔ Queued _ (q.take c.sched.clock).1 ∨ _ := queued_take at_.tstat_app_ne
  unfold EventSpec cycleStep KeepsWakeUp CallKeeps
  dsimp only
  rw [h.contents_eq, hcalled]
  generalize (mu_sched_step c.sched).1 = s at hleft ⊢
  by_cases happ : (q.take c.sched.clock).2.getD c.sched.idle_task = at_.tstat_app
  · have hspec : AppCall ext at_ c.app c.iface _ _ := tstat_app_fn_spec hext hleft returned
    obtain ⟨q', hq', hiff⟩ := hspec
    have hholds : SchedHolds (step_end _) q' := hq'.with_task NULL _ _
    rw [happ, mu_task_call, if_neg at_.tstat_app_ne]
    dsimp only
    unfold callTask
    rw [if_pos rfl, if_pos rfl]
    exact ⟨⟨q', hholds⟩, (awaited_iff hholds).trans hiff⟩
  rw [if_neg happ]
  have hkept : Queued at_.tstat_app q → Queued at_.tstat_app (q.take c.sched.clock).1 := by
    rw [hqueued]
    rintro (hmem | htaken)
    · exact hmem
    · rw [htaken] at happ
      exact absurd rfl happ
  have hawaits := fun hparked => (hawaited hparked).imp_left hkept
  by_cases hiface : (q.take c.sched.clock).2.getD c.sched.idle_task = at_.model_iface
  · have hspec : IfaceCall at_ continuation c.iface _ returned _ :=
      model_iface_fn_spec ext hleft c.app.model returned c.coms_had_error
    obtain ⟨q', hq', hiff⟩ := hspec
    have hholds : SchedHolds (step_end _) q' := hq'.with_task NULL _ _
    rw [hiface, mu_task_call, if_neg at_.model_iface_ne]
    dsimp only
    unfold callTask
    rw [if_neg at_.distinct, if_pos rfl]
    refine ⟨⟨q', hholds⟩, (awaited_iff hholds).trans ?_⟩
    have hsame : Parked { c.app with
        model := (model_iface_fn ext s continuation c.iface c.app.model returned c.coms_had_error).2.2 } ↔
          Parked c.app := Iff.rfl
    simp only [hsame, true_imp_iff]
    constructor
    · intro hafter hparked
      exact (hiff (hawaits hparked)).mp (hafter hparked)
    · intro hkeeps hparked
      exact (hiff (hawaits hparked)).mpr (hkeeps hparked)
  · rw [call_other _ happ hiface]
    refine ⟨⟨_, hleft⟩, (awaited_iff hleft).trans ?_⟩
    constructor
    · intro _ htask
      exact absurd htask hiface
    · exact fun _ => hawaits

theorem other_event_spec (h : SchedHolds c.sched q) (hawaited : Awaited at_ c) {e : SchedEvent} (hstep : e ≠ .step)
    (returned : Bool) : EventSpec ext at_ continuation c (.sched e returned) := by
  have hafter := holds_after h e
  have hcycle : cycleStep ext at_ continuation c (.sched e returned) =
      { c with sched := (schedStep c.sched e).1 } := by
    cases e with
    | step => exact absurd rfl hstep
    | _ => rfl
  unfold EventSpec
  rw [hcycle]
  refine ⟨⟨_, hafter⟩, (awaited_iff hafter).trans ?_⟩
  by_cases hremove : e = .remove_deferred_task at_.tstat_app
  · subst hremove
    unfold KeepsWakeUp
    dsimp only
    rw [h.contents_eq]
    simp only [true_imp_iff, Queues.after, queued_remove_self]
  · rw [awaited_iff h] at hawaited
    have hkeeps : KeepsWakeUp ext at_ continuation c (.sched e returned) := by
      cases e with
      | step => exact absurd rfl hstep
      | remove_deferred_task task =>
        intro htask
        exact absurd (congrArg SchedEvent.remove_deferred_task htask) hremove
      | _ => trivial
    simp only [hkeeps, iff_true]
    intro hparked
    exact (hawaited hparked).imp_left fun hmem => queued_after hmem hstep hremove

theorem event_spec (hext : Transfers ext) (c : Cycle model_t) (e : CycleEvent) (h : ∃ q, SchedHolds c.sched q)
    (hawaited : Awaited at_ c) : EventSpec ext at_ continuation c e := by
  obtain ⟨q, hq⟩ := h
  cases e with
  | start on_completion =>
    have hput := holds_asap hq at_.tstat_app
    unfold EventSpec cycleStep tstat_app_start
    simp only [mu_task_yield_eq]
    refine ⟨⟨_, hput⟩, (awaited_iff hput).trans ?_⟩
    refine iff_of_true (fun hparked => absurd hparked ?_) trivial
    exact not_parked TSTAT_APP_STATE_START_PULL_MODEL rfl (by decide) (by decide)
  | received rx_buf had_error =>
    have hput := holds_asap hq at_.model_iface
    rw [awaited_iff hq] at hawaited
    refine ⟨⟨_, hput⟩, (awaited_iff hput).trans ?_⟩
    refine iff_of_true (fun hparked => ?_) trivial
    exact (hawaited hparked).imp_left fun hmem => hmem.putAsap _
  | sched e returned =>
    by_cases hstep : e = .step
    · subst hstep
      exact step_event_spec hext hq hawaited returned
    · exact other_event_spec hq hawaited hstep returned

/-- In every run, whenever `tstat_app` waits it is in a queue or known by a `model_iface` that is busy, exactly when
every event keeps the wake-up. -/
theorem cycle_awaited_iff (s : mu_sched_t) (hs : Sized s) (ext : External model_t) (hext : Transfers ext)
    (at_ : Pointers) (continuation app_info iface_info : Ptr) (app : tstat_app_t model_t) (iface : model_iface_t)
    (coms_had_error : Bool) (es : List CycleEvent) :
    let m := cycleMachine ext at_ continuation
    let start : Cycle model_t :=
      ⟨mu_sched_init s, tstat_app_init app app_info, model_iface_init iface iface_info, coms_had_error⟩
    m.Always (Awaited at_) es start ↔ m.Meets (KeepsWakeUp ext at_ continuation) es start := by
  have hidle : ¬ Parked (tstat_app_init app app_info) := not_parked TSTAT_APP_STATE_IDLE rfl (by decide) (by decide)
  exact (cycleMachine ext at_ continuation).always_iff_meets (event_spec hext) es ⟨_, init_holds hs⟩ fun hparked =>
    absurd hparked hidle

/-! ## Two runs -/

/-- The functions with the prefix `tstat_`. -/
def tstatExternal : External tstat_model_t where
  model_load_json model json := (tstat_model_load_json 300 model json).getD (false, model)
  model_dump_json model := tstat_model_dump_json model (List.replicate 200 0) 200 (List.replicate 3 ⟨0, false⟩)
  logic_update_model := tstat_logic_update_model
  task_info_endgame s task terminal_state _ continuation :=
    ((mu_sched_asap s continuation).1, { task with state := terminal_state })

theorem tstatExternal_transfers : Transfers tstatExternal := ⟨fun _ _ _ _ _ => rfl, fun _ _ _ _ _ => .inl rfl⟩

/-- The two tasks are 1 and 2. -/
def pointers : Pointers := ⟨1, 2, 3, by decide, by decide, by decide⟩

/-- The static storage, initialised. -/
def cycleStart : Cycle tstat_model_t where
  sched := mu_sched_init staticStorage
  app := tstat_app_init ⟨⟨0, NULL⟩, NULL, ⟨0, 0, 0, false, false, 0⟩, false⟩ NULL
  iface := model_iface_init ⟨⟨0, NULL⟩, NULL, false, NULL, []⟩ NULL
  coms_had_error := false

/-- A pull that fails wakes `tstat_app`, which ends. -/
theorem cycle_awaited_failed :
    (cycleMachine tstatExternal pointers 7).Always (Awaited pointers)
      [.start 9, .sched .step true, .sched .step true, .received [] true, .sched .step true, .sched .step true,
        .sched .task_done true, .sched .step true] cycleStart := by
  refine (cycle_awaited_iff staticStorage staticStorage_sized tstatExternal tstatExternal_transfers pointers 7 NULL
    NULL _ _ false _).mpr ?_
  decide +kernel

/-- The model is pulled and updated. After the push `tstat_app` waits, and nothing knows it. -/
theorem cycle_not_awaited :
    let c := ((cycleMachine tstatExternal pointers 7).run
      [.start 9, .sched .step true, .sched .step true, .received [123, 125, 0] false, .sched .step true,
        .sched .step true, .sched .task_done true, .sched .step true, .sched .step true, .sched .step true]
      cycleStart).1
    Parked c.app ∧ ¬ Queued pointers.tstat_app (contents c.sched) ∧ ¬ Registered pointers c.iface := by
  decide +kernel

end ToyTstat.App
