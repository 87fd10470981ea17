import ToyTstat.App.Cycle

/-!
# What is pushed

The two tasks share one model. While `model_iface` is busy `tstat_app` is in no queue, and the other
way round, so what is pushed is the update of the model that the text of this cycle has given.
-/

open CLib ToyTstat.Code ToyTstat.Code.mu_task_err_t ToyTstat.Mulib

namespace ToyTstat.App

variable {model_t : Type} {ext : External model_t} {good : model_t → Prop} {at_ : Pointers}
  {continuation task other : Ptr} {s : mu_sched_t} {q : Queues} {now : mu_time_abs_t}

/-! ## How often a task is queued -/

def entries (task : Ptr) (q : Queues) : Nat :=
  q.irq.count task + q.asap.count task + (q.deferred.map deferred_task_t.task).count task

theorem entries_zero_iff : entries task q = 0 ↔ ¬ Queued task q := by
  unfold entries Queued
  simp only [Nat.add_eq_zero_iff, List.count_eq_zero, not_or, and_assoc]

theorem entries_putAsap_other (h : other ≠ task) : entries task (q.putAsap other) = entries task q := by
  unfold Queues.putAsap
  split
  · rfl
  · simp [entries, h]

theorem entries_putAsap_le (task other : Ptr) (q : Queues) : entries task (q.putAsap other) ≤ entries task q + 1 := by
  unfold Queues.putAsap
  split
  · exact Nat.le_succ _
  · have hone : [other].count task ≤ 1 := List.count_le_length
    simp only [entries, List.count_append]
    omega

theorem entries_putIrq_other (h : other ≠ task) : entries task (q.putIrq other) = entries task q := by
  unfold Queues.putIrq
  split
  · rfl
  · simp [entries, h]

theorem entries_putDeferred_other {entry : deferred_task_t} (h : entry.task ≠ task) :
    entries task (q.putDeferred entry) = entries task q := by
  unfold Queues.putDeferred
  split
  · rfl
  · have hperm : (insertDeferred entry q.deferred).Perm (entry :: q.deferred) := List.perm_orderedInsert _ _ _
    have hcount := (hperm.map deferred_task_t.task).count_eq task
    rw [List.map_cons, List.count_cons_of_ne h] at hcount
    simp only [entries]
    rw [hcount]

theorem entries_remove_le (other : Ptr) : entries task (q.remove other) ≤ entries task q := by
  have hsub := ((List.filter_sublist (l := q.deferred) (p := fun e => e.task ≠ other)).map
    deferred_task_t.task).count_le task
  unfold entries Queues.remove
  dsimp only
  omega

theorem entries_takeAsap :
    entries task q = entries task q.takeAsap.1 + if q.takeAsap.2 = some task then 1 else 0 := by
  unfold Queues.takeAsap
  cases hasap : q.asap with
  | nil => simp
  | cons first rest =>
    simp only [entries, hasap, List.count_cons, Option.some.injEq, beq_iff_eq]
    omega

theorem entries_takeDeferred (htask : task ≠ NULL) :
    entries task q = entries task (q.takeDeferred now).1 + if (q.takeDeferred now).2 = some task then 1 else 0 := by
  cases hdeferred : q.deferred with
  | nil =>
    rw [Queues.takeDeferred_none hdeferred]
    exact entries_takeAsap
  | cons entry rest =>
    by_cases hearly : mu_time_precedes now entry.at_time
    · rw [Queues.takeDeferred_early hdeferred hearly]
      exact entries_takeAsap
    have hfirst : entries task q = entries task { q with deferred := rest } + if entry.task = task then 1 else 0 := by
      simp only [entries, hdeferred, List.map_cons, List.count_cons, beq_iff_eq]
      omega
    by_cases hnull : entry.task = NULL
    · have hother : entry.task ≠ task := by
        rw [hnull]
        exact htask.symm
      rw [Queues.takeDeferred_null hdeferred hearly hnull, hfirst, if_neg hother, Nat.add_zero]
      exact entries_takeAsap
    · rw [Queues.takeDeferred_due hdeferred hearly hnull, hfirst]
      simp only [Option.some.injEq]

theorem entries_take (htask : task ≠ NULL) :
    entries task q = entries task (q.take now).1 + if (q.take now).2 = some task then 1 else 0 := by
  cases hirq : q.irq with
  | nil =>
    rw [Queues.take_irq_none hirq]
    exact entries_takeDeferred htask
  | cons first rest =>
    rw [Queues.take_irq hirq]
    simp only [entries, hirq, List.count_cons, Option.some.injEq, beq_iff_eq]
    omega

theorem taken_of_getD {taken : Option Ptr} {idle_task : Ptr} (h : taken.getD idle_task = task)
    (hidle : idle_task ≠ task) : taken = some task := by
  cases taken with
  | none => exact absurd h hidle
  | some first => exact congrArg some h

/-- The task that a call of other code schedules, or makes the idle task. -/
def namedTask : SchedEvent → Option Ptr
  | .set_idle_task task | .asap task | .from_isr task | .defer_until task _ | .defer_for task _ => some task
  | .clock _ | .remove_deferred_task _ | .step | .task_done => none

theorem entries_after_le {e : SchedEvent} (hstep : e ≠ .step) (he : namedTask e ≠ some task) :
    entries task (q.after now e) ≤ entries task q := by
  cases e with
  | clock _ => exact le_rfl
  | set_idle_task _ => exact le_rfl
  | asap other => exact (entries_putAsap_other fun heq => he (congrArg some heq)).le
  | from_isr other => exact (entries_putIrq_other fun heq => he (congrArg some heq)).le
  | defer_until other _ => exact (entries_putDeferred_other fun heq => he (congrArg some heq)).le
  | defer_for other _ => exact (entries_putDeferred_other fun heq => he (congrArg some heq)).le
  | remove_deferred_task other => exact entries_remove_le other
  | step => exact absurd rfl hstep
  | task_done => exact le_rfl

/-! ## The two tasks -/

/-- What holds of the model whatever is loaded. -/
structure Keeps (ext : External model_t) (good : model_t → Prop) : Prop where
  load : ∀ model json, good model → good (ext.model_load_json model json).2
  update : ∀ model, good model → good (ext.logic_update_model model)

/-- The text has given the model. -/
def Loaded (ext : External model_t) (good : model_t → Prop) (json : List Byte) (model : model_t) : Prop :=
  good model ∧ ∃ before, ext.model_load_json before json = (true, model)

/-- The model is the update of one that the text has given. -/
def Updated (ext : External model_t) (good : model_t → Prop) (json : List Byte) (model : model_t) : Prop :=
  ∃ loaded, Loaded ext good json loaded ∧ model = ext.logic_update_model loaded

/-- `tstat_app` does not use its model. -/
def Resting (app : tstat_app_t model_t) : Prop :=
  app.task.state = TSTAT_APP_STATE_IDLE ∨ app.task.state = TSTAT_APP_STATE_AWAIT_PULL_MODEL

/-- `tstat_app` pushes its model, or has pushed it. -/
def Pushing (app : tstat_app_t model_t) : Prop :=
  app.task.state = TSTAT_APP_STATE_START_PUSH_MODEL ∨ app.task.state = TSTAT_APP_STATE_AWAIT_PUSH_MODEL

/-- What the model is, by the state of `tstat_app`. -/
structure Served (ext : External model_t) (good : model_t → Prop) (app : tstat_app_t model_t)
    (iface : model_iface_t) : Prop where
  pulled : app.task.state = TSTAT_APP_STATE_AWAIT_PULL_MODEL → iface.had_error = false →
    Loaded ext good iface.rx_buf app.model
  taken : app.task.state = TSTAT_APP_STATE_UPDATE_MODEL → Loaded ext good iface.rx_buf app.model
  pushed : Pushing app → Updated ext good iface.rx_buf app.model

structure Orderly (ext : External model_t) (good : model_t → Prop) (at_ : Pointers) (c : Cycle model_t)
    (q : Queues) : Prop where
  held : SchedHolds c.sched q
  model_good : good c.app.model
  app_once : entries at_.tstat_app q ≤ 1
  iface_once : entries at_.model_iface q ≤ 1
  idle_task : c.sched.idle_task ≠ at_.tstat_app ∧ c.sched.idle_task ≠ at_.model_iface
  completion : c.app.task.state ≠ TSTAT_APP_STATE_IDLE →
    c.app.on_completion ≠ at_.tstat_app ∧ c.app.on_completion ≠ at_.model_iface
  busy : c.iface.task.state ≠ MODEL_IFACE_STATE_IDLE →
    entries at_.tstat_app q = 0 ∧ Resting c.app ∧ c.iface.on_completion = at_.tstat_app
  quiet : c.iface.task.state = MODEL_IFACE_STATE_IDLE →
    entries at_.model_iface q = 0 ∧ Served ext good c.app c.iface

variable {c : Cycle model_t}

theorem Orderly.fewer (h : Orderly ext good at_ c q) {q' : Queues} {sched : mu_sched_t} (hheld : SchedHolds sched q')
    (hidle : sched.idle_task ≠ at_.tstat_app ∧ sched.idle_task ≠ at_.model_iface)
    (happ : entries at_.tstat_app q' ≤ entries at_.tstat_app q)
    (hiface : entries at_.model_iface q' ≤ entries at_.model_iface q) : Orderly ext good at_ { c with sched } q' := by
  refine ⟨hheld, h.model_good, happ.trans h.app_once, hiface.trans h.iface_once, hidle, h.completion, ?_, ?_⟩
  · intro hbusy
    obtain ⟨hnone, hrest⟩ := h.busy hbusy
    exact ⟨by omega, hrest⟩
  · intro hquiet
    obtain ⟨hnone, hserved⟩ := h.quiet hquiet
    exact ⟨by omega, hserved⟩

/-! ## A call of `tstat_app` -/

/-- The fields of a state between two calls. `NULL` is the current task. -/
def between (c : Cycle model_t) (sched : mu_sched_t) (app : tstat_app_t model_t) (iface : model_iface_t) :
    Cycle model_t :=
  { c with sched := step_end sched, app, iface }

variable {app : tstat_app_t model_t} {iface : model_iface_t} {sched : mu_sched_t} {returned : Bool}

/-- What holds in a call, besides the queues. -/
structure Kept (good : model_t → Prop) (at_ : Pointers) (app : tstat_app_t model_t) (sched : mu_sched_t) : Prop where
  model_good : good app.model
  idle_task : sched.idle_task ≠ at_.tstat_app ∧ sched.idle_task ≠ at_.model_iface
  completion : app.task.state ≠ TSTAT_APP_STATE_IDLE →
    app.on_completion ≠ at_.tstat_app ∧ app.on_completion ≠ at_.model_iface

theorem orderly_quiet (hheld : SchedHolds sched q) (hkept : Kept good at_ app sched)
    (happ : entries at_.tstat_app q ≤ 1) (hiface : entries at_.model_iface q = 0)
    (hidle : iface.task.state = MODEL_IFACE_STATE_IDLE) (hserved : Served ext good app iface) :
    Orderly ext good at_ (between c sched app iface) q :=
  ⟨hheld.with_task NULL _ _, hkept.model_good, happ, by omega, hkept.idle_task, hkept.completion,
    fun hbusy => absurd hidle hbusy, fun _ => ⟨hiface, hserved⟩⟩

theorem orderly_busy (hheld : SchedHolds sched q) (hkept : Kept good at_ app sched) (happ : entries at_.tstat_app q = 0)
    (hiface : entries at_.model_iface q ≤ 1) (hbusy : iface.task.state ≠ MODEL_IFACE_STATE_IDLE)
    (hresting : Resting app) (hcompletion : iface.on_completion = at_.tstat_app) :
    Orderly ext good at_ (between c sched app iface) q :=
  ⟨hheld.with_task NULL _ _, hkept.model_good, by omega, hiface, hkept.idle_task, hkept.completion,
    fun _ => ⟨happ, hresting, hcompletion⟩, fun hidle => absurd hidle hbusy⟩

theorem served_other {state : mu_task_state_t} (hstate : app.task.state = state)
    (hpulled : state ≠ TSTAT_APP_STATE_AWAIT_PULL_MODEL) (htaken : state ≠ TSTAT_APP_STATE_UPDATE_MODEL)
    (hpush : state ≠ TSTAT_APP_STATE_START_PUSH_MODEL) (hpushed : state ≠ TSTAT_APP_STATE_AWAIT_PUSH_MODEL) :
    Served ext good app iface := by
  subst hstate
  exact ⟨fun heq => absurd heq hpulled, fun heq => absurd heq htaken,
    fun heq => absurd heq (not_or.mpr ⟨hpush, hpushed⟩)⟩

theorem served_idle (hidle : app.task.state = TSTAT_APP_STATE_IDLE) : Served ext good app iface :=
  served_other hidle (by decide) (by decide) (by decide) (by decide)

theorem served_taken (hstate : app.task.state = TSTAT_APP_STATE_UPDATE_MODEL)
    (hloaded : Loaded ext good iface.rx_buf app.model) : Served ext good app iface := by
  refine ⟨?_, fun _ => hloaded, ?_⟩
  · intro hpulled
    exact absurd (hstate.symm.trans hpulled) (by decide)
  · rintro (hpush | hpush)
    · exact absurd (hstate.symm.trans hpush) (by decide)
    · exact absurd (hstate.symm.trans hpush) (by decide)

theorem served_pushing (hstate : Pushing app) (hupdated : Updated ext good iface.rx_buf app.model) :
    Served ext good app iface := by
  have hother (state : mu_task_state_t) (hne : state ≠ TSTAT_APP_STATE_START_PUSH_MODEL)
      (hne' : state ≠ TSTAT_APP_STATE_AWAIT_PUSH_MODEL) : app.task.state ≠ state := by
    rintro rfl
    exact hstate.elim hne hne'
  exact ⟨fun hpulled => absurd hpulled (hother _ (by decide) (by decide)),
    fun htaken => absurd htaken (hother _ (by decide) (by decide)), fun _ => hupdated⟩

theorem app_endgame_spec (hext : Transfers ext) (h : SchedHolds s q) (app : tstat_app_t model_t) (had_error : Bool) :
    (∃ q', SchedHolds (tstat_app_endgame ext s app had_error).1 q' ∧
      ∀ task, app.on_completion ≠ task → entries task q' = entries task q) ∧
    (tstat_app_endgame ext s app had_error).1.idle_task = s.idle_task ∧
    (tstat_app_endgame ext s app had_error).2.task.state = TSTAT_APP_STATE_IDLE ∧
    (tstat_app_endgame ext s app had_error).2.model = app.model := by
  unfold tstat_app_endgame
  dsimp only
  rw [hext.state]
  rcases hext.sched s app.task TSTAT_APP_STATE_IDLE had_error app.on_completion with hput | ⟨-, hsame⟩
  · rw [hput]
    exact ⟨⟨_, holds_asap h _, fun task hother => entries_putAsap_other hother⟩, rfl, rfl, rfl⟩
  · rw [hsame]
    exact ⟨⟨q, h, fun _ _ => rfl⟩, rfl, rfl, rfl⟩

theorem Kept.endgame (hext : Transfers ext) (hheld : SchedHolds sched q) (hkept : Kept good at_ app sched)
    (had_error : Bool) :
    Kept good at_ (tstat_app_endgame ext sched app had_error).2 (tstat_app_endgame ext sched app had_error).1 := by
  obtain ⟨-, htask, hstate, hmodel⟩ := app_endgame_spec hext hheld app had_error
  exact ⟨hmodel.symm ▸ hkept.model_good, htask.symm ▸ hkept.idle_task, fun hne => absurd hstate hne⟩

/-- What holds when `tstat_app` is called: it is in no queue, and `model_iface` is idle. -/
structure AppCalled (ext : External model_t) (good : model_t → Prop) (at_ : Pointers) (app : tstat_app_t model_t)
    (iface : model_iface_t) (sched : mu_sched_t) (q : Queues) : Prop where
  held : SchedHolds sched q
  kept : Kept good at_ app sched
  app_none : entries at_.tstat_app q = 0
  iface_none : entries at_.model_iface q = 0
  iface_idle : iface.task.state = MODEL_IFACE_STATE_IDLE
  served : Served ext good app iface

/-- A call of `tstat_app` that comes to this result leaves the two tasks in order. -/
def LeavesOrderly (ext : External model_t) (good : model_t → Prop) (at_ : Pointers) (c : Cycle model_t)
    (result : mu_sched_t × tstat_app_t model_t × model_iface_t) : Prop :=
  ∃ q', Orderly ext good at_ (between c result.1 result.2.1 result.2.2) q'

theorem AppCalled.stays (h : AppCalled ext good at_ app iface sched q) :
    LeavesOrderly ext good at_ c (sched, app, iface) :=
  ⟨q, orderly_quiet h.held h.kept (by rw [h.app_none]; exact Nat.zero_le 1) h.iface_none h.iface_idle h.served⟩

theorem AppCalled.ends (h : AppCalled ext good at_ app iface sched q) (hext : Transfers ext)
    (hrunning : app.task.state ≠ TSTAT_APP_STATE_IDLE) (had_error : Bool) :
    LeavesOrderly ext good at_ c
      ((tstat_app_endgame ext sched app had_error).1, (tstat_app_endgame ext sched app had_error).2, iface) := by
  obtain ⟨⟨q', hheld', hsame⟩, -, hstate, -⟩ := app_endgame_spec hext h.held app had_error
  obtain ⟨happ, hother⟩ := h.kept.completion hrunning
  have hkept' := h.kept.endgame hext h.held had_error
  refine ⟨q', orderly_quiet hheld' hkept' ?_ ?_ h.iface_idle (served_idle hstate)⟩
  · rw [hsame _ happ, h.app_none]
    exact Nat.zero_le 1
  · rw [hsame _ hother]
    exact h.iface_none

/-- `tstat_app` goes on in another state, and schedules itself. -/
theorem AppCalled.goes_on (h : AppCalled ext good at_ app iface sched q)
    (hrunning : app.task.state ≠ TSTAT_APP_STATE_IDLE) {app' : tstat_app_t model_t}
    (hcompletion : app'.on_completion = app.on_completion) (hgood : good app'.model)
    (hserved : Served ext good app' iface) :
    LeavesOrderly ext good at_ c ((mu_sched_asap sched at_.tstat_app).1, app', iface) := by
  refine ⟨_, orderly_quiet (holds_asap h.held at_.tstat_app) ⟨hgood, h.kept.idle_task, ?_⟩ ?_ ?_ h.iface_idle hserved⟩
  · intro _
    rw [hcompletion]
    exact h.kept.completion hrunning
  · have hone := entries_putAsap_le at_.tstat_app at_.tstat_app q
    rw [h.app_none] at hone
    exact hone
  · rw [entries_putAsap_other at_.distinct.symm]
    exact h.iface_none

theorem AppCalled.starts_pull (h : AppCalled ext good at_ app iface sched q) (hext : Transfers ext)
    (hstate : app.task.state = TSTAT_APP_STATE_START_PULL_MODEL) (returned : Bool) :
    LeavesOrderly ext good at_ c (tstat_app_fn ext at_ sched app iface returned) := by
  have hrunning : app.task.state ≠ TSTAT_APP_STATE_IDLE := hstate.trans_ne (by decide)
  have hput := holds_asap h.held at_.model_iface
  have happ : entries at_.tstat_app (q.putAsap at_.model_iface) = 0 :=
    (entries_putAsap_other at_.distinct).trans h.app_none
  have hone : entries at_.model_iface (q.putAsap at_.model_iface) ≤ 1 := by
    have hle := entries_putAsap_le at_.model_iface at_.model_iface q
    rw [h.iface_none] at hle
    exact hle
  have hbusy : MODEL_IFACE_STATE_START_RQST ≠ MODEL_IFACE_STATE_IDLE := by decide
  unfold tstat_app_fn mu_task_get_state
  simp only [model_iface_pull_eq, mu_task_wait_eq]
  rw [if_neg hrunning, if_pos hstate]
  cases returned with
  | false =>
    -- the pull goes on, although `tstat_app` ends
    obtain ⟨⟨q', hheld', hsame⟩, -, hstate', -⟩ := app_endgame_spec hext hput app true
    obtain ⟨hfirst, hsecond⟩ := h.kept.completion hrunning
    have hkept' : Kept good at_ app (mu_sched_asap sched at_.model_iface).1 :=
      ⟨h.kept.model_good, h.kept.idle_task, h.kept.completion⟩
    refine ⟨q', orderly_busy hheld' (hkept'.endgame hext hput true) ?_ ?_ hbusy (.inl hstate') rfl⟩
    · rw [hsame _ hfirst]
      exact happ
    · rw [hsame _ hsecond]
      exact hone
  | true =>
    refine ⟨_, orderly_busy hput ?_ happ hone hbusy (.inr rfl) rfl⟩
    exact ⟨h.kept.model_good, h.kept.idle_task, fun _ => h.kept.completion hrunning⟩

theorem AppCalled.takes_model (h : AppCalled ext good at_ app iface sched q) (hext : Transfers ext)
    (hstate : app.task.state = TSTAT_APP_STATE_AWAIT_PULL_MODEL) (returned : Bool) :
    LeavesOrderly ext good at_ c (tstat_app_fn ext at_ sched app iface returned) := by
  have hrunning : app.task.state ≠ TSTAT_APP_STATE_IDLE := hstate.trans_ne (by decide)
  unfold tstat_app_fn mu_task_get_state model_iface_had_error
  simp only [mu_task_yield_eq]
  rw [if_neg hrunning, hstate, if_neg (by decide), if_pos rfl]
  cases herror : iface.had_error with
  | true => exact h.ends hext hrunning true
  | false => exact h.goes_on hrunning rfl h.kept.model_good (served_taken rfl (h.served.pulled hstate herror))

theorem AppCalled.updates (h : AppCalled ext good at_ app iface sched q) (hkeeps : Keeps ext good)
    (hstate : app.task.state = TSTAT_APP_STATE_UPDATE_MODEL) (returned : Bool) :
    LeavesOrderly ext good at_ c (tstat_app_fn ext at_ sched app iface returned) := by
  have hrunning : app.task.state ≠ TSTAT_APP_STATE_IDLE := hstate.trans_ne (by decide)
  unfold tstat_app_fn mu_task_get_state
  simp only [mu_task_yield_eq]
  rw [if_neg hrunning, hstate, if_neg (by decide), if_neg (by decide), if_pos rfl]
  refine h.goes_on hrunning rfl (hkeeps.update _ h.kept.model_good) ?_
  exact served_pushing (.inl rfl) ⟨app.model, h.served.taken hstate, rfl⟩

theorem AppCalled.pushes (h : AppCalled ext good at_ app iface sched q) (hext : Transfers ext)
    (hstate : app.task.state = TSTAT_APP_STATE_START_PUSH_MODEL) (returned : Bool) :
    LeavesOrderly ext good at_ c (tstat_app_fn ext at_ sched app iface returned) := by
  have hrunning : app.task.state ≠ TSTAT_APP_STATE_IDLE := hstate.trans_ne (by decide)
  unfold tstat_app_fn mu_task_get_state
  simp only [mu_task_wait_eq]
  rw [if_neg hrunning, hstate, if_neg (by decide), if_neg (by decide), if_neg (by decide), if_pos rfl]
  by_cases hpushed : model_iface_push ext app.model
  · rw [if_neg (not_not_intro hpushed)]
    refine AppCalled.stays
      ⟨h.held, ⟨h.kept.model_good, h.kept.idle_task, ?_⟩, h.app_none, h.iface_none, h.iface_idle, ?_⟩
    · exact fun _ => h.kept.completion hrunning
    · exact served_pushing (.inr rfl) (h.served.pushed (.inl hstate))
  · rw [if_pos hpushed]
    exact h.ends hext hrunning true

theorem AppCalled.pushed (h : AppCalled ext good at_ app iface sched q) (hext : Transfers ext)
    (hstate : app.task.state = TSTAT_APP_STATE_AWAIT_PUSH_MODEL) (returned : Bool) :
    LeavesOrderly ext good at_ c (tstat_app_fn ext at_ sched app iface returned) := by
  have hrunning : app.task.state ≠ TSTAT_APP_STATE_IDLE := hstate.trans_ne (by decide)
  unfold tstat_app_fn mu_task_get_state
  rw [if_neg hrunning, hstate, if_neg (by decide), if_neg (by decide), if_neg (by decide), if_neg (by decide),
    if_pos rfl]
  split
  · exact h.ends hext hrunning true
  · exact h.ends hext hrunning false

theorem orderly_tstat_app_fn (hext : Transfers ext) (hkeeps : Keeps ext good)
    (h : AppCalled ext good at_ app iface sched q) (returned : Bool) :
    LeavesOrderly ext good at_ c (tstat_app_fn ext at_ sched app iface returned) := by
  by_cases hpull : app.task.state = TSTAT_APP_STATE_START_PULL_MODEL
  · exact h.starts_pull hext hpull returned
  by_cases hpulled : app.task.state = TSTAT_APP_STATE_AWAIT_PULL_MODEL
  · exact h.takes_model hext hpulled returned
  by_cases hupdate : app.task.state = TSTAT_APP_STATE_UPDATE_MODEL
  · exact h.updates hkeeps hupdate returned
  by_cases hpush : app.task.state = TSTAT_APP_STATE_START_PUSH_MODEL
  · exact h.pushes hext hpush returned
  by_cases hpushed : app.task.state = TSTAT_APP_STATE_AWAIT_PUSH_MODEL
  · exact h.pushed hext hpushed returned
  · -- idle, or in a state that no call sets
    have hnothing : tstat_app_fn ext at_ sched app iface returned = (sched, app, iface) := by
      unfold tstat_app_fn mu_task_get_state
      simp only [hpull, hpulled, hupdate, hpush, hpushed, if_false, ite_self]
    rw [hnothing]
    exact h.stays

/-! ## A call of `model_iface` -/

theorem orderly_iface_endgame (hheld : SchedHolds sched q) (hkept : Kept good at_ app sched)
    (hcontinuation : continuation ≠ at_.tstat_app ∧ continuation ≠ at_.model_iface)
    (hnone : entries at_.tstat_app q = 0) (hiface : entries at_.model_iface q = 0) (hresting : Resting app)
    (hcompletion : iface.on_completion = at_.tstat_app) {model : model_t} {had_error : Bool}
    (hgood : good model) (hloaded : had_error = false → Loaded ext good iface.rx_buf model) :
    ∃ q', Orderly ext good at_ (between c (model_iface_endgame sched continuation iface had_error).1 { app with model }
      (model_iface_endgame sched continuation iface had_error).2) q' := by
  rw [model_iface_endgame_eq, hcompletion]
  obtain ⟨happ, hother⟩ := hcontinuation
  have hheld' := holds_asap (holds_asap hheld continuation) at_.tstat_app
  refine ⟨_, orderly_quiet hheld' ⟨hgood, hkept.idle_task, hkept.completion⟩ ?_ ?_ rfl ?_⟩
  · have hone := entries_putAsap_le at_.tstat_app at_.tstat_app (q.putAsap continuation)
    rw [entries_putAsap_other happ] at hone
    omega
  · rw [entries_putAsap_other at_.distinct.symm, entries_putAsap_other hother]
    exact hiface
  · rcases hresting with hidle | hpulled
    · exact served_idle hidle
    · refine ⟨fun _ hsuccess => hloaded hsuccess, ?_, ?_⟩
      · intro htaken
        exact absurd (hpulled.symm.trans htaken) (by decide)
      · rintro (hpush | hpush)
        · exact absurd (hpulled.symm.trans hpush) (by decide)
        · exact absurd (hpulled.symm.trans hpush) (by decide)

theorem orderly_model_iface_fn (hkeeps : Keeps ext good) (hheld : SchedHolds sched q) (hkept : Kept good at_ app sched)
    (hcontinuation : continuation ≠ at_.tstat_app ∧ continuation ≠ at_.model_iface)
    (hnone : entries at_.tstat_app q = 0) (hiface : entries at_.model_iface q = 0)
    (hbusy : iface.task.state ≠ MODEL_IFACE_STATE_IDLE) (hresting : Resting app)
    (hcompletion : iface.on_completion = at_.tstat_app) (returned coms_had_error : Bool) :
    let (s, iface, model) := model_iface_fn ext sched continuation iface app.model returned coms_had_error
    ∃ q', Orderly ext good at_ (between c s { app with model } iface) q' := by
  have hends (had_error : Bool) (model : model_t) (hgood : good model)
      (hloaded : had_error = false → Loaded ext good iface.rx_buf model) :
      ∃ q', Orderly ext good at_ (between c (model_iface_endgame sched continuation iface had_error).1
        { app with model } (model_iface_endgame sched continuation iface had_error).2) q' :=
    orderly_iface_endgame hheld hkept hcontinuation hnone hiface hresting hcompletion hgood hloaded
  have hkept' : Kept good at_ { app with model := app.model } sched := hkept
  unfold model_iface_fn mu_task_get_state
  simp only [mu_task_wait_eq]
  rw [if_neg hbusy]
  by_cases hstart : iface.task.state = MODEL_IFACE_STATE_START_RQST
  · rw [if_pos hstart]
    cases returned with
    | false => exact hends true app.model hkept.model_good nofun
    | true =>
      have hawait : MODEL_IFACE_STATE_AWAIT_RQST ≠ MODEL_IFACE_STATE_IDLE := by decide
      exact ⟨q, orderly_busy hheld hkept' hnone (by omega) hawait hresting hcompletion⟩
  rw [if_neg hstart]
  by_cases hawait : iface.task.state = MODEL_IFACE_STATE_AWAIT_RQST
  · rw [if_pos hawait]
    cases coms_had_error with
    | true => exact hends true app.model hkept.model_good nofun
    | false =>
      have hgood := hkeeps.load _ iface.rx_buf hkept.model_good
      refine hends _ _ hgood fun hsuccess => ⟨hgood, app.model, ?_⟩
      refine Prod.ext ?_ rfl
      simpa using hsuccess
  · rw [if_neg hawait]
    exact ⟨q, orderly_busy hheld hkept' hnone (by omega) hbusy hresting hcompletion⟩

/-! ## One event -/

/-- How the two modules are used: `tstat_app` is not started before its last cycle is over, `model_iface` is scheduled
for a text it waits for, and the two tasks are nobody else's. -/
def Proper (at_ : Pointers) (c : Cycle model_t) : CycleEvent → Prop
  | .start on_completion =>
    on_completion ≠ at_.tstat_app ∧ on_completion ≠ at_.model_iface ∧
      c.iface.task.state = MODEL_IFACE_STATE_IDLE ∧ ¬ Queued at_.tstat_app (contents c.sched)
  | .received _ _ =>
    c.iface.task.state = MODEL_IFACE_STATE_AWAIT_RQST ∧ ¬ Queued at_.model_iface (contents c.sched)
  | .sched e _ => namedTask e ≠ some at_.tstat_app ∧ namedTask e ≠ some at_.model_iface

instance (at_ : Pointers) (c : Cycle model_t) : DecidablePred (Proper at_ c)
  | .start _ => inferInstanceAs (Decidable (_ ∧ _ ∧ _ ∧ _))
  | .received _ _ => inferInstanceAs (Decidable (_ ∧ _))
  | .sched _ _ => inferInstanceAs (Decidable (_ ∧ _))

theorem orderly_start (h : Orderly ext good at_ c q) {on_completion : Ptr}
    (hproper : Proper at_ c (.start on_completion)) :
    ∃ q', Orderly ext good at_ (cycleStep ext at_ continuation c (.start on_completion)) q' := by
  obtain ⟨happ, hiface, hidle, hnone⟩ := hproper
  rw [h.held.contents_eq, ← entries_zero_iff] at hnone
  obtain ⟨hquiet, -⟩ := h.quiet hidle
  unfold cycleStep tstat_app_start
  simp only [mu_task_yield_eq]
  refine ⟨_, holds_asap h.held at_.tstat_app, h.model_good, ?_, ?_, h.idle_task, fun _ => ⟨happ, hiface⟩, ?_, ?_⟩
  · have hone := entries_putAsap_le at_.tstat_app at_.tstat_app q
    omega
  · rw [entries_putAsap_other at_.distinct.symm]
    exact h.iface_once
  · exact fun hbusy => absurd hidle hbusy
  · intro _
    rw [entries_putAsap_other at_.distinct.symm]
    refine ⟨hquiet, served_other (show _ = TSTAT_APP_STATE_START_PULL_MODEL from rfl) ?_ ?_ ?_ ?_⟩
    all_goals decide

theorem orderly_received (h : Orderly ext good at_ c q) {rx_buf : List Byte} {had_error : Bool}
    (hproper : Proper at_ c (.received rx_buf had_error)) :
    ∃ q', Orderly ext good at_ (cycleStep ext at_ continuation c (.received rx_buf had_error)) q' := by
  obtain ⟨hawait, hnone⟩ := hproper
  rw [h.held.contents_eq, ← entries_zero_iff] at hnone
  have hbusy : c.iface.task.state ≠ MODEL_IFACE_STATE_IDLE := by
    rw [hawait]
    decide
  obtain ⟨happ, hrest⟩ := h.busy hbusy
  have hsame : entries at_.tstat_app (q.putAsap at_.model_iface) = entries at_.tstat_app q :=
    entries_putAsap_other at_.distinct
  refine ⟨_, holds_asap h.held at_.model_iface, h.model_good, ?_, ?_, h.idle_task, h.completion, ?_, ?_⟩
  · rw [hsame]
    exact h.app_once
  · have hone := entries_putAsap_le at_.model_iface at_.model_iface q
    omega
  · intro _
    rw [hsame]
    exact ⟨happ, hrest⟩
  · exact fun hidle => absurd hidle hbusy

theorem orderly_step (hext : Transfers ext) (hkeeps : Keeps ext good)
    (hcontinuation : continuation ≠ at_.tstat_app ∧ continuation ≠ at_.model_iface) (h : Orderly ext good at_ c q)
    (returned : Bool) :
    ∃ q', Orderly ext good at_ (cycleStep ext at_ continuation c (.sched .step returned)) q' := by
  obtain ⟨hleft, hcalled, henv⟩ := step_taken h.held
  obtain ⟨hidle_app, hidle_iface⟩ := h.idle_task
  have happ_taken : entries at_.tstat_app q = entries at_.tstat_app (q.take c.sched.clock).1 + _ :=
    entries_take at_.tstat_app_ne
  have hiface_taken : entries at_.model_iface q = entries at_.model_iface (q.take c.sched.clock).1 + _ :=
    entries_take at_.model_iface_ne
  have happ_once := h.app_once
  have hiface_once := h.iface_once
  have hkept : Kept good at_ c.app (mu_sched_step c.sched).1 :=
    ⟨h.model_good, henv.idle_task.symm ▸ h.idle_task, h.completion⟩
  have hstays : Orderly ext good at_ { c with sched := (mu_sched_step c.sched).1 } (q.take c.sched.clock).1 :=
    h.fewer hleft hkept.idle_task (by omega) (by omega)
  unfold cycleStep
  dsimp only
  rw [hcalled]
  generalize (mu_sched_step c.sched).1 = s at hleft hkept hstays ⊢
  by_cases happ : (q.take c.sched.clock).2.getD c.sched.idle_task = at_.tstat_app
  · have htook : (q.take c.sched.clock).2 = some at_.tstat_app := taken_of_getD happ hidle_app
    rw [if_pos htook] at happ_taken
    rw [htook, if_neg fun heq => at_.distinct (Option.some.inj heq).symm] at hiface_taken
    have hidle : c.iface.task.state = MODEL_IFACE_STATE_IDLE := by
      by_contra hbusy
      obtain ⟨hnone, -⟩ := h.busy hbusy
      omega
    obtain ⟨hquiet, hserved⟩ := h.quiet hidle
    rw [happ, mu_task_call, if_neg at_.tstat_app_ne]
    dsimp only
    unfold callTask
    rw [if_pos rfl]
    exact orderly_tstat_app_fn hext hkeeps ⟨hleft, hkept, by omega, by omega, hidle, hserved⟩ returned
  by_cases hiface : (q.take c.sched.clock).2.getD c.sched.idle_task = at_.model_iface
  · have htook : (q.take c.sched.clock).2 = some at_.model_iface := taken_of_getD hiface hidle_iface
    rw [if_pos htook] at hiface_taken
    have hbusy : c.iface.task.state ≠ MODEL_IFACE_STATE_IDLE := by
      intro hidle
      obtain ⟨hnone, -⟩ := h.quiet hidle
      omega
    obtain ⟨hnone, hresting, hcompletion⟩ := h.busy hbusy
    rw [hiface, mu_task_call, if_neg at_.model_iface_ne]
    dsimp only
    unfold callTask
    rw [if_neg at_.distinct, if_pos rfl]
    exact orderly_model_iface_fn hkeeps hleft hkept hcontinuation (by omega) (by omega) hbusy hresting hcompletion
      returned _
  · rw [call_other _ happ hiface]
    exact ⟨_, hstays⟩

theorem idle_task_other (h : SchedHolds s q) {e : SchedEvent} (hstep : e ≠ .step) (htask : s.idle_task ≠ task)
    (he : namedTask e ≠ some task) : (schedStep s e).1.idle_task ≠ task := by
  cases e with
  | set_idle_task other =>
    intro heq
    exact he (congrArg some heq)
  | defer_until other at_time =>
    have hkept : (schedStep s (.defer_until other at_time)).1.idle_task = s.idle_task :=
      (holds_defer h other at_time).1.idle_task
    exact hkept.symm ▸ htask
  | defer_for other in_time =>
    have hkept : (schedStep s (.defer_for other in_time)).1.idle_task = s.idle_task :=
      (holds_defer h other _).1.idle_task
    exact hkept.symm ▸ htask
  | remove_deferred_task other =>
    have hkept : (schedStep s (.remove_deferred_task other)).1.idle_task = s.idle_task :=
      (remove_deferred_spec h other).1.idle_task
    exact hkept.symm ▸ htask
  | step => exact absurd rfl hstep
  | _ => exact htask

theorem orderly_other (h : Orderly ext good at_ c q) {e : SchedEvent} (hstep : e ≠ .step) {returned : Bool}
    (hproper : Proper at_ c (.sched e returned)) :
    ∃ q', Orderly ext good at_ (cycleStep ext at_ continuation c (.sched e returned)) q' := by
  have hcycle : cycleStep ext at_ continuation c (.sched e returned) =
      { c with sched := (schedStep c.sched e).1 } := by
    cases e with
    | step => exact absurd rfl hstep
    | _ => rfl
  obtain ⟨happ, hiface⟩ := hproper
  obtain ⟨hidle_app, hidle_iface⟩ := h.idle_task
  rw [hcycle]
  refine ⟨_, h.fewer (holds_after h.held e) ⟨?_, ?_⟩ ?_ ?_⟩
  · exact idle_task_other h.held hstep hidle_app happ
  · exact idle_task_other h.held hstep hidle_iface hiface
  · exact entries_after_le hstep happ
  · exact entries_after_le hstep hiface

theorem orderly_event (hext : Transfers ext) (hkeeps : Keeps ext good)
    (hcontinuation : continuation ≠ at_.tstat_app ∧ continuation ≠ at_.model_iface) (c : Cycle model_t) (e : CycleEvent)
    (hproper : Proper at_ c e) (h : ∃ q, Orderly ext good at_ c q) :
    ∃ q, Orderly ext good at_ (cycleStep ext at_ continuation c e) q := by
  obtain ⟨q, hq⟩ := h
  cases e with
  | start on_completion => exact orderly_start hq hproper
  | received rx_buf had_error => exact orderly_received hq hproper
  | sched e returned =>
    by_cases hstep : e = .step
    · subst hstep
      exact orderly_step hext hkeeps hcontinuation hq returned
    · exact orderly_other hq hstep hproper

/-! ## Runs -/

/-- At most one of the two tasks is queued, and once. What `tstat_app` pushes is the update of a model that the text has
given, and `model_iface` does not work on it. -/
structure Exchanged (ext : External model_t) (good : model_t → Prop) (at_ : Pointers) (c : Cycle model_t) : Prop where
  once : entries at_.tstat_app (contents c.sched) + entries at_.model_iface (contents c.sched) ≤ 1
  pushed : Pushing c.app → c.iface.task.state = MODEL_IFACE_STATE_IDLE ∧ Updated ext good c.iface.rx_buf c.app.model

theorem pushing_not_resting (hpush : Pushing app) : ¬ Resting app := by
  have hstart : TSTAT_APP_STATE_START_PUSH_MODEL ≠ TSTAT_APP_STATE_IDLE ∧
      TSTAT_APP_STATE_START_PUSH_MODEL ≠ TSTAT_APP_STATE_AWAIT_PULL_MODEL := by decide
  have hawait : TSTAT_APP_STATE_AWAIT_PUSH_MODEL ≠ TSTAT_APP_STATE_IDLE ∧
      TSTAT_APP_STATE_AWAIT_PUSH_MODEL ≠ TSTAT_APP_STATE_AWAIT_PULL_MODEL := by decide
  unfold Resting
  rcases hpush with hstate | hstate
  · rw [hstate]
    exact not_or.mpr hstart
  · rw [hstate]
    exact not_or.mpr hawait

theorem Orderly.exchanged (h : Orderly ext good at_ c q) : Exchanged ext good at_ c := by
  have happ := h.app_once
  have hiface := h.iface_once
  constructor
  · rw [h.held.contents_eq]
    by_cases hidle : c.iface.task.state = MODEL_IFACE_STATE_IDLE
    · obtain ⟨hnone, -⟩ := h.quiet hidle
      omega
    · obtain ⟨hnone, -⟩ := h.busy hidle
      omega
  · intro hpush
    have hidle : c.iface.task.state = MODEL_IFACE_STATE_IDLE := by
      by_contra hbusy
      obtain ⟨-, hresting, -⟩ := h.busy hbusy
      exact pushing_not_resting hpush hresting
    obtain ⟨-, hserved⟩ := h.quiet hidle
    exact ⟨hidle, hserved.pushed hpush⟩

theorem orderly_init (hs : Sized s) (app_info iface_info : Ptr) {app : tstat_app_t model_t} (hgood : good app.model)
    (iface : model_iface_t) (coms_had_error : Bool) :
    ∃ q, Orderly ext good at_
      ⟨mu_sched_init s, tstat_app_init app app_info, model_iface_init iface iface_info, coms_had_error⟩ q := by
  have hempty (task : Ptr) : entries task ⟨[], [], []⟩ = 0 := rfl
  refine ⟨_, init_holds hs, hgood, ?_, ?_, ⟨at_.tstat_app_ne.symm, at_.model_iface_ne.symm⟩, ?_, ?_, ?_⟩
  · rw [hempty]
    exact Nat.zero_le 1
  · rw [hempty]
    exact Nat.zero_le 1
  · exact fun hrunning => absurd rfl hrunning
  · exact fun hbusy => absurd rfl hbusy
  · intro _
    exact ⟨hempty _, served_idle rfl⟩

/-- In every run in which the two modules are used properly, the tasks do not share the model. -/
theorem cycle_exchanged (s : mu_sched_t) (hs : Sized s) (ext : External model_t) (hext : Transfers ext)
    (good : model_t → Prop) (hkeeps : Keeps ext good) (at_ : Pointers) (continuation : Ptr)
    (hcontinuation : continuation ≠ at_.tstat_app ∧ continuation ≠ at_.model_iface) (app_info iface_info : Ptr)
    (app : tstat_app_t model_t) (hgood : good app.model) (iface : model_iface_t) (coms_had_error : Bool)
    (es : List CycleEvent)
    (hproper : (cycleMachine ext at_ continuation).Meets (Proper at_) es
      ⟨mu_sched_init s, tstat_app_init app app_info, model_iface_init iface iface_info, coms_had_error⟩) :
    (cycleMachine ext at_ continuation).Always (Exchanged ext good at_) es
      ⟨mu_sched_init s, tstat_app_init app app_info, model_iface_init iface iface_info, coms_had_error⟩ := by
  have hstart : ∃ q, Orderly ext good at_ _ q := orderly_init hs app_info iface_info hgood iface coms_had_error
  refine Machine.Always.imp ?_ (Machine.always_of_meets (orderly_event hext hkeeps hcontinuation) hproper hstart)
  rintro c ⟨q, hq⟩
  exact hq.exchanged

/-- A text is received and loaded, and the updated model is pushed. -/
theorem cycle_exchanged_pushed :
    (cycleMachine tstatExternal pointers 7).Always (Exchanged tstatExternal (fun _ => True) pointers)
      [.start 9, .sched .step true, .sched .step true, .received [123, 125, 0] false, .sched .step true,
        .sched .step true, .sched .task_done true, .sched .step true, .sched .step true, .sched .step true]
      cycleStart := by
  refine cycle_exchanged staticStorage staticStorage_sized tstatExternal tstatExternal_transfers (fun _ => True)
    ⟨fun _ _ _ => trivial, fun _ _ => trivial⟩ pointers 7 (by decide) NULL NULL _ trivial _ false _ ?_
  decide +kernel

-- started again while the model is pulled, both tasks are queued
example :
    let c := ((cycleMachine tstatExternal pointers 7).run [.start 9, .sched .step true, .start 9] cycleStart).1
    entries pointers.tstat_app (contents c.sched) + entries pointers.model_iface (contents c.sched) = 2 := by
  decide +kernel

end ToyTstat.App
