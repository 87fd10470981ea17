import ToyTstat.Mulib.Schedule
import ToyTstat.Mulib.Timer

/-!
# The deadlines of a timer

A timer that is started once is called at its deadlines, never before. The deadlines of a periodic
timer depend on its start and its period alone.
-/

open CLib ToyTstat.Code ToyTstat.Code.mu_task_err_t

namespace ToyTstat.Mulib

/-- A positive delay as a number. -/
def ticks (delay_tics : mu_time_rel_t) : Nat := delay_tics.toUInt64.toNat

theorem ticks_lt {delay_tics : mu_time_rel_t} (h : 0 < delay_tics) : ticks delay_tics < halfCircle := by
  have hto := toInt_toInt64 delay_tics.toUInt64
  have hlt := delay_tics.toUInt64.toNat_lt
  rw [Int64.lt_iff_toInt_lt, Int64.toInt_zero] at h
  rw [Int64.toInt64_toUInt64] at hto
  unfold ticks halfCircle
  split at hto <;> omega

/-- The deadline after `n` periods from `t0` on. -/
def deadline (t0 : mu_time_abs_t) (delay_tics : mu_time_rel_t) (n : Nat) : mu_time_abs_t :=
  t0 + UInt64.ofNat n * delay_tics.toUInt64

theorem deadline_one (t0 : mu_time_abs_t) (delay_tics : mu_time_rel_t) :
    deadline t0 delay_tics 1 = mu_time_offset t0 delay_tics := by
  unfold deadline mu_time_offset
  rw [show UInt64.ofNat 1 = 1 from rfl, UInt64.one_mul]

theorem deadline_succ (t0 : mu_time_abs_t) (delay_tics : mu_time_rel_t) (n : Nat) :
    deadline t0 delay_tics (n + 1) = mu_time_offset (deadline t0 delay_tics n) delay_tics := by
  unfold deadline mu_time_offset
  rw [UInt64.ofNat_add, show UInt64.ofNat 1 = 1 from rfl, UInt64.add_mul, UInt64.one_mul, UInt64.add_assoc]

/-- The clock and the pending times of a run. -/
def InWindowAt (base : mu_time_abs_t) (r : TimerRun) : Prop := InWindow base (r.sched.clock :: pendingTimes r.sched)

instance (base : mu_time_abs_t) : DecidablePred (InWindowAt base) :=
  fun r => inferInstanceAs (Decidable (InWindow base (r.sched.clock :: pendingTimes r.sched)))

variable {self : Ptr} {base t0 : mu_time_abs_t} {delay_tics : mu_time_rel_t} {periodic : Bool} {on_completion : Ptr}
  {r : TimerRun} {q : Queues} {calls : List mu_time_abs_t}

/-- A timer that was started at `t0`, after its calls so far. -/
structure OnTime (task : Ptr) (base t0 : mu_time_abs_t) (delay_tics : mu_time_rel_t) (periodic : Bool) (r : TimerRun)
    (calls : List mu_time_abs_t) : Prop where
  armed : ∃ q, Armed task r q
  delay : r.timer.delay_tics = delay_tics
  repeats : r.timer.periodic = periodic
  /-- The calls come at the deadlines or later. -/
  called : ∀ k now, calls[k]? = some now → offset base t0 + (k + 1) * ticks delay_tics ≤ offset base now
  running : periodic = true → r.timer.state = MU_TIMER_STATE_RUNNING
  once : periodic = false → calls.length ≤ 1 ∧ (r.timer.state = MU_TIMER_STATE_RUNNING → calls = [])
  due : r.timer.state = MU_TIMER_STATE_RUNNING →
    r.timer.delay_until = deadline t0 delay_tics (calls.length + 1) ∧
      offset base r.timer.delay_until = offset base t0 + (calls.length + 1) * ticks delay_tics

theorem onTime_same {r' : TimerRun} (h : OnTime self base t0 delay_tics periodic r calls)
    (harmed : ∃ q, Armed self r' q) (hsame : r'.timer = r.timer) :
    OnTime self base t0 delay_tics periodic r' (calls ++ []) := by
  rw [List.append_nil]
  refine ⟨harmed, ?_, ?_, h.called, ?_, ?_, ?_⟩
  all_goals rw [hsame]
  · exact h.delay
  · exact h.repeats
  · exact h.running
  · exact h.once
  · exact h.due

theorem deadline_in_window (h : Armed self r q) (hrunning : r.timer.state = MU_TIMER_STATE_RUNNING)
    (hwindow : InWindowAt base r) : offset base r.timer.delay_until < halfCircle := by
  have hmem : (⟨r.timer.delay_until, self⟩ : deferred_task_t) ∈ own self q.deferred := by
    rw [h.armed hrunning]
    exact List.mem_cons_self
  exact in_window hwindow h.tidy.holds.deferred _ (List.mem_filter.mp hmem).1

theorem called_snoc (h : OnTime self base t0 delay_tics periodic r calls)
    (hrunning : r.timer.state = MU_TIMER_STATE_RUNNING) {now : mu_time_abs_t}
    (hdue : offset base r.timer.delay_until ≤ offset base now) (k : Nat) (now' : mu_time_abs_t)
    (hk : (calls ++ [now])[k]? = some now') : offset base t0 + (k + 1) * ticks delay_tics ≤ offset base now' := by
  rcases Nat.lt_trichotomy k calls.length with hlt | rfl | hgt
  · rw [List.getElem?_append_left hlt] at hk
    exact h.called k now' hk
  · rw [List.getElem?_concat_length] at hk
    obtain rfl : now = now' := Option.some.inj hk
    exact (h.due hrunning).2.symm.trans_le hdue
  · have hlength : (calls ++ [now]).length = calls.length + 1 := List.length_append
    rw [List.getElem?_eq_none (by omega)] at hk
    cases hk

theorem onTime_call_periodic {r' : TimerRun} (h : OnTime self base t0 delay_tics periodic r calls)
    (harmed : ∃ q, Armed self r' q) (hrunning : r.timer.state = MU_TIMER_STATE_RUNNING) (hdelay : 0 < delay_tics)
    (hin : offset base r.timer.delay_until < halfCircle) {now : mu_time_abs_t}
    (hdue : offset base r.timer.delay_until ≤ offset base now) (hperiodic : r.timer.periodic = true)
    (htimer : r'.timer = { r.timer with delay_until := mu_time_offset r.timer.delay_until r.timer.delay_tics }) :
    OnTime self base t0 delay_tics periodic r' (calls ++ [now]) := by
  obtain ⟨huntil, hoffset⟩ := h.due hrunning
  have hlength : (calls ++ [now]).length = calls.length + 1 := List.length_append
  have hp : periodic = true := h.repeats.symm.trans hperiodic
  refine ⟨harmed, ?_, ?_, called_snoc h hrunning hdue, fun _ => ?_, fun hnot => ?_, fun _ => ?_⟩
  all_goals try rw [htimer]
  · exact h.delay
  · exact h.repeats
  · exact hrunning
  · exact absurd (hnot.symm.trans hp) Bool.false_ne_true
  · dsimp only
    rw [hlength, deadline_succ, ← huntil, h.delay]
    refine ⟨rfl, ?_⟩
    rw [mu_time_offset, offset_advance hin (ticks_lt hdelay), hoffset, Nat.succ_mul (calls.length + 1)]
    exact Nat.add_assoc _ _ _

theorem onTime_call_once {r' : TimerRun} (h : OnTime self base t0 delay_tics periodic r calls)
    (harmed : ∃ q, Armed self r' q) (hrunning : r.timer.state = MU_TIMER_STATE_RUNNING) {now : mu_time_abs_t}
    (hdue : offset base r.timer.delay_until ≤ offset base now) (hperiodic : ¬ r.timer.periodic)
    (htimer : r'.timer = { r.timer with state := MU_TIMER_STATE_IDLE }) :
    OnTime self base t0 delay_tics periodic r' (calls ++ [now]) := by
  have hp : periodic = false := h.repeats.symm.trans (by simpa using hperiodic)
  have hstopped : r'.timer.state ≠ MU_TIMER_STATE_RUNNING := by
    rw [htimer]
    exact (by decide : MU_TIMER_STATE_IDLE ≠ MU_TIMER_STATE_RUNNING)
  refine ⟨harmed, ?_, ?_, called_snoc h hrunning hdue, fun hnot => ?_, fun _ => ⟨?_, ?_⟩, ?_⟩
  · rw [htimer]
    exact h.delay
  · rw [htimer]
    exact h.repeats
  · exact absurd (hp.symm.trans hnot) Bool.false_ne_true
  · rw [(h.once hp).2 hrunning]
    exact le_rfl
  · exact fun hstate => absurd hstate hstopped
  · exact fun hstate => absurd hstate hstopped

theorem due_in_window {now at_time : mu_time_abs_t} (hnow : offset base now < halfCircle)
    (hat : offset base at_time < halfCircle) (hdue : ¬ mu_time_precedes now at_time) :
    offset base at_time ≤ offset base now :=
  not_lt.mp (mt (precedes_iff hnow hat).mpr hdue)

theorem taken_deadline {entry : deferred_task_t} (h : Armed self r q) (hown : own self q.deferred = [entry]) :
    r.timer.state = MU_TIMER_STATE_RUNNING ∧ entry.at_time = r.timer.delay_until := by
  have hrunning : r.timer.state = MU_TIMER_STATE_RUNNING := by
    by_contra hstopped
    rw [h.tidy.stopped hstopped] at hown
    cases hown
  rw [h.armed hrunning] at hown
  obtain ⟨rfl, -⟩ := List.cons.inj hown
  exact ⟨hrunning, rfl⟩

theorem onTime_step (hself : self ≠ NULL) (hdelay : 0 < delay_tics) (r : TimerRun) (calls : List mu_time_abs_t)
    (e : TimerEvent) (he : ∃ e', e = .sched e' ∧ e'.names ≠ some self) (hwindow : InWindowAt base r)
    (h : OnTime self base t0 delay_tics periodic r calls) :
    OnTime self base t0 delay_tics periodic ((timerMachine self).step r e).1
      (calls ++ ((timerMachine self).step r e).2) := by
  obtain ⟨e, rfl, hnames⟩ := he
  obtain ⟨q, harmed⟩ := h.armed
  have hafter := armed_step hself r (.sched e) ⟨hnames, trivial⟩ h.armed
  dsimp only [timerMachine] at hafter ⊢
  cases hrecalled : r.recalled with
  | true =>
    rw [hrecalled, if_pos rfl, call_stopped (harmed.not_recalled hrecalled)] at hafter
    rw [if_pos rfl, call_stopped (harmed.not_recalled hrecalled)]
    exact onTime_same h hafter rfl
  | false =>
    rw [hrecalled, if_neg Bool.false_ne_true] at hafter
    rw [if_neg Bool.false_ne_true]
    by_cases hstep : e = .step
    case neg =>
      rw [timerEvent_sched hstep] at hafter ⊢
      exact onTime_same h hafter rfl
    subst hstep
    obtain ⟨-, henv, hcases⟩ := step_cases harmed.tidy hself hrecalled
    unfold timerEvent at hafter ⊢
    dsimp only at hafter ⊢
    rcases hcases with ⟨hother, -⟩ | ⟨hcalled, -, -, entry, hown, hdue⟩
    · rw [if_neg hother] at hafter ⊢
      exact onTime_same h hafter rfl
    obtain ⟨hrunning, huntil⟩ := taken_deadline harmed hown
    rw [huntil] at hdue
    have hin := deadline_in_window harmed hrunning hwindow
    have hle := due_in_window (hwindow _ List.mem_cons_self) hin hdue
    rw [← henv.clock] at hle
    rw [if_pos hcalled] at hafter ⊢
    by_cases hperiodic : r.timer.periodic
    · rw [call_periodic (r := { r with sched := (mu_sched_step r.sched).1 }) hrunning hperiodic] at hafter ⊢
      exact onTime_call_periodic h hafter hrunning hdelay hin hle hperiodic rfl
    · rw [call_once (r := { r with sched := (mu_sched_step r.sched).1 }) hrunning hperiodic] at hafter ⊢
      exact onTime_call_once h hafter hrunning hle hperiodic rfl

theorem onTime_start (h : Tidy self r q) (hrecalled : r.recalled = false) (hdelay : 0 < delay_tics)
    (houtside : periodic → on_completion ≠ self)
    (haccepted : (mu_sched_defer_until (mu_timer_stop r.sched self r.timer).1 self
      (mu_time_offset r.sched.clock delay_tics)).2 = MU_TASK_ERR_NONE)
    (hclock : offset base r.sched.clock < halfCircle) :
    OnTime self base r.sched.clock delay_tics periodic
      (timerEvent self r (.start delay_tics periodic on_completion)).1 [] := by
  obtain ⟨hholds, hsame⟩ := timer_stop_spec h
  have hroom : (q.remove self).deferred.length ≠ MU_CONFIG_SCHED_MAX_DEFERRED_TASKS := by
    intro hfull
    unfold mu_sched_defer_until at haccepted
    rw [defer_full hholds hfull] at haccepted
    cases haccepted
  have huntil : (timerEvent self r (.start delay_tics periodic on_completion)).1.timer.delay_until =
      mu_time_offset r.sched.clock delay_tics := by
    unfold timerEvent mu_timer_start
    dsimp only
    rw [hsame.clock]
  refine ⟨⟨_, armed_start h hrecalled hroom houtside⟩, rfl, rfl, nofun, fun _ => rfl,
    fun _ => ⟨Nat.zero_le 1, fun _ => rfl⟩, fun _ => ?_⟩
  rw [huntil]
  refine ⟨(deadline_one _ _).symm, ?_⟩
  rw [mu_time_offset, offset_advance hclock (ticks_lt hdelay), List.length_nil, Nat.zero_add, Nat.one_mul]
  rfl

theorem tidy_run {s : mu_sched_t} (hself : self ≠ NULL) (hs : Sized s) (timer : mu_timer_t) {es : List TimerEvent}
    (hes : ∀ e ∈ es, Apart self e) :
    ∃ q, Tidy self ((timerMachine self).run es ⟨mu_sched_init s, mu_timer_init timer, false⟩).1 q := by
  have hstep : ∀ r (_ : List mu_time_abs_t) e, Apart self e → (∃ q, Tidy self r q) →
      ∃ q, Tidy self ((timerMachine self).step r e).1 q :=
    fun r _ e => tidy_step hself r e
  exact Machine.run_trace (t := []) hstep hes ⟨_, tidy_init hs hself _⟩

/-- A timer that is started in any reachable state, where the scheduler accepts the deferral, calls at its deadlines or
later, once if it is not periodic. After `n` calls the pending deadline of a periodic timer is the one after `n + 1`
periods, and it waits in the queue. -/
theorem timer_on_time (self : Ptr) (hself : self ≠ NULL) (s : mu_sched_t) (hs : Sized s) (timer : mu_timer_t)
    (before : List TimerEvent) (hbefore : ∀ e ∈ before, Apart self e) (delay_tics : mu_time_rel_t)
    (hdelay : 0 < delay_tics) (periodic : Bool) (on_completion : Ptr) (houtside : periodic → on_completion ≠ self)
    (r started : TimerRun) (hr : r = ((timerMachine self).run before ⟨mu_sched_init s, mu_timer_init timer, false⟩).1)
    (hready : r.recalled = false)
    (haccepted : (mu_sched_defer_until (mu_timer_stop r.sched self r.timer).1 self
      (mu_time_offset r.sched.clock delay_tics)).2 = MU_TASK_ERR_NONE)
    (hstarted : started = ((timerMachine self).step r (.start delay_tics periodic on_completion)).1)
    (es : List SchedEvent) (hes : ∀ e ∈ es, e.names ≠ some self) (base : mu_time_abs_t)
    (hwindow : (timerMachine self).Always (InWindowAt base) (es.map .sched) started) :
    let after := (timerMachine self).run (es.map .sched) started
    (∀ k now, after.2[k]? = some now → offset base r.sched.clock + (k + 1) * ticks delay_tics ≤ offset base now) ∧
      (periodic = false → after.2.length ≤ 1) ∧
      (periodic = true →
        after.1.timer.delay_until = deadline r.sched.clock delay_tics (after.2.length + 1) ∧
          RunningScheduled self after.1 ∧ mu_timer_is_running after.1.timer) := by
  obtain ⟨q, htidy⟩ : ∃ q, Tidy self r q := hr ▸ tidy_run hself hs timer hbefore
  have hstart : started = (timerEvent self r (.start delay_tics periodic on_completion)).1 := by
    rw [hstarted]
    dsimp only [timerMachine]
    rw [hready, if_neg Bool.false_ne_true]
  have hclock : started.sched.clock = r.sched.clock := by
    rw [hstart]
    exact (timer_start_spec htidy delay_tics periodic on_completion).2.clock
  have honTime : OnTime self base r.sched.clock delay_tics periodic started [] := by
    have hin : offset base started.sched.clock < halfCircle := hwindow.start _ List.mem_cons_self
    rw [hclock] at hin
    rw [hstart]
    exact onTime_start htidy hready hdelay houtside haccepted hin
  have hevents : ∀ e ∈ es.map TimerEvent.sched, ∃ e', e = .sched e' ∧ e'.names ≠ some self := by
    intro e he
    obtain ⟨e', he', rfl⟩ := List.mem_map.mp he
    exact ⟨e', rfl, hes e' he'⟩
  have h := Machine.run_trace_while (onTime_step hself hdelay) hevents hwindow honTime
  rw [List.nil_append] at h
  refine ⟨h.called, fun hp => (h.once hp).1, fun hp => ?_⟩
  obtain ⟨q', harmed⟩ := h.armed
  exact ⟨(h.due (h.running hp)).1, harmed.scheduled, decide_eq_true (h.running hp)⟩

/-- The queue is full, and the step comes three periods late. -/
theorem timer_on_time_late :
    let r : TimerRun := ⟨mu_sched_init staticStorage, mu_timer_init ⟨⟨0, 0⟩, 1, 0, 0, 0, false⟩, false⟩
    let started := ((timerMachine 5).step r (.start 10 true 8)).1
    let es := List.replicate 19 (SchedEvent.defer_until 6 40) ++ [.clock 35, .step, .step, .step]
    let after := (timerMachine 5).run (es.map .sched) started
    after.2 = [35, 35, 35] ∧ after.1.timer.delay_until = 40 ∧ RunningScheduled 5 after.1 := by
  refine ⟨by decide +kernel, by decide +kernel, ?_⟩
  have h := timer_on_time 5 (by decide) staticStorage staticStorage_sized ⟨⟨0, 0⟩, 1, 0, 0, 0, false⟩ [] nofun 10
    (by decide) true 8 (fun _ => by decide) _ _ rfl rfl (by decide +kernel) rfl
    (List.replicate 19 (SchedEvent.defer_until 6 40) ++ [.clock 35, .step, .step, .step]) (by decide +kernel) 0
    (by decide +kernel)
  exact (h.2.2 rfl).2.1

/-- A periodic timer that calls its own task: the second call comes with the first one, a period early. -/
theorem timer_not_on_time :
    let r : TimerRun := ⟨mu_sched_init staticStorage, mu_timer_init ⟨⟨0, 0⟩, 0, 0, 0, 0, false⟩, false⟩
    let started := ((timerMachine 5).step r (.start 10 true 5)).1
    ((timerMachine 5).run [.sched (.clock 10), .sched .step, .sched .step] started).2 = [10, 10] := by
  decide +kernel

end ToyTstat.Mulib
