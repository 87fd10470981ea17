import ToyTstat.App.Receive
import ToyTstat.Lib.Machine

/-!
# The terminator of a message

A receive that ends without an error has stored a NUL only if it read one. The runs here have any
events, bytes and receives, in any order.
-/

open CLib ToyTstat.Code ToyTstat.Code.SERCOM_USART_EVENT ToyTstat.Mulib

namespace ToyTstat.App

/-! ## Runs -/

/-- What a caller of `coms_mgr_recv` promises about its buffer. -/
structure Buffer where
  bytes : List Byte
  capacity : Nat
  fits : capacity ≤ bytes.length

inductive ComsEvent
  | recv (buffer : Buffer) (on_completion : Ptr)
  /-- Bytes come into the ring. -/
  | arrive (bytes : List Byte)
  /-- `coms_rx_cb` is called. -/
  | usart (event : SERCOM_USART_EVENT)
  /-- A step of the scheduler, up to the call, or what other code asks of it. -/
  | sched (e : SchedEvent)
  /-- The call, if the step took the task of `coms_mgr`. `ch` is what its local variable holds at first. -/
  | run (ch : Byte)

/-- What a receive that has just ended without an error stored in `buf[0..capacity)`. -/
def ended (before after : coms_mgr_t) : List (List Byte) :=
  if before.task.state = COMS_MGR_STATE_AWAIT_RQST ∧ after.task.state = COMS_MGR_STATE_IDLE ∧
      coms_mgr_had_error after = false then
    [(after.buf.take after.capacity).take after.bytes_received]
  else []

/-- `task` is the task of `coms_mgr`. -/
def comsStep (task continuation : Ptr) (r : Receiver) : ComsEvent → Option (Receiver × List (List Byte))
  | .recv buffer on_completion =>
    let (sched, mgr) := coms_mgr_recv r.sched task r.mgr buffer.bytes buffer.capacity on_completion
    some ({ r with sched, mgr }, [])
  | .arrive bytes => some ({ r with ring := r.ring ++ bytes }, [])
  | .usart event =>
    let (sched, mgr) := coms_rx_cb r.sched task r.mgr event
    some ({ r with sched, mgr }, [])
  | .sched e => some ({ r with sched := (schedStep r.sched e).1 }, [])
  | .run ch =>
    if r.sched.curr_task = task then
      (coms_mgr_fn r.sched continuation r.mgr r.ring ch).map fun (sched, mgr, ring) =>
        (⟨step_end sched, mgr, ring⟩, ended r.mgr mgr)
    else some (r, [])

/-- There is no state behind a write outside the buffer. -/
def comsMachine (task continuation : Ptr) : Machine (Option Receiver) ComsEvent (List Byte) where
  step
    | none, _ => (none, [])
    | some r, e =>
      match comsStep task continuation r e with
      | none => (none, [])
      | some (r, out) => (some r, out)

/-! ## The condition -/

/-- The task would read a NUL, or go on waiting. -/
def FindsTerminator (mgr : coms_mgr_t) (ring : List Byte) (ch : Byte) : Prop :=
  let room := mgr.capacity - mgr.bytes_received
  match mgr.event with
  | SERCOM_USART_EVENT_READ_THRESHOLD_REACHED | SERCOM_USART_EVENT_READ_BUFFER_FULL =>
    0 ∈ ring.take room ∨ ring.length < room ∧ (ring ≠ [] ∨ ch ≠ 0)
  | SERCOM_USART_EVENT_READ_ERROR => True
  | SERCOM_USART_EVENT_WRITE_THRESHOLD_REACHED | SERCOM_USART_EVENT_BREAK_SIGNAL_DETECTED => False

/-- The condition on an event in a state: it is about the calls of the waiting task alone. -/
def Terminates (task : Ptr) (r : Receiver) : ComsEvent → Prop
  | .run ch =>
    r.sched.curr_task = task → r.mgr.task.state = COMS_MGR_STATE_AWAIT_RQST → FindsTerminator r.mgr r.ring ch
  | _ => True

/-! ## One call -/

variable {task continuation : Ptr} {mgr : coms_mgr_t} {s : mu_sched_t} {ring : List Byte} {ch : Byte} {r : Receiver}

/-- Nothing is being received, or a part of a message without a NUL has been stored. -/
def Consistent (mgr : coms_mgr_t) : Prop :=
  mgr.task.state = COMS_MGR_STATE_IDLE ∨
    (mgr.task.state = COMS_MGR_STATE_START_RQST ∨ mgr.task.state = COMS_MGR_STATE_AWAIT_RQST) ∧
      ∃ buf got, Stored buf got mgr ∧ 0 ∉ got

theorem ended_of_not_waiting {after : coms_mgr_t} (h : mgr.task.state ≠ COMS_MGR_STATE_AWAIT_RQST) :
    ended mgr after = [] := by
  unfold ended
  rw [if_neg fun hboth => h hboth.1]

theorem ended_of_waits {after : coms_mgr_t} (h : after.task.state ≠ COMS_MGR_STATE_IDLE) : ended mgr after = [] := by
  unfold ended
  rw [if_neg fun hall => h hall.2.1]

theorem ended_eq {buf got : List Byte} {after : coms_mgr_t} (hbefore : mgr.task.state = COMS_MGR_STATE_AWAIT_RQST)
    (hafter : after.task.state = COMS_MGR_STATE_IDLE) (herror : coms_mgr_had_error after = false)
    (h : Stored buf got after) : ended mgr after = [got] := by
  unfold ended
  rw [if_pos ⟨hbefore, hafter, herror⟩, List.take_take, h.received, min_eq_left h.room, h.buf, List.take_left]

theorem reads_terminator_iff {room : Nat} :
    (((upTo 0 room ring).getLast?.getD ch = 0 ∨ (upTo 0 room ring).length = room) → 0 ∈ upTo 0 room ring) ↔
      0 ∈ ring.take room ∨ ring.length < room ∧ (ring ≠ [] ∨ ch ≠ 0) := by
  rw [← stop_mem_upTo]
  by_cases hmem : (0 : Byte) ∈ upTo 0 room ring
  · simp [hmem]
  have htaken := upTo_of_not_mem hmem
  have hlast := mt stop_mem_iff_last.mpr hmem
  simp only [hmem, imp_false, not_or, false_or]
  rw [htaken] at hlast ⊢
  have hfull : ¬ (ring.take room).length = room ↔ ring.length < room := by
    rw [List.length_take]
    omega
  rw [hfull, and_comm]
  refine and_congr_right fun hshort => ?_
  rw [List.take_of_length_le hshort.le] at hlast ⊢
  cases hring : ring.getLast? with
  | none =>
    rw [List.getLast?_eq_none_iff] at hring
    simp [hring]
  | some b =>
    have hne : ring ≠ [] := by
      rintro rfl
      cases hring
    rw [hring, Option.some_inj] at hlast
    simp [hne, hlast]

theorem ended_failed (before : coms_mgr_t) : ended before (closed mgr true) = [] := by
  unfold ended closed coms_mgr_had_error
  rw [if_neg]
  simp

theorem coms_mgr_fn_ends (hstate : mgr.task.state = COMS_MGR_STATE_AWAIT_RQST) (hevent : ¬ Reads mgr.event) :
    coms_mgr_fn s continuation mgr ring ch =
      some (handed s continuation mgr.on_completion, closed mgr (mgr.event = SERCOM_USART_EVENT_READ_ERROR), ring) := by
  unfold coms_mgr_fn mu_task_get_state
  rw [hstate, if_neg (by decide), if_neg (by decide), if_pos rfl]
  simp only [coms_mgr_endgame_eq]
  cases hname : mgr.event with
  | SERCOM_USART_EVENT_READ_THRESHOLD_REACHED => exact absurd (.inl hname) hevent
  | SERCOM_USART_EVENT_READ_BUFFER_FULL => exact absurd (.inr hname) hevent
  | SERCOM_USART_EVENT_READ_ERROR => simp
  | SERCOM_USART_EVENT_WRITE_THRESHOLD_REACHED => simp
  | SERCOM_USART_EVENT_BREAK_SIGNAL_DETECTED => simp

theorem finds_terminator_read (hevent : Reads mgr.event) :
    FindsTerminator mgr ring ch ↔
      0 ∈ ring.take (mgr.capacity - mgr.bytes_received) ∨
        ring.length < mgr.capacity - mgr.bytes_received ∧ (ring ≠ [] ∨ ch ≠ 0) := by
  unfold FindsTerminator
  rcases hevent with hevent | hevent <;> rw [hevent]

theorem finds_terminator_end (hevent : ¬ Reads mgr.event) :
    FindsTerminator mgr ring ch ↔ mgr.event = SERCOM_USART_EVENT_READ_ERROR := by
  unfold FindsTerminator
  cases hname : mgr.event with
  | SERCOM_USART_EVENT_READ_THRESHOLD_REACHED => exact absurd (.inl hname) hevent
  | SERCOM_USART_EVENT_READ_BUFFER_FULL => exact absurd (.inr hname) hevent
  | SERCOM_USART_EVENT_READ_ERROR => simp
  | SERCOM_USART_EVENT_WRITE_THRESHOLD_REACHED => simp
  | SERCOM_USART_EVENT_BREAK_SIGNAL_DETECTED => simp

/-- What a call does to a consistent state, and when it ends a receive without a NUL. -/
def CallSpec (mgr : coms_mgr_t) (ring : List Byte) (ch : Byte) (result : Option (mu_sched_t × coms_mgr_t × List Byte)) :
    Prop :=
  ∃ s' mgr' ring', result = some (s', mgr', ring') ∧ Consistent mgr' ∧
    ((∀ stored ∈ ended mgr mgr', 0 ∈ stored) ↔
      (mgr.task.state = COMS_MGR_STATE_AWAIT_RQST → FindsTerminator mgr ring ch))

theorem read_call_spec {buf got : List Byte} (hstate : mgr.task.state = COMS_MGR_STATE_AWAIT_RQST)
    (hevent : Reads mgr.event) (h : Stored buf got mgr) (hgot : 0 ∉ got) :
    CallSpec mgr ring ch (coms_mgr_fn s continuation mgr ring ch) := by
  obtain ⟨stored, hstored, hsame, hfn⟩ := coms_mgr_fn_read s continuation ring ch h hstate hevent
  have hroom := h.room
  have hfull : got.length + (upTo 0 (mgr.capacity - got.length) ring).length = mgr.capacity ↔
      (upTo 0 (mgr.capacity - got.length) ring).length = mgr.capacity - got.length := by omega
  have hfinds : FindsTerminator mgr ring ch ↔ _ := finds_terminator_read hevent
  rw [h.received, ← reads_terminator_iff, ← hfull] at hfinds
  unfold CallSpec
  rw [hfn, hfinds]
  simp only [hstate, true_imp_iff]
  by_cases hends : (upTo 0 (mgr.capacity - got.length) ring).getLast?.getD ch = 0 ∨
      got.length + (upTo 0 (mgr.capacity - got.length) ring).length = mgr.capacity
  · rw [if_pos hends]
    refine ⟨_, _, _, rfl, .inl rfl, ?_⟩
    rw [ended_eq hstate rfl rfl (hstored.close false)]
    simp [hgot, hends]
  · have hnone : 0 ∉ upTo 0 (mgr.capacity - got.length) ring := stop_not_mem_of_last fun hlast => hends (.inl hlast)
    have hwaits : stored.task.state = COMS_MGR_STATE_AWAIT_RQST := hsame.task ▸ hstate
    rw [if_neg hends]
    refine ⟨_, _, _, rfl, .inr ⟨.inr hwaits, buf, _, hstored, ?_⟩, ?_⟩
    · simp [hgot, hnone]
    · rw [ended_of_waits (by rw [hwaits]; decide)]
      simp [hends]

theorem end_call_spec {buf got : List Byte} (hstate : mgr.task.state = COMS_MGR_STATE_AWAIT_RQST)
    (hevent : ¬ Reads mgr.event) (h : Stored buf got mgr) (hgot : 0 ∉ got) :
    CallSpec mgr ring ch (coms_mgr_fn s continuation mgr ring ch) := by
  unfold CallSpec
  rw [coms_mgr_fn_ends hstate hevent, finds_terminator_end hevent]
  refine ⟨_, _, _, rfl, .inl rfl, ?_⟩
  simp only [hstate, true_imp_iff]
  by_cases herror : mgr.event = SERCOM_USART_EVENT_READ_ERROR
  · rw [decide_eq_true herror, ended_failed]
    simp [herror]
  · rw [decide_eq_false herror, ended_eq hstate rfl rfl (h.close false)]
    simp [hgot, herror]

theorem call_spec (s : mu_sched_t) (continuation : Ptr) (ring : List Byte) (ch : Byte) (h : Consistent mgr) :
    CallSpec mgr ring ch (coms_mgr_fn s continuation mgr ring ch) := by
  rcases h with hidle | ⟨hstart | hwaits, buf, got, hstored, hgot⟩
  · refine ⟨s, mgr, ring, coms_mgr_fn_idle hidle, .inl hidle, ?_⟩
    have hother : mgr.task.state ≠ COMS_MGR_STATE_AWAIT_RQST := by
      rw [hidle]
      decide
    simp [ended_of_not_waiting hother, hother]
  · have hother : mgr.task.state ≠ COMS_MGR_STATE_AWAIT_RQST := by
      rw [hstart]
      decide
    refine ⟨_, _, _, coms_mgr_fn_start hstart, .inr ⟨.inr rfl, buf, got, ?_, hgot⟩, ?_⟩
    · exact ⟨hstored.received, hstored.room, hstored.fits, hstored.buf⟩
    · simp [ended_of_not_waiting hother, hother]
  · by_cases hevent : Reads mgr.event
    · exact read_call_spec hwaits hevent hstored hgot
    · exact end_call_spec hwaits hevent hstored hgot

/-! ## All runs -/

/-- The run has not left the buffer. -/
def Inside (state : Option Receiver) : Prop := ∃ r, state = some r ∧ Consistent r.mgr

def StepSpec (task continuation : Ptr) (r : Receiver) (e : ComsEvent) : Prop :=
  ∃ r' out, comsStep task continuation r e = some (r', out) ∧ Consistent r'.mgr ∧
    ((∀ stored ∈ out, 0 ∈ stored) ↔ Terminates task r e)

theorem comsStep_spec (h : Consistent r.mgr) (e : ComsEvent) : StepSpec task continuation r e := by
  cases e with
  | recv buffer on_completion =>
    refine ⟨_, _, rfl, .inr ⟨.inl ?_, buffer.bytes, [], ⟨rfl, Nat.zero_le _, buffer.fits, rfl⟩, by simp⟩, ?_⟩
    · simp
    · simp [Terminates]
  | arrive bytes => exact ⟨_, _, rfl, h, by simp [Terminates]⟩
  | usart event =>
    refine ⟨_, _, rfl, ?_, by simp [Terminates]⟩
    rcases h with hidle | ⟨hstate, buf, got, hstored, hgot⟩
    · exact .inl hidle
    · exact .inr ⟨hstate, buf, got, ⟨hstored.received, hstored.room, hstored.fits, hstored.buf⟩, hgot⟩
  | sched e => exact ⟨_, _, rfl, h, by simp [Terminates]⟩
  | run ch =>
    unfold StepSpec comsStep Terminates
    dsimp only
    by_cases htask : r.sched.curr_task = task
    · obtain ⟨s', mgr', ring', hfn, hkept, hended⟩ := call_spec r.sched continuation r.ring ch h
      rw [if_pos htask, hfn]
      exact ⟨_, _, rfl, hkept, hended.trans (by simp [htask])⟩
    · rw [if_neg htask]
      exact ⟨r, [], rfl, h, by simp [htask]⟩

theorem coms_machine_step (state : Option Receiver) (e : ComsEvent) (h : Inside state) :
    Inside ((comsMachine task continuation).step state e).1 ∧
      ((∀ stored ∈ ((comsMachine task continuation).step state e).2, 0 ∈ stored) ↔
        ∀ r ∈ state, Terminates task r e) := by
  obtain ⟨r, rfl, hr⟩ := h
  obtain ⟨r', out, hstep, hkept, hout⟩ : StepSpec task continuation r e := comsStep_spec hr e
  unfold comsMachine
  dsimp only
  rw [hstep]
  refine ⟨⟨r', rfl, hkept⟩, ?_⟩
  simpa using hout

/-- No run writes outside a buffer. Every receive that ends without an error has stored a NUL exactly when each call of
the waiting task finds one, or finds too few bytes and goes on waiting. -/
theorem received_terminated_iff (s : mu_sched_t) (mgr : coms_mgr_t) (task continuation s_task_info : Ptr)
    (ring : List Byte) (es : List ComsEvent) :
    let m := comsMachine task continuation
    let start := some ⟨s, coms_mgr_init mgr s_task_info, ring⟩
    (m.run es start).1.isSome ∧
      ((∀ stored ∈ (m.run es start).2, 0 ∈ stored) ↔
        m.Meets (fun state e => ∀ r ∈ state, Terminates task r e) es start) := by
  have hstart : Inside (some ⟨s, coms_mgr_init mgr s_task_info, ring⟩) := ⟨_, rfl, .inl rfl⟩
  obtain ⟨⟨r, hr, -⟩, hiff⟩ := (comsMachine task continuation).outputs_iff_meets coms_machine_step es hstart
  refine ⟨?_, hiff⟩
  rw [hr]
  rfl

/-- Two letters fill the buffer, and the receive succeeds. -/
theorem received_not_terminated :
    ((comsMachine 3 7).run
        [.recv ⟨[9, 9], 2, by decide⟩ 8, .sched .step, .run 1, .arrive [97, 98],
          .usart SERCOM_USART_EVENT_READ_THRESHOLD_REACHED, .sched .step, .run 1]
        (some ⟨mu_sched_init staticStorage, coms_mgr_init s_coms_mgr NULL, []⟩)).2 = [[97, 98]] ∧
      (0 : Byte) ∉ ([97, 98] : List Byte) := by
  decide +kernel

end ToyTstat.App
