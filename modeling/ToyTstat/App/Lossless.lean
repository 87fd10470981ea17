import ToyTstat.App.Terminator

/-!
# No byte is lost

What comes in is, in order, in the receives that are over, in the one that is under way, or in the
ring. What a receive has taken is lost only if it fails, or if another one is started before it ends.
-/

open CLib ToyTstat.Code ToyTstat.Code.SERCOM_USART_EVENT ToyTstat.Mulib

namespace ToyTstat.App

variable {task continuation : Ptr} {mgr : coms_mgr_t} {r : Receiver} {got got' got'' ring ring' ring'' : List Byte}

/-! ## Receives -/

/-- A receive that is over. -/
structure Message where
  bytes : List Byte
  /-- It has ended without an error. -/
  received : Bool

/-- What the callers have got. -/
def delivered (messages : List Message) : List (List Byte) := (messages.filter Message.received).map Message.bytes

/-- All that has been taken from the ring is in the messages and in `got'`. Behind a NUL a message has no bytes. -/
structure Conserved (got ring : List Byte) (messages : List Message) (got' ring' : List Byte) : Prop where
  bytes : got ++ ring = messages.flatMap Message.bytes ++ (got' ++ ring')
  terminated : ∀ message ∈ messages, 0 ∉ message.bytes.dropLast

/-- What the receive under way has taken. -/
def UnderWay (mgr : coms_mgr_t) (got : List Byte) : Prop :=
  mgr.task.state = COMS_MGR_STATE_IDLE ∧ got = [] ∨
    (mgr.task.state = COMS_MGR_STATE_START_RQST ∨ mgr.task.state = COMS_MGR_STATE_AWAIT_RQST) ∧
      0 ∉ got ∧ ∃ buf, Stored buf got mgr

theorem delivered_append (messages messages' : List Message) :
    delivered (messages ++ messages') = delivered messages ++ delivered messages' := by
  unfold delivered
  rw [List.filter_append, List.map_append]

theorem delivered_all {messages : List Message} (h : ∀ message ∈ messages, message.received) :
    (delivered messages).flatten = messages.flatMap Message.bytes := by
  unfold delivered
  rw [List.filter_eq_self.mpr h, List.flatMap_def]

theorem conserved_same (got ring : List Byte) : Conserved got ring [] got ring :=
  ⟨rfl, fun _ hmem => absurd hmem List.not_mem_nil⟩

theorem conserved_one {bytes : List Byte} (received : Bool) (hbytes : got ++ ring = bytes ++ (got' ++ ring'))
    (h : 0 ∉ bytes.dropLast) : Conserved got ring [⟨bytes, received⟩] got' ring' := by
  constructor
  · rw [List.flatMap_singleton, hbytes]
  · rw [List.forall_mem_singleton]
    exact h

theorem Conserved.trans {messages messages' : List Message} {more : List Byte}
    (h : Conserved got ring messages got' ring') (h' : Conserved got' (ring' ++ more) messages' got'' ring'') :
    Conserved got (ring ++ more) (messages ++ messages') got'' ring'' := by
  constructor
  · rw [List.flatMap_append, List.append_assoc, ← h'.bytes, ← List.append_assoc, h.bytes]
    simp only [List.append_assoc]
  · rw [List.forall_mem_append]
    exact ⟨h.terminated, h'.terminated⟩

/-! ## One call -/

/-- Nothing fails, and no receive is started before the last one has ended. -/
def Undisturbed (task : Ptr) (r : Receiver) : ComsEvent → Prop
  | .recv _ _ => r.mgr.task.state = COMS_MGR_STATE_IDLE
  | .run _ => r.sched.curr_task = task → r.mgr.task.state = COMS_MGR_STATE_AWAIT_RQST →
      r.mgr.event ≠ SERCOM_USART_EVENT_READ_ERROR
  | _ => True

instance (task : Ptr) (r : Receiver) : DecidablePred (Undisturbed task r)
  | .recv _ _ => inferInstanceAs (Decidable (_ = _))
  | .arrive _ => isTrue trivial
  | .usart _ => isTrue trivial
  | .sched _ => isTrue trivial
  | .run _ => inferInstanceAs (Decidable (_ → _ → _ ≠ _))

def CallConserves (mgr : coms_mgr_t) (got ring : List Byte) (result : Option (mu_sched_t × coms_mgr_t × List Byte)) :
    Prop :=
  ∃ s' mgr' ring' messages got', result = some (s', mgr', ring') ∧ ended mgr mgr' = delivered messages ∧
    UnderWay mgr' got' ∧ Conserved got ring messages got' ring' ∧
    ((mgr.task.state = COMS_MGR_STATE_AWAIT_RQST → mgr.event ≠ SERCOM_USART_EVENT_READ_ERROR) →
      ∀ message ∈ messages, message.received)

theorem read_call_conserves {buf : List Byte} (s : mu_sched_t) (continuation : Ptr) (ring : List Byte) (ch : Byte)
    (hstate : mgr.task.state = COMS_MGR_STATE_AWAIT_RQST) (hevent : Reads mgr.event) (h : Stored buf got mgr)
    (hgot : 0 ∉ got) : CallConserves mgr got ring (coms_mgr_fn s continuation mgr ring ch) := by
  obtain ⟨stored, hstored, hsame, hfn⟩ := coms_mgr_fn_read s continuation ring ch h hstate hevent
  have htaken : upTo 0 (mgr.capacity - got.length) ring ++
      ring.drop (upTo 0 (mgr.capacity - got.length) ring).length = ring := upTo_append_drop _ _ _
  have hlast := stop_not_mem_dropLast (0 : Byte) (mgr.capacity - got.length) ring
  have hnone : (upTo 0 (mgr.capacity - got.length) ring).getLast?.getD ch ≠ 0 →
      0 ∉ upTo 0 (mgr.capacity - got.length) ring := stop_not_mem_of_last
  generalize upTo 0 (mgr.capacity - got.length) ring = taken at hstored hfn htaken hlast hnone
  unfold CallConserves
  rw [hfn]
  -- the receive is over, with what was stored before and what is read now, or it goes on
  by_cases hends : taken.getLast?.getD ch = 0 ∨ got.length + taken.length = mgr.capacity
  · rw [if_pos hends]
    refine ⟨_, _, _, [⟨got ++ taken, true⟩], [], rfl, ?_, .inl ⟨rfl, rfl⟩, conserved_one _ ?_ ?_, by simp⟩
    · rw [ended_eq hstate rfl rfl (hstored.close false)]
      rfl
    · rw [List.nil_append, List.append_assoc, htaken]
    · cases taken with
      | nil =>
        rw [List.append_nil]
        exact fun hmem => hgot (List.mem_of_mem_dropLast hmem)
      | cons b taken =>
        rw [List.dropLast_append_of_ne_nil (List.cons_ne_nil _ _), List.mem_append, not_or]
        exact ⟨hgot, hlast⟩
  · rw [if_neg hends]
    have hwaits : stored.task.state = COMS_MGR_STATE_AWAIT_RQST := hsame.task ▸ hstate
    refine ⟨_, _, _, [], got ++ taken, rfl, ended_of_waits ?_, .inr ⟨.inr hwaits, ?_, buf, hstored⟩, ⟨?_, by simp⟩,
      by simp⟩
    · rw [hwaits]
      decide
    · rw [List.mem_append, not_or]
      exact ⟨hgot, hnone fun hlast => hends (.inl hlast)⟩
    · rw [List.flatMap_nil, List.nil_append, List.append_assoc, htaken]

theorem end_call_conserves {buf : List Byte} (s : mu_sched_t) (continuation : Ptr) (ring : List Byte) (ch : Byte)
    (hstate : mgr.task.state = COMS_MGR_STATE_AWAIT_RQST) (hevent : ¬ Reads mgr.event) (h : Stored buf got mgr)
    (hgot : 0 ∉ got) : CallConserves mgr got ring (coms_mgr_fn s continuation mgr ring ch) := by
  have hlast : 0 ∉ got.dropLast := fun hmem => hgot (List.mem_of_mem_dropLast hmem)
  unfold CallConserves
  rw [coms_mgr_fn_ends hstate hevent]
  by_cases herror : mgr.event = SERCOM_USART_EVENT_READ_ERROR
  · rw [decide_eq_true herror]
    exact ⟨_, _, _, [⟨got, false⟩], [], rfl, ended_failed mgr, .inl ⟨rfl, rfl⟩, conserved_one _ rfl hlast,
      fun hok => absurd herror (hok hstate)⟩
  · rw [decide_eq_false herror]
    refine ⟨_, _, _, [⟨got, true⟩], [], rfl, ?_, .inl ⟨rfl, rfl⟩, conserved_one _ rfl hlast, by simp⟩
    rw [ended_eq hstate rfl rfl (h.close false)]
    rfl

theorem call_conserves (s : mu_sched_t) (continuation : Ptr) (ring : List Byte) (ch : Byte) (h : UnderWay mgr got) :
    CallConserves mgr got ring (coms_mgr_fn s continuation mgr ring ch) := by
  have hquiet (hother : mgr.task.state ≠ COMS_MGR_STATE_AWAIT_RQST) (after : coms_mgr_t) :
      ended mgr after = delivered [] := ended_of_not_waiting hother
  rcases h with ⟨hidle, rfl⟩ | ⟨hstart | hwaits, hgot, buf, hstored⟩
  · have hother : mgr.task.state ≠ COMS_MGR_STATE_AWAIT_RQST := by
      rw [hidle]
      decide
    exact ⟨s, mgr, ring, [], [], coms_mgr_fn_idle hidle, hquiet hother _, .inl ⟨hidle, rfl⟩, conserved_same _ _,
      by simp⟩
  · have hother : mgr.task.state ≠ COMS_MGR_STATE_AWAIT_RQST := by
      rw [hstart]
      decide
    refine ⟨_, _, _, [], got, coms_mgr_fn_start hstart, hquiet hother _, .inr ⟨.inr rfl, hgot, buf, ?_⟩,
      conserved_same _ _, by simp⟩
    exact ⟨hstored.received, hstored.room, hstored.fits, hstored.buf⟩
  · by_cases hevent : Reads mgr.event
    · exact read_call_conserves s continuation ring ch hwaits hevent hstored hgot
    · exact end_call_conserves s continuation ring ch hwaits hevent hstored hgot

/-! ## All runs -/

def arrived : ComsEvent → List Byte
  | .arrive bytes => bytes
  | _ => []

/-- What an event adds. -/
def StepConserves (task continuation : Ptr) (r : Receiver) (got : List Byte) (e : ComsEvent) : Prop :=
  ∃ r' out messages got', comsStep task continuation r e = some (r', out) ∧ out = delivered messages ∧
    UnderWay r'.mgr got' ∧ Conserved got (r.ring ++ arrived e) messages got' r'.ring ∧
    (Undisturbed task r e → ∀ message ∈ messages, message.received)

theorem comsStep_conserves (h : UnderWay r.mgr got) (e : ComsEvent) : StepConserves task continuation r got e := by
  have hsame : Conserved got (r.ring ++ []) [] got r.ring := by
    rw [List.append_nil]
    exact conserved_same got r.ring
  cases e with
  | recv buffer on_completion =>
    have hstarted : UnderWay (coms_mgr_recv r.sched task r.mgr buffer.bytes buffer.capacity on_completion).2 [] :=
      .inr ⟨.inl (by simp [coms_mgr_recv, mu_task_yield]), List.not_mem_nil, buffer.bytes, rfl, Nat.zero_le _,
        buffer.fits, rfl⟩
    rcases h with ⟨hidle, rfl⟩ | ⟨hbusy, hgot, -⟩
    · exact ⟨_, _, [], [], rfl, rfl, hstarted, hsame, by simp⟩
    · have hlast : 0 ∉ got.dropLast := fun hmem => hgot (List.mem_of_mem_dropLast hmem)
      refine ⟨_, _, [⟨got, false⟩], [], rfl, rfl, hstarted, conserved_one _ (by simp [arrived]) hlast, fun hidle => ?_⟩
      unfold Undisturbed at hidle
      rw [hidle] at hbusy
      exact absurd hbusy (by decide)
  | arrive bytes => exact ⟨_, _, [], got, rfl, rfl, h, conserved_same _ _, by simp⟩
  | usart event =>
    refine ⟨_, _, [], got, rfl, rfl, ?_, hsame, by simp⟩
    rcases h with hidle | ⟨hbusy, hgot, buf, hstored⟩
    · exact .inl hidle
    · exact .inr ⟨hbusy, hgot, buf, hstored.received, hstored.room, hstored.fits, hstored.buf⟩
  | sched e => exact ⟨_, _, [], got, rfl, rfl, h, hsame, by simp⟩
  | run ch =>
    unfold StepConserves comsStep Undisturbed arrived
    dsimp only
    rw [List.append_nil]
    by_cases htask : r.sched.curr_task = task
    · obtain ⟨s', mgr', ring', messages, got', hfn, hended, hunder, hconserved, hok⟩ :=
        call_conserves r.sched continuation r.ring ch h
      rw [if_pos htask, hfn]
      exact ⟨_, _, messages, got', rfl, hended, hunder, hconserved, fun hcalls => hok (hcalls htask)⟩
    · rw [if_neg htask]
      exact ⟨r, [], [], got, rfl, rfl, h, conserved_same got r.ring, by simp⟩

theorem coms_run_conserves (task continuation : Ptr) (es : List ComsEvent) (h : UnderWay r.mgr got) :
    ∃ r' messages got', ((comsMachine task continuation).run es (some r)).1 = some r' ∧
      ((comsMachine task continuation).run es (some r)).2 = delivered messages ∧ UnderWay r'.mgr got' ∧
      Conserved got (r.ring ++ es.flatMap arrived) messages got' r'.ring ∧
      ((comsMachine task continuation).Meets (fun state e => ∀ r ∈ state, Undisturbed task r e) es (some r) →
        ∀ message ∈ messages, message.received) := by
  induction es generalizing r got with
  | nil =>
    refine ⟨r, [], got, rfl, rfl, h, ?_, by simp⟩
    rw [List.flatMap_nil, List.append_nil]
    exact conserved_same got r.ring
  | cons e es ih =>
    obtain ⟨r₁, out, messages₁, got₁, hstep, hout, h₁, hconserved₁, hok₁⟩ : StepConserves task continuation r got e :=
      comsStep_conserves h e
    obtain ⟨r₂, messages₂, got₂, hrun, houts, h₂, hconserved₂, hok₂⟩ := ih h₁
    have hmachine : (comsMachine task continuation).step (some r) e = (some r₁, out) := by
      unfold comsMachine
      dsimp only
      rw [hstep]
    refine ⟨r₂, messages₁ ++ messages₂, got₂, ?_, ?_, h₂, ?_, ?_⟩
    · rw [Machine.run_cons, hmachine]
      exact hrun
    · rw [Machine.run_cons, hmachine, delivered_append, ← houts, ← hout]
    · rw [List.flatMap_cons, ← List.append_assoc]
      exact hconserved₁.trans hconserved₂
    · rintro ⟨hfirst, hrest⟩
      rw [hmachine] at hrest
      rw [List.forall_mem_append]
      exact ⟨hok₁ (hfirst r rfl), hok₂ hrest⟩

/-- The bytes that have come in are, in order, those of the messages, of the receive that is under way, and of the ring.
The callers have got the messages that did not fail, and if nothing has failed they have got all that was taken. -/
theorem stream_conserved (s : mu_sched_t) (mgr : coms_mgr_t) (task continuation s_task_info : Ptr) (ring : List Byte)
    (es : List ComsEvent) :
    let m := comsMachine task continuation
    let start := some ⟨s, coms_mgr_init mgr s_task_info, ring⟩
    ∃ r messages got, (m.run es start).1 = some r ∧ (m.run es start).2 = delivered messages ∧ UnderWay r.mgr got ∧
      Conserved [] (ring ++ es.flatMap arrived) messages got r.ring ∧
      (m.Meets (fun state e => ∀ r ∈ state, Undisturbed task r e) es start →
        (m.run es start).2.flatten ++ (got ++ r.ring) = ring ++ es.flatMap arrived) := by
  have hstart : UnderWay (coms_mgr_init mgr s_task_info) [] := .inl ⟨rfl, rfl⟩
  obtain ⟨r, messages, got, hrun, hout, hunder, hconserved, hok⟩ :=
    coms_run_conserves (r := ⟨s, coms_mgr_init mgr s_task_info, ring⟩) task continuation es hstart
  refine ⟨r, messages, got, hrun, hout, hunder, hconserved, fun hmeets => ?_⟩
  rw [hout, delivered_all (hok hmeets), ← hconserved.bytes, List.nil_append]

/-- The second message begins in the delivery that ends the first one. -/
theorem stream_conserved_two_messages :
    let es : List ComsEvent :=
      [.recv ⟨[9, 9, 9, 9], 4, by decide⟩ 8, .sched .step, .run 1, .arrive [97, 0, 98],
        .usart SERCOM_USART_EVENT_READ_THRESHOLD_REACHED, .sched .step, .run 1, .recv ⟨[9, 9], 2, by decide⟩ 8,
        .sched .step, .sched .task_done, .sched .step, .sched .task_done, .sched .step, .run 1, .arrive [0, 99],
        .usart SERCOM_USART_EVENT_READ_BUFFER_FULL, .sched .step, .run 1]
    let run := (comsMachine 3 7).run es (some ⟨mu_sched_init staticStorage, coms_mgr_init s_coms_mgr NULL, []⟩)
    run.2 = [[97, 0], [98, 0]] ∧
      ∃ r got, run.1 = some r ∧ run.2.flatten ++ (got ++ r.ring) = [97, 0, 98, 0, 99] := by
  obtain ⟨r, -, got, hrun, -, -, -, hall⟩ :=
    stream_conserved (mu_sched_init staticStorage) s_coms_mgr 3 7 NULL []
      [.recv ⟨[9, 9, 9, 9], 4, by decide⟩ 8, .sched .step, .run 1, .arrive [97, 0, 98],
        .usart SERCOM_USART_EVENT_READ_THRESHOLD_REACHED, .sched .step, .run 1, .recv ⟨[9, 9], 2, by decide⟩ 8,
        .sched .step, .sched .task_done, .sched .step, .sched .task_done, .sched .step, .run 1, .arrive [0, 99],
        .usart SERCOM_USART_EVENT_READ_BUFFER_FULL, .sched .step, .run 1]
  exact ⟨by decide +kernel, r, got, hrun, hall (by decide +kernel)⟩

end ToyTstat.App
