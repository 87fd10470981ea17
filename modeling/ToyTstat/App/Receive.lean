import ToyTstat.Code.ComsMgr
import ToyTstat.Lib.Terminated
import ToyTstat.Mulib.Sched

/-!
# One receive

The bytes of a message come in any number of deliveries. What is stored, and at which delivery the
receive ends, depends on the stream of the bytes alone.
-/

open CLib ToyTstat.Code ToyTstat.Code.SERCOM_USART_EVENT ToyTstat.Mulib

namespace ToyTstat.App

variable {self : coms_mgr_t} {buf got ring : List Byte} {s : mu_sched_t} {continuation : Ptr} {ch : Byte}

/-! ## The loop -/

/-- The receive has stored `got`. Behind it the buffer is as it was. -/
structure Stored (buf got : List Byte) (mgr : coms_mgr_t) : Prop where
  received : mgr.bytes_received = got.length
  room : got.length ≤ mgr.capacity
  fits : mgr.capacity ≤ buf.length
  buf : mgr.buf = got ++ buf.drop got.length

/-- All but the buffer and its count. -/
structure SameRequest (mgr mgr' : coms_mgr_t) : Prop where
  task : mgr'.task = mgr.task
  on_completion : mgr'.on_completion = mgr.on_completion
  capacity : mgr'.capacity = mgr.capacity

theorem store_byte_spec (h : Stored buf got self) (hroom : got.length < self.capacity) (b : Byte) :
    ∃ stored, store_byte self b = some stored ∧ Stored buf (got ++ [b]) stored ∧ SameRequest self stored := by
  obtain ⟨hreceived, hle, hfits, hbuf⟩ := h
  have hlt : got.length < buf.length := hroom.trans_le hfits
  have hdrop : buf.drop got.length = buf[got.length] :: buf.drop (got.length + 1) := List.drop_eq_getElem_cons hlt
  have hset : self.buf.set self.bytes_received b = got ++ [b] ++ buf.drop (got ++ [b]).length := by
    rw [hreceived, hbuf, List.set_append_right _ _ le_rfl, Nat.sub_self, hdrop, List.set_cons_zero]
    simp
  have hlength : self.bytes_received < self.buf.length := by
    rw [hreceived, hbuf, List.length_append, List.length_drop]
    omega
  unfold store_byte
  rw [if_pos hlength]
  refine ⟨_, rfl, ⟨?_, ?_, hfits, hset⟩, ⟨rfl, rfl, rfl⟩⟩
  · simp [hreceived]
  · simpa using hroom

theorem receive_loop_spec (h : Stored buf got self) (ch : Byte) (ring : List Byte) :
    let taken := upTo 0 (self.capacity - got.length) ring
    ∃ stored, receive_loop self ch ring = some (stored, taken.getLast?.getD ch, ring.drop taken.length) ∧
      Stored buf (got ++ taken) stored ∧ SameRequest self stored := by
  induction ring generalizing self got ch with
  | nil =>
    refine ⟨self, ?_, ?_, ⟨rfl, rfl, rfl⟩⟩
    · simp [receive_loop]
    · simpa using h
  | cons b ring ih =>
    have hreceived := h.received
    by_cases hroom : got.length < self.capacity
    case neg =>
      have hnone : self.capacity - got.length = 0 := by omega
      unfold receive_loop
      rw [hnone, upTo, if_neg (by omega)]
      exact ⟨self, rfl, by simpa using h, ⟨rfl, rfl, rfl⟩⟩
    obtain ⟨stored, hstore, hstored, hsame⟩ := store_byte_spec h hroom b
    obtain ⟨room, hroom'⟩ := Nat.exists_eq_succ_of_ne_zero (show self.capacity - got.length ≠ 0 by omega)
    unfold receive_loop
    rw [if_pos (by omega), hstore, Option.bind_some, hroom', Nat.succ_eq_add_one, upTo]
    by_cases hb : b = 0
    · rw [if_pos hb, if_pos hb]
      exact ⟨stored, rfl, hstored, hsame⟩
    have hcapacity : stored.capacity - (got ++ [b]).length = room := by
      rw [hsame.capacity, List.length_append, List.length_singleton]
      omega
    obtain ⟨last, hloop, hlast, hkept⟩ := ih hstored b
    rw [hcapacity] at hloop hlast
    rw [if_neg hb, if_neg hb, hloop]
    refine ⟨last, ?_, ?_, ?_⟩
    · rw [List.getLast?_cons, Option.getD_some, List.length_cons, List.drop_succ_cons]
    · rwa [List.append_cons]
    · exact ⟨hkept.task.trans hsame.task, hkept.on_completion.trans hsame.on_completion,
        hkept.capacity.trans hsame.capacity⟩

/-! ## One call of the task -/

/-- The events on which the task reads. -/
def Reads (event : SERCOM_USART_EVENT) : Prop :=
  event = SERCOM_USART_EVENT_READ_THRESHOLD_REACHED ∨ event = SERCOM_USART_EVENT_READ_BUFFER_FULL

instance : DecidablePred Reads := fun _ => inferInstanceAs (Decidable (_ ∨ _))

/-- The scheduler after the end of a receive. -/
def handed (s : mu_sched_t) (continuation on_completion : Ptr) : mu_sched_t :=
  (mu_sched_asap (mu_sched_asap s continuation).1 on_completion).1

/-- The request is over. -/
def closed (mgr : coms_mgr_t) (had_error : Bool) : coms_mgr_t :=
  { mgr with had_error, task := { mgr.task with state := COMS_MGR_STATE_IDLE } }

theorem Stored.close (h : Stored buf got self) (had_error : Bool) : Stored buf got (closed self had_error) :=
  ⟨h.received, h.room, h.fits, h.buf⟩

theorem coms_mgr_endgame_eq (s : mu_sched_t) (continuation : Ptr) (self : coms_mgr_t) (had_error : Bool) :
    coms_mgr_endgame s continuation self had_error =
      (handed s continuation self.on_completion, closed self had_error) := by
  unfold coms_mgr_endgame task_info mu_task_transfer handed closed
  simp

theorem coms_mgr_fn_idle (hstate : self.task.state = COMS_MGR_STATE_IDLE) :
    coms_mgr_fn s continuation self ring ch = some (s, self, ring) := by
  unfold coms_mgr_fn mu_task_get_state
  rw [if_pos hstate]

theorem coms_mgr_fn_start (hstate : self.task.state = COMS_MGR_STATE_START_RQST) :
    coms_mgr_fn s continuation self ring ch =
      some (s, { self with task := { self.task with state := COMS_MGR_STATE_AWAIT_RQST } }, ring) := by
  unfold coms_mgr_fn mu_task_get_state mu_task_wait
  rw [hstate, if_neg (by decide), if_pos rfl, mu_task_set_state_eq]

theorem receive_end_eq (hstate : self.task.state = COMS_MGR_STATE_AWAIT_RQST) :
    receive_end s continuation self ch =
      if ch = 0 ∨ self.bytes_received = self.capacity then
        (handed s continuation self.on_completion, closed self false)
      else (s, self) := by
  unfold receive_end mu_task_wait
  rw [coms_mgr_endgame_eq, mu_task_set_state_eq, ← hstate]

theorem coms_mgr_fn_read (s : mu_sched_t) (continuation : Ptr) (ring : List Byte) (ch : Byte) (h : Stored buf got self)
    (hstate : self.task.state = COMS_MGR_STATE_AWAIT_RQST) (hevent : Reads self.event) :
    let taken := upTo 0 (self.capacity - got.length) ring
    ∃ stored, Stored buf (got ++ taken) stored ∧ SameRequest self stored ∧
      coms_mgr_fn s continuation self ring ch =
        some (
          if taken.getLast?.getD ch = 0 ∨ got.length + taken.length = self.capacity then
            (handed s continuation self.on_completion, closed stored false, ring.drop taken.length)
          else (s, stored, ring.drop taken.length)) := by
  obtain ⟨stored, hloop, hstored, hsame⟩ := receive_loop_spec h ch ring
  refine ⟨stored, hstored, hsame, ?_⟩
  have hreceived : stored.bytes_received = got.length + (upTo 0 (self.capacity - got.length) ring).length := by
    rw [hstored.received, List.length_append]
  have hbranch : coms_mgr_fn s continuation self ring ch = (receive_loop self ch ring).map fun r =>
      ((receive_end s continuation r.1 r.2.1).1, (receive_end s continuation r.1 r.2.1).2, r.2.2) := by
    unfold coms_mgr_fn mu_task_get_state
    rw [hstate, if_neg (by decide), if_neg (by decide), if_pos rfl]
    rcases hevent with hevent | hevent <;> rw [hevent]
  rw [hbranch, hloop, Option.map_some]
  dsimp only
  rw [receive_end_eq (hsame.task ▸ hstate), hreceived, hsame.capacity, hsame.on_completion]
  split <;> rfl

/-! ## Deliveries -/

structure Receiver where
  sched : mu_sched_t
  mgr : coms_mgr_t
  ring : List Byte

/-- One call of the task on an event. -/
structure Delivery where
  /-- The bytes that have come since the last call. -/
  bytes : List Byte
  event : SERCOM_USART_EVENT
  /-- What the local variable `ch` holds at first. -/
  ch : Byte
  /-- The scheduler when the task is called. -/
  sched : mu_sched_t

def deliver (continuation : Ptr) (r : Receiver) (d : Delivery) : Option Receiver :=
  (coms_mgr_fn d.sched continuation { r.mgr with event := d.event } (r.ring ++ d.bytes) d.ch).map
    fun (sched, mgr, ring) => ⟨sched, mgr, ring⟩

def Delivery.Finds (d : Delivery) : Prop := Reads d.event ∧ d.bytes ≠ []

structure Waiting (buf : List Byte) (capacity : Nat) (on_completion : Ptr) (stream : List Byte) (r : Receiver) :
    Prop where
  state : r.mgr.task.state = COMS_MGR_STATE_AWAIT_RQST
  capacity : r.mgr.capacity = capacity
  on_completion : r.mgr.on_completion = on_completion
  stored : Stored buf stream r.mgr
  ring : r.ring = []

/-- The message is stored, and what follows it is still in the ring. -/
structure Received (buf : List Byte) (room : Nat) (stream : List Byte) (r : Receiver) : Prop where
  state : r.mgr.task.state = COMS_MGR_STATE_IDLE
  had_error : coms_mgr_had_error r.mgr = false
  capacity : r.mgr.capacity = room
  stored : Stored buf (upTo 0 room stream) r.mgr
  ring : r.ring = stream.drop (upTo 0 room stream).length

variable {capacity : Nat} {on_completion : Ptr} {stream : List Byte} {r : Receiver} {d : Delivery}

theorem deliver_waiting (h : Waiting buf capacity on_completion stream r) (hnot : ¬ Complete 0 capacity stream)
    (hd : d.Finds) :
    ∃ r', deliver continuation r d = some r' ∧
      if Complete 0 capacity (stream ++ d.bytes) then
        Received buf capacity (stream ++ d.bytes) r' ∧ r'.sched = handed d.sched continuation on_completion
      else Waiting buf capacity on_completion (stream ++ d.bytes) r' ∧ r'.sched = d.sched := by
  obtain ⟨hstate, rfl, rfl, hstored, hring⟩ := h
  have hstored' : Stored buf stream { r.mgr with event := d.event } :=
    ⟨hstored.received, hstored.room, hstored.fits, hstored.buf⟩
  obtain ⟨stored, hnow, hsame, hfn⟩ := coms_mgr_fn_read d.sched continuation d.bytes d.ch hstored' hstate hd.1
  have hroom : stream.length < r.mgr.capacity := by
    simp only [Complete, not_or, not_le] at hnot
    exact hnot.2
  have htaken : upTo 0 (r.mgr.capacity - stream.length) d.bytes ≠ [] := upTo_ne_nil (by omega) hd.2
  dsimp only at hfn hnow
  have hmessage := upTo_append hnot d.bytes
  -- a byte was read, so `ch` is the last one
  have hended : (upTo 0 (r.mgr.capacity - stream.length) d.bytes).getLast?.getD d.ch = 0 ∨
      stream.length + (upTo 0 (r.mgr.capacity - stream.length) d.bytes).length = r.mgr.capacity ↔
        Complete 0 r.mgr.capacity (stream ++ d.bytes) := by
    rw [complete_append_iff hnot, stop_mem_iff_last, List.getLast?_eq_some_getLast htaken, Option.getD_some,
      Option.some_inj]
  unfold deliver
  dsimp only
  rw [hring, List.nil_append, hfn, Option.map_some]
  by_cases hcomplete : Complete 0 r.mgr.capacity (stream ++ d.bytes)
  · rw [if_pos (hended.mpr hcomplete)]
    refine ⟨_, rfl, ?_⟩
    rw [if_pos hcomplete]
    refine ⟨⟨rfl, rfl, hsame.capacity, ?_, ?_⟩, rfl⟩
    · rw [hmessage]
      exact ⟨hnow.received, hnow.room, hnow.fits, hnow.buf⟩
    · rw [hmessage, List.length_append, List.drop_append, List.drop_of_length_le (Nat.le_add_right _ _),
        List.nil_append,
        Nat.add_sub_cancel_left]
  · have hall := upTo_append hnot d.bytes
    rw [upTo_of_not_complete hcomplete, List.append_cancel_left_eq] at hall
    rw [if_neg (mt hended.mp hcomplete)]
    rw [← hall] at hnow ⊢
    refine ⟨_, rfl, ?_⟩
    rw [if_neg hcomplete]
    exact ⟨⟨(congrArg mu_task_t.state hsame.task).trans hstate, hsame.capacity, hsame.on_completion, hnow,
      List.drop_length⟩, rfl⟩

theorem deliver_received (h : Received buf capacity stream r) (hcomplete : Complete 0 capacity stream) (d : Delivery) :
    ∃ r', deliver continuation r d = some r' ∧ Received buf capacity (stream ++ d.bytes) r' ∧ r'.sched = d.sched := by
  obtain ⟨hstate, herror, hcapacity, hstored, hring⟩ := h
  have hmessage := upTo_append_of_complete hcomplete d.bytes
  have hidle : coms_mgr_fn d.sched continuation { r.mgr with event := d.event } (r.ring ++ d.bytes) d.ch =
      some (d.sched, { r.mgr with event := d.event }, r.ring ++ d.bytes) := coms_mgr_fn_idle hstate
  unfold deliver
  rw [hidle, Option.map_some]
  refine ⟨_, rfl, ⟨hstate, herror, hcapacity, ?_, ?_⟩, rfl⟩
  · rw [hmessage]
    exact ⟨hstored.received, hstored.room, hstored.fits, hstored.buf⟩
  · rw [hmessage, hring, List.drop_append_of_le_length (upTo_length_le_length _ _ _)]

/-- Where a receive is when the stream has come. -/
def Outcome (buf : List Byte) (capacity : Nat) (on_completion : Ptr) (stream : List Byte) (r : Receiver) : Prop :=
  if Complete 0 capacity stream then Received buf capacity stream r
  else Waiting buf capacity on_completion stream r

/-- The receive ends at the delivery that makes the stream complete, and only there. -/
theorem deliver_spec (h : Outcome buf capacity on_completion stream r) (hd : d.Finds) :
    ∃ r', deliver continuation r d = some r' ∧ Outcome buf capacity on_completion (stream ++ d.bytes) r' ∧
      r'.sched =
        if ¬ Complete 0 capacity stream ∧ Complete 0 capacity (stream ++ d.bytes) then
          handed d.sched continuation on_completion
        else d.sched := by
  unfold Outcome at *
  by_cases hbefore : Complete 0 capacity stream
  · have hafter : Complete 0 capacity (stream ++ d.bytes) := by
      rcases hbefore with hmem | hlength
      · exact .inl (List.mem_append_left _ hmem)
      · exact .inr (by rw [List.length_append]; omega)
    rw [if_pos hbefore] at h
    obtain ⟨r', hdeliver, hreceived, hsched⟩ := deliver_received h hbefore d
    refine ⟨r', hdeliver, ?_, ?_⟩
    · rwa [if_pos hafter]
    · rwa [if_neg fun hboth => hboth.1 hbefore]
  · rw [if_neg hbefore] at h
    obtain ⟨r', hdeliver, hr'⟩ := deliver_waiting h hbefore hd
    refine ⟨r', hdeliver, ?_⟩
    by_cases hafter : Complete 0 capacity (stream ++ d.bytes)
    · rw [if_pos hafter] at hr' ⊢
      rwa [if_pos ⟨hbefore, hafter⟩]
    · rw [if_neg hafter] at hr' ⊢
      rwa [if_neg fun hboth => hafter hboth.2]

theorem deliver_all (continuation : Ptr) {ds : List Delivery} (hds : ∀ d ∈ ds, d.Finds)
    (h : Outcome buf capacity on_completion stream r) :
    ∃ r', ds.foldlM (deliver continuation) r = some r' ∧
      Outcome buf capacity on_completion (stream ++ ds.flatMap Delivery.bytes) r' := by
  induction ds generalizing r stream with
  | nil => exact ⟨r, rfl, by simpa using h⟩
  | cons d ds ih =>
    obtain ⟨hd, hds⟩ := List.forall_mem_cons.mp hds
    obtain ⟨r₁, hdeliver, hr₁, -⟩ := deliver_spec h hd
    obtain ⟨r₂, hrest, hr₂⟩ := ih hds hr₁
    refine ⟨r₂, ?_, ?_⟩
    · rw [List.foldlM_cons, hdeliver]
      exact hrest
    · rwa [List.flatMap_cons, ← List.append_assoc]

/-- However the bytes are delivered, once the task waits: the receive ends at the delivery that brings the first NUL or
the byte that fills the buffer. Then the message is stored, and what follows it is still in the ring. -/
theorem receive_batching (s s' : mu_sched_t) (task continuation on_completion : Ptr) (mgr : coms_mgr_t)
    (buf : List Byte) (capacity : Nat) (hcapacity : 1 ≤ capacity) (hfits : capacity ≤ buf.length) (ch : Byte)
    (ds : List Delivery) (hds : ∀ d ∈ ds, d.Finds) (d : Delivery) (hd : d.Finds) :
    let stream := ds.flatMap Delivery.bytes
    ∃ s₀ mgr₀ r r',
      coms_mgr_fn s' continuation (coms_mgr_recv s task mgr buf capacity on_completion).2 [] ch = some (s₀, mgr₀, []) ∧
        ds.foldlM (deliver continuation) ⟨s₀, mgr₀, []⟩ = some r ∧ deliver continuation r d = some r' ∧
        Outcome buf capacity on_completion stream r ∧
        Outcome buf capacity on_completion (stream ++ d.bytes) r' ∧
        r'.sched =
          if ¬ Complete 0 capacity stream ∧ Complete 0 capacity (stream ++ d.bytes) then
            handed d.sched continuation on_completion
          else d.sched := by
  have hstart : (coms_mgr_recv s task mgr buf capacity on_completion).2.task.state = COMS_MGR_STATE_START_RQST := by
    unfold coms_mgr_recv mu_task_yield
    simp
  have hwaiting : Outcome buf capacity on_completion [] ⟨s',
      { (coms_mgr_recv s task mgr buf capacity on_completion).2 with
        task := { (coms_mgr_recv s task mgr buf capacity on_completion).2.task with
          state := COMS_MGR_STATE_AWAIT_RQST } }, []⟩ := by
    have hnot : ¬ Complete (0 : Byte) capacity [] := by
      simp only [Complete, List.not_mem_nil, List.length_nil, false_or]
      omega
    unfold Outcome
    rw [if_neg hnot]
    exact ⟨rfl, rfl, rfl, ⟨rfl, Nat.zero_le _, hfits, rfl⟩, rfl⟩
  obtain ⟨r, hall, hr⟩ := deliver_all continuation hds hwaiting
  rw [List.nil_append] at hr
  obtain ⟨r', hdeliver, hr', hsched⟩ := deliver_spec hr hd
  exact ⟨_, _, r, r', coms_mgr_fn_start hstart, hall, hdeliver, hr, hr', hsched⟩

/-- The NUL comes in the second delivery, before the buffer is full. -/
theorem receive_batching_split :
    ∃ s₀ mgr₀ r r',
      coms_mgr_fn staticStorage 7 (coms_mgr_recv staticStorage 3 s_coms_mgr [9, 9, 9, 9, 9] 4 8).2 [] 1 =
          some (s₀, mgr₀, []) ∧
        deliver 7 ⟨s₀, mgr₀, []⟩ ⟨[1, 2], SERCOM_USART_EVENT_READ_THRESHOLD_REACHED, 0, staticStorage⟩ = some r ∧
        deliver 7 r ⟨[0, 5], SERCOM_USART_EVENT_READ_BUFFER_FULL, 0, staticStorage⟩ = some r' ∧
        r'.mgr.buf = [1, 2, 0, 9, 9] ∧ r'.ring = [5] := by
  obtain ⟨s₀, mgr₀, r, r', hstart, hall, hdeliver, -, hr', -⟩ :=
    receive_batching staticStorage staticStorage 3 7 8 s_coms_mgr [9, 9, 9, 9, 9] 4 (by decide) (by decide) 1
      [⟨[1, 2], SERCOM_USART_EVENT_READ_THRESHOLD_REACHED, 0, staticStorage⟩] (by simp [Delivery.Finds, Reads])
      ⟨[0, 5], SERCOM_USART_EVENT_READ_BUFFER_FULL, 0, staticStorage⟩ (by simp [Delivery.Finds, Reads])
  rw [List.foldlM_cons, Option.bind_eq_bind, Option.bind_eq_some_iff] at hall
  obtain ⟨r₁, hfirst, hrest⟩ := hall
  obtain rfl : r₁ = r := by simpa using hrest
  unfold Outcome at hr'
  rw [if_pos (by decide)] at hr'
  exact ⟨s₀, mgr₀, r₁, r', hstart, hfirst, hdeliver, hr'.stored.buf, hr'.ring⟩

end ToyTstat.App
