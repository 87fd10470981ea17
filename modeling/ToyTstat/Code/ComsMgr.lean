import ToyTstat.Code.MuTask

/-!
# `coms_mgr.c`: receiving a message

The fields that the functions use, but the structure does not declare, are fields of the structure.
The receive ring belongs to the serial library and is the list of the bytes that are not read yet.
-/

open CLib

namespace ToyTstat.Code

inductive SERCOM_USART_EVENT
  | SERCOM_USART_EVENT_READ_THRESHOLD_REACHED
  | SERCOM_USART_EVENT_READ_BUFFER_FULL
  | SERCOM_USART_EVENT_READ_ERROR
  | SERCOM_USART_EVENT_WRITE_THRESHOLD_REACHED
  | SERCOM_USART_EVENT_BREAK_SIGNAL_DETECTED
deriving DecidableEq, Repr

open SERCOM_USART_EVENT

def COMS_MGR_STATE_IDLE : mu_task_state_t := 0

def COMS_MGR_STATE_START_RQST : mu_task_state_t := 1

def COMS_MGR_STATE_AWAIT_RQST : mu_task_state_t := 2

structure coms_mgr_t where
  task : mu_task_t
  on_completion : Ptr
  had_error : Bool
  /-- The memory from `buf` on. -/
  buf : List Byte
  capacity : Nat
  bytes_received : Nat
  event : SERCOM_USART_EVENT
deriving DecidableEq, Repr

/-- The static storage as the program starts. -/
def s_coms_mgr : coms_mgr_t where
  task := ⟨0, NULL⟩
  on_completion := NULL
  had_error := false
  buf := []
  capacity := 0
  bytes_received := 0
  event := SERCOM_USART_EVENT_READ_THRESHOLD_REACHED

def coms_mgr_init (self : coms_mgr_t) (s_task_info : Ptr) : coms_mgr_t :=
  { self with task := mu_task_init self.task COMS_MGR_STATE_IDLE s_task_info }

/-- `task` is the pointer to the task of `coms_mgr`. -/
def coms_mgr_recv (s : mu_sched_t) (task : Ptr) (self : coms_mgr_t) (buf : List Byte) (capacity : Nat)
    (on_completion : Ptr) : mu_sched_t × coms_mgr_t :=
  let self := { self with buf, capacity, on_completion, bytes_received := 0, had_error := false }
  let (s, task, _) := mu_task_yield s task self.task COMS_MGR_STATE_START_RQST
  (s, { self with task })

def coms_mgr_had_error (self : coms_mgr_t) : Bool := self.had_error

/-- `self->buf[self->bytes_received++] = ch`. A write outside the memory has no result. -/
def store_byte (self : coms_mgr_t) (ch : Byte) : Option coms_mgr_t :=
  if self.bytes_received < self.buf.length then
    some { self with buf := self.buf.set self.bytes_received ch, bytes_received := self.bytes_received + 1 }
  else none

/-- The loop, with the ring from which `SERCOM3_USART_Read` takes one byte, if there is one. -/
def receive_loop (self : coms_mgr_t) (ch : Byte) : List Byte → Option (coms_mgr_t × Byte × List Byte)
  | [] => some (self, ch, [])
  | b :: ring =>
    if self.bytes_received < self.capacity then
      (store_byte self b).bind fun self => if b = 0 then some (self, b, ring) else receive_loop self b ring
    else some (self, ch, b :: ring)

def coms_mgr_endgame (s : mu_sched_t) (continuation : Ptr) (self : coms_mgr_t) (had_error : Bool) :
    mu_sched_t × coms_mgr_t :=
  let self := { self with had_error }
  let (s, task) := task_info s continuation self.task COMS_MGR_STATE_IDLE
  let (s, task, _) := mu_task_transfer s task COMS_MGR_STATE_IDLE self.on_completion
  (s, { self with task })

/-- After the loop. -/
def receive_end (s : mu_sched_t) (continuation : Ptr) (self : coms_mgr_t) (ch : Byte) : mu_sched_t × coms_mgr_t :=
  if ch = 0 ∨ self.bytes_received = self.capacity then coms_mgr_endgame s continuation self false
  else (s, { self with task := (mu_task_wait self.task COMS_MGR_STATE_AWAIT_RQST).1 })

/-- `ch` is what the local variable holds before a byte is read into it. -/
def coms_mgr_fn (s : mu_sched_t) (continuation : Ptr) (self : coms_mgr_t) (ring : List Byte) (ch : Byte) :
    Option (mu_sched_t × coms_mgr_t × List Byte) :=
  if mu_task_get_state self.task = COMS_MGR_STATE_IDLE then some (s, self, ring)
  else if mu_task_get_state self.task = COMS_MGR_STATE_START_RQST then
    some (s, { self with task := (mu_task_wait self.task COMS_MGR_STATE_AWAIT_RQST).1 }, ring)
  else if mu_task_get_state self.task = COMS_MGR_STATE_AWAIT_RQST then
    match self.event with
    | SERCOM_USART_EVENT_READ_THRESHOLD_REACHED | SERCOM_USART_EVENT_READ_BUFFER_FULL =>
      (receive_loop self ch ring).map fun (self, ch, ring) =>
        let (s, self) := receive_end s continuation self ch
        (s, self, ring)
    | SERCOM_USART_EVENT_READ_ERROR =>
      let (s, self) := coms_mgr_endgame s continuation self true
      some (s, self, ring)
    | SERCOM_USART_EVENT_WRITE_THRESHOLD_REACHED | SERCOM_USART_EVENT_BREAK_SIGNAL_DETECTED =>
      let (s, self) := coms_mgr_endgame s continuation self false
      some (s, self, ring)
  else some (s, self, ring)

def coms_rx_cb (s : mu_sched_t) (task : Ptr) (self : coms_mgr_t) (event : SERCOM_USART_EVENT) :
    mu_sched_t × coms_mgr_t :=
  ((mu_sched_from_isr s task).1, { self with event })

end ToyTstat.Code
