import ToyTstat.Code.MuTask

/-!
# `model_iface.c` and `tstat_app.c`: the control cycle

The fields that the functions use, but the structures do not declare, are fields of the structures.
What is sent has no effect here. The functions without a `return` statement return anything.
-/

open CLib

namespace ToyTstat.Code

/-- What the two files call and no file defines. All but the last exist with the prefix `tstat_`. -/
structure External (model_t : Type) where
  /-- Whether it does not return `NULL`, and the model as it is left. -/
  model_load_json : model_t → List Byte → Bool × model_t
  /-- The text, if it does not return `NULL`. -/
  model_dump_json : model_t → Option (List Byte)
  logic_update_model : model_t → model_t
  task_info_endgame : mu_sched_t → mu_task_t → mu_task_state_t → Bool → Ptr → mu_sched_t × mu_task_t

variable {model_t : Type}

/-! ## `model_iface.c` -/

def MODEL_IFACE_STATE_IDLE : mu_task_state_t := 0

/-- In the function it is `MODEL_IFACE_STATE_START_PULL`. -/
def MODEL_IFACE_STATE_START_RQST : mu_task_state_t := 1

/-- In the function it is `MODEL_IFACE_STATE_AWAIT_PULL`. -/
def MODEL_IFACE_STATE_AWAIT_RQST : mu_task_state_t := 2

structure model_iface_t where
  task : mu_task_t
  on_completion : Ptr
  had_error : Bool
  /-- The model is in the memory of the caller. -/
  model : Ptr
  rx_buf : List Byte

def model_iface_init (self : model_iface_t) (s_task_info : Ptr) : model_iface_t :=
  { self with task := mu_task_init self.task MODEL_IFACE_STATE_IDLE s_task_info }

/-- `task` is the pointer to the task of `model_iface`. -/
def model_iface_pull (s : mu_sched_t) (task : Ptr) (self : model_iface_t) (model on_completion : Ptr) :
    mu_sched_t × model_iface_t :=
  let self := { self with model, on_completion, had_error := false }
  let (s, task, _) := mu_task_yield s task self.task MODEL_IFACE_STATE_START_RQST
  (s, { self with task })

def model_iface_push (ext : External model_t) (model : model_t) : Bool := (ext.model_dump_json model).isSome

def model_iface_had_error (self : model_iface_t) : Bool := self.had_error

def model_iface_endgame (s : mu_sched_t) (continuation : Ptr) (self : model_iface_t) (had_error : Bool) :
    mu_sched_t × model_iface_t :=
  let self := { self with had_error }
  let (s, task) := task_info s continuation self.task MODEL_IFACE_STATE_IDLE
  let (s, task, _) := mu_task_transfer s task MODEL_IFACE_STATE_IDLE self.on_completion
  (s, { self with task })

/-- `recv_started` is what `coms_mgr_recv` returns, `coms_had_error` what `coms_mgr_had_error` returns. `model` is what
`self->model` points to. -/
def model_iface_fn (ext : External model_t) (s : mu_sched_t) (continuation : Ptr) (self : model_iface_t)
    (model : model_t) (recv_started coms_had_error : Bool) : mu_sched_t × model_iface_t × model_t :=
  if mu_task_get_state self.task = MODEL_IFACE_STATE_IDLE then (s, self, model)
  else if mu_task_get_state self.task = MODEL_IFACE_STATE_START_RQST then
    if ¬ recv_started then
      let (s, self) := model_iface_endgame s continuation self true
      (s, self, model)
    else (s, { self with task := (mu_task_wait self.task MODEL_IFACE_STATE_AWAIT_RQST).1 }, model)
  else if mu_task_get_state self.task = MODEL_IFACE_STATE_AWAIT_RQST then
    if coms_had_error then
      let (s, self) := model_iface_endgame s continuation self true
      (s, self, model)
    else
      let (loaded, model) := ext.model_load_json model self.rx_buf
      let (s, self) := model_iface_endgame s continuation self (¬ loaded)
      (s, self, model)
  else (s, self, model)

/-! ## `tstat_app.c` -/

def TSTAT_APP_STATE_IDLE : mu_task_state_t := 0

/-- In `tstat_app_start` it is `TSTAT_APP_STATE_START`. -/
def TSTAT_APP_STATE_START_PULL_MODEL : mu_task_state_t := 1

def TSTAT_APP_STATE_AWAIT_PULL_MODEL : mu_task_state_t := 2

/-- In the call of `mu_task_yield` it is `TSTAT_APP_STATE_START_UPDATE_MODEL`. -/
def TSTAT_APP_STATE_UPDATE_MODEL : mu_task_state_t := 3

def TSTAT_APP_STATE_START_PUSH_MODEL : mu_task_state_t := 4

def TSTAT_APP_STATE_AWAIT_PUSH_MODEL : mu_task_state_t := 5

structure tstat_app_t (model_t : Type) where
  task : mu_task_t
  on_completion : Ptr
  model : model_t
  had_error : Bool

def tstat_app_init (self : tstat_app_t model_t) (s_task_info : Ptr) : tstat_app_t model_t :=
  { self with task := mu_task_init self.task TSTAT_APP_STATE_IDLE s_task_info }

/-- `task` is the pointer to the task of `tstat_app`. -/
def tstat_app_start (s : mu_sched_t) (task : Ptr) (self : tstat_app_t model_t) (on_completion : Ptr) :
    mu_sched_t × tstat_app_t model_t :=
  let self := { self with on_completion, had_error := false }
  let (s, task, _) := mu_task_yield s task self.task TSTAT_APP_STATE_START_PULL_MODEL
  (s, { self with task })

def tstat_app_had_error (self : tstat_app_t model_t) : Bool := self.had_error

def tstat_app_endgame (ext : External model_t) (s : mu_sched_t) (self : tstat_app_t model_t) (had_error : Bool) :
    mu_sched_t × tstat_app_t model_t :=
  let self := { self with had_error }
  let (s, task) := ext.task_info_endgame s self.task TSTAT_APP_STATE_IDLE had_error self.on_completion
  (s, { self with task })

/-- The pointers that the functions use: the two tasks, which are static, and the model of `tstat_app`. -/
structure Pointers where
  tstat_app : Ptr
  model_iface : Ptr
  model : Ptr
  tstat_app_ne : tstat_app ≠ NULL
  model_iface_ne : model_iface ≠ NULL
  distinct : model_iface ≠ tstat_app

/-- `pull_started` is what `model_iface_pull` returns. The state `TSTAT_APP_STATE_DONE` does not exist. -/
def tstat_app_fn (ext : External model_t) (at_ : Pointers) (s : mu_sched_t) (self : tstat_app_t model_t)
    (iface : model_iface_t) (pull_started : Bool) : mu_sched_t × tstat_app_t model_t × model_iface_t :=
  if mu_task_get_state self.task = TSTAT_APP_STATE_IDLE then (s, self, iface)
  else if mu_task_get_state self.task = TSTAT_APP_STATE_START_PULL_MODEL then
    let (s, iface) := model_iface_pull s at_.model_iface iface at_.model at_.tstat_app
    if ¬ pull_started then
      let (s, self) := tstat_app_endgame ext s self true
      (s, self, iface)
    else (s, { self with task := (mu_task_wait self.task TSTAT_APP_STATE_AWAIT_PULL_MODEL).1 }, iface)
  else if mu_task_get_state self.task = TSTAT_APP_STATE_AWAIT_PULL_MODEL then
    if model_iface_had_error iface then
      let (s, self) := tstat_app_endgame ext s self true
      (s, self, iface)
    else
      let (s, task, _) := mu_task_yield s at_.tstat_app self.task TSTAT_APP_STATE_UPDATE_MODEL
      (s, { self with task }, iface)
  else if mu_task_get_state self.task = TSTAT_APP_STATE_UPDATE_MODEL then
    let self := { self with model := ext.logic_update_model self.model }
    let (s, task, _) := mu_task_yield s at_.tstat_app self.task TSTAT_APP_STATE_START_PUSH_MODEL
    (s, { self with task }, iface)
  else if mu_task_get_state self.task = TSTAT_APP_STATE_START_PUSH_MODEL then
    if ¬ model_iface_push ext self.model then
      let (s, self) := tstat_app_endgame ext s self true
      (s, self, iface)
    else (s, { self with task := (mu_task_wait self.task TSTAT_APP_STATE_AWAIT_PUSH_MODEL).1 }, iface)
  else if mu_task_get_state self.task = TSTAT_APP_STATE_AWAIT_PUSH_MODEL then
    if model_iface_had_error iface then
      let (s, self) := tstat_app_endgame ext s self true
      (s, self, iface)
    else
      let (s, self) := tstat_app_endgame ext s self false
      (s, self, iface)
  else (s, self, iface)

end ToyTstat.Code
