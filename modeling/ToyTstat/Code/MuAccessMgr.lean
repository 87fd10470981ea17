import Mathlib.Tactic.TypeStar
import ToyTstat.Code.MuQueue

/-!
# `mu_access_mgr.c`: a resource with one owner

`mu_pqueue` is not in the repository. What a queue of it is and what the functions do that are called here are
parameters.
-/

open CLib

namespace ToyTstat.Code

/-- Each function with the queue after the call and what is returned. -/
structure mu_pqueue (σ : Type*) where
  mu_pqueue_put : σ → Ptr → σ × Ptr
  mu_pqueue_get : σ → σ × Ptr
  mu_pqueue_delete : σ → Ptr → σ × Ptr
  mu_pqueue_contains : σ → Ptr → Bool

inductive mu_access_mgr_err_t
  | MU_ACCESS_MGR_ERR_NONE
  | MU_ACCESS_MGR_ERR_BAD_PARAM
  | MU_ACCESS_MGR_ERR_TASK_UNAVAILABLE
  | MU_ACCESS_MGR_ERR_NOT_PENDING
  | MU_ACCESS_MGR_ERR_ALREADY_PENDING
  | MU_ACCESS_MGR_ERR_ALREADY_OWNER
deriving DecidableEq, Repr

open mu_access_mgr_err_t

/-- `pending` is the queue that the pointer leads to. -/
structure mu_access_mgr_t (σ : Type*) where
  owner : Ptr
  pending : σ

variable {σ : Type*} (pqueue : mu_pqueue σ)

open mu_pqueue

def mu_access_mgr_init (mgr : mu_access_mgr_t σ) (pending : σ) : mu_access_mgr_t σ :=
  { mgr with owner := NULL, pending }

/-- The manager, the task called just before the return, and what is returned. -/
def mu_access_mgr_request_ownership (mgr : mu_access_mgr_t σ) (task : Ptr) :
    mu_access_mgr_t σ × Option Ptr × mu_access_mgr_err_t :=
  if mgr.owner = NULL then ({ mgr with owner := task }, mu_task_call task, MU_ACCESS_MGR_ERR_NONE)
  else if mgr.owner = task then (mgr, none, MU_ACCESS_MGR_ERR_ALREADY_OWNER)
  else if pqueue.mu_pqueue_contains mgr.pending task then (mgr, none, MU_ACCESS_MGR_ERR_ALREADY_PENDING)
  else
    let (pending, result) := pqueue.mu_pqueue_put mgr.pending task
    if result = NULL then ({ mgr with pending }, none, MU_ACCESS_MGR_ERR_TASK_UNAVAILABLE)
    else ({ mgr with pending }, none, MU_ACCESS_MGR_ERR_NONE)

/-- The manager, the task called just before the return, and what is returned. -/
def mu_access_mgr_release_ownership (mgr : mu_access_mgr_t σ) (task : Ptr) :
    mu_access_mgr_t σ × Option Ptr × mu_access_mgr_err_t :=
  if task = mgr.owner then
    let (pending, owner) := pqueue.mu_pqueue_get mgr.pending
    -- no task is called when the queue is empty
    ({ mgr with owner, pending }, mu_task_call owner, MU_ACCESS_MGR_ERR_NONE)
  else
    let (pending, result) := pqueue.mu_pqueue_delete mgr.pending task
    if result = NULL then ({ mgr with pending }, none, MU_ACCESS_MGR_ERR_NOT_PENDING)
    else ({ mgr with pending }, none, MU_ACCESS_MGR_ERR_NONE)

def mu_access_mgr_has_ownership (mgr : mu_access_mgr_t σ) (task : Ptr) : Bool := task = mgr.owner

end ToyTstat.Code
