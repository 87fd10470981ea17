import ToyTstat.Lib.CString

/-!
# `mu_task.c`, `mu_mqueue.c` and `mu_spsc.c`: tasks and the two queues

A pointer is a number, and a task is known by its pointer. Where the code calls a task, what the
task does is not modelled: the function says which task it calls.
-/

open CLib

namespace ToyTstat.Code

abbrev Ptr := Nat

def NULL : Ptr := 0

/-- An array of pointers that lies in memory. -/
structure PtrArray where
  slots : List Ptr
  size : 8 * slots.length < 2 ^ 64

namespace PtrArray

def read (a : PtrArray) (i : Nat) : Ptr := a.slots[i]?.getD NULL

def write (a : PtrArray) (i : Nat) (p : Ptr) : PtrArray :=
  ⟨a.slots.set i p, by rw [List.length_set]; exact a.size⟩

end PtrArray

/-! ## Tasks -/

inductive mu_task_err_t
  | MU_TASK_ERR_NONE
  | MU_TASK_ERR_SCHED_FULL
  | MU_TASK_ERR_NOT_FOUND
deriving DecidableEq, Repr

/-- The task whose function is called. No call hook is installed. -/
def mu_task_call (task : Ptr) : Option Ptr := if task = NULL then none else some task

/-! ## `mu_mqueue` -/

structure mu_mqueue_t where
  storage : PtrArray
  capacity : Nat
  count : Nat
  index : Nat
  on_put : Ptr
  on_get : Ptr

def mu_mqueue_reset (mqueue : mu_mqueue_t) : mu_mqueue_t := { mqueue with count := 0, index := 0 }

def mu_mqueue_init (mqueue : mu_mqueue_t) (storage : PtrArray) (capacity : Nat) (on_put on_get : Ptr) : mu_mqueue_t :=
  mu_mqueue_reset { mqueue with storage, capacity, on_put, on_get }

def mu_mqueue_capacity (mqueue : mu_mqueue_t) : Nat := mqueue.capacity

def mu_mqueue_count (mqueue : mu_mqueue_t) : Nat := mqueue.count

def mu_mqueue_is_empty (mqueue : mu_mqueue_t) : Bool := mqueue.count = 0

def mu_mqueue_is_full (mqueue : mu_mqueue_t) : Bool := mqueue.count = mqueue.capacity

/-- The queue, the task called just before the return, and what is returned. -/
def mu_mqueue_put (mqueue : mu_mqueue_t) (element : Ptr) : mu_mqueue_t × Option Ptr × Bool :=
  if ¬ mu_mqueue_is_full mqueue then
    ({ mqueue with
        storage := mqueue.storage.write mqueue.index element
        index := usize (mqueue.index + 1) % mqueue.capacity
        count := usize (mqueue.count + 1) },
      mu_task_call mqueue.on_put, true)
  else (mqueue, none, false)

/-- The queue, what is stored in `*element`, the task called just before the return, and what is returned. -/
def access_queue (mqueue : mu_mqueue_t) (fetch : Bool) : mu_mqueue_t × Ptr × Option Ptr × Bool :=
  if ¬ mu_mqueue_is_empty mqueue then
    let idx := usize (mqueue.capacity + mqueue.index - mqueue.count)
    let idx := if idx ≥ mqueue.capacity then usize (idx - mqueue.capacity) else idx
    let element := mqueue.storage.read idx
    if fetch then
      ({ mqueue with count := usize (mqueue.count - 1) }, element, mu_task_call mqueue.on_get, true)
    else (mqueue, element, none, true)
  else (mqueue, NULL, none, false)

def mu_mqueue_get (mqueue : mu_mqueue_t) : mu_mqueue_t × Ptr × Option Ptr × Bool := access_queue mqueue true

def mu_mqueue_peek (mqueue : mu_mqueue_t) : mu_mqueue_t × Ptr × Option Ptr × Bool := access_queue mqueue false

/-! ## `mu_spsc` -/

inductive mu_spsc_err_t
  | MU_SPSC_ERR_NONE
  | MU_SPSC_ERR_EMPTY
  | MU_SPSC_ERR_FULL
  | MU_SPSC_ERR_SIZE
deriving DecidableEq, Repr

structure mu_spsc_t where
  mask : Nat
  head : Nat
  tail : Nat
  store : PtrArray

open mu_spsc_err_t

def IS_POWER_OF_TWO (n : Nat) : Bool := n &&& (n - 1) = 0

def mu_spsc_reset (q : mu_spsc_t) : mu_spsc_t × mu_spsc_err_t := ({ q with head := 0, tail := 0 }, MU_SPSC_ERR_NONE)

def mu_spsc_init (q : mu_spsc_t) (store : PtrArray) (capacity : UInt16) : mu_spsc_t × mu_spsc_err_t :=
  if capacity < 2 ∨ ¬ IS_POWER_OF_TWO capacity.toNat then (q, MU_SPSC_ERR_SIZE)
  else mu_spsc_reset { q with mask := u16 (capacity.toNat - 1), store }

def mu_spsc_capacity (q : mu_spsc_t) : Nat := q.mask

def mu_spsc_put (q : mu_spsc_t) (item : Ptr) : mu_spsc_t × mu_spsc_err_t :=
  let next_tail := u16 ((q.tail + 1) &&& q.mask)
  if next_tail = q.head then (q, MU_SPSC_ERR_FULL)
  else ({ q with store := q.store.write q.tail item, tail := next_tail }, MU_SPSC_ERR_NONE)

/-- The queue, what is stored in `*item`, and what is returned. -/
def mu_spsc_get (q : mu_spsc_t) : mu_spsc_t × Ptr × mu_spsc_err_t :=
  if q.head = q.tail then (q, NULL, MU_SPSC_ERR_EMPTY)
  else ({ q with head := u16 ((q.head + 1) &&& q.mask) }, q.store.read q.head, MU_SPSC_ERR_NONE)

/-- The memory access that `mu_spsc_get` makes next, with what it has read. -/
inductive GetPc
  | start
  /-- `head` is read, the comparison reads `tail`. -/
  | compare_tail (head : Nat)
  /-- The other order: `tail` is read, the comparison reads `head`. -/
  | compare_head (tail : Nat)
  /-- Not empty: `head` is read for the slot. -/
  | index
  | fetch (head : Nat)
  /-- The item is stored in `*item`: `head` is read again. -/
  | advance (item : Ptr)
  | release (item : Ptr) (head : Nat)
deriving DecidableEq, Repr

/-- After the comparison: `*item` and the error code if the function returns. -/
def GetPc.compared (head tail : Nat) : GetPc × Option (Ptr × mu_spsc_err_t) :=
  if head = tail then (start, some (NULL, MU_SPSC_ERR_EMPTY)) else (index, none)

/-- The next access of `mu_spsc_get`. C leaves open which side of the comparison is read first. -/
def mu_spsc_get_access (tail_first : Bool) (q : mu_spsc_t) : GetPc → mu_spsc_t × GetPc × Option (Ptr × mu_spsc_err_t)
  | .start => (q, if tail_first then .compare_head q.tail else .compare_tail q.head, none)
  | .compare_tail head => (q, GetPc.compared head q.tail)
  | .compare_head tail => (q, GetPc.compared q.head tail)
  | .index => (q, .fetch q.head, none)
  | .fetch head => (q, .advance (q.store.read head), none)
  | .advance item => (q, .release item q.head, none)
  | .release item head => ({ q with head := u16 ((head + 1) &&& q.mask) }, .start, some (item, MU_SPSC_ERR_NONE))

end ToyTstat.Code
