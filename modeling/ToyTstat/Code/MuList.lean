import Mathlib.Logic.Function.Basic
import ToyTstat.Code.MuQueue

/-!
# `mu_list.c` and `mu_queue.c`: linked lists and linked queues

The heap is the state: the `next` fields of all nodes and list headers. `none` is an access to where there is
none, or too little fuel for a loop. A function that returns its own argument yields the heap only.
-/

open CLib

namespace ToyTstat.Code

/-! ## The heap -/

structure Heap where
  next : Ptr → Option Ptr
  addressable : ∀ p, (next p).isSome → p ≠ NULL ∧ p < 2 ^ 64

namespace Heap

/-- `p->next = v` -/
def write (heap : Heap) (p v : Ptr) : Option Heap :=
  if hp : (heap.next p).isSome then
    some ⟨Function.update heap.next p (some v), fun r hr => by
      by_cases hrp : r = p
      · exact hrp ▸ heap.addressable p hp
      · exact heap.addressable r (by rwa [Function.update_of_ne hrp] at hr)⟩
  else none

/-- An address for a local list header. -/
structure Local (heap : Heap) where
  address : Ptr
  fresh : heap.next address = none
  addressable : address ≠ NULL ∧ address < 2 ^ 64

/-- What the header holds at first is not used. -/
def enter (heap : Heap) (var : Local heap) : Heap :=
  ⟨Function.update heap.next var.address (some NULL), fun r hr => by
    by_cases hrp : r = var.address
    · exact hrp ▸ var.addressable
    · exact heap.addressable r (by rwa [Function.update_of_ne hrp] at hr)⟩

/-- The local header is gone when the function returns. -/
def leave (heap : Heap) (address : Ptr) : Heap :=
  ⟨Function.update heap.next address none, fun r hr => by
    by_cases hrp : r = address
    · rw [hrp, Function.update_self] at hr
      cases hr
    · exact heap.addressable r (by rwa [Function.update_of_ne hrp] at hr)⟩

end Heap

/-! ## Lists -/

def mu_list_init (heap : Heap) (list_ref : Ptr) : Option Heap := heap.write list_ref NULL

def mu_list_is_empty (heap : Heap) (list_ref : Ptr) : Option Bool :=
  if list_ref ≠ NULL then (heap.next list_ref).map (· == NULL) else some true

def mu_list_rest (heap : Heap) (list_ref : Ptr) : Option Ptr :=
  if list_ref ≠ NULL then heap.next list_ref else some NULL

def length_loop (heap : Heap) : Nat → Ptr → Nat → Option Nat
  | 0, _, _ => none
  | fuel + 1, list_ref, length =>
    if list_ref ≠ NULL then do
      let next ← heap.next list_ref
      if next ≠ NULL then length_loop heap fuel next (usize (length + 1)) else return length
    else some length

def mu_list_length (fuel : Nat) (heap : Heap) (list_ref : Ptr) : Option Nat := length_loop heap fuel list_ref 0

def mu_list_push (heap : Heap) (list_ref element : Ptr) : Option Heap :=
  if list_ref ≠ NULL then do
    let heap ← heap.write element (← heap.next list_ref)
    heap.write list_ref element
  else some heap

def mu_list_pop (heap : Heap) (list_ref : Ptr) : Option (Heap × Ptr) :=
  if list_ref ≠ NULL then do
    let element ← heap.next list_ref
    if element ≠ NULL then
      let heap ← heap.write list_ref (← heap.next element)
      let heap ← heap.write element NULL
      return (heap, element)
    else return (heap, NULL)
  else some (heap, NULL)

/-- The heap after the call and what is returned. -/
abbrev mu_list_traverse_fn := Heap → Ptr → Ptr → Option (Heap × Ptr)

def traverse_loop (fn : mu_list_traverse_fn) (arg : Ptr) : Nat → Heap → Ptr → Ptr → Option (Heap × Ptr)
  | 0, _, _, _ => none
  | fuel + 1, heap, list_ref, result =>
    if list_ref ≠ NULL ∧ result = NULL then do
      let (heap, result) ← fn heap list_ref arg
      traverse_loop fn arg fuel heap (← heap.next list_ref) result
    else some (heap, result)

def mu_list_traverse (fuel : Nat) (heap : Heap) (list_ref : Ptr) (fn : mu_list_traverse_fn) (arg : Ptr) :
    Option (Heap × Ptr) :=
  traverse_loop fn arg fuel heap list_ref NULL

def list_find_aux : mu_list_traverse_fn := fun heap list_ref arg => do
  if (← heap.next list_ref) = arg then return (heap, arg) else return (heap, NULL)

def list_delete_aux : mu_list_traverse_fn := fun heap list_ref arg => do
  if (← heap.next list_ref) = arg then mu_list_pop heap list_ref else return (heap, NULL)

def mu_list_find (fuel : Nat) (heap : Heap) (list_ref element : Ptr) : Option (Heap × Ptr) :=
  mu_list_traverse fuel heap list_ref list_find_aux element

def mu_list_contains (fuel : Nat) (heap : Heap) (list_ref element : Ptr) : Option Bool :=
  (mu_list_find fuel heap list_ref element).map fun r => r.2 != NULL

def mu_list_delete (fuel : Nat) (heap : Heap) (list_ref element : Ptr) : Option (Heap × Ptr) :=
  mu_list_traverse fuel heap list_ref list_delete_aux element

def reverse_loop (list_ref reversed : Ptr) : Nat → Heap → Option Heap
  | 0, _ => none
  | fuel + 1, heap => do
    if ← mu_list_is_empty heap list_ref then return heap
    let (heap, element) ← mu_list_pop heap list_ref
    reverse_loop list_ref reversed fuel (← mu_list_push heap reversed element)

def mu_list_reverse (fuel : Nat) (heap : Heap) (list_ref : Ptr) (reversed : Heap.Local heap) : Option Heap :=
  if list_ref ≠ NULL then do
    let heap ← mu_list_init (heap.enter reversed) reversed.address
    let heap ← reverse_loop list_ref reversed.address fuel heap
    let heap ← heap.write list_ref (← heap.next reversed.address)
    return heap.leave reversed.address
  else some heap

/-! ## Queues -/

/-- Where the two list headers of the queue are. -/
structure mu_queue_t where
  head : Ptr
  tail : Ptr
deriving DecidableEq, Repr

def mu_queue_init (heap : Heap) (q : mu_queue_t) : Option Heap := do
  let heap ← mu_list_init heap q.head
  mu_list_init heap q.tail

def mu_queue_append (heap : Heap) (q : mu_queue_t) (item : Ptr) : Option Heap := do
  let heap ← heap.write item NULL
  let heap ←
    if ← mu_list_is_empty heap q.tail then mu_list_push heap q.head item
    else mu_list_push heap (← heap.next q.tail) item
  heap.write q.tail item

def mu_queue_prepend (heap : Heap) (q : mu_queue_t) (item : Ptr) : Option Heap := do
  let heap ← mu_list_push heap q.head item
  if ← mu_list_is_empty heap q.tail then heap.write q.tail item else return heap

def mu_queue_remove (heap : Heap) (q : mu_queue_t) : Option (Heap × Ptr) := do
  let (heap, item) ← mu_list_pop heap q.head
  if ← mu_list_is_empty heap q.head then return (← heap.write q.tail NULL, item) else return (heap, item)

def mu_queue_delete (fuel : Nat) (heap : Heap) (q : mu_queue_t) (item : Ptr) : Option (Heap × Ptr) :=
  mu_list_delete fuel heap q.head item

def mu_queue_is_empty (heap : Heap) (q : mu_queue_t) : Option Bool := mu_list_is_empty heap q.head

def reset_loop (q : mu_queue_t) : Nat → Heap → Option Heap
  | 0, _ => none
  | fuel + 1, heap => do
    if ← mu_queue_is_empty heap q then return heap
    let (heap, _) ← mu_queue_remove heap q
    reset_loop q fuel heap

def mu_queue_reset (fuel : Nat) (heap : Heap) (q : mu_queue_t) : Option Heap := reset_loop q fuel heap

end ToyTstat.Code
