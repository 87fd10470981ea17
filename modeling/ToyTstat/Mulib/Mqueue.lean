import ToyTstat.Code.MuQueue
import ToyTstat.Lib.Machine
import ToyTstat.Lib.Ring

/-!
# `mu_mqueue` is a bounded queue

A put or a get that succeeds calls a task, and the task may use the same queue before the call
returns. So a call is an event of its own, and so is the end of a task.
-/

open CLib ToyTstat.Code

namespace ToyTstat.Mulib

/-! ## The queue that is meant -/

structure Fifo (capacity : Nat) where
  items : List Ptr
  bounded : items.length ≤ capacity

namespace Fifo

variable {capacity : Nat}

def empty : Fifo capacity := ⟨[], Nat.zero_le _⟩

def put (q : Fifo capacity) (element : Ptr) : Option (Fifo capacity) :=
  if h : q.items.length < capacity then
    some ⟨q.items ++ [element], by rw [List.length_append]; exact h⟩
  else none

def peek (q : Fifo capacity) : Option Ptr := q.items.head?

def tail (q : Fifo capacity) : Fifo capacity :=
  ⟨q.items.tail, by rw [List.length_tail]; exact (Nat.sub_le _ _).trans q.bounded⟩

end Fifo

/-! ## Runs -/

inductive MqueueEvent
  | put (element : Ptr)
  | get
  | peek
  | reset
  | count
  /-- The task called last comes to its end. -/
  | task_done

inductive MqueueOutput
  /-- What a get or a peek stores in `*element`. -/
  | stored (element : Ptr)
  | called (task : Ptr)
  | returned (result : Bool)
  | counted (count : Nat)
deriving DecidableEq, Repr

/-- `frames` is what the calls return that wait for a task. -/
structure Run (σ : Type) where
  queue : σ
  frames : List Bool

/-- The end of a call: at once, or when its task is done. -/
def finish {σ : Type} (queue : σ) (frames : List Bool) (result : Bool) :
    Option Ptr → Run σ × List MqueueOutput
  | none => (⟨queue, frames⟩, [.returned result])
  | some task => (⟨queue, result :: frames⟩, [.called task])

/-- The pending call returns. -/
def task_done {σ : Type} (r : Run σ) : Run σ × List MqueueOutput :=
  match r.frames with
  | [] => (r, [])
  | result :: frames => (⟨r.queue, frames⟩, [.returned result])

def mqueueStep (r : Run mu_mqueue_t) : MqueueEvent → Run mu_mqueue_t × List MqueueOutput
  | .put element =>
    let (queue, task, result) := mu_mqueue_put r.queue element
    finish queue r.frames result task
  | .get =>
    let (queue, element, task, result) := mu_mqueue_get r.queue
    let (r, outputs) := finish queue r.frames result task
    (r, .stored element :: outputs)
  | .peek =>
    let (queue, element, task, result) := mu_mqueue_peek r.queue
    let (r, outputs) := finish queue r.frames result task
    (r, .stored element :: outputs)
  | .reset => (⟨mu_mqueue_reset r.queue, r.frames⟩, [])
  | .count => (r, [.counted (mu_mqueue_count r.queue)])
  | .task_done => task_done r

/-- The event on the queue that is meant. A put calls `on_put` when it succeeds, a get calls `on_get`. -/
def fifoStep {capacity : Nat} (on_put on_get : Ptr) (r : Run (Fifo capacity)) :
    MqueueEvent → Run (Fifo capacity) × List MqueueOutput
  | .put element =>
    match r.queue.put element with
    | some queue => finish queue r.frames true (mu_task_call on_put)
    | none => (r, [.returned false])
  | .get =>
    match r.queue.peek with
    | some element =>
      let (r, outputs) := finish r.queue.tail r.frames true (mu_task_call on_get)
      (r, .stored element :: outputs)
    | none => (r, [.stored NULL, .returned false])
  | .peek =>
    match r.queue.peek with
    | some element => (r, [.stored element, .returned true])
    | none => (r, [.stored NULL, .returned false])
  | .reset => (⟨.empty, r.frames⟩, [])
  | .count => (r, [.counted r.queue.items.length])
  | .task_done => task_done r

def mqueueMachine : Machine (Run mu_mqueue_t) MqueueEvent MqueueOutput := ⟨mqueueStep⟩

def fifoMachine (capacity : Nat) (on_put on_get : Ptr) : Machine (Run (Fifo capacity)) MqueueEvent MqueueOutput :=
  ⟨fifoStep on_put on_get⟩

/-! ## What the three numbers mean -/

/-- The queue holds `items`, of which the oldest is number `head` of all that were put. -/
structure Holds (q : mu_mqueue_t) (head : Nat) (items : List Ptr) : Prop where
  ring : RingHolds q.capacity q.storage.slots head items
  index : q.index = (head + items.length) % q.capacity
  count : q.count = items.length

theorem Holds.capacity_lt {q : mu_mqueue_t} {head : Nat} {items : List Ptr} (h : Holds q head items) :
    q.capacity < 2 ^ 61 := by
  have := h.ring.ring
  have := q.storage.size
  omega

variable {q : mu_mqueue_t} {head : Nat} {items : List Ptr} {x : Ptr}

theorem Holds.full_iff (h : Holds q head items) : mu_mqueue_is_full q = false ↔ items.length < q.capacity := by
  have := h.ring.fits
  rw [mu_mqueue_is_full, h.count, decide_eq_false_iff_not]
  omega

theorem oldest_slot {capacity count : Nat} (head : Nat) (hpos : 0 < count) (hcount : count ≤ capacity)
    (hcap : capacity < 2 ^ 61) :
    (let idx := usize (capacity + ((head + count) % capacity : Nat) - count)
      if idx ≥ capacity then usize (idx - capacity) else idx) = head % capacity := by
  have hlt : head % capacity < capacity := Nat.mod_lt _ (hpos.trans_le hcount)
  have hmod : (head + count) % capacity =
      if head % capacity + count < capacity then head % capacity + count else head % capacity + count - capacity := by
    rw [← Nat.mod_add_mod]
    split
    case isTrue h => exact Nat.mod_eq_of_lt h
    case isFalse h =>
      rw [Nat.mod_eq_sub_mod (Nat.le_of_not_lt h)]
      exact Nat.mod_eq_of_lt (by omega)
  generalize head % capacity = first at hlt hmod ⊢
  rw [hmod]
  unfold usize
  dsimp only
  split <;> split <;> omega

theorem Holds.put (h : Holds q head items) (hroom : items.length < q.capacity) (element : Ptr) :
    Holds (mu_mqueue_put q element).1 head (items ++ [element]) := by
  have hcap := h.capacity_lt
  have hcount := h.count
  have hindex : q.index < q.capacity := by
    rw [h.index]
    exact Nat.mod_lt _ ((Nat.zero_le _).trans_lt hroom)
  rw [mu_mqueue_put, if_pos (by rw [h.full_iff.mpr hroom]; decide)]
  constructor
  · dsimp only [PtrArray.write]
    rw [h.index]
    exact h.ring.push hroom
  · dsimp only
    rw [usize_succ (by omega), h.index, Nat.mod_add_mod, List.length_append, List.length_singleton, Nat.add_assoc]
  · dsimp only
    rw [usize_succ (by omega), List.length_append, List.length_singleton, h.count]

theorem Holds.put_result (h : Holds q head items) (hroom : items.length < q.capacity) (element : Ptr) :
    mu_mqueue_put q element = ((mu_mqueue_put q element).1, mu_task_call q.on_put, true) := by
  rw [mu_mqueue_put, if_pos (by rw [h.full_iff.mpr hroom]; decide)]

theorem Holds.put_full (h : Holds q head items) (hfull : ¬ items.length < q.capacity) (element : Ptr) :
    mu_mqueue_put q element = (q, none, false) := by
  rw [← h.full_iff, Bool.not_eq_false] at hfull
  rw [mu_mqueue_put, if_neg (by rw [hfull]; decide)]

theorem Holds.access (h : Holds q head (x :: items)) (fetch : Bool) :
    access_queue q fetch =
      if fetch then ({ q with count := items.length }, x, mu_task_call q.on_get, true) else (q, x, none, true) := by
  have hcap := h.capacity_lt
  have hfits := h.ring.fits
  have hindex := h.index
  have hcount := h.count
  rw [List.length_cons] at hindex hcount hfits
  have hslot := oldest_slot head (show 0 < items.length + 1 by omega) hfits hcap
  rw [← hindex, ← hcount] at hslot
  have hread : q.storage.read (head % q.capacity) = x := by
    rw [PtrArray.read, h.ring.front]
    rfl
  have hempty : mu_mqueue_is_empty q = false := by
    rw [mu_mqueue_is_empty, hcount]
    rfl
  have hless : usize (q.count - 1) = items.length := by
    have : usize (q.count - 1) = q.count - 1 := usize_sub (k := 1) (by omega) (by omega)
    omega
  dsimp only at hslot
  rw [access_queue, if_pos (by rw [hempty]; decide)]
  dsimp only
  rw [hslot, hread, hless]

theorem Holds.access_empty (h : Holds q head []) (fetch : Bool) : access_queue q fetch = (q, NULL, none, false) := by
  have hempty : mu_mqueue_is_empty q = true := by
    rw [mu_mqueue_is_empty, h.count]
    rfl
  rw [access_queue, if_neg (by rw [hempty]; decide)]

theorem Holds.get (h : Holds q head (x :: items)) : Holds { q with count := items.length } (head + 1) items := by
  have hindex := h.index
  refine ⟨h.ring.pop, ?_, rfl⟩
  rw [List.length_cons, Nat.add_comm items.length 1, ← Nat.add_assoc] at hindex
  exact hindex

theorem Holds.reset (h : Holds q head items) : Holds (mu_mqueue_reset q) 0 [] :=
  ⟨.nil h.ring.ring 0, (Nat.zero_mod _).symm, rfl⟩

/-! ## The refinement -/

variable {capacity : Nat} {on_put on_get : Ptr}

structure Represents (on_put on_get : Ptr) (c : Run mu_mqueue_t) (a : Run (Fifo capacity)) : Prop where
  frames : c.frames = a.frames
  capacity : c.queue.capacity = capacity
  on_put : c.queue.on_put = on_put
  on_get : c.queue.on_get = on_get
  holds : ∃ head, Holds c.queue head a.queue.items

theorem represents_finish {queue : mu_mqueue_t} {fifo : Fifo capacity} {frames : List Bool}
    (h : Represents on_put on_get ⟨queue, frames⟩ ⟨fifo, frames⟩) (result : Bool) (task : Option Ptr) :
    Represents on_put on_get (finish queue frames result task).1 (finish fifo frames result task).1 ∧
      (finish queue frames result task).2 = (finish fifo frames result task).2 := by
  cases task with
  | none => exact ⟨h, rfl⟩
  | some task => exact ⟨⟨rfl, h.capacity, h.on_put, h.on_get, h.holds⟩, rfl⟩

theorem represents_task_done {c : Run mu_mqueue_t} {a : Run (Fifo capacity)} (h : Represents on_put on_get c a) :
    Represents on_put on_get (task_done c).1 (task_done a).1 ∧ (task_done c).2 = (task_done a).2 := by
  unfold task_done
  rw [h.frames]
  cases a.frames with
  | nil => exact ⟨h, rfl⟩
  | cons result frames => exact ⟨⟨rfl, h.capacity, h.on_put, h.on_get, h.holds⟩, rfl⟩

theorem put_refines {c : Run mu_mqueue_t} {a : Run (Fifo capacity)} (h : Represents on_put on_get c a) (element : Ptr) :
    Represents on_put on_get (mqueueStep c (.put element)).1 (fifoStep on_put on_get a (.put element)).1 ∧
      (mqueueStep c (.put element)).2 = (fifoStep on_put on_get a (.put element)).2 := by
  obtain ⟨queue, frames⟩ := c
  obtain ⟨fifo, frames'⟩ := a
  obtain ⟨rfl, rfl, rfl, rfl, head, holds⟩ := h
  dsimp only at holds
  rw [mqueueStep, fifoStep]
  dsimp only
  by_cases hroom : fifo.items.length < queue.capacity
  · rw [Fifo.put, dif_pos hroom, holds.put_result hroom]
    refine represents_finish ⟨rfl, ?_, ?_, ?_, head, holds.put hroom element⟩ _ _
    all_goals rw [mu_mqueue_put, if_pos (by rw [holds.full_iff.mpr hroom]; decide)]
  · rw [Fifo.put, dif_neg hroom, holds.put_full hroom]
    exact ⟨⟨rfl, rfl, rfl, rfl, head, holds⟩, rfl⟩

theorem access_refines {c : Run mu_mqueue_t} {a : Run (Fifo capacity)} (h : Represents on_put on_get c a)
    {e : MqueueEvent} (he : e = .get ∨ e = .peek) :
    Represents on_put on_get (mqueueStep c e).1 (fifoStep on_put on_get a e).1 ∧
      (mqueueStep c e).2 = (fifoStep on_put on_get a e).2 := by
  obtain ⟨queue, frames⟩ := c
  obtain ⟨⟨items, bounded⟩, frames'⟩ := a
  obtain ⟨rfl, rfl, rfl, rfl, head, holds⟩ := h
  dsimp only at holds
  rcases he with rfl | rfl <;> rw [mqueueStep, fifoStep] <;> dsimp only [mu_mqueue_get, mu_mqueue_peek]
  · cases items with
    | nil =>
      rw [holds.access_empty]
      exact ⟨⟨rfl, rfl, rfl, rfl, head, holds⟩, rfl⟩
    | cons x items =>
      rw [holds.access, if_pos rfl]
      have hrep : Represents queue.on_put queue.on_get ⟨{ queue with count := items.length }, frames⟩
          ⟨Fifo.tail ⟨x :: items, bounded⟩, frames⟩ := ⟨rfl, rfl, rfl, rfl, head + 1, holds.get⟩
      obtain ⟨hrel, hout⟩ := represents_finish hrep true (mu_task_call queue.on_get)
      exact ⟨hrel, congrArg (MqueueOutput.stored x :: ·) hout⟩
  · cases items with
    | nil =>
      rw [holds.access_empty]
      exact ⟨⟨rfl, rfl, rfl, rfl, head, holds⟩, rfl⟩
    | cons x items =>
      rw [holds.access, if_neg (by decide)]
      exact ⟨⟨rfl, rfl, rfl, rfl, head, holds⟩, rfl⟩

theorem step_refines : Machine.Refines mqueueMachine (fifoMachine capacity on_put on_get)
    (Represents on_put on_get) := by
  intro c a e h
  cases e with
  | put element => exact put_refines h element
  | get => exact access_refines h (.inl rfl)
  | peek => exact access_refines h (.inr rfl)
  | reset =>
    obtain ⟨head, holds⟩ := h.holds
    exact ⟨⟨h.frames, h.capacity, h.on_put, h.on_get, 0, holds.reset⟩, rfl⟩
  | count =>
    obtain ⟨head, holds⟩ := h.holds
    exact ⟨h, congrArg (fun n => [MqueueOutput.counted n]) holds.count⟩
  | task_done => exact represents_task_done h

theorem represents_init (mqueue : mu_mqueue_t) {storage : PtrArray} (hstorage : capacity ≤ storage.slots.length)
    (on_put on_get : Ptr) :
    Represents on_put on_get ⟨mu_mqueue_init mqueue storage capacity on_put on_get, []⟩
      (⟨.empty, []⟩ : Run (Fifo capacity)) :=
  ⟨rfl, rfl, rfl, rfl, 0, .nil hstorage 0, (Nat.zero_mod _).symm, rfl⟩

/-- From `mu_mqueue_init` on, the code's queue answers every run as a bounded queue does, and holds
what that queue holds. -/
theorem mqueue_refines_fifo (mqueue : mu_mqueue_t) (storage : PtrArray) (capacity : Nat) (on_put on_get : Ptr)
    (hstorage : capacity ≤ storage.slots.length) (es : List MqueueEvent) :
    let c := mqueueMachine.run es ⟨mu_mqueue_init mqueue storage capacity on_put on_get, []⟩
    let a := (fifoMachine capacity on_put on_get).run es ⟨.empty, []⟩
    c.2 = a.2 ∧ c.1.frames = a.1.frames ∧ mu_mqueue_count c.1.queue = a.1.queue.items.length ∧
      ∃ head, Holds c.1.queue head a.1.queue.items := by
  obtain ⟨hrel, hout⟩ := step_refines.run es (represents_init mqueue hstorage on_put on_get)
  obtain ⟨head, holds⟩ := hrel.holds
  exact ⟨hout, hrel.frames, holds.count, head, holds⟩

/-- Task 1 puts once more and task 2 gets, both in the middle of a call. -/
theorem mqueue_refines_fifo_reentrant :
    (mqueueMachine.run
      [.put 7, .put 8, .task_done, .task_done, .put 9, .count, .get, .get, .task_done, .task_done, .get]
      ⟨mu_mqueue_init ⟨⟨[], by decide⟩, 0, 0, 0, 0, 0⟩ ⟨[0, 0], by decide⟩ 2 1 2, []⟩).2 =
      [.called 1, .called 1, .returned true, .returned true, .returned false, .counted 2, .stored 7, .called 2,
        .stored 8, .called 2, .returned true, .returned true, .stored NULL, .returned false] :=
  (mqueue_refines_fifo ⟨⟨[], by decide⟩, 0, 0, 0, 0, 0⟩ ⟨[0, 0], by decide⟩ 2 1 2 (by decide)
    [.put 7, .put 8, .task_done, .task_done, .put 9, .count, .get, .get, .task_done, .task_done, .get]).1

end ToyTstat.Mulib
