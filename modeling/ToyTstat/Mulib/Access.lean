import ToyTstat.Code.MuAccessMgr
import ToyTstat.Lib.Machine
import ToyTstat.Lib.Turns

/-!
# The access manager grants in turn

The owner and the pending tasks are one line. A task that is called may call the manager before the call that grants
it the resource returns. So a call is an event of its own, and so is the end of a task.
-/

open CLib ToyTstat.Code
open mu_access_mgr_err_t mu_pqueue

namespace ToyTstat.Mulib

variable {σ : Type*}

/-- What the manager relies on: `mu_pqueue` is a bounded queue. -/
structure PendingQueue (pqueue : mu_pqueue σ) (items : σ → List Ptr) (capacity : Nat) : Prop where
  put_room : ∀ q item, item ≠ NULL → (items q).length < capacity →
    items (mu_pqueue_put pqueue q item).1 = items q ++ [item] ∧ (mu_pqueue_put pqueue q item).2 ≠ NULL
  put_full : ∀ q item, capacity ≤ (items q).length →
    items (mu_pqueue_put pqueue q item).1 = items q ∧ (mu_pqueue_put pqueue q item).2 = NULL
  get_first : ∀ q item rest, items q = item :: rest →
    items (mu_pqueue_get pqueue q).1 = rest ∧ (mu_pqueue_get pqueue q).2 = item
  get_empty : ∀ q, items q = [] → items (mu_pqueue_get pqueue q).1 = [] ∧ (mu_pqueue_get pqueue q).2 = NULL
  delete_present : ∀ q item, item ≠ NULL → item ∈ items q →
    items (mu_pqueue_delete pqueue q item).1 = (items q).erase item ∧ (mu_pqueue_delete pqueue q item).2 ≠ NULL
  delete_absent : ∀ q item, item ∉ items q →
    items (mu_pqueue_delete pqueue q item).1 = items q ∧ (mu_pqueue_delete pqueue q item).2 = NULL
  contains : ∀ q item, mu_pqueue_contains pqueue q item = decide (item ∈ items q)

/-! ## Runs -/

inductive AccessOp
  | request (task : Ptr)
  | release (task : Ptr)
deriving DecidableEq

def AccessOp.task : AccessOp → Ptr
  | request task => task
  | release task => task

inductive AccessEvent
  | call (op : AccessOp)
  /-- The task called last comes to its end. -/
  | task_done
deriving DecidableEq

inductive AccessOutput
  | called (task : Ptr)
  | returned (result : mu_access_mgr_err_t)
deriving DecidableEq

/-- `frames` is what the calls return that wait for a task. -/
structure Access (σ : Type*) where
  mgr : mu_access_mgr_t σ
  frames : List mu_access_mgr_err_t

def accessCall (pqueue : mu_pqueue σ) (mgr : mu_access_mgr_t σ) :
    AccessOp → mu_access_mgr_t σ × Option Ptr × mu_access_mgr_err_t
  | .request task => mu_access_mgr_request_ownership pqueue mgr task
  | .release task => mu_access_mgr_release_ownership pqueue mgr task

def accessStep (pqueue : mu_pqueue σ) (s : Access σ) : AccessEvent → Access σ × List AccessOutput
  | .call op =>
    match accessCall pqueue s.mgr op with
    | (mgr, none, result) => (⟨mgr, s.frames⟩, [.returned result])
    | (mgr, some task, result) => (⟨mgr, result :: s.frames⟩, [.called task])
  | .task_done =>
    match s.frames with
    | [] => (s, [])
    | result :: frames => (⟨s.mgr, frames⟩, [.returned result])

/-- The new owner, if there is one. -/
def grantedTask (before after : mu_access_mgr_t σ) : Option Ptr :=
  if after.owner = before.owner ∨ after.owner = NULL then none else some after.owner

def AccessOutput.invoked : AccessOutput → Option Ptr
  | called task => some task
  | returned _ => none

structure History where
  /-- Successful requests that are not withdrawn, the last one first. -/
  requested : List Ptr
  granted : List Ptr
  invoked : List Ptr

/-- A release withdraws a request when the task is not the owner. -/
def requestedAfter (pqueue : mu_pqueue σ) (mgr : mu_access_mgr_t σ) (requested : List Ptr) : AccessEvent → List Ptr
  | .call (.request task) =>
    if (accessCall pqueue mgr (.request task)).2.2 = MU_ACCESS_MGR_ERR_NONE then task :: requested else requested
  | .call (.release task) =>
    if (accessCall pqueue mgr (.release task)).2.2 = MU_ACCESS_MGR_ERR_NONE ∧ ¬ mu_access_mgr_has_ownership mgr task
    then requested.erase task
    else requested
  | .task_done => requested

def accessMachine (pqueue : mu_pqueue σ) : Machine (Access σ × History) AccessEvent AccessOutput where
  step s event :=
    let (next, outputs) := accessStep pqueue s.1 event
    ((next,
      { requested := requestedAfter pqueue s.1.mgr s.2.requested event
        granted := s.2.granted ++ (grantedTask s.1.mgr next.mgr).toList
        invoked := s.2.invoked ++ outputs.filterMap AccessOutput.invoked }),
      outputs)

structure Fair (pqueue : mu_pqueue σ) (items : σ → List Ptr) (s : Access σ × History) : Prop where
  owner_not_pending : s.1.mgr.owner ∉ items s.1.mgr.pending
  nodup : (items s.1.mgr.pending).Nodup
  no_owner : s.1.mgr.owner = NULL → items s.1.mgr.pending = []
  in_order : s.2.requested.reverse = s.2.granted ++ items s.1.mgr.pending
  once : s.2.invoked = s.2.granted
  refused : ∀ op mgr task result, op.task ≠ NULL → accessCall pqueue s.1.mgr op = (mgr, task, result) →
    result ≠ MU_ACCESS_MGR_ERR_NONE →
    mgr.owner = s.1.mgr.owner ∧ items mgr.pending = items s.1.mgr.pending ∧ task = none

/-! ## The line -/

def accessLine (items : σ → List Ptr) (mgr : mu_access_mgr_t σ) : List Ptr :=
  if mgr.owner = NULL then [] else mgr.owner :: items mgr.pending

def AccessOp.move : AccessOp → Move Ptr
  | request task => .join task
  | release task => .leave task

/-- The line says all about the manager. -/
structure Lined (items : σ → List Ptr) (mgr : mu_access_mgr_t σ) : Prop where
  nonnull : NULL ∉ items mgr.pending
  no_owner : mgr.owner = NULL → items mgr.pending = []
  nodup : (accessLine items mgr).Nodup

structure Accepted (items : σ → List Ptr) (mgr : mu_access_mgr_t σ) (op : AccessOp)
    (r : mu_access_mgr_t σ × Option Ptr × mu_access_mgr_err_t) : Prop where
  allowed : op.move.Allowed (accessLine items mgr)
  result : r.2.2 = MU_ACCESS_MGR_ERR_NONE
  nonnull : NULL ∉ items r.1.pending
  no_owner : r.1.owner = NULL → items r.1.pending = []
  line : accessLine items r.1 = op.move.apply (accessLine items mgr)
  called : r.2.1 = turn (accessLine items mgr) (accessLine items r.1)

structure Refused (items : σ → List Ptr) (mgr : mu_access_mgr_t σ)
    (r : mu_access_mgr_t σ × Option Ptr × mu_access_mgr_err_t) : Prop where
  result : r.2.2 ≠ MU_ACCESS_MGR_ERR_NONE
  owner : r.1.owner = mgr.owner
  pending : items r.1.pending = items mgr.pending
  called : r.2.1 = none

variable {pqueue : mu_pqueue σ} {items : σ → List Ptr} {capacity : Nat} {mgr : mu_access_mgr_t σ} {task : Ptr}

theorem accessLine_nil (h : mgr.owner = NULL) : accessLine items mgr = [] := if_pos h

theorem accessLine_cons (h : mgr.owner ≠ NULL) : accessLine items mgr = mgr.owner :: items mgr.pending := if_neg h

theorem tail_accessLine (h : Lined items mgr) : (accessLine items mgr).tail = items mgr.pending := by
  by_cases hnull : mgr.owner = NULL
  · rw [accessLine_nil hnull, h.no_owner hnull]
    rfl
  · rw [accessLine_cons hnull, List.tail_cons]

theorem head_accessLine (htask : task ≠ NULL) : (accessLine items mgr).head? = some task ↔ task = mgr.owner := by
  by_cases hnull : mgr.owner = NULL
  · rw [accessLine_nil hnull, hnull]
    exact iff_of_false (by simp) htask
  · rw [accessLine_cons hnull, List.head?_cons, Option.some_inj]
    exact eq_comm

theorem granted_eq_turn (items : σ → List Ptr) (before after : mu_access_mgr_t σ) :
    grantedTask before after = turn (accessLine items before) (accessLine items after) := by
  by_cases hafter : after.owner = NULL
  · rw [grantedTask, if_pos (Or.inr hafter), accessLine_nil hafter]
    exact (ite_self _).symm
  · have hhead : (accessLine items before).head? = some after.owner ↔ after.owner = before.owner :=
      head_accessLine hafter
    rw [turn, accessLine_cons hafter, List.head?_cons]
    by_cases hsame : after.owner = before.owner
    · rw [grantedTask, if_pos (Or.inl hsame), if_pos (hhead.mpr hsame).symm]
    · rw [grantedTask, if_neg (not_or.mpr ⟨hsame, hafter⟩), if_neg fun heq => hsame (hhead.mp heq.symm)]

/-! ## One call -/

theorem accepted_waiting {op : AccessOp} {pending : σ} (hnull : mgr.owner ≠ NULL) (hnonnull : NULL ∉ items pending)
    (hallowed : op.move.Allowed (mgr.owner :: items mgr.pending))
    (hline : mgr.owner :: items pending = op.move.apply (mgr.owner :: items mgr.pending)) :
    Accepted items mgr op ({ mgr with pending }, none, MU_ACCESS_MGR_ERR_NONE) := by
  have hafter : accessLine items { mgr with pending } = mgr.owner :: items pending := if_neg hnull
  rw [← accessLine_cons hnull] at hallowed hline
  refine ⟨hallowed, rfl, hnonnull, fun heq => absurd heq hnull, hafter.trans hline, ?_⟩
  rw [hafter, accessLine_cons hnull, Turns.turn_same_first]

theorem refused_same {pending : σ} {result : mu_access_mgr_err_t} (hresult : result ≠ MU_ACCESS_MGR_ERR_NONE)
    (hitems : items pending = items mgr.pending) : Refused items mgr ({ mgr with pending }, none, result) :=
  ⟨hresult, rfl, hitems, rfl⟩

theorem request_spec (hq : PendingQueue pqueue items capacity) (h : Lined items mgr) (htask : task ≠ NULL) :
    Accepted items mgr (.request task) (mu_access_mgr_request_ownership pqueue mgr task) ∨
      Refused items mgr (mu_access_mgr_request_ownership pqueue mgr task) := by
  unfold mu_access_mgr_request_ownership
  by_cases hnull : mgr.owner = NULL
  · rw [if_pos hnull]
    have hline : accessLine items { mgr with owner := task } = [task] := by
      rw [accessLine_cons htask, h.no_owner hnull]
    refine Or.inl ⟨?_, rfl, h.nonnull, fun howner => absurd howner htask, ?_, ?_⟩
    · rw [accessLine_nil hnull]
      exact List.not_mem_nil
    · rw [hline, accessLine_nil hnull]
      rfl
    · rw [hline, accessLine_nil hnull, Turns.turn_empty]
      exact if_neg htask
  rw [if_neg hnull]
  by_cases howner : mgr.owner = task
  · rw [if_pos howner]
    exact Or.inr (refused_same (by decide) rfl)
  rw [if_neg howner, hq.contains]
  by_cases hpending : task ∈ items mgr.pending
  · rw [if_pos (decide_eq_true hpending)]
    exact Or.inr (refused_same (by decide) rfl)
  rw [if_neg (by rwa [decide_eq_true_eq])]
  rcases Nat.lt_or_ge (items mgr.pending).length capacity with hroom | hfull
  · obtain ⟨hitems, hresult⟩ := hq.put_room mgr.pending task htask hroom
    simp only [if_neg hresult]
    refine Or.inl (accepted_waiting hnull ?_ ?_ ?_)
    · rw [hitems, List.mem_append, List.mem_singleton, not_or]
      exact ⟨h.nonnull, htask.symm⟩
    · exact fun hmem => (List.mem_cons.mp hmem).elim (Ne.symm howner) hpending
    · rw [hitems]
      rfl
  · obtain ⟨hitems, hresult⟩ := hq.put_full mgr.pending task hfull
    simp only [if_pos hresult]
    exact Or.inr (refused_same (by decide) hitems)

theorem get_spec (hq : PendingQueue pqueue items capacity) {q : σ} (hnonnull : NULL ∉ items q) :
    NULL ∉ items (mu_pqueue_get pqueue q).1 ∧
      ((mu_pqueue_get pqueue q).2 = NULL → items (mu_pqueue_get pqueue q).1 = []) ∧
      accessLine items ⟨(mu_pqueue_get pqueue q).2, (mu_pqueue_get pqueue q).1⟩ = items q ∧
      mu_task_call (mu_pqueue_get pqueue q).2 = (items q).head? := by
  rcases hitems : items q with _ | ⟨next, rest⟩
  · obtain ⟨hrest, hnext⟩ := hq.get_empty q hitems
    rw [hrest, hnext]
    exact ⟨List.not_mem_nil, fun _ => rfl, rfl, rfl⟩
  · obtain ⟨hrest, hnext⟩ := hq.get_first q next rest hitems
    rw [hitems, List.mem_cons, not_or] at hnonnull
    have hne : next ≠ NULL := Ne.symm hnonnull.1
    rw [accessLine, hrest, hnext]
    exact ⟨hnonnull.2, fun heq => absurd heq hne, if_neg hne, if_neg hne⟩

theorem release_spec (hq : PendingQueue pqueue items capacity) (h : Lined items mgr) (htask : task ≠ NULL) :
    Accepted items mgr (.release task) (mu_access_mgr_release_ownership pqueue mgr task) ∨
      Refused items mgr (mu_access_mgr_release_ownership pqueue mgr task) := by
  unfold mu_access_mgr_release_ownership
  by_cases howner : task = mgr.owner
  · rw [if_pos howner]
    have hnull : mgr.owner ≠ NULL := howner ▸ htask
    have hnodup := h.nodup
    rw [accessLine_cons hnull] at hnodup
    obtain ⟨hnonnull, hempty, hline, hcalled⟩ := get_spec hq h.nonnull
    refine Or.inl ⟨?_, rfl, hnonnull, hempty, ?_, ?_⟩
    · rw [accessLine_cons hnull, howner]
      exact List.mem_cons_self
    · rw [hline, accessLine_cons hnull, howner]
      exact (List.erase_cons_head ..).symm
    · rw [hline, accessLine_cons hnull, Turns.turn_leave_first hnodup]
      exact hcalled
  rw [if_neg howner]
  by_cases hpending : task ∈ items mgr.pending
  · obtain ⟨hitems, hresult⟩ := hq.delete_present mgr.pending task htask hpending
    simp only [if_neg hresult]
    have hnull : mgr.owner ≠ NULL := fun heq => by
      rw [h.no_owner heq] at hpending
      exact List.not_mem_nil hpending
    refine Or.inl (accepted_waiting hnull ?_ (List.mem_cons_of_mem _ hpending) ?_)
    · rw [hitems]
      exact fun hmem => h.nonnull (List.mem_of_mem_erase hmem)
    · rw [hitems]
      exact (List.erase_cons_tail (by rw [beq_iff_eq]; exact Ne.symm howner)).symm
  · obtain ⟨hitems, hresult⟩ := hq.delete_absent mgr.pending task hpending
    simp only [if_pos hresult]
    exact Or.inr (refused_same (by decide) hitems)

theorem call_spec (hq : PendingQueue pqueue items capacity) (h : Lined items mgr) {op : AccessOp}
    (htask : op.task ≠ NULL) :
    Accepted items mgr op (accessCall pqueue mgr op) ∨ Refused items mgr (accessCall pqueue mgr op) := by
  cases op with
  | request task => exact request_spec hq h htask
  | release task => exact release_spec hq h htask

/-! ## All runs -/

structure AccessInv (items : σ → List Ptr) (mgr : mu_access_mgr_t σ) (history : History) : Prop where
  nonnull : NULL ∉ items mgr.pending
  no_owner : mgr.owner = NULL → items mgr.pending = []
  turns : (Turns.mk (accessLine items mgr) history.requested history.granted).InOrder
  once : history.invoked = history.granted

variable {s : Access σ × History} {history : History} {op : AccessOp} {events : List AccessEvent}

theorem AccessInv.lined (h : AccessInv items mgr history) : Lined items mgr := ⟨h.nonnull, h.no_owner, h.turns.nodup⟩

theorem AccessInv.fair (hq : PendingQueue pqueue items capacity) (h : AccessInv items s.1.mgr s.2) :
    Fair pqueue items s := by
  have hline := h.turns.nodup
  refine ⟨?_, ?_, h.no_owner, ?_, h.once, ?_⟩
  · by_cases hnull : s.1.mgr.owner = NULL
    · rw [h.no_owner hnull]
      exact List.not_mem_nil
    · rw [accessLine_cons hnull] at hline
      exact (List.nodup_cons.mp hline).1
  · rw [← tail_accessLine h.lined]
    exact hline.tail
  · rw [← tail_accessLine h.lined]
    exact h.turns.order
  · intro op mgr task result htask hcall hresult
    have hspec := call_spec hq h.lined htask
    rw [hcall] at hspec
    rcases hspec with haccepted | hrefused
    · exact absurd haccepted.result hresult
    · exact ⟨hrefused.owner, hrefused.pending, hrefused.called⟩

theorem accessStep_call (pqueue : mu_pqueue σ) (s : Access σ × History) (op : AccessOp) :
    ((accessMachine pqueue).step s (.call op)).1.1.mgr = (accessCall pqueue s.1.mgr op).1 ∧
      ((accessMachine pqueue).step s (.call op)).1.2 =
        ⟨requestedAfter pqueue s.1.mgr s.2.requested (.call op),
          s.2.granted ++ (grantedTask s.1.mgr (accessCall pqueue s.1.mgr op).1).toList,
          s.2.invoked ++ (accessCall pqueue s.1.mgr op).2.1.toList⟩ := by
  rcases hcall : accessCall pqueue s.1.mgr op with ⟨mgr, _ | task, result⟩
  · simp [accessMachine, accessStep, hcall, AccessOutput.invoked]
  · simp [accessMachine, accessStep, hcall, AccessOutput.invoked]

theorem accessStep_task_done (pqueue : mu_pqueue σ) (s : Access σ × History) :
    ((accessMachine pqueue).step s .task_done).1.1.mgr = s.1.mgr ∧
      ((accessMachine pqueue).step s .task_done).1.2 = s.2 := by
  have hgranted : grantedTask s.1.mgr s.1.mgr = none := if_pos (Or.inl rfl)
  rcases hframes : s.1.frames with _ | ⟨result, frames⟩
  · simp [accessMachine, accessStep, hframes, hgranted, requestedAfter]
  · have hnone : [AccessOutput.returned result].filterMap AccessOutput.invoked = [] := rfl
    simp [accessMachine, accessStep, hframes, hgranted, requestedAfter, hnone]

theorem requested_accepted (history : History) (htask : op.task ≠ NULL)
    (haccepted : (accessCall pqueue mgr op).2.2 = MU_ACCESS_MGR_ERR_NONE) :
    requestedAfter pqueue mgr history.requested (.call op) =
      ((Turns.mk (accessLine items mgr) history.requested history.granted).move op.move).joined := by
  cases op with
  | request task => exact if_pos haccepted
  | release task =>
    have hhead : (accessLine items mgr).head? = some task ↔ task = mgr.owner := head_accessLine htask
    simp only [requestedAfter, haccepted, Turns.move, AccessOp.move, hhead, mu_access_mgr_has_ownership, true_and,
      decide_eq_true_eq, ite_not]

theorem requested_refused (history : History)
    (hrefused : (accessCall pqueue mgr op).2.2 ≠ MU_ACCESS_MGR_ERR_NONE) :
    requestedAfter pqueue mgr history.requested (.call op) = history.requested := by
  cases op with
  | request task => exact if_neg hrefused
  | release task => exact if_neg fun h => hrefused h.1

theorem accessCall_keeps (hq : PendingQueue pqueue items capacity) (h : AccessInv items mgr history)
    (htask : op.task ≠ NULL) :
    AccessInv items (accessCall pqueue mgr op).1
      ⟨requestedAfter pqueue mgr history.requested (.call op),
        history.granted ++ (grantedTask mgr (accessCall pqueue mgr op).1).toList,
        history.invoked ++ (accessCall pqueue mgr op).2.1.toList⟩ := by
  rcases call_spec hq h.lined htask with haccepted | hrefused
  · have hgranted := granted_eq_turn items mgr (accessCall pqueue mgr op).1
    refine ⟨haccepted.nonnull, haccepted.no_owner, ?_, ?_⟩
    · have hmove := h.turns.move haccepted.allowed
      rw [requested_accepted history htask haccepted.result, hgranted, haccepted.line]
      exact hmove
    · rw [h.once, haccepted.called, hgranted]
  · have hgranted : grantedTask mgr (accessCall pqueue mgr op).1 = none := if_pos (Or.inl hrefused.owner)
    have hline : accessLine items (accessCall pqueue mgr op).1 = accessLine items mgr := by
      rw [accessLine, accessLine, hrefused.owner, hrefused.pending]
    refine ⟨?_, ?_, ?_, ?_⟩
    · rw [hrefused.pending]
      exact h.nonnull
    · rw [hrefused.owner, hrefused.pending]
      exact h.no_owner
    · rw [requested_refused history hrefused.result, hgranted, hline, Option.toList_none, List.append_nil]
      exact h.turns
    · rw [h.once, hrefused.called, hgranted]

theorem accessStep_keeps (hq : PendingQueue pqueue items capacity) (h : AccessInv items s.1.mgr s.2)
    (event : AccessEvent) (htask : ∀ op, event = .call op → op.task ≠ NULL) :
    AccessInv items ((accessMachine pqueue).step s event).1.1.mgr ((accessMachine pqueue).step s event).1.2 := by
  cases event with
  | call op =>
    obtain ⟨hmgr, hhistory⟩ := accessStep_call pqueue s op
    rw [hmgr, hhistory]
    exact accessCall_keeps hq h (htask op rfl)
  | task_done =>
    obtain ⟨hmgr, hhistory⟩ := accessStep_task_done pqueue s
    rw [hmgr, hhistory]
    exact h

theorem always_fair (hq : PendingQueue pqueue items capacity) (h : AccessInv items s.1.mgr s.2)
    (htasks : ∀ op, .call op ∈ events → op.task ≠ NULL) :
    (accessMachine pqueue).Always (Fair pqueue items) events s := by
  induction events generalizing s with
  | nil => exact h.fair hq
  | cons event events ih =>
    refine ⟨h.fair hq, ih (accessStep_keeps hq h event ?_) fun op hop => htasks op (List.mem_cons_of_mem _ hop)⟩
    rintro op rfl
    exact htasks op List.mem_cons_self

/-- Ownership is exclusive and granted in turn, whatever tasks are called and whatever they do. -/
theorem access_fair (pqueue : mu_pqueue σ) (items : σ → List Ptr) (capacity : Nat)
    (hq : PendingQueue pqueue items capacity) (mgr : mu_access_mgr_t σ) (pending : σ) (hempty : items pending = [])
    (events : List AccessEvent) (htasks : ∀ op, .call op ∈ events → op.task ≠ NULL) :
    (accessMachine pqueue).Always (Fair pqueue items) events
      (⟨mu_access_mgr_init mgr pending, []⟩, ⟨[], [], []⟩) := by
  have hnonnull : NULL ∉ items pending := by
    rw [hempty]
    exact List.not_mem_nil
  exact always_fair hq ⟨hnonnull, fun _ => hempty, ⟨List.nodup_nil, rfl⟩, rfl⟩ htasks

def listPqueue (capacity : Nat) : mu_pqueue (List Ptr) where
  mu_pqueue_put q item := if q.length < capacity then (q ++ [item], item) else (q, NULL)
  mu_pqueue_get q := (q.tail, q.headD NULL)
  mu_pqueue_delete q item := if item ∈ q then (q.erase item, item) else (q, NULL)
  mu_pqueue_contains q item := decide (item ∈ q)

theorem listPqueue_spec (capacity : Nat) : PendingQueue (listPqueue capacity) id capacity where
  put_room q item hitem hroom := by
    simp only [listPqueue, id_eq] at hroom ⊢
    rw [if_pos hroom]
    exact ⟨rfl, hitem⟩
  put_full q item hfull := by
    simp only [listPqueue, id_eq] at hfull ⊢
    rw [if_neg (Nat.not_lt.mpr hfull)]
    exact ⟨rfl, rfl⟩
  get_first q item rest hq := by
    obtain rfl : q = item :: rest := hq
    exact ⟨rfl, rfl⟩
  get_empty q hq := by
    obtain rfl : q = [] := hq
    exact ⟨rfl, rfl⟩
  delete_present q item hitem hmem := by
    simp only [listPqueue, id_eq] at hmem ⊢
    rw [if_pos hmem]
    exact ⟨rfl, hitem⟩
  delete_absent q item hmem := by
    simp only [listPqueue, id_eq] at hmem ⊢
    rw [if_neg hmem]
    exact ⟨rfl, rfl⟩
  contains _ _ := rfl

/-- The task at 16 releases the resource at once, which grants it to the task at 24, and requests it again. -/
def nestedRelease : List AccessEvent :=
  [.call (.request 8), .task_done, .call (.request 16), .call (.request 24), .call (.request 32), .call (.release 8),
    .call (.release 16), .task_done, .call (.request 16), .task_done, .call (.release 24), .task_done]

example : ((accessMachine (listPqueue 2)).run nestedRelease (⟨⟨NULL, []⟩, []⟩, ⟨[], [], []⟩)).2 =
    [.called 8, .returned MU_ACCESS_MGR_ERR_NONE, .returned MU_ACCESS_MGR_ERR_NONE, .returned MU_ACCESS_MGR_ERR_NONE,
      .returned MU_ACCESS_MGR_ERR_TASK_UNAVAILABLE, .called 16, .called 24, .returned MU_ACCESS_MGR_ERR_NONE,
      .returned MU_ACCESS_MGR_ERR_NONE, .returned MU_ACCESS_MGR_ERR_NONE, .called 16,
      .returned MU_ACCESS_MGR_ERR_NONE] := by decide

theorem access_fair_nested :
    (accessMachine (listPqueue 2)).Always (Fair (listPqueue 2) id) nestedRelease
      (⟨mu_access_mgr_init ⟨NULL, []⟩ [], []⟩, ⟨[], [], []⟩) := by
  refine access_fair (listPqueue 2) id 2 (listPqueue_spec 2) ⟨NULL, []⟩ [] rfl nestedRelease fun op hop => ?_
  have hall : ∀ event ∈ nestedRelease, ∀ task ∈ [NULL],
      event ≠ .call (.request task) ∧ event ≠ .call (.release task) := by decide
  rintro hnull
  cases op with
  | request task => exact (hall _ hop task (List.mem_singleton.mpr hnull)).1 rfl
  | release task => exact (hall _ hop task (List.mem_singleton.mpr hnull)).2 rfl

end ToyTstat.Mulib
