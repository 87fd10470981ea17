import ToyTstat.Lib.Machine
import ToyTstat.Mulib.Linked

/-!
# The linked queue as a list

The chain from the head and the pointer to the last item say the same as long as every operation keeps them in
step. A deletion goes through the list only.
-/

open CLib ToyTstat.Code

namespace ToyTstat.Mulib

/-! ## Runs -/

inductive QueueOp
  | append (item : Ptr)
  | prepend (item : Ptr)
  | remove
  | delete (item : Ptr)
  | reset
deriving DecidableEq

def queueStep (fuel : Nat) (q : mu_queue_t) (heap : Heap) : QueueOp → Option Heap
  | .append item => mu_queue_append heap q item
  | .prepend item => mu_queue_prepend heap q item
  | .remove => (mu_queue_remove heap q).map Prod.fst
  | .delete item => (mu_queue_delete fuel heap q item).map Prod.fst
  | .reset => mu_queue_reset fuel heap q

/-- The items in order, as the operation on lists leaves them. -/
def itemsAfter (items : List Ptr) : QueueOp → List Ptr
  | .append item => items ++ [item]
  | .prepend item => item :: items
  | .remove => items.tail
  | .delete item => items.erase item
  | .reset => []

/-- The heap after each operation, beside the items that should be in the queue. -/
def queueMachine (fuel : Nat) (q : mu_queue_t) : Machine (Option Heap × List Ptr) QueueOp Empty where
  step s op := ((s.1.bind fun heap => queueStep fuel q heap op, itemsAfter s.2 op), [])

/-- The chain from the head is the list of items, and the tail leads to the last of them. -/
structure QueueHolds (heap : Heap) (q : mu_queue_t) (items : List Ptr) : Prop where
  head : Chain heap q.head items
  tail : heap.next q.tail = some (items.getLastD NULL)

def InStep (q : mu_queue_t) (s : Option Heap × List Ptr) : Prop := ∃ heap, s.1 = some heap ∧ QueueHolds heap q s.2

/-- The condition holds of each operation and of the items before it. -/
def Along (P : List Ptr → QueueOp → Prop) : List QueueOp → List Ptr → Prop
  | [], _ => True
  | op :: ops, items => P items op ∧ Along P ops (itemsAfter items op)

/-- An item that is added is a node, and it is not in the queue. -/
def Added (heap : Heap) (q : mu_queue_t) (items : List Ptr) (op : QueueOp) : Prop :=
  ∀ item, op = .append item ∨ op = .prepend item →
    (heap.next item).isSome ∧ item ∉ items ∧ item ≠ q.head ∧ item ≠ q.tail

def KeepsLast (items : List Ptr) (op : QueueOp) : Prop := ∀ item, op = .delete item → items.getLast? ≠ some item

/-- The two list headers of the queue are in memory. -/
structure Headers (heap : Heap) (q : mu_queue_t) : Prop where
  head : (heap.next q.head).isSome
  tail : (heap.next q.tail).isSome
  apart : q.head ≠ q.tail

/-! ## The invariant -/

variable {heap0 heap heap' : Heap} {q : mu_queue_t} {items : List Ptr} {item : Ptr}

/-- `heap0` is the heap before the run: the nodes in memory stay the same. -/
structure QueueInv (heap0 heap : Heap) (q : mu_queue_t) (items : List Ptr) : Prop where
  holds : QueueHolds heap q items
  outside : q.tail ∉ q.head :: items
  nodes : ∀ r, (heap.next r).isSome = (heap0.next r).isSome

theorem last_ne_null (h : Chain heap q.head items) (hne : items ≠ []) : items.getLastD NULL ≠ NULL := by
  obtain ⟨x, rest, rfl⟩ := List.exists_cons_of_ne_nil hne
  rw [List.getLastD_cons]
  exact h.ne_null (List.mem_cons_of_mem _ List.getLastD_mem_cons)

theorem tail_is_empty (h : Chain heap q.head items) (htail : heap'.next q.tail = some (items.getLastD NULL)) :
    mu_list_is_empty heap' q.tail = some (decide (items = [])) := by
  rw [is_empty_eq htail]
  by_cases hnil : items = []
  · simp [hnil]
  · have hlast := last_ne_null h hnil
    rw [decide_eq_false hnil, beq_false_of_ne hlast]

theorem set_tail (hchain : Chain heap q.head items) (hnodes : ∀ r, (heap.next r).isSome = (heap0.next r).isSome)
    (htail : (heap.next q.tail).isSome) (hout : q.tail ∉ q.head :: items) :
    ∃ heap', heap.write q.tail (items.getLastD NULL) = some heap' ∧ QueueInv heap0 heap' q items := by
  obtain ⟨heap', hwrite, hnext⟩ := write_eq htail (items.getLastD NULL)
  refine ⟨heap', hwrite, ⟨⟨chain_of_path ?_, ?_⟩, hout, ?_⟩⟩
  · refine hchain.path.congr fun r hr => ?_
    rw [hnext, Function.update_of_ne]
    rintro rfl
    exact hout hr
  · rw [hnext, Function.update_self]
  · intro r
    rw [hnext, isSome_update htail, hnodes]

/-! ## One operation -/

theorem QueueInv.tail_isSome (h : QueueInv heap0 heap q items) : (heap.next q.tail).isSome := by
  rw [h.holds.tail]
  rfl

theorem append_keeps (h : QueueInv heap0 heap q items) (hnode : (heap.next item).isSome) (hitem : item ∉ items)
    (hhead : item ≠ q.head) (htail : item ≠ q.tail) :
    ∃ heap', mu_queue_append heap q item = some heap' ∧ QueueInv heap0 heap' q (items ++ [item]) := by
  have hout : item ∉ q.head :: items := by simp [hhead, hitem]
  obtain ⟨heap1, hwrite1, hnext1⟩ := write_eq hnode NULL
  have hsame1 (r : Ptr) (hr : r ≠ item) : heap1.next r = heap.next r := by rw [hnext1, Function.update_of_ne hr]
  have hnodes1 (r : Ptr) : (heap1.next r).isSome = (heap.next r).isSome := by rw [hnext1, isSome_update hnode]
  have hpath1 : Path heap1.next q.head items NULL :=
    h.holds.head.path.congr fun r hr => hsame1 r fun heq => hout (heq ▸ hr)
  have htail1 : heap1.next q.tail = some (items.getLastD NULL) := (hsame1 q.tail htail.symm).trans h.holds.tail
  -- whichever way the code takes, the item is pushed behind the last cell
  have hsome1 : (heap1.next item).isSome := by rwa [hnodes1]
  obtain ⟨heap2, hpush, hnext2⟩ := push_link hpath1.last hsome1
  have hlink : Path heap2.next q.head (items ++ [item]) NULL := by
    rw [hnext2]
    have hpath := hpath1
    rw [← List.append_nil items] at hpath
    exact hpath.link (by rw [List.append_nil]; exact h.holds.head.acyclic) (by rwa [List.append_nil])
  have hnodes2 (r : Ptr) : (heap2.next r).isSome = (heap.next r).isSome := by
    rw [hnext2, (frame_link (hpath1.isSome List.getLastD_mem_cons) hsome1 _).nodes, hnodes1]
  have houtside : q.tail ∉ q.head :: (items ++ [item]) := by
    have := h.outside
    simp only [List.mem_cons, List.mem_append, List.not_mem_nil, or_false, not_or] at this ⊢
    exact ⟨this.1, this.2, htail.symm⟩
  obtain ⟨heap', hwrite, hinv⟩ := set_tail (chain_of_path hlink)
    (fun r => (hnodes2 r).trans (h.nodes r)) (by rw [hnodes2]; exact h.tail_isSome) houtside
  rw [List.getLastD_concat] at hwrite
  refine ⟨heap', ?_, hinv⟩
  simp only [mu_queue_append, Option.bind_eq_bind, hwrite1, Option.bind_some,
    tail_is_empty (chain_of_path hpath1) htail1, decide_eq_true_eq, htail1]
  by_cases hnil : items = []
  · subst hnil
    have hfirst : mu_list_push heap1 q.head item = some heap2 := hpush
    simp only [if_true, hfirst, Option.bind_some, hwrite]
  · have hcell : items.getLastD NULL = items.getLastD q.head := by
      obtain ⟨x, rest, rfl⟩ := List.exists_cons_of_ne_nil hnil
      rw [List.getLastD_cons, List.getLastD_cons]
    simp only [if_neg hnil, hcell, hpush, Option.bind_some, hwrite]

theorem prepend_keeps (h : QueueInv heap0 heap q items) (hnode : (heap.next item).isSome) (hitem : item ∉ items)
    (hhead : item ≠ q.head) (htail : item ≠ q.tail) :
    ∃ heap', mu_queue_prepend heap q item = some heap' ∧ QueueInv heap0 heap' q (item :: items) := by
  have hout : item ∉ q.head :: items := by simp [hhead, hitem]
  obtain ⟨heap1, hpush, hchain1, hframe1⟩ := push_spec h.holds.head hout hnode
  have hapart : q.tail ≠ q.head := fun heq => h.outside (heq ▸ List.mem_cons_self)
  have htail1 : heap1.next q.tail = some (items.getLastD NULL) := by
    rw [hframe1.same q.tail (by simp [hapart, htail.symm])]
    exact h.holds.tail
  have hnodes1 (r : Ptr) : (heap1.next r).isSome = (heap0.next r).isSome := (hframe1.nodes r).trans (h.nodes r)
  have houtside : q.tail ∉ q.head :: item :: items := by
    have := h.outside
    simp only [List.mem_cons, not_or] at this ⊢
    exact ⟨this.1, htail.symm, this.2⟩
  simp only [mu_queue_prepend, Option.bind_eq_bind, hpush, Option.bind_some, tail_is_empty h.holds.head htail1,
    decide_eq_true_eq]
  by_cases hnil : items = []
  · subst hnil
    obtain ⟨heap', hwrite, hinv⟩ := set_tail hchain1 hnodes1 (by rw [htail1]; rfl) houtside
    exact ⟨heap', by rw [if_pos rfl]; exact hwrite, hinv⟩
  · refine ⟨heap1, by rw [if_neg hnil]; rfl, ⟨⟨hchain1, ?_⟩, houtside, hnodes1⟩⟩
    obtain ⟨x, rest, rfl⟩ := List.exists_cons_of_ne_nil hnil
    rw [htail1, List.getLastD_cons, List.getLastD_cons, List.getLastD_cons]

theorem head_is_empty (h : Chain heap q.head items) : mu_list_is_empty heap q.head = some (decide (items = [])) := by
  rw [is_empty_eq h.path.first]
  cases items with
  | nil => rfl
  | cons x items =>
    have hx : x ≠ NULL := h.ne_null (List.mem_cons_of_mem _ List.mem_cons_self)
    rw [List.headD_cons, beq_false_of_ne hx, decide_eq_false (List.cons_ne_nil x items)]

theorem remove_keeps (h : QueueInv heap0 heap q items) :
    ∃ heap', mu_queue_remove heap q = some (heap', items.headD NULL) ∧ QueueInv heap0 heap' q items.tail := by
  have hpop : ∃ heap1, mu_list_pop heap q.head = some (heap1, items.headD NULL) ∧ Chain heap1 q.head items.tail ∧
      heap1.next q.tail = some (items.getLastD NULL) ∧ ∀ r, (heap1.next r).isSome = (heap0.next r).isSome := by
    cases items with
    | nil => exact ⟨heap, pop_empty h.holds.head.path.first, h.holds.head, h.holds.tail, h.nodes⟩
    | cons x items =>
      obtain ⟨heap1, hpop, hchain, -, hframe⟩ := pop_spec h.holds.head
      refine ⟨heap1, hpop, hchain, ?_, fun r => (hframe.nodes r).trans (h.nodes r)⟩
      have := h.outside
      rw [hframe.same q.tail (by simp only [List.mem_cons, not_or] at this ⊢; exact ⟨this.1, this.2.1, by simp⟩)]
      exact h.holds.tail
  obtain ⟨heap1, hpop, hchain, htail, hnodes⟩ := hpop
  have houtside : q.tail ∉ q.head :: items.tail := by
    have := h.outside
    simp only [List.mem_cons, not_or] at this ⊢
    exact ⟨this.1, fun hmem => this.2 (List.mem_of_mem_tail hmem)⟩
  simp only [mu_queue_remove, Option.bind_eq_bind, hpop, Option.bind_some, head_is_empty hchain, decide_eq_true_eq]
  by_cases hnil : items.tail = []
  · obtain ⟨heap', hwrite, hinv⟩ := set_tail hchain hnodes (by rw [htail]; rfl) houtside
    rw [hnil] at hwrite
    have hclear : heap1.write q.tail NULL = some heap' := hwrite
    refine ⟨heap', ?_, hinv⟩
    simp only [if_pos hnil, hclear, Option.bind_some]
    rfl
  · refine ⟨heap1, by rw [if_neg hnil]; rfl, ⟨⟨hchain, ?_⟩, houtside, hnodes⟩⟩
    rw [htail]
    rcases items with _ | ⟨x, _ | ⟨y, rest⟩⟩
    · exact absurd rfl hnil
    · exact absurd rfl hnil
    · rfl

theorem reset_keeps (h : QueueInv heap0 heap q items) {fuel : Nat} (hfuel : items.length < fuel) :
    ∃ heap', mu_queue_reset fuel heap q = some heap' ∧ QueueInv heap0 heap' q [] := by
  induction items generalizing heap fuel with
  | nil =>
    obtain ⟨k, rfl⟩ := Nat.exists_eq_add_of_lt hfuel
    refine ⟨heap, ?_, h⟩
    rw [mu_queue_reset, reset_loop, mu_queue_is_empty, head_is_empty h.holds.head]
    rfl
  | cons x items ih =>
    rw [List.length_cons] at hfuel
    obtain ⟨k, rfl⟩ : ∃ k, fuel = k + 1 := ⟨fuel - 1, by omega⟩
    obtain ⟨heap1, hremove, hinv1⟩ := remove_keeps h
    obtain ⟨heap', hreset, hinv⟩ := ih hinv1 (by omega : items.length < k)
    refine ⟨heap', ?_, hinv⟩
    rw [mu_queue_reset, reset_loop, mu_queue_is_empty, head_is_empty h.holds.head]
    simp only [Option.bind_eq_bind, Option.bind_some, hremove, List.cons_ne_nil, decide_false, Bool.false_eq_true,
      if_false]
    exact hreset

theorem delete_leaves_tail (h : QueueInv heap0 heap q items) (item : Ptr) {fuel : Nat}
    (hfuel : items.length + 1 < fuel) :
    ∃ heap', mu_queue_delete fuel heap q item = some (heap', if item ∈ items then item else NULL) ∧
      Chain heap' q.head (items.erase item) ∧ heap'.next q.tail = some (items.getLastD NULL) ∧
      ∀ r, (heap'.next r).isSome = (heap0.next r).isSome := by
  obtain ⟨heap', hdelete, hchain, -, hframe⟩ := delete_spec h.holds.head item hfuel
  exact ⟨heap', hdelete, hchain, (hframe.same q.tail h.outside).trans h.holds.tail,
    fun r => (hframe.nodes r).trans (h.nodes r)⟩

theorem last_erase_iff (h : Chain heap q.head items) (item : Ptr) :
    (items.erase item).getLastD NULL = items.getLastD NULL ↔ items.getLast? ≠ some item := by
  have hnodup := h.acyclic.of_cons
  constructor
  · intro hlast heq
    have hmem : item ∈ items := List.mem_of_getLast? heq
    have hitem : items.getLastD NULL = item := by rw [List.getLastD_eq_getLast?, heq, Option.getD_some]
    have hnull : item ≠ NULL := h.ne_null (List.mem_cons_of_mem _ hmem)
    rw [hitem, List.getLastD_eq_getLast?] at hlast
    rcases hrest : (items.erase item).getLast? with _ | y
    · rw [hrest] at hlast
      exact hnull hlast.symm
    · rw [hrest, Option.getD_some] at hlast
      exact (hnodup.not_mem_erase) (hlast ▸ List.mem_of_getLast? hrest)
  · intro hne
    by_cases hmem : item ∈ items
    · obtain ⟨a, b, rfl⟩ := List.append_of_mem hmem
      have hea : item ∉ a := fun ha => (List.nodup_append.mp hnodup).2.2 item ha item List.mem_cons_self rfl
      rw [List.erase_append_right _ hea, List.erase_cons_head]
      rcases List.eq_nil_or_concat b with rfl | ⟨b, y, rfl⟩
      · simp at hne
      · rw [List.concat_eq_append, ← List.append_assoc, List.getLastD_concat, ← List.cons_append, ← List.append_assoc,
          List.getLastD_concat]
    · rw [List.erase_of_not_mem hmem]

/-! ## All runs -/

variable {op : QueueOp} {ops : List QueueOp} {fuel : Nat}

theorem queueStep_keeps (h : QueueInv heap0 heap q items) (hadd : Added heap0 q items op) (hlast : KeepsLast items op)
    (hfuel : items.length + 1 < fuel) :
    ∃ heap', queueStep fuel q heap op = some heap' ∧ QueueInv heap0 heap' q (itemsAfter items op) := by
  cases op with
  | append item =>
    obtain ⟨hnode, hitem, hhead, htail⟩ := hadd item (Or.inl rfl)
    rw [← h.nodes] at hnode
    exact append_keeps h hnode hitem hhead htail
  | prepend item =>
    obtain ⟨hnode, hitem, hhead, htail⟩ := hadd item (Or.inr rfl)
    rw [← h.nodes] at hnode
    exact prepend_keeps h hnode hitem hhead htail
  | remove =>
    obtain ⟨heap', hremove, hinv⟩ := remove_keeps h
    exact ⟨heap', congrArg (Option.map Prod.fst) hremove, hinv⟩
  | delete item =>
    obtain ⟨heap', hdelete, hchain, htail, hnodes⟩ := delete_leaves_tail h item hfuel
    refine ⟨heap', congrArg (Option.map Prod.fst) hdelete, ⟨⟨hchain, ?_⟩, ?_, hnodes⟩⟩
    · rw [htail, itemsAfter, (last_erase_iff h.holds.head item).mpr (hlast item rfl)]
    · have := h.outside
      rw [List.mem_cons, not_or] at this ⊢
      exact ⟨this.1, fun hmem => this.2 (List.mem_of_mem_erase hmem)⟩
  | reset => exact reset_keeps h (by omega)

theorem deleteLast_breaks (h : QueueInv heap0 heap q items) (hlast : ¬ KeepsLast items op)
    (hfuel : items.length + 1 < fuel) :
    ¬ InStep q ((queueMachine fuel q).step (some heap, items) op).1 := by
  -- the deletion of the last item leaves the tail at it
  unfold KeepsLast at hlast
  push Not at hlast
  obtain ⟨item, rfl, hitem⟩ := hlast
  obtain ⟨heap1, hdelete, -, htail, -⟩ := delete_leaves_tail h item hfuel
  rintro ⟨heap', hstep, hholds⟩
  have hrun : queueStep fuel q heap (.delete item) = some heap1 := congrArg (Option.map Prod.fst) hdelete
  obtain rfl : heap1 = heap' := Option.some.inj (hrun.symm.trans hstep)
  have hsame := Option.some.inj (hholds.tail.symm.trans htail)
  exact (last_erase_iff h.holds.head item).mp hsame hitem

theorem length_itemsAfter (items : List Ptr) (op : QueueOp) : (itemsAfter items op).length ≤ items.length + 1 := by
  cases op with
  | append item => simp [itemsAfter]
  | prepend item => simp [itemsAfter]
  | remove =>
    rw [itemsAfter, List.length_tail]
    omega
  | delete item => exact Nat.le_succ_of_le List.length_erase_le
  | reset => exact Nat.zero_le _

theorem always_iff_along (h : QueueInv heap0 heap q items) (hadds : Along (Added heap0 q) ops items)
    (hfuel : items.length + ops.length + 1 < fuel) :
    (queueMachine fuel q).Always (InStep q) ops (some heap, items) ↔ Along KeepsLast ops items := by
  induction ops generalizing heap items with
  | nil => exact iff_of_true ⟨heap, rfl, h.holds⟩ trivial
  | cons op ops ih =>
    rw [List.length_cons] at hfuel
    by_cases hlast : KeepsLast items op
    · obtain ⟨heap', hstep, hinv⟩ := queueStep_keeps h hadds.1 hlast (by omega : items.length + 1 < fuel)
      have hlen := length_itemsAfter items op
      have hrest := ih hinv hadds.2 (by omega)
      have hnext : ((queueMachine fuel q).step (some heap, items) op).1 = (some heap', itemsAfter items op) :=
        Prod.ext hstep rfl
      rw [Machine.Always, hnext, hrest]
      exact ⟨fun hrun => ⟨hlast, hrun.2⟩, fun halong => ⟨⟨heap, rfl, h.holds⟩, halong.2⟩⟩
    · refine iff_of_false (fun hrun => ?_) fun halong => hlast halong.1
      exact deleteLast_breaks h hlast (by omega) hrun.2.start

theorem queue_init (hq : Headers heap q) :
    ∃ heap', mu_queue_init heap q = some heap' ∧ QueueInv heap heap' q [] := by
  obtain ⟨heap1, hwrite1, hnext1⟩ := write_eq hq.head NULL
  have htail : (heap1.next q.tail).isSome := by
    rw [hnext1, isSome_update hq.head]
    exact hq.tail
  have hempty : Path heap1.next q.head [] NULL := by
    rw [hnext1]
    exact Function.update_self ..
  have hnodes (r : Ptr) : (heap1.next r).isSome = (heap.next r).isSome := by rw [hnext1, isSome_update hq.head]
  obtain ⟨heap', hwrite, hinv⟩ := set_tail (chain_of_path hempty) hnodes htail (by simpa using hq.apart.symm)
  refine ⟨heap', ?_, hinv⟩
  simp only [mu_queue_init, mu_list_init, hwrite1, Option.bind_eq_bind, Option.bind_some]
  exact hwrite

/-- The queue is a list in every state of a run exactly if no deletion takes its last item. -/
theorem queue_always_iff (heap : Heap) (q : mu_queue_t) (hq : Headers heap q) (ops : List QueueOp)
    (hadds : Along (Added heap q) ops []) (fuel : Nat) (hfuel : ops.length + 1 < fuel) :
    (queueMachine fuel q).Always (InStep q) ops (mu_queue_init heap q, []) ↔ Along KeepsLast ops [] := by
  obtain ⟨heap', hinit, hinv⟩ := queue_init hq
  rw [hinit]
  exact always_iff_along hinv hadds (by rw [List.length_nil]; omega)

/-- The headers of a queue at 8 and 16, and two nodes at 24 and 32. -/
def queueCells : Heap where
  next p := if p ∈ [8, 16, 24, 32] then some NULL else none
  addressable p hp := by
    have hmem : p ∈ [8, 16, 24, 32] := by
      by_contra hno
      rw [if_neg hno] at hp
      cases hp
    have hall : ∀ r ∈ [8, 16, 24, 32], r ≠ NULL ∧ r < 2 ^ 64 := by decide
    exact hall p hmem

theorem queueCells_headers : Headers queueCells ⟨8, 16⟩ := ⟨rfl, rfl, by decide⟩

/-- The first of two items is deleted. -/
def deleteFirst : List QueueOp := [.append 24, .append 32, .delete 24, .append 24, .remove, .reset]

theorem deleteFirst_added : Along (Added queueCells ⟨8, 16⟩) deleteFirst [] := by
  refine ⟨?_, ?_, ?_, ?_, ?_, ?_, trivial⟩
  all_goals
    rintro item (hop | hop) <;> cases hop <;> decide

theorem queue_always_iff_delete_first :
    (queueMachine 8 ⟨8, 16⟩).Always (InStep ⟨8, 16⟩) deleteFirst (mu_queue_init queueCells ⟨8, 16⟩, []) ↔
      Along KeepsLast deleteFirst [] :=
  queue_always_iff queueCells ⟨8, 16⟩ queueCells_headers deleteFirst deleteFirst_added 8 (by decide)

/-- The only item is deleted before another one is appended. -/
def deleteLast : List QueueOp := [.append 24, .delete 24, .append 32]

theorem deleteLast_added : Along (Added queueCells ⟨8, 16⟩) deleteLast [] := by
  refine ⟨?_, ?_, ?_, trivial⟩
  all_goals
    rintro item (hop | hop) <;> cases hop <;> decide

/-- The item that is appended after the deletion is not in the chain. -/
theorem delete_last_loses :
    Headers queueCells ⟨8, 16⟩ ∧ Along (Added queueCells ⟨8, 16⟩) deleteLast [] ∧
      ¬ (queueMachine 5 ⟨8, 16⟩).Always (InStep ⟨8, 16⟩) deleteLast (mu_queue_init queueCells ⟨8, 16⟩, []) := by
  refine ⟨queueCells_headers, deleteLast_added, fun hrun => ?_⟩
  obtain ⟨heap, hheap, hholds⟩ : InStep ⟨8, 16⟩
      ((queueMachine 5 ⟨8, 16⟩).run deleteLast (mu_queue_init queueCells ⟨8, 16⟩, [])).1 := hrun.2.2.2
  have hchain : Path heap.next 8 [32] NULL := hholds.head.path
  have hlost : (((queueMachine 5 ⟨8, 16⟩).run deleteLast
      (mu_queue_init queueCells ⟨8, 16⟩, [])).1.1.bind fun heap => heap.next 8) = some NULL := by decide +kernel
  rw [hheap, Option.bind_some, hchain.first] at hlost
  cases hlost

end ToyTstat.Mulib
