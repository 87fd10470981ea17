import ToyTstat.Code.MuQueue
import ToyTstat.Lib.Machine
import ToyTstat.Lib.Ring

/-!
# `mu_spsc` under interruption

The producer is an interrupt: a whole put may come between any two memory accesses of a get.
-/

open CLib ToyTstat.Code ToyTstat.Code.mu_spsc_err_t

namespace ToyTstat.Mulib

/-! ## The two indices -/

/-- The queue holds `items`, and `taken` items were taken before them. -/
structure SpscHolds (n : Nat) (q : mu_spsc_t) (taken : Nat) (items : List Ptr) : Prop where
  size : n.isPowerOfTwo ∧ n ≤ 2 ^ 15
  ring : RingHolds n q.store.slots taken items
  /-- One slot stays free. -/
  room : items.length < n
  mask : q.mask = n - 1
  head : q.head = taken % n
  tail : q.tail = (taken + items.length) % n

theorem next_index {n : Nat} (hsize : n.isPowerOfTwo ∧ n ≤ 2 ^ 15) (i : Nat) :
    u16 ((i % n + 1) &&& (n - 1)) = (i + 1) % n := by
  obtain ⟨⟨k, rfl⟩, hle⟩ := hsize
  rw [Nat.and_two_pow_sub_one_eq_mod, Nat.mod_add_mod]
  exact Nat.mod_eq_of_lt (by omega)

variable {n taken : Nat} {q : mu_spsc_t} {items : List Ptr} {x : Ptr}

namespace SpscHolds

theorem empty_iff (h : SpscHolds n q taken items) : q.head = q.tail ↔ items = [] := by
  rw [h.head, h.tail]
  constructor
  · intro heq
    have hpos : 0 < n := (Nat.zero_le _).trans_lt h.room
    exact List.eq_nil_of_length_eq_zero (ring_slot_inj taken hpos h.room heq).symm
  · rintro rfl
    rfl

theorem full_iff (h : SpscHolds n q taken items) :
    u16 ((q.tail + 1) &&& q.mask) = q.head ↔ items.length = n - 1 := by
  have hroom := h.room
  rw [h.tail, h.mask, next_index h.size, h.head]
  constructor
  · intro (heq : (taken + (items.length + 1)) % n = (taken + 0) % n)
    by_contra hne
    exact Nat.succ_ne_zero _ (ring_slot_inj taken (by omega) (by omega) heq)
  · intro heq
    rw [Nat.add_assoc, heq, Nat.sub_add_cancel (by omega), Nat.add_mod_right]

theorem put (h : SpscHolds n q taken items) (hroom : items.length ≠ n - 1) (item : Ptr) :
    mu_spsc_put q item = ((mu_spsc_put q item).1, MU_SPSC_ERR_NONE) ∧
      SpscHolds n (mu_spsc_put q item).1 taken (items ++ [item]) := by
  have hlt := h.room
  rw [mu_spsc_put, if_neg (by rwa [h.full_iff])]
  refine ⟨rfl, h.size, ?_, ?_, h.mask, h.head, ?_⟩
  · dsimp only [PtrArray.write]
    rw [h.tail]
    exact h.ring.push hlt
  · rw [List.length_append, List.length_singleton]
    omega
  · dsimp only
    rw [h.tail, h.mask, next_index h.size, List.length_append, List.length_singleton, Nat.add_assoc]

theorem put_full (h : SpscHolds n q taken items) (hfull : items.length = n - 1) (item : Ptr) :
    mu_spsc_put q item = (q, MU_SPSC_ERR_FULL) := by
  rw [mu_spsc_put, if_pos (by rwa [h.full_iff])]

theorem read (h : SpscHolds n q taken (x :: items)) : q.store.read q.head = x := by
  rw [PtrArray.read, h.head, h.ring.front]
  rfl

theorem release (h : SpscHolds n q taken (x :: items)) :
    SpscHolds n { q with head := u16 ((q.head + 1) &&& q.mask) } (taken + 1) items := by
  have hroom := h.room
  have htail := h.tail
  rw [List.length_cons] at hroom htail
  refine ⟨h.size, h.ring.pop, by omega, h.mask, ?_, ?_⟩
  · dsimp only
    rw [h.head, h.mask, next_index h.size]
  · rw [Nat.add_comm items.length 1, ← Nat.add_assoc] at htail
    exact htail

theorem get_empty (h : SpscHolds n q taken []) : mu_spsc_get q = (q, NULL, MU_SPSC_ERR_EMPTY) := by
  rw [mu_spsc_get, if_pos (h.empty_iff.mpr rfl)]

theorem get (h : SpscHolds n q taken (x :: items)) :
    mu_spsc_get q = ({ q with head := u16 ((q.head + 1) &&& q.mask) }, x, MU_SPSC_ERR_NONE) := by
  rw [mu_spsc_get, if_neg (fun heq => List.cons_ne_nil x items (h.empty_iff.mp heq)), h.read]

end SpscHolds

/-! ## Initialisation -/

theorem mu_spsc_init_iff (q : mu_spsc_t) (store : PtrArray) (capacity : UInt16) :
    (mu_spsc_init q store capacity).2 = MU_SPSC_ERR_NONE ↔ ∃ k, 1 ≤ k ∧ k ≤ 15 ∧ capacity.toNat = 2 ^ k := by
  have hlt : capacity < 2 ↔ capacity.toNat < 2 := UInt16.lt_iff_toNat_lt
  have hsize := capacity.toNat_lt
  have hpow : capacity.toNat ≠ 0 → (IS_POWER_OF_TWO capacity.toNat ↔ capacity.toNat.isPowerOfTwo) := by
    intro hne
    rw [IS_POWER_OF_TWO, decide_eq_true_iff, Nat.and_sub_one_eq_zero_iff_isPowerOfTwo hne]
  rw [mu_spsc_init]
  split
  case isTrue hreject =>
    refine iff_of_false nofun ?_
    rintro ⟨k, hk, -, hcap⟩
    have htwo : 2 ^ 1 ≤ 2 ^ k := Nat.pow_le_pow_right (by decide) hk
    rcases hreject with hsmall | hodd
    · rw [hlt] at hsmall
      omega
    · exact hodd ((hpow (by omega)).mpr ⟨k, hcap⟩)
  case isFalse haccept =>
    rw [not_or, not_not, hlt] at haccept
    obtain ⟨hge, heven⟩ := haccept
    obtain ⟨k, hk⟩ := (hpow (by omega)).mp heven
    refine iff_of_true rfl ⟨k, ?_, ?_, hk⟩
    · by_contra hzero
      rw [Nat.lt_one_iff.mp (Nat.lt_of_not_le hzero)] at hk
      omega
    · by_contra hbig
      have : 2 ^ 16 ≤ 2 ^ k := Nat.pow_le_pow_right (by decide) (by omega)
      omega

theorem spscHolds_init {q : mu_spsc_t} {store : PtrArray} {capacity : UInt16}
    (hstore : capacity.toNat ≤ store.slots.length) (hinit : (mu_spsc_init q store capacity).2 = MU_SPSC_ERR_NONE) :
    SpscHolds capacity.toNat (mu_spsc_init q store capacity).1 0 [] := by
  obtain ⟨k, hk, hle, hcap⟩ := (mu_spsc_init_iff q store capacity).mp hinit
  have hsize : capacity.toNat ≤ 2 ^ 15 := hcap ▸ Nat.pow_le_pow_right (by decide) hle
  have haccept : ¬ (capacity < 2 ∨ ¬ IS_POWER_OF_TWO capacity.toNat) := by
    intro hreject
    rw [mu_spsc_init, if_pos hreject] at hinit
    exact absurd hinit nofun
  rw [mu_spsc_init, if_neg haccept]
  refine ⟨⟨⟨k, hcap⟩, hsize⟩, .nil hstore 0, ?_, ?_, (Nat.zero_mod _).symm, (Nat.zero_mod _).symm⟩
  · rw [hcap]
    exact Nat.two_pow_pos k
  · exact Nat.mod_eq_of_lt (by omega)

/-! ## Runs -/

inductive SpscEvent
  | put (item : Ptr)
  /-- The next memory access of the get in progress, or the first one of the next get. -/
  | access (tail_first : Bool)

inductive SpscOutput
  | put (result : mu_spsc_err_t)
  | got (item : Ptr) (result : mu_spsc_err_t)
deriving DecidableEq, Repr

structure SpscRun where
  q : mu_spsc_t
  pc : GetPc
  /-- The items of the puts that succeeded. -/
  accepted : List Ptr
  /-- The items of the gets that succeeded. -/
  returned : List Ptr
  /-- How many accepted items were not returned when `tail` was last read. -/
  waiting : Nat

/-- The next access is the read of `tail`. -/
def readsTail (tail_first : Bool) : GetPc → Bool
  | .start => tail_first
  | .compare_tail _ => true
  | _ => false

def spscPut (r : SpscRun) (item : Ptr) : SpscRun × List SpscOutput :=
  let (q, err) := mu_spsc_put r.q item
  ({ r with q, accepted := if err = MU_SPSC_ERR_NONE then r.accepted ++ [item] else r.accepted }, [.put err])

def spscAccess (r : SpscRun) (tail_first : Bool) : SpscRun × List SpscOutput :=
  let (q, pc, result) := mu_spsc_get_access tail_first r.q r.pc
  let waiting := if readsTail tail_first r.pc then r.accepted.length - r.returned.length else r.waiting
  match result with
  | none => ({ r with q, pc, waiting }, [])
  | some (item, err) =>
    ({ r with q, pc, waiting, returned := if err = MU_SPSC_ERR_NONE then r.returned ++ [item] else r.returned },
      [.got item err])

def spscMachine : Machine SpscRun SpscEvent SpscOutput where
  step
    | r, .put item => spscPut r item
    | r, .access tail_first => spscAccess r tail_first

def spscStart (q : mu_spsc_t) : SpscRun := ⟨q, .start, [], [], 0⟩

/-- A get that nothing interrupts is `mu_spsc_get`. -/
theorem get_uninterrupted (r : SpscRun) (tail_first : Bool) (hpc : r.pc = .start) :
    let accesses := List.replicate (if r.q.head = r.q.tail then 2 else 6) (SpscEvent.access tail_first)
    let (q, item, err) := mu_spsc_get r.q
    (spscMachine.run accesses r).1.q = q ∧ (spscMachine.run accesses r).1.pc = .start ∧
      (spscMachine.run accesses r).2 = [.got item err] := by
  obtain ⟨q, pc, accepted, returned, waiting⟩ := r
  dsimp only at hpc ⊢
  rw [hpc, mu_spsc_get]
  by_cases hempty : q.head = q.tail
  · rw [if_pos hempty, if_pos hempty]
    cases tail_first <;>
      simp [Machine.run_cons, List.replicate_succ, spscMachine, spscAccess, mu_spsc_get_access, GetPc.compared, hempty]
  · rw [if_neg hempty, if_neg hempty]
    cases tail_first <;>
      simp [Machine.run_cons, List.replicate_succ, spscMachine, spscAccess, mu_spsc_get_access, GetPc.compared, hempty]

/-! ## The invariant -/

/-- What the get in progress has read, and what it relies on. -/
def PcOk (n : Nat) (r : SpscRun) (items : List Ptr) : Prop :=
  match r.pc with
  | .start => True
  | .compare_tail head => head = r.q.head
  | .compare_head tail => r.waiting ≤ items.length ∧ tail = (r.returned.length + r.waiting) % n
  | .index => items ≠ []
  | .fetch head => items ≠ [] ∧ head = r.q.head
  | .advance item => items.head? = some item
  | .release item head => items.head? = some item ∧ head = r.q.head

structure SpscInv (n : Nat) (r : SpscRun) (items : List Ptr) : Prop where
  holds : SpscHolds n r.q r.returned.length items
  accepted : r.accepted = r.returned ++ items
  pc : PcOk n r items

theorem pcOk_put {r : SpscRun} (h : PcOk n r items) {q : mu_spsc_t} (hhead : q.head = r.q.head) (accepted : List Ptr)
    (item : Ptr) : PcOk n { r with q, accepted } (items ++ [item]) := by
  unfold PcOk at h ⊢
  dsimp only
  split at h
  case h_1 => trivial
  case h_2 => exact h.trans hhead.symm
  case h_3 =>
    obtain ⟨hwaiting, htail⟩ := h
    refine ⟨hwaiting.trans ?_, htail⟩
    rw [List.length_append]
    exact Nat.le_add_right _ _
  case h_4 => exact List.append_ne_nil_of_left_ne_nil h _
  case h_5 => exact ⟨List.append_ne_nil_of_left_ne_nil h.1 _, h.2.trans hhead.symm⟩
  case h_6 => rw [List.head?_append, h, Option.some_or]
  case h_7 => exact ⟨by rw [List.head?_append, h.1, Option.some_or], h.2.trans hhead.symm⟩

theorem mu_spsc_put_head (q : mu_spsc_t) (item : Ptr) : (mu_spsc_put q item).1.head = q.head := by
  rw [mu_spsc_put]
  split <;> rfl

theorem inv_put {r : SpscRun} (h : SpscInv n r items) (item : Ptr) :
    ∃ items', SpscInv n (spscPut r item).1 items' := by
  by_cases hfull : items.length = n - 1
  · rw [spscPut, h.holds.put_full hfull]
    exact ⟨items, h.holds, h.accepted, h.pc⟩
  · obtain ⟨hput, hholds⟩ := h.holds.put hfull item
    refine ⟨items ++ [item], ?_⟩
    rw [spscPut, hput]
    refine ⟨hholds, ?_, pcOk_put h.pc (mu_spsc_put_head r.q item) _ item⟩
    dsimp only
    rw [if_pos rfl, h.accepted, List.append_assoc]

theorem SpscInv.length {r : SpscRun} (h : SpscInv n r items) :
    r.accepted.length - r.returned.length = items.length := by
  rw [h.accepted, List.length_append, Nat.add_sub_cancel_left]

theorem inv_compared {r : SpscRun} (hholds : SpscHolds n r.q r.returned.length items)
    (haccepted : r.accepted = r.returned ++ items) {tail_first : Bool} {head tail : Nat}
    (hnext : mu_spsc_get_access tail_first r.q r.pc = (r.q, GetPc.compared head tail))
    (hne : head ≠ tail → items ≠ []) :
    SpscInv n (spscAccess r tail_first).1 items := by
  rw [spscAccess, hnext, GetPc.compared]
  by_cases heq : head = tail
  · rw [if_pos heq]
    exact ⟨hholds, haccepted, trivial⟩
  · rw [if_neg heq]
    exact ⟨hholds, haccepted, hne heq⟩

theorem inv_access {r : SpscRun} (h : SpscInv n r items) (tail_first : Bool) :
    ∃ items', SpscInv n (spscAccess r tail_first).1 items' := by
  have hlength := h.length
  obtain ⟨q, pc, accepted, returned, waiting⟩ := r
  obtain ⟨hholds, haccepted, hpc⟩ := h
  dsimp only at hholds haccepted hlength
  cases pc with
  | start =>
    refine ⟨items, ?_⟩
    cases tail_first with
    | true =>
      have htail : q.tail = (returned.length + (accepted.length - returned.length)) % n := by
        rw [hlength]
        exact hholds.tail
      exact ⟨hholds, haccepted, hlength.le, htail⟩
    | false => exact ⟨hholds, haccepted, rfl⟩
  | compare_tail head =>
    have hne : head ≠ q.tail → items ≠ [] := by
      rw [hpc]
      exact mt hholds.empty_iff.mpr
    exact ⟨items, inv_compared hholds haccepted rfl hne⟩
  | compare_head tail =>
    obtain ⟨hwaiting, htail⟩ := hpc
    dsimp only at hwaiting htail
    have hne : q.head ≠ tail → items ≠ [] := by
      rintro hdiff rfl
      rw [List.length_nil, Nat.le_zero] at hwaiting
      rw [hwaiting, Nat.add_zero] at htail
      exact hdiff (hholds.head.trans htail.symm)
    exact ⟨items, inv_compared hholds haccepted rfl hne⟩
  | index => exact ⟨items, hholds, haccepted, hpc, rfl⟩
  | fetch head =>
    obtain ⟨hne, (hhead : head = q.head)⟩ := hpc
    subst hhead
    obtain ⟨x, rest, rfl⟩ := List.exists_cons_of_ne_nil hne
    exact ⟨x :: rest, hholds, haccepted, congrArg some hholds.read.symm⟩
  | advance item => exact ⟨items, hholds, haccepted, hpc, rfl⟩
  | release item head =>
    obtain ⟨hitem, (hhead : head = q.head)⟩ := hpc
    subst hhead
    obtain ⟨rest, rfl⟩ := List.head?_eq_some_iff.mp hitem
    refine ⟨rest, ?_, ?_, trivial⟩
    · have hlen : (returned ++ [item]).length = returned.length + 1 := List.length_append
      rw [spscAccess, mu_spsc_get_access]
      dsimp only
      rw [if_pos rfl, hlen]
      exact hholds.release
    · rw [haccepted]
      exact List.append_cons returned item rest

theorem inv_step (r : SpscRun) (e : SpscEvent) (h : ∃ items, SpscInv n r items) :
    ∃ items, SpscInv n (spscMachine.step r e).1 items := by
  obtain ⟨items, h⟩ := h
  cases e with
  | put item => exact inv_put h item
  | access tail_first => exact inv_access h tail_first

theorem inv_start (hholds : SpscHolds n q 0 []) : SpscInv n (spscStart q) [] := ⟨hholds, rfl, trivial⟩

/-! ## What holds at every moment -/

structure SpscOk (n : Nat) (r : SpscRun) : Prop where
  /-- What was returned is the beginning of what was accepted. -/
  fifo : r.returned <+: r.accepted
  bounded : r.accepted.length - r.returned.length ≤ n - 1
  /-- Every accepted item that is not returned is in its slot. -/
  kept : ∀ i, r.returned.length ≤ i → i < r.accepted.length → r.q.store.slots[i % n]? = r.accepted[i]?
  /-- A put writes another slot. -/
  no_overwrite : ∀ i, r.returned.length ≤ i → i < r.accepted.length → r.q.tail ≠ i % n
  full : ∀ item, (spscPut r item).2 = [.put MU_SPSC_ERR_FULL] → r.accepted.length - r.returned.length = n - 1
  /-- The queue was empty when the get that finds it empty read `tail`. -/
  empty : ∀ tail_first item, (spscAccess r tail_first).2 = [.got item MU_SPSC_ERR_EMPTY] →
    (spscAccess r tail_first).1.waiting = 0

theorem spsc_empty {r : SpscRun} (h : SpscInv n r items) {tail_first : Bool} {item : Ptr}
    (hempty : (spscAccess r tail_first).2 = [.got item MU_SPSC_ERR_EMPTY]) :
    (spscAccess r tail_first).1.waiting = 0 := by
  have hlength := h.length
  obtain ⟨q, pc, accepted, returned, waiting⟩ := r
  obtain ⟨hholds, -, hpc⟩ := h
  dsimp only at hholds hlength
  cases pc with
  | compare_tail head =>
    have hhead : head = q.head := hpc
    subst hhead
    rw [spscAccess, mu_spsc_get_access, GetPc.compared] at hempty ⊢
    by_cases heq : q.head = q.tail
    · rw [if_pos heq]
      rw [hholds.empty_iff.mp heq] at hlength
      exact hlength
    · rw [if_neg heq] at hempty
      cases hempty
  | compare_head tail =>
    obtain ⟨(hwaiting : waiting ≤ items.length), (htail : tail = (returned.length + waiting) % n)⟩ := hpc
    rw [spscAccess, mu_spsc_get_access, GetPc.compared] at hempty ⊢
    by_cases heq : q.head = tail
    · have hroom := hholds.room
      rw [htail, hholds.head] at heq
      have hzero : 0 = waiting := ring_slot_inj returned.length (by omega) (by omega) heq
      rw [← hholds.head, ← htail] at heq
      rw [if_pos heq]
      exact hzero.symm
    · rw [if_neg heq] at hempty
      cases hempty
  | start => cases hempty
  | index => cases hempty
  | fetch head => cases hempty
  | advance item => cases hempty
  | release item head => cases hempty

theorem put_answer {r : SpscRun} (h : SpscInv n r items) (item : Ptr) :
    (spscPut r item).2 = [.put (if items.length = n - 1 then MU_SPSC_ERR_FULL else MU_SPSC_ERR_NONE)] := by
  by_cases hfull : items.length = n - 1
  · rw [if_pos hfull, spscPut, h.holds.put_full hfull]
  · rw [if_neg hfull, spscPut, (h.holds.put hfull item).1]

theorem SpscInv.ok {r : SpscRun} (h : SpscInv n r items) : SpscOk n r := by
  have hlength := h.length
  have hroom := h.holds.room
  constructor
  case fifo => exact ⟨items, h.accepted.symm⟩
  case bounded => omega
  case kept =>
    intro i hge hlt
    obtain ⟨j, rfl⟩ := Nat.exists_eq_add_of_le hge
    rw [h.holds.ring.slot j (by omega), h.accepted, List.getElem?_append_right hge, Nat.add_sub_cancel_left]
  case no_overwrite =>
    intro i hge hlt
    obtain ⟨j, rfl⟩ := Nat.exists_eq_add_of_le hge
    rw [h.holds.tail]
    exact ring_slot_free _ hroom (by omega)
  case full =>
    intro item hfull
    rw [put_answer h] at hfull
    split at hfull
    case isTrue heq => omega
    case isFalse => cases hfull
  case empty =>
    intro tail_first item hempty
    exact spsc_empty h hempty

/-- For every accepted capacity, and at every moment of every run. -/
theorem spsc_fifo (q : mu_spsc_t) (store : PtrArray) (capacity : UInt16)
    (hstore : capacity.toNat ≤ store.slots.length) :
    ((mu_spsc_init q store capacity).2 = MU_SPSC_ERR_NONE ↔ ∃ k, 1 ≤ k ∧ k ≤ 15 ∧ capacity.toNat = 2 ^ k) ∧
      ((mu_spsc_init q store capacity).2 = MU_SPSC_ERR_NONE →
        ∀ es, SpscOk capacity.toNat (spscMachine.run es (spscStart (mu_spsc_init q store capacity).1)).1) := by
  refine ⟨mu_spsc_init_iff q store capacity, fun hinit es => ?_⟩
  have hstart := inv_start (spscHolds_init hstore hinit)
  obtain ⟨items, hinv⟩ := Machine.run_invariant inv_step es ⟨[], hstart⟩
  exact hinv.ok

/-- A put comes in between the two reads of a comparison, and between the fetch and the release. -/
theorem spsc_fifo_interrupted :
    SpscOk 2 (spscMachine.run
      [.access true, .put 7, .access true, .access false, .put 8, .access false, .access false, .access false,
        .put 8, .access false, .access false, .put 9]
      (spscStart (mu_spsc_init ⟨0, 0, 0, ⟨[], by decide⟩⟩ ⟨[0, 0], by decide⟩ 2).1)).1 :=
  (spsc_fifo ⟨0, 0, 0, ⟨[], by decide⟩⟩ ⟨[0, 0], by decide⟩ 2 (by decide)).2 (by decide) _

end ToyTstat.Mulib
