import ToyTstat.Code.MuList
import ToyTstat.Lib.Chain

/-!
# Linked lists as lists

The chain of a header is the list of the nodes in it. Each operation changes the chain as the operation on
lists does, and no field outside of it.
-/

open CLib ToyTstat.Code

namespace ToyTstat.Mulib

variable {heap heap' : Heap} {header r e x : Ptr} {a b nodes : List Ptr}

/-- The nodes from the header on: there are finitely many, the last leads to `NULL`, and none comes twice. -/
structure Chain (heap : Heap) (header : Ptr) (nodes : List Ptr) : Prop where
  path : Path heap.next header nodes NULL
  acyclic : (header :: nodes).Nodup

theorem next_null (heap : Heap) : heap.next NULL = none := by
  by_contra h
  exact (heap.addressable NULL (Option.isSome_iff_ne_none.mpr h)).1 rfl

theorem chain_of_path (h : Path heap.next header nodes NULL) : Chain heap header nodes :=
  ⟨h, h.nodup (next_null heap)⟩

theorem ne_null (h : heap.next r = some x) : r ≠ NULL := by
  rintro rfl
  rw [next_null] at h
  cases h

theorem Chain.ne_null (h : Chain heap header nodes) (hx : x ∈ header :: nodes) : x ≠ NULL :=
  (heap.addressable x (h.path.isSome hx)).1

/-! ## Single steps -/

theorem write_eq (hr : (heap.next r).isSome) (v : Ptr) :
    ∃ heap', heap.write r v = some heap' ∧ heap'.next = Function.update heap.next r (some v) :=
  ⟨_, dif_pos hr, rfl⟩

theorem push_link (hr : heap.next r = some x) (he : (heap.next e).isSome) :
    ∃ heap', mu_list_push heap r e = some heap' ∧ heap'.next = link heap.next r e x := by
  obtain ⟨heap1, hwrite1, hnext1⟩ := write_eq he x
  have hr1 : (heap1.next r).isSome := by
    rw [hnext1, isSome_update he, hr]
    rfl
  obtain ⟨heap2, hwrite2, hnext2⟩ := write_eq hr1 e
  refine ⟨heap2, ?_, by rw [hnext2, hnext1, link]⟩
  simp only [mu_list_push, if_pos (ne_null hr), hr, Option.bind_eq_bind, Option.bind_some, hwrite1, hwrite2]

theorem pop_unlink (hr : heap.next r = some e) (he : heap.next e = some x) :
    ∃ heap', mu_list_pop heap r = some (heap', e) ∧ heap'.next = unlink heap.next r e x NULL := by
  have hsome : (heap.next r).isSome := by
    rw [hr]
    rfl
  obtain ⟨heap1, hwrite1, hnext1⟩ := write_eq hsome x
  have he1 : (heap1.next e).isSome := by
    rw [hnext1, isSome_update hsome, he]
    rfl
  obtain ⟨heap2, hwrite2, hnext2⟩ := write_eq he1 NULL
  refine ⟨heap2, ?_, by rw [hnext2, hnext1, unlink]⟩
  simp only [mu_list_pop, if_pos (ne_null hr), hr, if_pos (ne_null he), he, Option.bind_eq_bind, Option.bind_some,
    hwrite1, hwrite2]
  rfl

theorem pop_empty (hr : heap.next r = some NULL) : mu_list_pop heap r = some (heap, NULL) := by
  simp only [mu_list_pop, if_pos (ne_null hr), hr, Option.bind_eq_bind, Option.bind_some]
  rfl

theorem is_empty_eq (hr : heap.next r = some x) : mu_list_is_empty heap r = some (x == NULL) := by
  rw [mu_list_is_empty, if_pos (ne_null hr), hr, Option.map_some]

/-! ## The front of a list -/

theorem push_spec (h : Chain heap header nodes) (he : e ∉ header :: nodes) (hnode : (heap.next e).isSome) :
    ∃ heap', mu_list_push heap header e = some heap' ∧ Chain heap' header (e :: nodes) ∧
      Frame heap.next heap'.next [header, e] := by
  obtain ⟨heap', hpush, hnext⟩ := push_link h.path.first hnode
  refine ⟨heap', hpush, chain_of_path ?_, ?_⟩
  · rw [hnext]
    exact Path.link (a := []) h.path h.acyclic he
  · rw [hnext]
    exact frame_link (h.path.isSome List.mem_cons_self) hnode _

theorem pop_spec (h : Chain heap header (e :: nodes)) :
    ∃ heap', mu_list_pop heap header = some (heap', e) ∧ Chain heap' header nodes ∧ heap'.next e = some NULL ∧
      Frame heap.next heap'.next [header, e] := by
  obtain ⟨heap', hpop, hnext⟩ := pop_unlink h.path.1 h.path.2.first
  refine ⟨heap', hpop, chain_of_path ?_, ?_, ?_⟩
  · rw [hnext]
    exact Path.unlink (a := []) h.path h.acyclic NULL
  · rw [hnext, unlink_removed]
  · rw [hnext]
    exact frame_unlink (h.path.isSome List.mem_cons_self) (h.path.2.isSome List.mem_cons_self) _ _

theorem rest_spec (h : Chain heap header nodes) : mu_list_rest heap header = some (nodes.headD NULL) := by
  rw [mu_list_rest, if_pos (ne_null h.path.first), h.path.first]

/-! ## Traversing -/

/-- The callback does nothing at a cell that does not lead to `e`, and a search for `NULL` finds nothing. -/
structure SkipsOthers (fn : mu_list_traverse_fn) : Prop where
  other : ∀ heap r x e, heap.next r = some x → x ≠ e → fn heap r e = some (heap, NULL)
  null : ∀ heap r, heap.next r = some NULL → fn heap r NULL = some (heap, NULL)

theorem find_skips : SkipsOthers list_find_aux := by
  constructor
  · intro heap r x e hr hne
    simp only [list_find_aux, hr, Option.bind_eq_bind, Option.bind_some, if_neg hne]
    rfl
  · intro heap r hr
    simp only [list_find_aux, hr, Option.bind_eq_bind, Option.bind_some, if_true]
    rfl

theorem delete_skips : SkipsOthers list_delete_aux := by
  constructor
  · intro heap r x e hr hne
    simp only [list_delete_aux, hr, Option.bind_eq_bind, Option.bind_some, if_neg hne]
    rfl
  · intro heap r hr
    simp only [list_delete_aux, hr, Option.bind_eq_bind, Option.bind_some, if_true]
    exact pop_empty hr

variable {fn : mu_list_traverse_fn}

theorem traverse_over (hfn : SkipsOthers fn) (h : Path heap.next r (a ++ b) NULL) (ha : e ∉ a) (fuel : Nat) :
    traverse_loop fn e (fuel + a.length) heap r NULL = traverse_loop fn e fuel heap (a.getLastD r) NULL := by
  induction a generalizing r with
  | nil => rfl
  | cons x a ih =>
    rw [List.mem_cons, not_or] at ha
    have hstep := hfn.other heap r x e h.1 (Ne.symm ha.1)
    have hloop : traverse_loop fn e (fuel + (x :: a).length) heap r NULL =
        traverse_loop fn e (fuel + a.length) heap x NULL := by
      rw [List.length_cons, ← Nat.add_assoc, traverse_loop, if_pos ⟨ne_null h.1, rfl⟩, hstep]
      simp only [Option.bind_eq_bind, Option.bind_some, h.1]
    rw [hloop, List.getLastD_cons]
    exact ih h.2 ha.2

theorem traverse_absent (hfn : SkipsOthers fn) (h : Chain heap header nodes) (he : e ∉ nodes) {fuel : Nat}
    (hfuel : nodes.length + 1 < fuel) : mu_list_traverse fuel heap header fn e = some (heap, NULL) := by
  obtain ⟨k, rfl⟩ : ∃ k, fuel = k + 2 + nodes.length := ⟨fuel - 2 - nodes.length, by omega⟩
  have hpath := h.path
  rw [← List.append_nil nodes] at hpath
  have hend : heap.next (nodes.getLastD header) = some NULL := h.path.last
  have hlast : fn heap (nodes.getLastD header) e = some (heap, NULL) := by
    by_cases hnull : NULL = e
    · exact hnull ▸ hfn.null heap _ hend
    · exact hfn.other heap _ NULL e hend hnull
  rw [mu_list_traverse, traverse_over hfn hpath he, traverse_loop, if_pos ⟨ne_null hend, rfl⟩, hlast]
  simp only [Option.bind_eq_bind, Option.bind_some, hend]
  rfl

theorem traverse_present (hfn : SkipsOthers fn) (h : Chain heap header (a ++ e :: b))
    (hcall : fn heap (a.getLastD header) e = some (heap', e)) (hnext : (heap'.next (a.getLastD header)).isSome)
    {fuel : Nat} (hfuel : (a ++ e :: b).length + 1 < fuel) :
    mu_list_traverse fuel heap header fn e = some (heap', e) := by
  rw [List.length_append] at hfuel
  obtain ⟨k, rfl⟩ : ∃ k, fuel = k + 2 + a.length := ⟨fuel - 2 - a.length, by omega⟩
  have hcell : heap.next (a.getLastD header) = some e := (path_append.mp h.path).1.last
  have he : e ∉ a := by
    intro hmem
    have hdisjoint := (List.nodup_append.mp h.acyclic.of_cons).2.2
    exact hdisjoint e hmem e List.mem_cons_self rfl
  have hstop : ¬ e = NULL := h.ne_null (by simp)
  obtain ⟨y, hy⟩ := Option.isSome_iff_exists.mp hnext
  rw [mu_list_traverse, traverse_over hfn h.path he, traverse_loop, if_pos ⟨ne_null hcell, rfl⟩, hcall]
  simp only [Option.bind_eq_bind, Option.bind_some, hy]
  rw [traverse_loop, if_neg fun h => hstop h.2]

theorem find_spec (h : Chain heap header nodes) (e : Ptr) {fuel : Nat} (hfuel : nodes.length + 1 < fuel) :
    mu_list_find fuel heap header e = some (heap, if e ∈ nodes then e else NULL) := by
  by_cases he : e ∈ nodes
  · obtain ⟨a, b, rfl⟩ := List.append_of_mem he
    have hcell : heap.next (a.getLastD header) = some e := (path_append.mp h.path).1.last
    have hcall : list_find_aux heap (a.getLastD header) e = some (heap, e) := by
      simp only [list_find_aux, hcell, Option.bind_eq_bind, Option.bind_some, if_true]
      rfl
    rw [if_pos he]
    exact traverse_present find_skips h hcall (by rw [hcell]; rfl) hfuel
  · rw [if_neg he]
    exact traverse_absent find_skips h he hfuel

theorem contains_spec (h : Chain heap header nodes) (e : Ptr) {fuel : Nat} (hfuel : nodes.length + 1 < fuel) :
    mu_list_contains fuel heap header e = some (decide (e ∈ nodes)) := by
  rw [mu_list_contains, find_spec h e hfuel, Option.map_some]
  by_cases he : e ∈ nodes
  · have hnull : e ≠ NULL := h.ne_null (List.mem_cons_of_mem header he)
    rw [if_pos he, decide_eq_true he, bne_iff_ne.mpr hnull]
  · rw [if_neg he, decide_eq_false he]
    rfl

theorem delete_spec (h : Chain heap header nodes) (e : Ptr) {fuel : Nat} (hfuel : nodes.length + 1 < fuel) :
    ∃ heap', mu_list_delete fuel heap header e = some (heap', if e ∈ nodes then e else NULL) ∧
      Chain heap' header (nodes.erase e) ∧ (e ∈ nodes → heap'.next e = some NULL) ∧
      Frame heap.next heap'.next (header :: nodes) := by
  by_cases he : e ∈ nodes
  · obtain ⟨a, b, rfl⟩ := List.append_of_mem he
    obtain ⟨hfront, hrear⟩ := path_append.mp h.path
    have hcell : heap.next (a.getLastD header) = some e := hfront.last
    have hsome : (heap.next (a.getLastD header)).isSome := by
      rw [hcell]
      rfl
    obtain ⟨heap', hpop, hnext⟩ := pop_unlink hcell hrear.2.first
    have hframe : Frame heap.next heap'.next [a.getLastD header, e] := by
      rw [hnext]
      exact frame_unlink hsome (h.path.isSome (by simp)) _ _
    have hcall : list_delete_aux heap (a.getLastD header) e = some (heap', e) := by
      simp only [list_delete_aux, hcell, Option.bind_eq_bind, Option.bind_some, if_true, hpop]
    have hea : e ∉ a := fun hmem =>
      (List.nodup_append.mp h.acyclic.of_cons).2.2 e hmem e List.mem_cons_self rfl
    refine ⟨heap', ?_, chain_of_path ?_, fun _ => by rw [hnext, unlink_removed], hframe.mono ?_⟩
    · rw [if_pos he]
      exact traverse_present delete_skips h hcall (by rwa [hframe.nodes]) hfuel
    · rw [List.erase_append_right _ hea, List.erase_cons_head, hnext]
      exact h.path.unlink h.acyclic NULL
    · have hlast : a.getLastD header ∈ header :: a := List.getLastD_mem_cons
      intro r hr
      rcases List.mem_cons.mp hr with rfl | hr
      · exact List.mem_append_left (e :: b) hlast
      · rw [List.mem_singleton.mp hr]
        simp
  · rw [if_neg he, List.erase_of_not_mem he]
    exact ⟨heap, traverse_absent delete_skips h he hfuel, h, fun h => absurd h he, Frame.refl _ _⟩

/-! ## Length -/

theorem Chain.length_lt (h : Chain heap header nodes) : nodes.length < 2 ^ 64 := by
  have hsub : (header :: nodes).toFinset ⊆ Finset.range (2 ^ 64) := by
    intro r hr
    exact Finset.mem_range.mpr (heap.addressable r (h.path.isSome (List.mem_toFinset.mp hr))).2
  have hcard := Finset.card_le_card hsub
  rw [List.toFinset_card_of_nodup h.acyclic, Finset.card_range, List.length_cons] at hcard
  exact hcard

theorem length_loop_eq (h : Path heap.next r nodes NULL) {length fuel : Nat} (hlength : length + nodes.length < 2 ^ 64)
    (hfuel : nodes.length < fuel) : length_loop heap fuel r length = some (length + nodes.length) := by
  induction nodes generalizing r length fuel with
  | nil =>
    obtain ⟨k, rfl⟩ := Nat.exists_eq_add_of_lt hfuel
    rw [length_loop, if_pos (ne_null h.first), h.first, Option.bind_eq_bind, Option.bind_some]
    rfl
  | cons x nodes ih =>
    rw [List.length_cons] at hlength hfuel
    obtain ⟨k, rfl⟩ : ∃ k, fuel = k + 1 := ⟨fuel - 1, by omega⟩
    have hx : x ≠ NULL := ne_null h.2.first
    rw [length_loop, if_pos (ne_null h.first), h.first]
    simp only [Option.bind_eq_bind, Option.bind_some, List.headD_cons, ne_eq, hx, not_false_eq_true, if_true]
    rw [usize_succ (by omega), ih h.2 (by omega) (by omega), List.length_cons, Nat.add_assoc, Nat.add_comm 1]

theorem length_spec (h : Chain heap header nodes) {fuel : Nat} (hfuel : nodes.length < fuel) :
    mu_list_length fuel heap header = some nodes.length := by
  have hlength := h.length_lt
  rw [mu_list_length, length_loop_eq h.path (by omega) hfuel, Nat.zero_add]

/-! ## Reversing -/

variable {rev : Ptr} {done rest : List Ptr}

theorem reverse_loop_spec (h : Path heap.next header rest NULL) (hrev : Path heap.next rev done NULL)
    (hnodup : (header :: rest ++ rev :: done).Nodup) {fuel : Nat} (hfuel : rest.length < fuel) :
    ∃ heap', reverse_loop header rev fuel heap = some heap' ∧ Path heap'.next header [] NULL ∧
      Path heap'.next rev (rest.reverse ++ done) NULL ∧
      Frame heap.next heap'.next (header :: rest ++ rev :: done) := by
  -- the rest of the list is moved to the front of what is reversed already
  induction rest generalizing heap done fuel with
  | nil =>
    obtain ⟨k, rfl⟩ := Nat.exists_eq_add_of_lt hfuel
    refine ⟨heap, ?_, h, hrev, Frame.refl _ _⟩
    rw [reverse_loop, is_empty_eq h.first]
    rfl
  | cons x rest ih =>
    rw [List.length_cons] at hfuel
    obtain ⟨k, rfl⟩ : ∃ k, fuel = k + 1 := ⟨fuel - 1, by omega⟩
    -- the node is taken off the front of the list
    obtain ⟨heap1, hpop, hchain1, -, hframe1⟩ := pop_spec (chain_of_path h)
    have hrev1 : Path heap1.next rev done NULL := by
      refine hrev.congr fun r hr => hframe1.same r ?_
      have := (List.nodup_append.mp hnodup).2.2
      grind
    -- and put in front of what is reversed
    have hx : x ∉ rev :: done := by grind
    have hnode : (heap1.next x).isSome := by
      rw [hframe1.nodes]
      exact h.2.isSome List.mem_cons_self
    obtain ⟨heap2, hpush, hchain2, hframe2⟩ := push_spec (chain_of_path hrev1) hx hnode
    have hpath2 : Path heap2.next header rest NULL := by
      refine hchain1.path.congr fun r hr => hframe2.same r ?_
      grind
    obtain ⟨heap', hloop, hempty, hreversed, hframe⟩ := ih hpath2 hchain2.path (by grind) (by omega : rest.length < k)
    refine ⟨heap', ?_, hempty, ?_, ?_⟩
    · rw [reverse_loop, is_empty_eq h.first]
      simp only [Option.bind_eq_bind, Option.bind_some, hpop, hpush, hloop, List.headD_cons, beq_iff_eq,
        ne_null h.2.first, if_false]
    · rwa [List.reverse_cons, List.append_assoc, List.singleton_append]
    · refine (hframe1.mono ?_).trans ((hframe2.mono ?_).trans (hframe.mono ?_))
      all_goals intro r; grind

theorem enter_next (var : Heap.Local heap) :
    (heap.enter var).next = Function.update heap.next var.address (some NULL) := rfl

theorem leave_next (address : Ptr) : (heap.leave address).next = Function.update heap.next address none := rfl

theorem init_local (reversed : Heap.Local heap) :
    ∃ heap', mu_list_init (heap.enter reversed) reversed.address = some heap' ∧
      Path heap'.next reversed.address [] NULL ∧ ∀ r, r ≠ reversed.address → heap'.next r = heap.next r := by
  have hlocal : ((heap.enter reversed).next reversed.address).isSome := by
    rw [enter_next, Function.update_self]
    rfl
  obtain ⟨heap', hinit, hnext⟩ := write_eq hlocal NULL
  refine ⟨heap', hinit, ?_, fun r hr => ?_⟩
  · rw [hnext]
    exact Function.update_self ..
  · rw [hnext, Function.update_of_ne hr, enter_next, Function.update_of_ne hr]

/-- Between the entry and the return, the local header is one more cell that may change. -/
theorem frame_local {heap1 heap2 : Heap} {cells : List Ptr} (reversed : Heap.Local heap)
    (henter : ∀ r, r ≠ reversed.address → heap1.next r = heap.next r)
    (h : Frame heap1.next heap2.next (cells ++ [reversed.address])) :
    Frame heap.next (heap2.leave reversed.address).next cells := by
  have hleave (r : Ptr) (hr : r ≠ reversed.address) : (heap2.leave reversed.address).next r = heap2.next r := by
    rw [leave_next, Function.update_of_ne hr]
  have hgone : (heap2.leave reversed.address).next reversed.address = heap.next reversed.address := by
    rw [leave_next, Function.update_self, reversed.fresh]
  constructor
  · intro r hcells
    by_cases hr : r = reversed.address
    · rw [hr, hgone]
    · rw [hleave r hr, h.same r (by simp [hcells, hr]), henter r hr]
  · intro r
    by_cases hr : r = reversed.address
    · rw [hr, hgone]
    · rw [hleave r hr, h.nodes, henter r hr]

theorem local_not_mem (reversed : Heap.Local heap) (h : Path heap.next header nodes NULL) :
    reversed.address ∉ header :: nodes := by
  intro hmem
  have hsome := h.isSome hmem
  rw [reversed.fresh] at hsome
  cases hsome

theorem reverse_spec (h : Chain heap header nodes) (reversed : Heap.Local heap) {fuel : Nat}
    (hfuel : nodes.length < fuel) :
    ∃ heap', mu_list_reverse fuel heap header reversed = some heap' ∧ Chain heap' header nodes.reverse ∧
      Frame heap.next heap'.next (header :: nodes) := by
  have hout := local_not_mem reversed h.path
  obtain ⟨heap1, hinit, hempty1, hother⟩ := init_local reversed
  have hpath1 : Path heap1.next header nodes NULL :=
    h.path.congr fun r hr => hother r fun heq => hout (heq ▸ hr)
  have hnodup : (header :: nodes ++ [reversed.address]).Nodup :=
    List.nodup_append_comm.mp (List.nodup_cons.mpr ⟨hout, h.acyclic⟩)
  obtain ⟨heap2, hloop, hempty2, hreversed, hframe⟩ := reverse_loop_spec hpath1 hempty1 hnodup hfuel
  rw [List.append_nil] at hreversed
  -- the reversed nodes are put behind the header, and the local header is gone
  have hheader : (heap2.next header).isSome := hempty2.isSome List.mem_cons_self
  obtain ⟨heap3, hwrite, hnext3⟩ := write_eq hheader (nodes.reverse.headD NULL)
  have hmoved : Path (heap3.leave reversed.address).next header nodes.reverse NULL := by
    have hne : header ≠ reversed.address := fun heq => hout (heq ▸ List.mem_cons_self)
    refine hreversed.move ?_ fun r hr => ?_
    · rw [leave_next, Function.update_of_ne hne, hnext3, Function.update_self]
    · rw [List.mem_reverse] at hr
      have hlocal : r ≠ reversed.address := fun heq => hout (heq ▸ List.mem_cons_of_mem header hr)
      have hheader : r ≠ header := fun heq => (List.nodup_cons.mp h.acyclic).1 (heq ▸ hr)
      rw [leave_next, Function.update_of_ne hlocal, hnext3, Function.update_of_ne hheader]
  have hframe3 : Frame heap1.next heap3.next (header :: nodes ++ [reversed.address]) := by
    rw [hnext3]
    exact hframe.trans (frame_update hheader List.mem_cons_self _)
  refine ⟨heap3.leave reversed.address, ?_, chain_of_path hmoved, frame_local reversed hother hframe3⟩
  simp only [mu_list_reverse, if_pos (ne_null h.path.first), hinit, Option.bind_eq_bind, Option.bind_some, hloop,
    hreversed.first, hwrite]
  rfl

/-! ## All operations -/

/-- On the chain of the header, the operations are those on lists, and the loops end. -/
structure RefinesList (heap : Heap) (header : Ptr) (nodes : List Ptr) : Prop where
  push : ∀ e, e ∉ header :: nodes → (heap.next e).isSome →
    ∃ heap', mu_list_push heap header e = some heap' ∧ Chain heap' header (e :: nodes) ∧
      Frame heap.next heap'.next [header, e]
  pop : ∃ heap', mu_list_pop heap header = some (heap', nodes.headD NULL) ∧ Chain heap' header nodes.tail ∧
    (∀ e ∈ nodes.head?, heap'.next e = some NULL) ∧ Frame heap.next heap'.next (header :: nodes)
  delete : ∀ e fuel, nodes.length + 1 < fuel →
    ∃ heap', mu_list_delete fuel heap header e = some (heap', if e ∈ nodes then e else NULL) ∧
      Chain heap' header (nodes.erase e) ∧ (e ∈ nodes → heap'.next e = some NULL) ∧
      Frame heap.next heap'.next (header :: nodes)
  reverse : ∀ reversed fuel, nodes.length < fuel →
    ∃ heap', mu_list_reverse fuel heap header reversed = some heap' ∧ Chain heap' header nodes.reverse ∧
      Frame heap.next heap'.next (header :: nodes)
  find : ∀ e fuel, nodes.length + 1 < fuel →
    mu_list_find fuel heap header e = some (heap, if e ∈ nodes then e else NULL)
  length : ∀ fuel, nodes.length < fuel → mu_list_length fuel heap header = some nodes.length

theorem refines_list (heap : Heap) (header : Ptr) (nodes : List Ptr) (h : Chain heap header nodes) :
    RefinesList heap header nodes where
  push := fun _ he hnode => push_spec h he hnode
  pop := by
    cases nodes with
    | nil => exact ⟨heap, pop_empty h.path.first, h, by simp, Frame.refl _ _⟩
    | cons x nodes =>
      obtain ⟨heap', hpop, hchain, hcleared, hframe⟩ := pop_spec h
      refine ⟨heap', hpop, hchain, ?_, hframe.mono (by simp)⟩
      intro e he
      obtain rfl : x = e := Option.some.inj he
      exact hcleared
  delete := fun e _ hfuel => delete_spec h e hfuel
  reverse := fun reversed _ hfuel => reverse_spec h reversed hfuel
  find := fun e _ hfuel => find_spec h e hfuel
  length := fun _ hfuel => length_spec h hfuel

/-- A header at 8 and the nodes 16 and 24. -/
def twoNodes : Heap where
  next p := if p = 8 then some 16 else if p = 16 then some 24 else if p = 24 then some NULL else none
  addressable p hp := by
    split at hp
    case isTrue h => exact h ▸ by decide
    split at hp
    case isTrue h => exact h ▸ by decide
    split at hp
    case isTrue h => exact h ▸ by decide
    cases hp

theorem refines_list_two_nodes : RefinesList twoNodes 8 [16, 24] :=
  refines_list twoNodes 8 [16, 24] ⟨⟨rfl, rfl, rfl⟩, by decide⟩

end ToyTstat.Mulib
