import Mathlib.Data.List.MinMax
import Mathlib.Data.List.Sort
import Mathlib.Data.List.TakeWhile

/-!
# A list kept in stable order

The items of a list are sorted by a key, and items with one key keep their order. The comparison
of keys need not be an order, if it is one on the keys in the list.
-/

namespace CLib

variable {α κ : Type*} [DecidableEq κ] {later : κ → κ → Bool} {key : α → κ} {list sorted : List α} {x : α}

structure StableSort (later : κ → κ → Bool) (key : α → κ) (list sorted : List α) : Prop where
  same : ∀ k, sorted.filter (fun a => key a = k) = list.filter (fun a => key a = k)
  ordered : sorted.Pairwise fun a b => later (key a) (key b) = false

/-- The new item goes behind those that are not later. -/
abbrev insertBehind (later : κ → κ → Bool) (key : α → κ) (x : α) (list : List α) : List α :=
  list.orderedInsert (fun a b => later (key b) (key a)) x

omit [DecidableEq κ] in
theorem insertBehind_eq (later : κ → κ → Bool) (key : α → κ) (x : α) (list : List α) :
    insertBehind later key x list =
      list.takeWhile (fun a => !later (key a) (key x)) ++ x :: list.dropWhile (fun a => !later (key a) (key x)) := by
  unfold insertBehind
  rw [List.orderedInsert_eq_take_drop]
  simp only [decide_not, Bool.decide_eq_true]

omit [DecidableEq κ] in
theorem filter_insertBehind (later : κ → κ → Bool) (key : α → κ) {p : α → Bool} (hx : p x = false) (list : List α) :
    (insertBehind later key x list).filter p = list.filter p := by
  rw [insertBehind_eq, List.filter_append, List.filter_cons_of_neg (by simp [hx]), ← List.filter_append,
    List.takeWhile_append_dropWhile]

omit [DecidableEq κ] in
theorem filter_insertBehind_alone (later : κ → κ → Bool) (key : α → κ) {p : α → Bool} (hx : p x) {list : List α}
    (hnone : list.filter p = []) : (insertBehind later key x list).filter p = [x] := by
  have hperm : (insertBehind later key x list).Perm (x :: list) := List.perm_orderedInsert _ _ _
  have hfilter := hperm.filter p
  rw [List.filter_cons_of_pos hx, hnone] at hfilter
  exact hfilter.eq_singleton

/-- On these keys the comparison is that of a rank. -/
def RankedBy (later : κ → κ → Bool) (rank : κ → Nat) (keys : List κ) : Prop :=
  ∀ a ∈ keys, ∀ b ∈ keys, later a b ↔ rank b < rank a

namespace StableSort

theorem nil : StableSort later key ([] : List α) [] := ⟨fun _ => rfl, List.Pairwise.nil⟩

theorem mem_iff (h : StableSort later key list sorted) {a : α} : a ∈ sorted ↔ a ∈ list := by
  have hsame := h.same (key a)
  have hmem : ∀ l : List α, a ∈ l ↔ a ∈ l.filter (fun b => key b = key a) := by
    intro l
    simp
  rw [hmem sorted, hmem list, hsame]

theorem length_eq [DecidableEq α] (h : StableSort later key list sorted) : sorted.length = list.length := by
  apply List.Perm.length_eq
  rw [List.perm_iff_count]
  intro a
  have hcount : ∀ l : List α, l.count a = (l.filter (fun b => key b = key a)).count a :=
    fun l => (List.count_filter (by simp)).symm
  rw [hcount sorted, hcount list, h.same]

theorem filter (h : StableSort later key list sorted) (p : α → Bool) :
    StableSort later key (list.filter p) (sorted.filter p) := by
  refine ⟨fun k => ?_, h.ordered.filter p⟩
  rw [List.filter_comm, h.same, List.filter_comm]

theorem later_of_mem_dropWhile {rank : κ → Nat} (h : StableSort later key list sorted)
    (hrank : RankedBy later rank (key x :: list.map key)) {b : α}
    (hb : b ∈ sorted.dropWhile (fun a => !later (key a) (key x))) : rank (key x) < rank (key b) := by
  have hkey : ∀ a ∈ sorted, key a ∈ key x :: list.map key := fun a ha =>
    List.mem_cons_of_mem _ (List.mem_map_of_mem (h.mem_iff.mp ha))
  have hsub := List.dropWhile_sublist (l := sorted) fun a => !later (key a) (key x)
  have hordered := h.ordered.sublist hsub
  have hfirst := List.head?_dropWhile_not (fun a => !later (key a) (key x)) sorted
  cases hdrop : sorted.dropWhile (fun a => !later (key a) (key x)) with
  | nil =>
    rw [hdrop] at hb
    cases hb
  | cons first rest =>
    rw [hdrop] at hb hordered hsub hfirst
    have hfirstmem : key first ∈ key x :: list.map key := hkey first (hsub.mem List.mem_cons_self)
    have hbmem : key b ∈ key x :: list.map key := hkey b (hsub.mem hb)
    have hlt : rank (key x) < rank (key first) := by
      rw [← hrank _ hfirstmem _ List.mem_cons_self]
      simpa using hfirst
    rcases List.mem_cons.mp hb with rfl | hrest
    · exact hlt
    · have hle : ¬ rank (key b) < rank (key first) := by
        rw [← hrank _ hfirstmem _ hbmem, Bool.not_eq_true]
        exact List.rel_of_pairwise_cons hordered hrest
      omega

theorem filter_key_insertBehind {rank : κ → Nat} (h : StableSort later key list sorted)
    (hrank : RankedBy later rank (key x :: list.map key)) (k : κ) :
    (insertBehind later key x sorted).filter (fun a => key a = k) = (list ++ [x]).filter (fun a => key a = k) := by
  by_cases hk : key x = k
  · -- no item behind the new one has its key
    have hnone : (sorted.dropWhile (fun a => !later (key a) (key x))).filter (fun a => key a = k) = [] := by
      rw [List.filter_eq_nil_iff]
      intro b hb hbk
      have hlt := h.later_of_mem_dropWhile hrank hb
      rw [of_decide_eq_true hbk, hk] at hlt
      exact absurd hlt (Nat.lt_irrefl _)
    have hsplit : (sorted.takeWhile (fun a => !later (key a) (key x))).filter (fun a => key a = k) =
        sorted.filter (fun a => key a = k) := by
      rw [← List.append_nil (List.filter _ (List.takeWhile _ _)), ← hnone, ← List.filter_append,
        List.takeWhile_append_dropWhile]
    rw [insertBehind_eq, List.filter_append, List.filter_append, List.filter_cons, hnone, hsplit, h.same,
      if_pos (by simpa using hk), List.filter_cons_of_pos (by simpa using hk), List.filter_nil]
  · rw [filter_insertBehind later key (by simpa using hk), h.same, List.filter_append,
      List.filter_cons_of_neg (by simpa using hk), List.filter_nil, List.append_nil]

theorem ordered_insertBehind {rank : κ → Nat} (h : StableSort later key list sorted)
    (hrank : RankedBy later rank (key x :: list.map key)) :
    (insertBehind later key x sorted).Pairwise fun a b => later (key a) (key b) = false := by
  have hordered := h.ordered
  rw [← List.takeWhile_append_dropWhile (p := fun a => !later (key a) (key x)) (l := sorted),
    List.pairwise_append] at hordered
  obtain ⟨htake, hdrop, hcross⟩ := hordered
  rw [insertBehind_eq, List.pairwise_append, List.pairwise_cons]
  refine ⟨htake, ⟨fun b hb => ?_, hdrop⟩, fun a ha b hb => ?_⟩
  · have hbmem : key b ∈ key x :: list.map key :=
      List.mem_cons_of_mem _ (List.mem_map_of_mem (h.mem_iff.mp ((List.dropWhile_sublist _).mem hb)))
    have hlt := h.later_of_mem_dropWhile hrank hb
    rw [← Bool.not_eq_true, hrank _ List.mem_cons_self _ hbmem]
    exact hlt.asymm
  · rcases List.mem_cons.mp hb with rfl | hb
    · simpa using List.mem_takeWhile_imp ha
    · exact hcross a ha b hb

theorem insert {rank : κ → Nat} (h : StableSort later key list sorted)
    (hrank : RankedBy later rank (key x :: list.map key)) :
    StableSort later key (list ++ [x]) (insertBehind later key x sorted) :=
  ⟨h.filter_key_insertBehind hrank, h.ordered_insertBehind hrank⟩

theorem pop [DecidableEq α] (h : StableSort later key list (x :: sorted)) :
    StableSort later key (list.erase x) sorted := by
  refine ⟨fun k => ?_, (List.pairwise_cons.mp h.ordered).2⟩
  have hsame := congrArg (List.erase · x) (h.same k)
  rw [List.erase_filter, List.erase_filter, List.erase_cons_head] at hsame
  exact hsame

theorem idxOf_le_of_filter [DecidableEq α] {p : α → Bool} {rest : List α} (hfilter : list.filter p = x :: rest) {a : α}
    (ha : p a) : list.idxOf x ≤ list.idxOf a := by
  induction list with
  | nil => cases hfilter
  | cons b list ih =>
    rw [List.idxOf_cons, List.idxOf_cons]
    by_cases hb : p b
    · rw [List.filter_cons_of_pos hb] at hfilter
      cases hfilter
      rw [beq_self_eq_true, cond_true]
      exact Nat.zero_le _
    · rw [List.filter_cons_of_neg hb] at hfilter
      have hne : b ≠ a := by
        rintro rfl
        exact hb ha
      rw [beq_false_of_ne hne, cond_false]
      cases b == x with
      | true => exact Nat.zero_le _
      | false => exact Nat.succ_le_succ (ih hfilter)

/-- The first item is the earliest one, and among those with its key the first of the list. -/
theorem argmin [DecidableEq α] {β : Type*} [LinearOrder β] {f : α → β} (h : StableSort later key list (x :: sorted))
    (hf : ∀ a ∈ list, later (key x) (key a) ↔ f a < f x) (hinj : ∀ a ∈ list, f a = f x → key a = key x) :
    list.argmin f = some x := by
  have hle : ∀ a ∈ list, f x ≤ f a := by
    intro a ha
    rcases List.mem_cons.mp (h.mem_iff.mpr ha) with rfl | hrest
    · exact le_rfl
    · rw [← not_lt, ← hf a ha, Bool.not_eq_true]
      exact List.rel_of_pairwise_cons h.ordered hrest
  have hsame := (h.same (key x)).symm
  rw [List.filter_cons_of_pos (by simp)] at hsame
  rw [List.argmin_eq_some_iff]
  refine ⟨h.mem_iff.mp List.mem_cons_self, hle, fun a ha hale => ?_⟩
  have hkey := hinj a ha (le_antisymm hale (hle a ha))
  exact idxOf_le_of_filter hsame (by simpa using hkey)

end StableSort

end CLib
