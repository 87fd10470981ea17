import Mathlib.Data.List.Nodup
import Mathlib.Tactic.TypeStar

/-!
# Taking turns

The first of a line has its turn and the others wait. Whoever leaves the line makes room for the next.
-/

namespace CLib

variable {α : Type*} [DecidableEq α]

/-- Whose turn comes when the line changes. -/
def turn (before after : List α) : Option α := if after.head? = before.head? then none else after.head?

inductive Move (α : Type*)
  | join (x : α)
  | leave (x : α)

def Move.apply (line : List α) : Move α → List α
  | join x => line ++ [x]
  | leave x => line.erase x

def Move.Allowed (line : List α) : Move α → Prop
  | join x => x ∉ line
  | leave x => x ∈ line

structure Turns (α : Type*) where
  line : List α
  /-- Who joined and did not leave while waiting, the last to join first. -/
  joined : List α
  /-- Who had a turn, in order. -/
  served : List α

namespace Turns

def move (t : Turns α) (m : Move α) : Turns α where
  line := m.apply t.line
  joined := match m with
    | .join x => x :: t.joined
    | .leave x => if t.line.head? = some x then t.joined else t.joined.erase x
  served := t.served ++ (turn t.line (m.apply t.line)).toList

/-- The turns come in the order of joining. -/
structure InOrder (t : Turns α) : Prop where
  nodup : t.line.Nodup
  order : t.joined.reverse = t.served ++ t.line.tail

variable {t : Turns α} {x : α} {line : List α}

theorem turn_empty (x : α) : turn [] [x] = some x := rfl

theorem turn_same_first (x : α) (line rest : List α) : turn (x :: line) (x :: rest) = none := if_pos rfl

theorem turn_leave_first (h : (x :: line).Nodup) : turn (x :: line) line = line.head? := by
  cases line with
  | nil => rfl
  | cons y line =>
    have hne : y ≠ x := fun heq => (List.nodup_cons.mp h).1 (heq ▸ List.mem_cons_self)
    exact if_neg fun heq => hne (Option.some.inj heq)

theorem InOrder.join (h : t.InOrder) (hx : x ∉ t.line) : (t.move (.join x)).InOrder := by
  obtain ⟨line, joined, served⟩ := t
  have horder : joined.reverse = served ++ line.tail := h.order
  refine ⟨List.nodup_append_comm.mp (List.nodup_cons.mpr ⟨hx, h.nodup⟩), ?_⟩
  cases line with
  | nil => simp [move, Move.apply, turn_empty, horder]
  | cons y line => simp [move, Move.apply, turn_same_first, horder]

theorem reverse_erase_waiting {joined served rest : List α} (horder : joined.reverse = served ++ rest)
    (hnodup : rest.Nodup) (hx : x ∈ rest) : (joined.erase x).reverse = served ++ rest.erase x := by
  have hjoined : joined = rest.reverse ++ served.reverse := by
    rw [← List.reverse_append, ← horder, List.reverse_reverse]
  have hrest : (rest.reverse.erase x).reverse = rest.erase x := by
    rw [(List.nodup_reverse.mpr hnodup).erase_eq_filter, hnodup.erase_eq_filter, List.filter_reverse,
      List.reverse_reverse]
  rw [hjoined, List.erase_append_left _ (List.mem_reverse.mpr hx), List.reverse_append, List.reverse_reverse, hrest]

theorem InOrder.leave (h : t.InOrder) (hx : x ∈ t.line) : (t.move (.leave x)).InOrder := by
  obtain ⟨line, joined, served⟩ := t
  refine ⟨h.nodup.erase x, ?_⟩
  have horder : joined.reverse = served ++ line.tail := h.order
  have hnodup : line.Nodup := h.nodup
  obtain ⟨y, line, rfl⟩ := List.exists_cons_of_ne_nil (List.ne_nil_of_mem hx)
  by_cases hfirst : x = y
  · subst hfirst
    simp only [move, Move.apply, List.erase_cons_head, List.head?_cons, if_true, horder, List.tail_cons,
      turn_leave_first hnodup]
    rw [List.append_assoc, List.append_cancel_left_eq]
    cases line <;> rfl
  · have hwaiting : x ∈ line := (List.mem_cons.mp hx).resolve_left hfirst
    have hhead : ¬ (y :: line).head? = some x := fun heq => hfirst (Option.some.inj heq).symm
    have hrest : (y :: line).erase x = y :: line.erase x :=
      List.erase_cons_tail (by rw [beq_iff_eq]; exact Ne.symm hfirst)
    simp only [move, Move.apply, if_neg hhead, hrest, turn_same_first, Option.toList_none, List.append_nil,
      List.tail_cons]
    exact reverse_erase_waiting horder (List.nodup_cons.mp hnodup).2 hwaiting

theorem InOrder.move (h : t.InOrder) {m : Move α} (hm : m.Allowed t.line) : (t.move m).InOrder := by
  cases m with
  | join x => exact h.join hm
  | leave x => exact h.leave hm

end Turns

end CLib
