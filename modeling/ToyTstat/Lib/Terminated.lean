import Mathlib.Tactic.Common

/-!
# The first terminated part of a stream

A reader that takes items up to a terminator, and no more than it has room for.
-/

namespace CLib

variable {α : Type*} [DecidableEq α] {stop : α} {room : Nat}

/-- Up to the first `stop`, and at most `room` items. -/
def upTo (stop : α) : Nat → List α → List α
  | 0, _ => []
  | _ + 1, [] => []
  | room + 1, x :: stream => if x = stop then [x] else x :: upTo stop room stream

/-- The stream has a `stop`, or as many items as there is room for. -/
def Complete (stop : α) (room : Nat) (stream : List α) : Prop := stop ∈ stream ∨ room ≤ stream.length

instance (stop : α) (room : Nat) (stream : List α) : Decidable (Complete stop room stream) :=
  inferInstanceAs (Decidable (_ ∨ _))

@[simp]
theorem upTo_nil (stop : α) (room : Nat) : upTo stop room [] = [] := by
  cases room <;> rfl

theorem upTo_length_le (stop : α) (room : Nat) (stream : List α) : (upTo stop room stream).length ≤ room := by
  induction stream generalizing room with
  | nil => simp
  | cons x stream ih =>
    cases room with
    | zero => simp [upTo]
    | succ room =>
      have := ih room
      unfold upTo
      split
      · simp
      · simpa using this

theorem upTo_append_drop (stop : α) (room : Nat) (stream : List α) :
    upTo stop room stream ++ stream.drop (upTo stop room stream).length = stream := by
  induction stream generalizing room with
  | nil => simp
  | cons x stream ih =>
    cases room with
    | zero => simp [upTo]
    | succ room =>
      unfold upTo
      split <;> simp [ih]

theorem upTo_ne_nil (hroom : room ≠ 0) {stream : List α} (hstream : stream ≠ []) : upTo stop room stream ≠ [] := by
  obtain ⟨room, rfl⟩ := Nat.exists_eq_succ_of_ne_zero hroom
  obtain ⟨x, stream, rfl⟩ := List.exists_cons_of_ne_nil hstream
  unfold upTo
  split <;> simp

theorem upTo_of_not_mem {stream : List α} (h : stop ∉ upTo stop room stream) :
    upTo stop room stream = stream.take room := by
  induction stream generalizing room with
  | nil => simp
  | cons x stream ih =>
    cases room with
    | zero => simp [upTo]
    | succ room =>
      unfold upTo at h ⊢
      split at h
      · simp_all
      · rename_i hx
        rw [if_neg hx, List.take_succ_cons, ih fun hmem => h (List.mem_cons_of_mem x hmem)]

theorem stop_mem_upTo {stream : List α} : stop ∈ upTo stop room stream ↔ stop ∈ stream.take room := by
  constructor
  · intro h
    have hprefix := congrArg (List.take room) (upTo_append_drop stop room stream)
    rw [List.take_append, List.take_of_length_le (upTo_length_le stop room stream)] at hprefix
    rw [← hprefix]
    exact List.mem_append_left _ h
  · intro h
    by_contra hnone
    rw [upTo_of_not_mem hnone] at hnone
    exact hnone h

theorem stop_mem_iff_last {stream : List α} :
    stop ∈ upTo stop room stream ↔ (upTo stop room stream).getLast? = some stop := by
  refine ⟨?_, List.mem_of_getLast?⟩
  induction stream generalizing room with
  | nil => simp
  | cons x stream ih =>
    cases room with
    | zero => simp [upTo]
    | succ room =>
      unfold upTo
      split
      · simp_all
      · rename_i hx
        rintro h
        have hmem : stop ∈ upTo stop room stream := (List.mem_cons.mp h).resolve_left (Ne.symm hx)
        rw [List.getLast?_cons, ih hmem]
        rfl

theorem stop_not_mem_of_last {stream : List α} {first : α} (h : (upTo stop room stream).getLast?.getD first ≠ stop) :
    stop ∉ upTo stop room stream := by
  intro hmem
  rw [stop_mem_iff_last.mp hmem] at h
  exact h rfl

theorem stop_not_mem_dropLast (stop : α) (room : Nat) (stream : List α) : stop ∉ (upTo stop room stream).dropLast := by
  induction stream generalizing room with
  | nil => simp
  | cons x stream ih =>
    cases room with
    | zero => simp [upTo]
    | succ room =>
      unfold upTo
      by_cases hx : x = stop
      · rw [if_pos hx]
        exact List.not_mem_nil
      · rw [if_neg hx]
        by_cases hrest : upTo stop room stream = []
        · rw [hrest]
          exact List.not_mem_nil
        · rw [List.dropLast_cons_of_ne_nil hrest, List.mem_cons, not_or]
          exact ⟨Ne.symm hx, ih room⟩

theorem upTo_append {got : List α} (hgot : ¬ Complete stop room got) (stream : List α) :
    upTo stop room (got ++ stream) = got ++ upTo stop (room - got.length) stream := by
  induction got generalizing room with
  | nil => simp
  | cons x got ih =>
    simp only [Complete, List.mem_cons, List.length_cons, not_or, Nat.not_le] at hgot
    obtain ⟨⟨hx, hmem⟩, hlength⟩ := hgot
    obtain ⟨room, rfl⟩ := Nat.exists_eq_succ_of_ne_zero (show room ≠ 0 by omega)
    have hrest : ¬ Complete stop room got := by
      simp only [Complete, not_or, Nat.not_le]
      exact ⟨hmem, by omega⟩
    rw [List.cons_append, upTo, if_neg (Ne.symm hx), ih hrest, List.cons_append, List.length_cons, Nat.succ_sub_succ]

/-- The stream is complete when the part has a `stop` or is full. -/
theorem complete_append_iff {got stream : List α} (hgot : ¬ Complete stop room got) :
    Complete stop room (got ++ stream) ↔
      stop ∈ upTo stop (room - got.length) stream ∨
        got.length + (upTo stop (room - got.length) stream).length = room := by
  simp only [Complete, not_or, Nat.not_le] at hgot
  obtain ⟨hmem, hlength⟩ := hgot
  have hle := upTo_length_le stop (room - got.length) stream
  unfold Complete
  rw [List.mem_append, List.length_append]
  by_cases hstop : stop ∈ upTo stop (room - got.length) stream
  · have := List.mem_of_mem_take (stop_mem_upTo.mp hstop)
    simp [hstop, this]
  · have htaken := congrArg List.length (upTo_of_not_mem hstop)
    rw [List.length_take] at htaken
    rw [stop_mem_upTo] at hstop
    constructor
    · rintro ((hgot | hstream) | hfull)
      · exact absurd hgot hmem
      · refine .inr ?_
        by_contra hshort
        rw [List.take_of_length_le (by omega)] at hstop
        exact hstop hstream
      · exact .inr (by omega)
    · rintro (htaken' | hfull)
      · exact absurd (stop_mem_upTo.mp htaken') hstop
      · exact .inr (by omega)

theorem upTo_of_not_complete {stream : List α} (h : ¬ Complete stop room stream) : upTo stop room stream = stream := by
  have happend := upTo_append h []
  rwa [List.append_nil, upTo_nil, List.append_nil] at happend

theorem upTo_append_of_complete {stream : List α} (h : Complete stop room stream) (more : List α) :
    upTo stop room (stream ++ more) = upTo stop room stream := by
  induction stream generalizing room with
  | nil =>
    have hroom : room = 0 := by simpa [Complete] using h
    simp [hroom, upTo]
  | cons x stream ih =>
    cases room with
    | zero => rfl
    | succ room =>
      rw [List.cons_append]
      unfold upTo
      by_cases hx : x = stop
      · rw [if_pos hx, if_pos hx]
      · have hrest : Complete stop room stream := by
          simpa [Complete, Ne.symm hx] using h
        rw [if_neg hx, if_neg hx, ih hrest]

theorem upTo_length_le_length (stop : α) (room : Nat) (stream : List α) :
    (upTo stop room stream).length ≤ stream.length := by
  have hlength := congrArg List.length (upTo_append_drop stop room stream)
  rw [List.length_append] at hlength
  omega

end CLib
