import Mathlib.Data.List.Nodup
import Mathlib.Logic.Function.Basic

/-!
# Chains of nodes

Each node has a `next` field, and `none` means that there is no node. A chain is given by the cell it
starts from and by the nodes in it. Linking and unlinking a node writes two fields.
-/

namespace CLib

variable {α : Type*} {next next' : α → Option α} {p q e x : α} {a b nodes : List α}

/-! ## Paths -/

/-- From cell `p` through `nodes`. The last of these cells leads to `q`. -/
def Path (next : α → Option α) : α → List α → α → Prop
  | p, [], q => next p = some q
  | p, x :: nodes, q => next p = some x ∧ Path next x nodes q

theorem Path.first (h : Path next p nodes q) : next p = some (nodes.headD q) := by
  cases nodes with
  | nil => exact h
  | cons x nodes => exact h.1

theorem Path.last (h : Path next p nodes q) : next (nodes.getLastD p) = some q := by
  induction nodes generalizing p with
  | nil => exact h
  | cons x nodes ih =>
    rw [List.getLastD_cons]
    exact ih h.2

theorem Path.isSome (h : Path next p nodes q) {r : α} (hr : r ∈ p :: nodes) : (next r).isSome := by
  induction nodes generalizing p with
  | nil =>
    rw [List.mem_singleton.mp hr, h.first]
    rfl
  | cons x nodes ih =>
    rcases List.mem_cons.mp hr with rfl | hr
    · rw [h.first]
      rfl
    · exact ih h.2 hr

theorem path_append :
    Path next p (a ++ b) q ↔ Path next p a (b.headD q) ∧ Path next (a.getLastD p) b q := by
  induction a generalizing p with
  | nil => exact ⟨fun h => ⟨h.first, h⟩, And.right⟩
  | cons x a ih =>
    rw [List.cons_append, List.getLastD_cons, Path, Path, ih, and_assoc]

theorem Path.congr (h : Path next p nodes q) (hsame : ∀ r ∈ p :: nodes, next' r = next r) : Path next' p nodes q := by
  induction nodes generalizing p with
  | nil => exact (hsame p List.mem_cons_self).trans h
  | cons x nodes ih =>
    exact ⟨(hsame p List.mem_cons_self).trans h.1, ih h.2 fun r hr => hsame r (List.mem_cons_of_mem p hr)⟩

theorem Path.move (h : Path next p nodes q) (hfirst : next' e = some (nodes.headD q))
    (hsame : ∀ r ∈ nodes, next' r = next r) : Path next' e nodes q := by
  cases nodes with
  | nil => exact hfirst
  | cons x nodes => exact ⟨hfirst, h.2.congr hsame⟩

theorem Path.redirect (h : Path next p nodes q) (hnodup : (p :: nodes).Nodup)
    (hlast : next' (nodes.getLastD p) = some e) (hsame : ∀ r ∈ p :: nodes, r ≠ nodes.getLastD p → next' r = next r) :
    Path next' p nodes e := by
  induction nodes generalizing p with
  | nil => exact hlast
  | cons x nodes ih =>
    rw [List.getLastD_cons] at hlast hsame
    have hp : p ≠ nodes.getLastD x := by
      intro heq
      exact (List.nodup_cons.mp hnodup).1 (heq ▸ List.getLastD_mem_cons)
    refine ⟨(hsame p List.mem_cons_self hp).trans h.1, ih h.2 hnodup.of_cons hlast ?_⟩
    exact fun r hr => hsame r (List.mem_cons_of_mem p hr)

theorem Path.unique {null : α} (hnull : next null = none) {nodes' : List α} (h : Path next p nodes null)
    (h' : Path next p nodes' null) : nodes = nodes' := by
  induction nodes generalizing p nodes' with
  | nil =>
    cases nodes' with
    | nil => rfl
    | cons x nodes' =>
      obtain rfl : null = x := Option.some.inj (h.symm.trans h'.1)
      rw [h'.2.first] at hnull
      cases hnull
  | cons x nodes ih =>
    cases nodes' with
    | nil =>
      obtain rfl : x = null := Option.some.inj (h.1.symm.trans h')
      rw [h.2.first] at hnull
      cases hnull
    | cons y nodes' =>
      obtain rfl : x = y := Option.some.inj (h.1.symm.trans h'.1)
      rw [ih h.2 h'.2]

theorem Path.nodup {null : α} (hnull : next null = none) (h : Path next p nodes null) : (p :: nodes).Nodup := by
  induction nodes generalizing p with
  | nil => exact List.nodup_singleton p
  | cons x nodes ih =>
    refine List.nodup_cons.mpr ⟨fun hp => ?_, ih h.2⟩
    -- the path from `p` on would be longer than itself
    obtain ⟨a, b, heq⟩ := List.append_of_mem hp
    have hrest : Path next p b null := by
      have hpath := h
      rw [heq, List.append_cons, path_append] at hpath
      have hlast : (a ++ [p]).getLastD p = p := by simp
      rw [hlast] at hpath
      exact hpath.2
    have hlen := congrArg List.length (h.unique hnull hrest)
    rw [heq, List.length_append, List.length_cons] at hlen
    omega

/-! ## Linking and unlinking -/

variable [DecidableEq α]

/-- `e` is put behind the cells of `a`. -/
def link (next : α → Option α) (last e x : α) : α → Option α :=
  Function.update (Function.update next e (some x)) last (some e)

/-- `e` is taken from behind `last`, and its own `next` is cleared. -/
def unlink (next : α → Option α) (last e x null : α) : α → Option α :=
  Function.update (Function.update next last (some x)) e (some null)

section

variable {last null r : α}

@[simp]
theorem link_last : link next last e x last = some e := Function.update_self ..

theorem link_new (h : e ≠ last) : link next last e x e = some x := by
  rw [link, Function.update_of_ne h, Function.update_self]

theorem link_other (hlast : r ≠ last) (he : r ≠ e) : link next last e x r = next r := by
  rw [link, Function.update_of_ne hlast, Function.update_of_ne he]

@[simp]
theorem unlink_removed : unlink next last e x null e = some null := Function.update_self ..

theorem unlink_last (h : last ≠ e) : unlink next last e x null last = some x := by
  rw [unlink, Function.update_of_ne h, Function.update_self]

theorem unlink_other (hlast : r ≠ last) (he : r ≠ e) : unlink next last e x null r = next r := by
  rw [unlink, Function.update_of_ne he, Function.update_of_ne hlast]

end

theorem Path.link (h : Path next p (a ++ b) q) (hnodup : (p :: (a ++ b)).Nodup) (he : e ∉ p :: (a ++ b)) :
    Path (CLib.link next (a.getLastD p) e (b.headD q)) p (a ++ e :: b) q := by
  have hlast : a.getLastD p ∈ p :: a := List.getLastD_mem_cons
  rw [← List.cons_append] at hnodup he
  obtain ⟨ha, hb, hdisjoint⟩ := List.nodup_append.mp hnodup
  obtain ⟨hfront, hrear⟩ := path_append.mp h
  have hne : e ≠ a.getLastD p := by
    rintro rfl
    exact he (List.mem_append_left b hlast)
  refine path_append.mpr ⟨hfront.redirect ha link_last ?_, link_last, ?_⟩
  · intro r hr hrlast
    refine link_other hrlast ?_
    rintro rfl
    exact he (List.mem_append_left b hr)
  · refine hrear.move (link_new hne) fun r hr => link_other (hdisjoint _ hlast r hr).symm ?_
    rintro rfl
    exact he (List.mem_append_right (p :: a) hr)

theorem Path.unlink (h : Path next p (a ++ e :: b) q) (hnodup : (p :: (a ++ e :: b)).Nodup) (null : α) :
    Path (CLib.unlink next (a.getLastD p) e (b.headD q) null) p (a ++ b) q := by
  have hlast : a.getLastD p ∈ p :: a := List.getLastD_mem_cons
  rw [← List.cons_append] at hnodup
  obtain ⟨ha, hb, hdisjoint⟩ := List.nodup_append.mp hnodup
  obtain ⟨hfront, -, hrear⟩ := path_append.mp h
  have hout (r : α) (hr : r ∈ p :: a) : r ≠ e := hdisjoint r hr e List.mem_cons_self
  have hcut : CLib.unlink next (a.getLastD p) e (b.headD q) null (a.getLastD p) = some (b.headD q) :=
    unlink_last (hout _ hlast)
  refine path_append.mpr ⟨hfront.redirect ha hcut ?_, hrear.move hcut ?_⟩
  · exact fun r hr hrlast => unlink_other hrlast (hout r hr)
  · intro r hr
    have hrlast : r ≠ a.getLastD p := (hdisjoint _ hlast r (List.mem_cons_of_mem e hr)).symm
    refine unlink_other hrlast ?_
    rintro rfl
    exact (List.nodup_cons.mp hb).1 hr

/-! ## What stays as it is -/

/-- The same nodes are there, and only the fields of `cells` have changed. -/
structure Frame (next next' : α → Option α) (cells : List α) : Prop where
  same : ∀ r, r ∉ cells → next' r = next r
  nodes : ∀ r, (next' r).isSome = (next r).isSome

omit [DecidableEq α] in
theorem Frame.refl (next : α → Option α) (cells : List α) : Frame next next cells := ⟨fun _ _ => rfl, fun _ => rfl⟩

omit [DecidableEq α] in
theorem Frame.trans {next'' : α → Option α} {cells : List α} (h : Frame next next' cells)
    (h' : Frame next' next'' cells) : Frame next next'' cells :=
  ⟨fun r hr => (h'.same r hr).trans (h.same r hr), fun r => (h'.nodes r).trans (h.nodes r)⟩

omit [DecidableEq α] in
theorem Frame.mono {cells cells' : List α} (h : Frame next next' cells) (hsub : cells ⊆ cells') :
    Frame next next' cells' :=
  ⟨fun r hr => h.same r fun hmem => hr (hsub hmem), h.nodes⟩

theorem isSome_update (hp : (next p).isSome) (v r : α) :
    (Function.update next p (some v) r).isSome = (next r).isSome := by
  by_cases hrp : r = p
  · rw [hrp, Function.update_self, hp]
    rfl
  · rw [Function.update_of_ne hrp]

theorem frame_update (hp : (next p).isSome) {cells : List α} (hmem : p ∈ cells) (v : α) :
    Frame next (Function.update next p (some v)) cells := by
  refine ⟨fun r hr => ?_, isSome_update hp v⟩
  apply Function.update_of_ne
  rintro rfl
  exact hr hmem

theorem frame_link (hlast : (next p).isSome) (he : (next e).isSome) (x : α) : Frame next (link next p e x) [p, e] := by
  have hnew : Frame next (Function.update next e (some x)) [p, e] := frame_update he (by simp) x
  exact hnew.trans (frame_update (by rwa [hnew.nodes]) (by simp) e)

theorem frame_unlink (hlast : (next p).isSome) (he : (next e).isSome) (x null : α) :
    Frame next (unlink next p e x null) [p, e] := by
  have hcut : Frame next (Function.update next p (some x)) [p, e] := frame_update hlast (by simp) x
  exact hcut.trans (frame_update (by rwa [hcut.nodes]) (by simp) null)

end CLib
