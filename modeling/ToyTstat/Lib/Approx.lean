import Mathlib.Data.Option.Basic

/-!
# Partial results

A computation that has run out of fuel has no value yet. With more fuel it keeps the value that it has.
-/

namespace CLib

variable {α β : Type*}

/-- `y` has the value of `x`, if `x` has one. -/
def Approx (x y : Option α) : Prop := ∀ v, x = some v → y = some v

namespace Approx

@[refl]
theorem refl (x : Option α) : Approx x x := fun _ h => h

theorem none (y : Option α) : Approx none y := nofun

theorem bind {x y : Option α} {f g : α → Option β} (hxy : Approx x y) (hfg : ∀ v, Approx (f v) (g v)) :
    Approx (x.bind f) (y.bind g) := by
  intro w hw
  obtain ⟨v, hv, hw⟩ := Option.bind_eq_some_iff.mp hw
  rw [hxy v hv, Option.bind_some]
  exact hfg v w hw

theorem ite {p : Prop} [Decidable p] {x y x' y' : Option α} (hx : Approx x x') (hy : Approx y y') :
    Approx (if p then x else y) (if p then x' else y') := by
  split
  · exact hx
  · exact hy

end Approx

end CLib
