import Mathlib.Data.Set.Function
import Mathlib.Logic.Function.Basic

/-!
# Boxes: functions constrained place by place

A box is the set of functions whose values at certain places lie in certain sets. Rules that
compare the fields of a packet are boxes over its addresses.

* `box_nonempty_iff` — over distinct places a box is empty only when one of its sides is.
* `box_place_iff` — two equal boxes that have a member constrain every place alike.
-/

namespace Rids.Lib.Box

variable {ι κ α β : Type*}

/-- The functions `p` with `p (f i)` in side `i`, for every `i ∈ s`. -/
def box (s : Set ι) (f : ι → α) (side : ι → Set β) : Set (α → β) :=
  {p | ∀ i ∈ s, p (f i) ∈ side i}

variable {s : Set ι} {t : Set κ} {f : ι → α} {g : κ → α} {side : ι → Set β} {side' : κ → Set β}

/-- A point is in a box when each of its coordinates is in its side. -/
theorem mem_box {p : α → β} : p ∈ box s f side ↔ ∀ i ∈ s, p (f i) ∈ side i := Iff.rfl

/-- A box over distinct places has a member exactly when all its sides have one. -/
theorem box_nonempty_iff [Nonempty ι] [Nonempty β] (hf : Set.InjOn f s) :
    (box s f side).Nonempty ↔ ∀ i ∈ s, (side i).Nonempty := by
  constructor
  · rintro ⟨p, hp⟩ i hi
    exact ⟨p (f i), hp i hi⟩
  · intro h
    choose! x hx using h
    refine ⟨fun a => x (Function.invFunOn f s a), fun i hi => ?_⟩
    have hinv : Function.invFunOn f s (f i) = i := hf.leftInvOn_invFunOn hi
    change x (Function.invFunOn f s (f i)) ∈ side i
    rw [hinv]
    exact hx i hi

/-- A member of a box may change its value at `a` to any that the sides at `a` allow. -/
theorem update_mem_box_iff [DecidableEq α] {p : α → β} (hp : p ∈ box s f side) (a : α) (x : β) :
    Function.update p a x ∈ box s f side ↔ ∀ i ∈ s, f i = a → x ∈ side i := by
  constructor
  · rintro h i hi rfl
    have := h i hi
    rwa [Function.update_self] at this
  · intro h i hi
    by_cases ha : f i = a
    · rw [ha, Function.update_self]
      exact h i hi ha
    · rw [Function.update_of_ne ha]
      exact hp i hi

/-- Two equal boxes with a member constrain every place alike. -/
theorem box_place_iff {p : α → β} (hp : p ∈ box s f side) (heq : box s f side = box t g side')
    (a : α) (x : β) :
    (∀ i ∈ s, f i = a → x ∈ side i) ↔ ∀ j ∈ t, g j = a → x ∈ side' j := by
  classical
  rw [← update_mem_box_iff hp, ← update_mem_box_iff (heq ▸ hp), heq]

end Rids.Lib.Box
