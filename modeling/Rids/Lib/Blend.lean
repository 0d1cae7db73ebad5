import Mathlib.Algebra.Order.Field.Basic
import Mathlib.Algebra.Order.Group.Unbundled.Abs
import Mathlib.Order.Interval.Set.UnorderedInterval
import Mathlib.Tactic.Linarith
import Mathlib.Tactic.Ring

/-!
# Gated blends

`blend f new old` is `(1 - f) * new + f * old`. It lies between `old` and `new` exactly when the
gate `f` is a weight or there is nothing to blend.
-/

namespace Rids.Lib.Blend

variable {R : Type*} [Field R]

/-- `old` where the gate is 1, `new` where it is 0. -/
def blend (f new old : R) : R := (1 - f) * new + f * old

/-- The distance of a blend from the old value. -/
theorem blend_sub_old (f new old : R) : blend f new old - old = (1 - f) * (new - old) := by
  unfold blend
  ring

/-- The distance of a blend from the new value. -/
theorem new_sub_blend (f new old : R) : new - blend f new old = f * (new - old) := by
  unfold blend
  ring

variable [LinearOrder R] [IsStrictOrderedRing R]

/-- Below, above, or at `old`: the two differences to the ends have the sign of `new - old`. -/
theorem blend_mem_Icc_iff {f new old : R} (h : old < new) :
    blend f new old ∈ Set.Icc old new ↔ 0 ≤ f ∧ f ≤ 1 := by
  have hpos : 0 < new - old := sub_pos.mpr h
  rw [Set.mem_Icc, ← sub_nonneg, blend_sub_old, ← sub_nonneg (b := blend f new old),
    new_sub_blend, mul_nonneg_iff_left_nonneg_of_pos hpos, mul_nonneg_iff_left_nonneg_of_pos hpos,
    sub_nonneg, and_comm]

/-- The same with the new value below the old one. -/
theorem blend_mem_Icc_iff' {f new old : R} (h : new < old) :
    blend f new old ∈ Set.Icc new old ↔ 0 ≤ f ∧ f ≤ 1 := by
  have hswap : blend f new old = blend (1 - f) old new := by
    unfold blend
    ring
  rw [hswap, blend_mem_Icc_iff h, sub_nonneg, sub_le_self_iff, and_comm]

/-- **When a gate interpolates.** -/
theorem blend_mem_uIcc_iff {f new old : R} :
    blend f new old ∈ Set.uIcc old new ↔ new = old ∨ 0 ≤ f ∧ f ≤ 1 := by
  rcases lt_trichotomy old new with h | rfl | h
  · rw [Set.uIcc_of_le h.le, blend_mem_Icc_iff h, or_iff_right h.ne']
  · have hold : blend f old old = old := by
      unfold blend
      ring
    simp [hold]
  · rw [Set.uIcc_of_ge h.le, blend_mem_Icc_iff' h, or_iff_right h.ne]

/-- What lies between two numbers is bounded as they are. -/
theorem abs_le_of_mem_uIcc {a b x c : R} (hx : x ∈ Set.uIcc a b) (ha : |a| ≤ c) (hb : |b| ≤ c) :
    |x| ≤ c := by
  rw [abs_le] at ha hb ⊢
  rcases Set.mem_uIcc.mp hx with ⟨hlow, hhigh⟩ | ⟨hlow, hhigh⟩
  · exact ⟨ha.1.trans hlow, hhigh.trans hb.2⟩
  · exact ⟨hb.1.trans hlow, hhigh.trans ha.2⟩

/-- Without a bound on the gate, a blend leaves `new` by at most the gate times the change. -/
theorem abs_blend_le (f new old : R) : |blend f new old| ≤ |new| + |f| * |new - old| := by
  have hsub : blend f new old = new - f * (new - old) := by
    rw [← new_sub_blend, sub_sub_cancel]
  rw [hsub, ← abs_mul]
  exact abs_sub _ _

end Rids.Lib.Blend
