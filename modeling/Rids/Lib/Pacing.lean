import Mathlib.Algebra.BigOperators.Group.List.Basic
import Mathlib.Algebra.GroupWithZero.Nat
import Mathlib.Order.Lattice

/-!
# Pacing with a debt

A pacer is asked for gaps of given sizes, but can make none that is shorter than `m`. It makes such
a gap too long, remembers by how much as its debt, and leaves gaps out as long as the debt is larger
than they are.

* `made_add` — what is made is what is asked for, up to the change of the debt.
* `settle_le` — the debt never exceeds `m`.
* `sum_le_made`, `made_le_sum` — so no gap is early, and all gaps together are late by `m` at most.
-/

namespace Rids.Lib.Pacing

variable {m debt d : ℕ}

/-- The gap that is made for a gap `d`. -/
def gap (m debt d : ℕ) : ℕ := if d = 0 ∨ d < debt then 0 else max d m

/-- The debt afterwards. -/
def settle (m debt d : ℕ) : ℕ :=
  if d = 0 then debt else if d < debt then debt - d else debt + (max d m - d)

/-- What is made for a list of gaps. -/
def made (m debt : ℕ) : List ℕ → ℕ
  | [] => 0
  | d :: ds => gap m debt d + made m (settle m debt d) ds

/-- The debt after a list of gaps. -/
def debtAfter (m debt : ℕ) (ds : List ℕ) : ℕ := ds.foldl (settle m) debt

/-- A gap is made up to the change of the debt. -/
theorem gap_add : gap m debt d + debt = d + settle m debt d := by
  unfold gap settle
  split_ifs <;> omega

/-- **One gap.** A gap is left out only while the debt is larger, and one that is made too short
leaves a debt of `m` at most. -/
theorem settle_le (h : debt ≤ m) : settle m debt d ≤ m := by
  unfold settle
  split_ifs <;> omega

/-- So are all gaps together. -/
theorem made_add (ds : List ℕ) : made m debt ds + debt = ds.sum + debtAfter m debt ds := by
  induction ds generalizing debt with
  | nil => rfl
  | cons d ds ih =>
    have hone : gap m debt d + debt = d + settle m debt d := gap_add
    have hrest : made m (settle m debt d) ds + settle m debt d =
        ds.sum + debtAfter m (settle m debt d) ds := ih
    have hafter : debtAfter m debt (d :: ds) = debtAfter m (settle m debt d) ds := rfl
    rw [made, List.sum_cons, hafter]
    omega

/-- The debt stays at `m` or below. -/
theorem debtAfter_le (h : debt ≤ m) (ds : List ℕ) : debtAfter m debt ds ≤ m := by
  induction ds generalizing debt with
  | nil => exact h
  | cons d ds ih => exact ih (settle_le h)

/-- **No gap is early.** -/
theorem sum_le_made (m : ℕ) (ds : List ℕ) : ds.sum ≤ made m 0 ds := by
  have hadd : made m 0 ds + 0 = ds.sum + debtAfter m 0 ds := made_add ds
  omega

/-- **All gaps together are late by `m` at most.** -/
theorem made_le_sum (m : ℕ) (ds : List ℕ) : made m 0 ds ≤ ds.sum + m := by
  have hadd : made m 0 ds + 0 = ds.sum + debtAfter m 0 ds := made_add ds
  have hle : debtAfter m 0 ds ≤ m := debtAfter_le (Nat.zero_le m) ds
  omega

end Rids.Lib.Pacing
