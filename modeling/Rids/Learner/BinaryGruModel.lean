import Mathlib.Algebra.Ring.Subring.Basic
import Mathlib.Algebra.Order.Group.Unbundled.Abs
import Mathlib.Algebra.Order.BigOperators.Group.Finset
import Rids.Learner.BinaryLinear

/-!
# The recurrent model in eval mode (`binary_grucell.py`, `binary_gru.py`)

`BinaryGruCellModify.forward` is the whole cell, with every local the switch has to carry; its two
linear layers keep their weights as `BinaryLinear` does, so a step returns the cell too.
`BinaryGruModelModify.evalSteps` is the loop of the eval branch over one sequence, for one layer:
it starts from zero accumulators and stops early when `out[0, 1] > 0.75`. The read out goes
through `nn.Softmax`, which is a parameter.

* `forward_cell` — the accumulators and `hy` are those of `BinaryGruCell` with binarised weights.
* `integer_step` — on integers, a step stays in the integers exactly when its matrix output does.
* `integerOnly_iff` — the inference on an integer sequence is integer-only exactly when the bias
  of the first `Movement`, times the sum of any row of the binarised weight, is an integer.
-/

namespace Rids.Learner

/-! ### Integers -/

section Integers

variable {ι κ R : Type*} [Field R]

/-- The number is an integer. -/
def IsInteger (q : R) : Prop := q ∈ (Int.castRingHom R).range

/-- An integer is integral. -/
theorem isInteger_intCast (z : ℤ) : IsInteger (z : R) := ⟨z, rfl⟩

variable [LinearOrder R]

/-- Hardtanh and the gate return an integer they are given, or one of `-1`, `0`, `1`. -/
theorem isInteger_hardtanh {q : R} (h : IsInteger q) : IsInteger (hardtanh q) := by
  have hone : IsInteger (1 : R) := one_mem (Int.castRingHom R).range
  unfold hardtanh
  rcases max_choice (-1) (min 1 q) with hmax | hmax <;> rw [hmax]
  · exact neg_mem hone
  · rcases min_choice 1 q with hmin | hmin <;> rw [hmin]
    · exact hone
    · exact h

/-- The binary activation is integral. -/
theorem isInteger_binaryActive (q : R) : IsInteger (binaryActive q) := by
  rw [binaryActive_eq]
  split_ifs
  · exact one_mem _
  · exact zero_mem _

variable [IsStrictOrderedRing R]

/-- A binarised weight is integral. -/
theorem isInteger_binarize (v : R) : IsInteger (binarize v) := by
  rw [binarize_eq]
  split_ifs
  · exact one_mem _
  · exact neg_mem (one_mem _)
  · exact zero_mem _

/-- `hardtanh` lies between -1 and 1. -/
theorem abs_hardtanh_le (q : R) : |hardtanh q| ≤ 1 := by
  rw [abs_le]
  refine ⟨le_max_left _ _, max_le ?_ (min_le_left _ _)⟩
  exact neg_le_self zero_le_one

/-- On integers, a row of a binarised layer is an integer exactly when the bias of its `Movement`,
times the sum of the row, is one. -/
theorem isInteger_binaryLinear_iff [Fintype ι] (w : κ → ι → R) (bias : R) (x : ι → ℤ) (k : κ) :
    IsInteger (binaryLinear (binarizeAll w) bias (fun l => (x l : R)) k) ↔
      IsInteger (bias * ∑ l, binarize (w k l)) := by
  have hsplit : binaryLinear (binarizeAll w) bias (fun l => (x l : R)) k =
      ∑ l, binarize (w k l) * (x l : R) + bias * ∑ l, binarize (w k l) := by
    simp only [binaryLinear, movement, binarizeAll, mul_add, Finset.sum_add_distrib,
      ← Finset.sum_mul, mul_comm bias]
  have hint : ∑ l, binarize (w k l) * (x l : R) ∈ (Int.castRingHom R).range := by
    apply sum_mem
    intro l _
    exact mul_mem (isInteger_binarize _) (isInteger_intCast _)
  rw [hsplit]
  exact add_mem_cancel_left hint

end Integers

variable {ι κ R : Type*} [Fintype ι] [Fintype κ] [Field R] [LinearOrder R]

/-! ### The cell -/

/-- `x2h` has the two halves that `chunk(2, 1)` separates as its rows; `fc` reads `hy` out into
`n + 2` classes.
Source: `binary_grucell.py` `BinaryGRUCellModify.__init__`
Kind: D -/
structure BinaryGruCellModify (ι κ : Type*) (n : ℕ) (R : Type*) where
  x2h : BinaryLinear ι (κ ⊕ κ) R
  move1 : R
  fc : BinaryLinear κ (Fin (n + 2)) R

/-- The locals of a step of the cell; it returns `S1_new`, `S2_new`, `hy` and `out`.
Source: `binary_grucell.py` `BinaryGRUCellModify.forward`
Kind: D -/
structure CellStep (κ : Type*) (n : ℕ) (R : Type*) where
  gateX : κ ⊕ κ → R
  m1Act : κ → R
  m2Act : κ → R
  s1New : κ → R
  s2New : κ → R
  fu : κ → R
  hy : κ → R
  out : Fin (n + 2) → R

/-- `nn.Softmax(dim=1)` on one row. -/
abbrev Softmax (n : ℕ) (R : Type*) := (Fin (n + 2) → R) → Fin (n + 2) → R

namespace BinaryGruCellModify

variable {n : ℕ} (cell : BinaryGruCellModify ι κ n R) (softmax : Softmax n R)

/-- The cell after a step, and the locals of the step.
Source: `binary_grucell.py` `BinaryGRUCellModify.forward`
Kind: D -/
def forward (x : ι → R) (s1Ori s2Ori : κ → R) : BinaryGruCellModify ι κ n R × CellStep κ n R :=
  let (x2h, gateX) := cell.x2h.forward x
  let m1 := fun k => gateX (.inl k)
  let m2 := fun k => gateX (.inr k)
  let m1Act := fun k => hardtanh (m1 k)
  let m2Act := fun k => hardtanh (m2 k)
  let s1New := fun k => s1Ori k + m1Act k
  let s2New := fun k => s2Ori k + m2Act k
  let fu := fun k => binaryActive (movement cell.move1 (s1New k))
  let hy := fun k => (1 - fu k) * s2New k + fu k * s2Ori k
  let (fc, out) := cell.fc.forward hy
  ({ cell with x2h := x2h, fc := fc },
    { gateX := gateX, m1Act := m1Act, m2Act := m2Act, s1New := s1New, s2New := s2New, fu := fu
      hy := hy, out := softmax out })

/-- The recurrent part of the cell, its weights binarised. -/
def recurrent : BinaryGruCell ι κ R where
  weight1 := fun k => binarizeAll cell.x2h.latent (.inl k)
  weight2 := fun k => binarizeAll cell.x2h.latent (.inr k)
  moveX := cell.x2h.move
  move1 := cell.move1

variable (x : ι → R) (s1Ori s2Ori : κ → R)

/-- A step binarises the weights and keeps what it has binarised them from. -/
theorem recurrent_forward :
    (cell.forward softmax x s1Ori s2Ori).1.recurrent = cell.recurrent := rfl

/-- The part of the cell that feeds the next step is `BinaryGruCell`. -/
theorem forward_cell :
    (cell.forward softmax x s1Ori s2Ori).2.s1New = (cell.recurrent.forward x s1Ori s2Ori).s1New ∧
      (cell.forward softmax x s1Ori s2Ori).2.s2New =
        (cell.recurrent.forward x s1Ori s2Ori).s2New ∧
      (cell.forward softmax x s1Ori s2Ori).2.hy = (cell.recurrent.forward x s1Ori s2Ori).hy :=
  ⟨rfl, rfl, rfl⟩

end BinaryGruCellModify

/-! ### The eval loop -/

/-- The steps the eval branch takes over one sequence, for `layer_dim = 1`.
Source: `binary_gru.py` `BinaryGRUModelModify.forward`, the loop over `seq` with its `break`
Kind: D -/
def evalStepsFrom {n : ℕ} (softmax : Softmax n R) :
    BinaryGruCellModify ι κ n R → (κ → R) → (κ → R) → List (ι → R) → List (CellStep κ n R)
  | _, _, _, [] => []
  | cell, s1Ori, s2Ori, x :: xs =>
    let (cell, step) := cell.forward softmax x s1Ori s2Ori
    step :: if 0.75 < step.out 1 then []
      else evalStepsFrom softmax cell step.s1New step.s2New xs

/-- `out[0, 1]`. -/
abbrev secondScore {n : ℕ} (out : Fin (n + 2) → R) : R := out 1

/-- The steps from zero accumulators.
Source: `binary_gru.py` `BinaryGRUModelModify.forward`, one turn of the loop over `i`
Kind: D -/
def evalSteps {n : ℕ} (softmax : Softmax n R) (cell : BinaryGruCellModify ι κ n R)
    (xs : List (ι → R)) : List (CellStep κ n R) :=
  evalStepsFrom softmax cell (fun _ => 0) (fun _ => 0) xs

/-- `predicted[i]`; without a step there is no `out` to read.
Source: `binary_gru.py` `BinaryGRUModelModify.forward`, `predicted[i] = out[0, 1]`
Kind: D -/
def predicted {n : ℕ} (softmax : Softmax n R) (cell : BinaryGruCellModify ι κ n R)
    (xs : List (ι → R)) : Option R :=
  (evalSteps softmax cell xs).getLast?.map fun step => step.out 1

/-! ### Integer-only inference -/

/-- The locals of step number `t` that the switch carries are integers, and its accumulators are
at most `t`. -/
structure IntegerStep {n : ℕ} (step : CellStep κ n R) (t : ℕ) : Prop where
  gateX : ∀ j, IsInteger (step.gateX j)
  m1Act : ∀ k, IsInteger (step.m1Act k)
  m2Act : ∀ k, IsInteger (step.m2Act k)
  s1New : ∀ k, IsInteger (step.s1New k)
  s2New : ∀ k, IsInteger (step.s2New k)
  fu : ∀ k, IsInteger (step.fu k)
  hy : ∀ k, IsInteger (step.hy k)
  s1_abs : ∀ k, |step.s1New k| ≤ t
  s2_abs : ∀ k, |step.s2New k| ≤ t

/-- All steps of an inference are such. -/
def IntegerOnly {n : ℕ} (steps : List (CellStep κ n R)) : Prop :=
  ∀ t step, steps[t]? = some step → IntegerStep step (t + 1)

/-- An accumulator that step `t` leaves: an integer of absolute value at most `t`. -/
def SmallInteger (t : ℕ) (q : R) : Prop := IsInteger q ∧ |q| ≤ t

/-- Adding `hardtanh` of an integral number lets the bound grow by 1. -/
theorem SmallInteger.add_hardtanh [IsStrictOrderedRing R] {t : ℕ} {q m : R}
    (h : SmallInteger t q) (hm : IsInteger m) :
    SmallInteger (t + 1) (q + hardtanh m) := by
  refine ⟨add_mem h.1 (isInteger_hardtanh hm), ?_⟩
  calc |q + hardtanh m| ≤ |q| + |hardtanh m| := abs_add_le _ _
    _ ≤ t + 1 := add_le_add h.2 (abs_hardtanh_le m)
    _ = (t + 1 : ℕ) := by push_cast; rfl

variable {n : ℕ} {softmax : Softmax n R} {cell : BinaryGruCellModify ι κ n R}

/-- The rows of `x2h` shift their input by an integer. -/
def BinaryGruCellModify.IntegerBias (cell : BinaryGruCellModify ι κ n R) : Prop :=
  ∀ j, IsInteger (cell.x2h.move * ∑ l, binarize (cell.x2h.latent j l))

/-- The bias condition survives a step. -/
theorem integerBias_forward (x : ι → R) (s1Ori s2Ori : κ → R) :
    (cell.forward softmax x s1Ori s2Ori).1.IntegerBias ↔ cell.IntegerBias := Iff.rfl

variable [IsStrictOrderedRing R]

/-- The matrix output of a step is an integer vector exactly when the bias allows it. -/
theorem isInteger_gateX_iff (x : ι → ℤ) (s1Ori s2Ori : κ → R) :
    (∀ j, IsInteger ((cell.forward softmax (fun l => x l) s1Ori s2Ori).2.gateX j)) ↔
      cell.IntegerBias :=
  forall_congr' fun j => isInteger_binaryLinear_iff cell.x2h.latent cell.x2h.move x j

/-- **One step.** -/
theorem integer_step {t : ℕ} {s1Ori s2Ori : κ → R} (hbias : cell.IntegerBias)
    (h1 : ∀ k, SmallInteger t (s1Ori k)) (h2 : ∀ k, SmallInteger t (s2Ori k)) (x : ι → ℤ) :
    IntegerStep (cell.forward softmax (fun l => x l) s1Ori s2Ori).2 (t + 1) := by
  have hgate : ∀ j, IsInteger ((cell.forward softmax (fun l => x l) s1Ori s2Ori).2.gateX j) :=
    (isInteger_gateX_iff x s1Ori s2Ori).mpr hbias
  have hs1 (k : κ) := (h1 k).add_hardtanh (hgate (.inl k))
  have hs2 (k : κ) := (h2 k).add_hardtanh (hgate (.inr k))
  have hfu (k : κ) : IsInteger ((cell.forward softmax (fun l => x l) s1Ori s2Ori).2.fu k) :=
    isInteger_binaryActive _
  refine ⟨hgate, fun k => isInteger_hardtanh (hgate _), fun k => isInteger_hardtanh (hgate _),
    fun k => (hs1 k).1, fun k => (hs2 k).1, hfu, fun k => ?_, fun k => (hs1 k).2,
    fun k => (hs2 k).2⟩
  exact add_mem (mul_mem (sub_mem (one_mem _) (hfu k)) (hs2 k).1) (mul_mem (hfu k) (h2 k).1)

/-- **All steps.** -/
theorem integer_run {t : ℕ} {s1Ori s2Ori : κ → R} (hbias : cell.IntegerBias)
    (h1 : ∀ k, SmallInteger t (s1Ori k)) (h2 : ∀ k, SmallInteger t (s2Ori k))
    (xs : List (ι → ℤ)) {m : ℕ} {step : CellStep κ n R}
    (hstep : (evalStepsFrom softmax cell s1Ori s2Ori
      (xs.map fun x l => (x l : R)))[m]? = some step) :
    IntegerStep step (t + m + 1) := by
  induction xs generalizing cell t s1Ori s2Ori m with
  | nil => simp [evalStepsFrom] at hstep
  | cons x xs ih =>
    have hfirst : IntegerStep (cell.forward softmax (fun l => x l) s1Ori s2Ori).2 (t + 1) :=
      integer_step hbias h1 h2 x
    rw [List.map_cons, evalStepsFrom] at hstep
    cases m with
    | zero =>
      rw [List.getElem?_cons_zero, Option.some.injEq] at hstep
      exact hstep ▸ hfirst
    | succ m =>
      rw [List.getElem?_cons_succ] at hstep
      split_ifs at hstep with hbreak
      · simp at hstep
      have hbias' : (cell.forward softmax (fun l => (x l : R)) s1Ori s2Ori).1.IntegerBias :=
        (integerBias_forward (fun l => (x l : R)) s1Ori s2Ori).mpr hbias
      have hrest := ih hbias' (fun k => ⟨hfirst.s1New k, hfirst.s1_abs k⟩)
        (fun k => ⟨hfirst.s2New k, hfirst.s2_abs k⟩) hstep
      rwa [show t + (m + 1) + 1 = t + 1 + m + 1 by omega]

/-- **When inference is integer-only.** On an integer sequence the steps of the eval branch stay
in the integers, with `|S_new| ≤ t`, exactly when there is no step or the bias of the first
`Movement`, times the sum of any row of the binarised weight, is an integer. The other two biases
do not matter. -/
theorem integerOnly_iff {n : ℕ} (softmax : Softmax n ℚ) (cell : BinaryGruCellModify ι κ n ℚ)
    (xs : List (ι → ℤ)) :
    IntegerOnly (evalSteps softmax cell (xs.map fun x l => (x l : ℚ))) ↔
      xs = [] ∨ cell.IntegerBias := by
  constructor
  · intro h
    cases xs with
    | nil => exact .inl rfl
    | cons x xs =>
      have hfirst := h 0 (cell.forward softmax (fun l => (x l : ℚ)) (fun _ => 0) fun _ => 0).2 rfl
      exact .inr ((isInteger_gateX_iff x _ _).mp hfirst.gateX)
  · rintro (rfl | hbias) t step hstep
    · simp [evalSteps, evalStepsFrom] at hstep
    · have hzero (k : κ) : SmallInteger 0 ((fun _ => 0 : κ → ℚ) k) :=
        ⟨zero_mem _, by simp⟩
      have hrun := integer_run hbias hzero hzero xs hstep
      rwa [Nat.zero_add] at hrun

/-- One input, one unit, all weights 1, and a bias of one half. -/
def halfBias : BinaryGruCellModify Unit Unit 0 ℚ where
  x2h := .new (fun _ _ => 1) (1 / 2)
  move1 := 0
  fc := .new (fun _ _ => 1) 0

/-- What softmax makes of two equal scores. -/
def evenSoftmax : Softmax 0 ℚ := fun _ _ => 1 / 2

/-- Its matrix output on the input 0 is one half. -/
theorem halfBias_not_integerOnly :
    (evalSteps evenSoftmax halfBias [fun _ => 0]).map (fun step => step.gateX (.inl ())) =
        [1 / 2] ∧
      ¬ IntegerOnly (evalSteps evenSoftmax halfBias [fun _ => 0]) := by
  have hvalue : (halfBias.forward evenSoftmax (fun _ => 0) (fun _ => 0) fun _ => 0).2.gateX
      (.inl ()) = 1 / 2 := by decide +kernel
  refine ⟨by decide +kernel, fun h => ?_⟩
  have hstep := h 0 (halfBias.forward evenSoftmax (fun _ => 0) (fun _ => 0) fun _ => 0).2 rfl
  obtain ⟨z, hz⟩ := hvalue ▸ hstep.gateX (.inl ())
  have hden : ((z : ℤ) : ℚ).den = (1 / 2 : ℚ).den := congrArg Rat.den hz
  rw [Rat.den_intCast] at hden
  revert hden
  decide +kernel

end Rids.Learner
