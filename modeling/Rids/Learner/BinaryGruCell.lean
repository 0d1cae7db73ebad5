import Mathlib.Algebra.BigOperators.Ring.Finset
import Mathlib.Algebra.Order.Ring.Defs
import Mathlib.Tactic.Ring
import Mathlib.Tactic.Linarith

/-!
# The recurrent cell of rLearner (`binary_grucell.py`)

`BinaryGruCell.forward` is the part of `BinaryGRUCellModify.forward` that feeds the next step:
the two binarised linear maps, Hardtanh, the two accumulators and the gated output `hy`. The read
out of `hy` (`fc`, `softmax`) is left out. The cell is stated over an ordered ring, for any
finite input and any hidden index.

* `binaryActive_eq` — the gate is 1 exactly on positive arguments.
* `BinaryGruCell.hy_forward` — with a zero bias the output is the old second accumulator where
  the new first one is positive, and the new second one elsewhere.
-/

namespace Rids.Learner

variable {R : Type*} [CommRing R]

/-! ### The layers -/

/-- Source: `binarize.py` `Movement.forward`. Kind: D -/
def movement (bias x : R) : R := x + bias

/-- The weights are taken after `Binarize`.
Source: `binary_linear.py` `BinaryLinear.forward`
Kind: D -/
def binaryLinear {ι κ : Type*} [Fintype ι] (weight : κ → ι → R) (bias : R) (input : ι → R)
    (k : κ) : R :=
  ∑ l, weight k l * movement bias (input l)

/-- On a one-hot input a linear map without bias returns a column of its weights. -/
theorem binaryLinear_onehot {ι κ : Type*} [Fintype ι] [DecidableEq ι] (weight : κ → ι → R) (l : ι)
    (k : κ) : binaryLinear weight 0 (fun j => if j = l then 1 else 0) k = weight k l := by
  simp [binaryLinear, movement]

variable [LinearOrder R]

/-- Two masked assignments, in this order: 1 where `i >= 0`, then 0 where `i <= 0`.
Source: `binary_active.py` `BinaryActive.forward`
Kind: D -/
def binaryActive (i : R) : R :=
  let inputCopy := if 0 ≤ i then 1 else i
  if i ≤ 0 then 0 else inputCopy

/-- Source: `binary_grucell.py`, `nn.Hardtanh()`. Kind: D -/
def hardtanh (x : R) : R := max (-1) (min 1 x)

/-- The binary activation is the step function. -/
theorem binaryActive_eq (i : R) : binaryActive i = if 0 < i then 1 else 0 := by
  unfold binaryActive
  rcases lt_trichotomy i 0 with h | rfl | h
  · simp [h.le, h.not_gt]
  · simp
  · simp [h, h.le, h.not_ge]

/-! ### The cell -/

/-- The parameters of a cell: the halves of `x2h` that `chunk(2, 1)` separates, and the biases of
its two `Movement` layers.
Source: `binary_grucell.py` `BinaryGRUCellModify.__init__`
Kind: D -/
structure BinaryGruCell (ι κ R : Type*) where
  weight1 : κ → ι → R
  weight2 : κ → ι → R
  moveX : R
  move1 : R

/-- What `forward` returns, less the read out. -/
structure CellOut (κ R : Type*) where
  s1New : κ → R
  s2New : κ → R
  hy : κ → R

namespace BinaryGruCell

variable {ι κ : Type*} [Fintype ι] (cell : BinaryGruCell ι κ R)

/-- The gated output of one hidden unit.
Source: `binary_grucell.py` `BinaryGRUCellModify.forward`, `F_u` and `hy`
Kind: D -/
def gatedOutput (move1 s1New s2New s2Ori : R) : R :=
  let fu := binaryActive (movement move1 s1New)
  (1 - fu) * s2New + fu * s2Ori

/-- Source: `binary_grucell.py` `BinaryGRUCellModify.forward`. Kind: D -/
def forward (x : ι → R) (s1Ori s2Ori : κ → R) : CellOut κ R :=
  let m1 := binaryLinear cell.weight1 cell.moveX x
  let m2 := binaryLinear cell.weight2 cell.moveX x
  let s1New := fun k => s1Ori k + hardtanh (m1 k)
  let s2New := fun k => s2Ori k + hardtanh (m2 k)
  { s1New := s1New
    s2New := s2New
    hy := fun k => gatedOutput cell.move1 (s1New k) (s2New k) (s2Ori k) }

/-- With the gate at 0 the sign of the first state selects. -/
theorem gatedOutput_zero (s1New s2New s2Ori : R) :
    gatedOutput 0 s1New s2New s2Ori = if 0 < s1New then s2Ori else s2New := by
  unfold gatedOutput movement
  rw [binaryActive_eq, add_zero]
  split_ifs <;> ring

/-- With a zero bias the gate selects. -/
theorem hy_forward (h : cell.move1 = 0) (x : ι → R) (s1Ori s2Ori : κ → R) (k : κ) :
    (cell.forward x s1Ori s2Ori).hy k =
      if 0 < (cell.forward x s1Ori s2Ori).s1New k then s2Ori k
      else (cell.forward x s1Ori s2Ori).s2New k := by
  rw [← gatedOutput_zero, ← h]
  rfl

end BinaryGruCell

end Rids.Learner
