import Mathlib.Analysis.Complex.ExponentialBounds
import Rids.Lib.Blend
import Rids.Learner.BinaryGruBatch

/-!
# The gates of the two cells (`grucell.py`, `binary_grucell.py`)

`GRUCellModify` is the full-precision counterpart of `BinaryGRUCellModify`: the same update
`hy = (1 - F_u) * S2_new + F_u * S2_ori`, with tanh for Hardtanh and `F_u = ReLU(S1_new)` for the
binary gate. A trace of a cell is its steps over a sequence, each with the `S2_ori` it started
from. tanh and softmax are parameters. Arithmetic is exact, in an ordered field, where the source
has tensors of float32 and rounds every operation: what is said of a component holds of the exact
values.

* `Accumulates.trace` — after `t` steps the accumulators of either cell are at most `t`.
* `gate_mem_uIcc` — the binary gate interpolates at every step.
* `gates_interpolate` — the ReLU gate does so exactly where `S1_new ≤ 1` or `S2` does not change;
  without that `|hy| ≤ 2t`.
-/

namespace Rids.Learner

open Rids.Lib.Blend

variable {ι κ R : Type*} [Field R] [LinearOrder R] {n : ℕ}

/-! ### The full-precision cell -/

/-- `nn.Linear`; `bias=False` is `none`. -/
structure Linear (ι κ R : Type*) where
  weight : κ → ι → R
  bias : Option (κ → R) := none

/-- Source: `grucell.py`, `nn.Linear`. Kind: D -/
def Linear.forward [Fintype ι] (layer : Linear ι κ R) (input : ι → R) (k : κ) : R :=
  ∑ l, layer.weight k l * input l + (layer.bias.elim 0 fun b => b k)

/-- Source: `grucell.py`, `nn.ReLU()`. Kind: D -/
def relu (x : R) : R := max 0 x

/-- Source: `grucell.py` `GRUCellModify.__init__`. Kind: D -/
structure GruCellModify (ι κ : Type*) (n : ℕ) (R : Type*) where
  x2h : Linear ι (κ ⊕ κ) R
  fc : Linear κ (Fin (n + 2)) R

/-- In exact arithmetic, without the rounding of float32.
Source: `grucell.py` `GRUCellModify.forward`. Kind: D -/
def GruCellModify.forward [Fintype ι] [Fintype κ] (tanh : R → R) (softmax : Softmax n R)
    (cell : GruCellModify ι κ n R) (x : ι → R) (s1Ori s2Ori : κ → R) : CellStep κ n R :=
  let gateX := cell.x2h.forward x
  let m1 := fun k => gateX (.inl k)
  let m2 := fun k => gateX (.inr k)
  let m1Act := fun k => tanh (m1 k)
  let m2Act := fun k => tanh (m2 k)
  let s1New := fun k => s1Ori k + m1Act k
  let s2New := fun k => s2Ori k + m2Act k
  let fu := fun k => relu (s1New k)
  let hy := fun k => (1 - fu k) * s2New k + fu k * s2Ori k
  let out := cell.fc.forward hy
  { gateX := gateX, m1Act := m1Act, m2Act := m2Act, s1New := s1New, s2New := s2New, fu := fu
    hy := hy, out := softmax out }

/-! ### Traces -/

/-- A cell's `forward`, with the cell it leaves. -/
abbrev Forward (σ ι κ : Type*) (n : ℕ) (R : Type*) :=
  σ → (ι → R) → (κ → R) → (κ → R) → σ × CellStep κ n R

/-- The steps over a sequence, each with its `S2_ori`. -/
def traceFrom {σ : Type*} (forward : Forward σ ι κ n R) :
    σ → (κ → R) → (κ → R) → List (ι → R) → List ((κ → R) × CellStep κ n R)
  | _, _, _, [] => []
  | cell, s1Ori, s2Ori, x :: xs =>
    let (cell, step) := forward cell x s1Ori s2Ori
    (s2Ori, step) :: traceFrom forward cell step.s1New step.s2New xs

/-- The steps from zero states. -/
def trace {σ : Type*} (forward : Forward σ ι κ n R) (cell : σ) (xs : List (ι → R)) :
    List ((κ → R) × CellStep κ n R) :=
  traceFrom forward cell (fun _ => 0) (fun _ => 0) xs

/-- A full-precision cell does not change. -/
def GruCellModify.asForward [Fintype ι] [Fintype κ] (tanh : R → R)
    (softmax : Softmax n R) : Forward (GruCellModify ι κ n R) ι κ n R :=
  fun cell x s1Ori s2Ori => (cell, cell.forward tanh softmax x s1Ori s2Ori)

/-- A binary one stores what it binarises. -/
def BinaryGruCellModify.asForward [Fintype ι] [Fintype κ] (softmax : Softmax n R) :
    Forward (BinaryGruCellModify ι κ n R) ι κ n R :=
  fun cell => cell.forward softmax

/-! ### What the two have in common -/

/-- One step adds activations of absolute value at most 1 to the accumulators, and blends. -/
structure Adds (s1Ori s2Ori : κ → R) (step : CellStep κ n R) : Prop where
  s1New : ∀ k, step.s1New k = s1Ori k + step.m1Act k
  s2New : ∀ k, step.s2New k = s2Ori k + step.m2Act k
  m1_abs : ∀ k, |step.m1Act k| ≤ 1
  m2_abs : ∀ k, |step.m2Act k| ≤ 1
  hy : ∀ k, step.hy k = blend (step.fu k) (step.s2New k) (s2Ori k)

/-- Every step of the cell does. -/
def Accumulates {σ : Type*} (forward : Forward σ ι κ n R) : Prop :=
  ∀ cell x s1Ori s2Ori, Adds s1Ori s2Ori (forward cell x s1Ori s2Ori).2

/-- The binary cell accumulates. -/
theorem accumulates_binary [Fintype ι] [Fintype κ] [IsStrictOrderedRing R]
    (softmax : Softmax n R) :
    Accumulates (BinaryGruCellModify.asForward softmax : Forward _ ι κ n R) := by
  intro cell x s1Ori s2Ori
  exact ⟨fun _ => rfl, fun _ => rfl, fun _ => abs_hardtanh_le _, fun _ => abs_hardtanh_le _,
    fun _ => rfl⟩

/-- The real-valued cell accumulates, whatever its bounded activation. -/
theorem accumulates_gru [Fintype ι] [Fintype κ] {tanh : R → R} (htanh : ∀ r, |tanh r| ≤ 1)
    (softmax : Softmax n R) :
    Accumulates (GruCellModify.asForward tanh softmax : Forward _ ι κ n R) := by
  intro cell x s1Ori s2Ori
  exact ⟨fun _ => rfl, fun _ => rfl, fun _ => htanh _, fun _ => htanh _, fun _ => rfl⟩

/-- The accumulators around a step are at most `t`. -/
structure StepBound (t : ℕ) (s2Ori : κ → R) (step : CellStep κ n R) : Prop where
  s2Ori_abs : ∀ k, |s2Ori k| ≤ t
  s1New_abs : ∀ k, |step.s1New k| ≤ t
  s2New_abs : ∀ k, |step.s2New k| ≤ t

/-- **One step.** -/
theorem Adds.stepBound [IsStrictOrderedRing R] {t : ℕ} {s1Ori s2Ori : κ → R}
    {step : CellStep κ n R} (h : Adds s1Ori s2Ori step) (h1 : ∀ k, |s1Ori k| ≤ t)
    (h2 : ∀ k, |s2Ori k| ≤ t) : StepBound (t + 1) s2Ori step := by
  have hadd {a b : R} (ha : |a| ≤ t) (hb : |b| ≤ 1) : |a + b| ≤ (t + 1 : ℕ) := by
    push_cast
    exact (abs_add_le a b).trans (add_le_add ha hb)
  refine ⟨fun k => (h2 k).trans (Nat.cast_le.mpr t.le_succ), fun k => ?_, fun k => ?_⟩
  · rw [h.s1New]
    exact hadd (h1 k) (h.m1_abs k)
  · rw [h.s2New]
    exact hadd (h2 k) (h.m2_abs k)

/-- **All steps**, from accumulators of at most `t`: each is a step of the cell, within bounds. -/
theorem Accumulates.traceFrom [IsStrictOrderedRing R] {σ : Type*} {forward : Forward σ ι κ n R}
    (h : Accumulates forward) {t : ℕ} {s1Ori s2Ori : κ → R} (cell : σ)
    (h1 : ∀ k, |s1Ori k| ≤ t) (h2 : ∀ k, |s2Ori k| ≤ t) (xs : List (ι → R)) {m : ℕ}
    {s2 : κ → R} {step : CellStep κ n R}
    (hstep : (traceFrom forward cell s1Ori s2Ori xs)[m]? = some (s2, step)) :
    (∃ cell x s1, step = (forward cell x s1 s2).2) ∧ StepBound (t + m + 1) s2 step := by
  induction xs generalizing cell t s1Ori s2Ori m with
  | nil => simp [Learner.traceFrom] at hstep
  | cons x xs ih =>
    have hbound := (h cell x s1Ori s2Ori).stepBound h1 h2
    rw [Learner.traceFrom] at hstep
    cases m with
    | zero =>
      rw [List.getElem?_cons_zero, Option.some.injEq, Prod.mk.injEq] at hstep
      obtain ⟨rfl, rfl⟩ := hstep
      exact ⟨⟨cell, x, s1Ori, rfl⟩, hbound⟩
    | succ m =>
      rw [List.getElem?_cons_succ] at hstep
      have hrest := ih _ hbound.s1New_abs hbound.s2New_abs hstep
      rwa [show t + (m + 1) + 1 = t + 1 + m + 1 by omega]

/-- Step number `t + 1` from zero states. -/
theorem Accumulates.trace [IsStrictOrderedRing R] {σ : Type*} {forward : Forward σ ι κ n R}
    (h : Accumulates forward) {cell : σ} {xs : List (ι → R)} {t : ℕ} {s2Ori : κ → R}
    {step : CellStep κ n R} (hstep : (trace forward cell xs)[t]? = some (s2Ori, step)) :
    (∃ cell x s1Ori, step = (forward cell x s1Ori s2Ori).2) ∧ StepBound (t + 1) s2Ori step := by
  have hzero : ∀ k : κ, |(fun _ => 0 : κ → R) k| ≤ ((0 : ℕ) : R) := fun _ => by simp
  have hrun := h.traceFrom cell hzero hzero xs hstep
  rwa [Nat.zero_add] at hrun

/-! ### The gates -/

/-- The hidden state lies between the old and the new second accumulator. -/
def Interpolates (s2Ori : κ → R) (step : CellStep κ n R) (k : κ) : Prop :=
  step.hy k ∈ Set.uIcc (s2Ori k) (step.s2New k)

variable {s1Ori s2Ori : κ → R} {step : CellStep κ n R} {k : κ}

/-- A step interpolates where its gate is a weight, or where it adds nothing. -/
theorem Adds.interpolates_iff [IsStrictOrderedRing R] (h : Adds s1Ori s2Ori step) :
    Interpolates s2Ori step k ↔ step.m2Act k = 0 ∨ 0 ≤ step.fu k ∧ step.fu k ≤ 1 := by
  rw [Interpolates, h.hy, blend_mem_uIcc_iff, h.s2New, add_eq_left]

/-- A step whose gate is binary stays between the two states. -/
theorem Adds.interpolates_of_binaryActive [IsStrictOrderedRing R] (h : Adds s1Ori s2Ori step)
    {r : R} (hfu : step.fu k = binaryActive r) : Interpolates s2Ori step k := by
  refine h.interpolates_iff.mpr (.inr ?_)
  rw [hfu, binaryActive_eq]
  split_ifs
  · exact ⟨zero_le_one, le_rfl⟩
  · exact ⟨le_rfl, zero_le_one⟩

/-- A step whose gate is a ReLU stays between them exactly up to a gate of 1. -/
theorem Adds.interpolates_relu_iff [IsStrictOrderedRing R] (h : Adds s1Ori s2Ori step)
    (hfu : step.fu k = relu (step.s1New k)) :
    Interpolates s2Ori step k ↔ step.s1New k ≤ 1 ∨ step.m2Act k = 0 := by
  rw [h.interpolates_iff, hfu, relu, or_comm, max_le_iff]
  simp [zero_le_one]

/-- An interpolated state is bounded as the accumulators are. -/
theorem Interpolates.abs_hy_le [IsStrictOrderedRing R] {t : ℕ} (h : Interpolates s2Ori step k)
    (hbound : StepBound t s2Ori step) : |step.hy k| ≤ t :=
  abs_le_of_mem_uIcc h (hbound.s2Ori_abs k) (hbound.s2New_abs k)

/-- A state under a ReLU gate is bounded by twice that. -/
theorem Adds.abs_hy_le_of_relu [IsStrictOrderedRing R] {t : ℕ} (h : Adds s1Ori s2Ori step)
    (hfu : step.fu k = relu (step.s1New k)) (hbound : StepBound t s2Ori step) :
    |step.hy k| ≤ 2 * t := by
  have hchange : |step.s2New k - s2Ori k| ≤ 1 := by
    rw [h.s2New, add_sub_cancel_left]
    exact h.m2_abs k
  have hgate : |step.fu k| ≤ t := by
    rw [hfu, relu, abs_of_nonneg (le_max_left _ _)]
    exact max_le t.cast_nonneg ((le_abs_self _).trans (hbound.s1New_abs k))
  calc |step.hy k| ≤ |step.s2New k| + |step.fu k| * |step.s2New k - s2Ori k| := by
        rw [h.hy]
        exact abs_blend_le _ _ _
    _ ≤ t + t * 1 :=
        add_le_add (hbound.s2New_abs k) (mul_le_mul hgate hchange (abs_nonneg _) t.cast_nonneg)
    _ = 2 * t := by ring

/-- **Which gate interpolates.** From zero states and at every step of every sequence, in exact
arithmetic, the binary cell interpolates, so that `|hy| ≤ t` after `t` steps. The full-precision
cell does exactly where `S1_new ≤ 1` or nothing is added to `S2`, with the same bound there and
`2t` in general. -/
theorem gates_interpolate [Fintype ι] [Fintype κ] [IsStrictOrderedRing R] {tanh : R → R}
    (htanh : ∀ r, |tanh r| ≤ 1) (softmax : Softmax n R) (binary : BinaryGruCellModify ι κ n R)
    (gru : GruCellModify ι κ n R) (xs : List (ι → R)) (t : ℕ) (s2Ori : κ → R)
    (step : CellStep κ n R) (k : κ) :
    ((trace (BinaryGruCellModify.asForward softmax) binary xs)[t]? = some (s2Ori, step) →
        Interpolates s2Ori step k ∧ |step.hy k| ≤ (t + 1 : ℕ)) ∧
      ((trace (GruCellModify.asForward tanh softmax) gru xs)[t]? = some (s2Ori, step) →
        (Interpolates s2Ori step k ↔ step.s1New k ≤ 1 ∨ step.m2Act k = 0) ∧
          (Interpolates s2Ori step k → |step.hy k| ≤ (t + 1 : ℕ)) ∧
          |step.hy k| ≤ 2 * (t + 1 : ℕ)) := by
  constructor
  · intro hstep
    obtain ⟨⟨cell, x, s1Ori, rfl⟩, hbound⟩ := (accumulates_binary softmax).trace hstep
    have hadds := accumulates_binary softmax cell x s1Ori s2Ori
    have hbetween : Interpolates s2Ori _ k := hadds.interpolates_of_binaryActive rfl
    exact ⟨hbetween, hbetween.abs_hy_le hbound⟩
  · intro hstep
    obtain ⟨⟨cell, x, s1Ori, rfl⟩, hbound⟩ := (accumulates_gru htanh softmax).trace hstep
    have hadds := accumulates_gru htanh softmax cell x s1Ori s2Ori
    exact ⟨hadds.interpolates_relu_iff rfl, fun hbetween => hbetween.abs_hy_le hbound,
      hadds.abs_hy_le_of_relu rfl hbound⟩

/-! ### A wide gate -/

/-- Two inputs, one unit; each accumulator listens to one of the inputs. -/
noncomputable def wideGate : GruCellModify (Fin 2) Unit 0 ℝ where
  x2h := { weight := fun | .inl () => ![2, 0] | .inr () => ![0, 2] }
  fc := { weight := fun _ _ => 1 }

/-- The hyperbolic tangent lies between -1 and 1. -/
theorem abs_tanh_le (r : ℝ) : |Real.tanh r| ≤ 1 :=
  abs_le.mpr ⟨(Real.neg_one_lt_tanh r).le, (Real.tanh_lt_one r).le⟩

/-- A lower bound of the hyperbolic tangent at 2. -/
theorem tanh_two_gt : 0.9 < Real.tanh 2 := by
  have hexp : 7 < Real.exp 2 := by
    have hone : (2.7 : ℝ) < Real.exp 1 := by linarith [Real.exp_one_gt_d9]
    have hsquare : Real.exp 2 = Real.exp 1 * Real.exp 1 := by
      rw [← Real.exp_add]
      norm_num
    nlinarith
  rw [Real.tanh_eq, Real.exp_neg, lt_div_iff₀ (by positivity)]
  have hinv : (Real.exp 2)⁻¹ < 1 / 7 := by
    rw [← one_div]
    exact one_div_lt_one_div_of_lt (by norm_num) hexp
  linarith

/-- The accumulators of a step. -/
theorem forward_wideGate (a b : ℝ) (s1Ori s2Ori : Unit → ℝ) :
    (wideGate.forward Real.tanh (expSoftmax 0) ![a, b] s1Ori s2Ori).s1New () =
        s1Ori () + Real.tanh (2 * a) ∧
      (wideGate.forward Real.tanh (expSoftmax 0) ![a, b] s1Ori s2Ori).s2New () =
        s2Ori () + Real.tanh (2 * b) := by
  constructor <;> simp [GruCellModify.forward, wideGate, Linear.forward, Fin.sum_univ_two]

/-- In the third step the gate is above 2. -/
theorem wideGate_not_interpolates :
    ∃ (s2Ori : Unit → ℝ) (step : CellStep Unit 0 ℝ),
      (trace (GruCellModify.asForward Real.tanh (expSoftmax 0)) wideGate
        [![1, 1], ![1, 1], ![1, -1]])[2]? = some (s2Ori, step) ∧
      ¬ Interpolates s2Ori step () ∧ ¬ |step.hy ()| ≤ 3 := by
  let step₁ := wideGate.forward Real.tanh (expSoftmax 0) ![1, 1] (fun _ => 0) fun _ => 0
  let step₂ := wideGate.forward Real.tanh (expSoftmax 0) ![1, 1] step₁.s1New step₁.s2New
  let step₃ := wideGate.forward Real.tanh (expSoftmax 0) ![1, -1] step₂.s1New step₂.s2New
  refine ⟨step₂.s2New, step₃, rfl, ?_⟩
  have hT := tanh_two_gt
  generalize hTdef : Real.tanh 2 = T at hT
  have hneg : Real.tanh (2 * -1) = -T := by rw [mul_neg_one, Real.tanh_neg, hTdef]
  have hpos : Real.tanh (2 * 1) = T := by rw [mul_one, hTdef]
  have hfirst := forward_wideGate 1 1 (fun _ => 0) fun _ => 0
  have hsecond := forward_wideGate 1 1 step₁.s1New step₁.s2New
  have hthird := forward_wideGate 1 (-1) step₂.s1New step₂.s2New
  rw [hpos, zero_add] at hfirst
  rw [hpos, hfirst.1, hfirst.2] at hsecond
  rw [hpos, hneg, hsecond.1, hsecond.2] at hthird
  have hhy : step₃.hy () = T + 3 * T ^ 2 := by
    have hgate : relu (step₃.s1New ()) = 3 * T := by
      rw [hthird.1, relu, max_eq_right (by linarith)]
      ring
    have hblend : step₃.hy () = (1 - relu (step₃.s1New ())) * step₃.s2New () +
        relu (step₃.s1New ()) * step₂.s2New () := rfl
    rw [hblend, hgate, hthird.2, hsecond.2]
    ring
  constructor
  · rw [Interpolates, hhy, hsecond.2, hthird.2, Set.mem_uIcc]
    rintro (⟨-, hhigh⟩ | ⟨-, hhigh⟩) <;> nlinarith
  · rw [hhy, abs_of_nonneg (by positivity), not_le]
    nlinarith

/-- The binary cell of the same weights. -/
noncomputable def wideBinary : BinaryGruCellModify (Fin 2) Unit 0 ℝ where
  x2h := .new wideGate.x2h.weight 0
  move1 := 0
  fc := .new wideGate.fc.weight 0

/-- The third step of both. -/
theorem gates_interpolate_wideGate :
    ∃ (s2Binary s2Gru : Unit → ℝ) (binary gru : CellStep Unit 0 ℝ),
      (trace (BinaryGruCellModify.asForward (expSoftmax 0)) wideBinary
        [![1, 1], ![1, 1], ![1, -1]])[2]? = some (s2Binary, binary) ∧
      (trace (GruCellModify.asForward Real.tanh (expSoftmax 0)) wideGate
        [![1, 1], ![1, 1], ![1, -1]])[2]? = some (s2Gru, gru) ∧
      (Interpolates s2Binary binary () ∧ |binary.hy ()| ≤ (2 + 1 : ℕ)) ∧
      (Interpolates s2Gru gru () ↔ gru.s1New () ≤ 1 ∨ gru.m2Act () = 0) ∧
      (Interpolates s2Gru gru () → |gru.hy ()| ≤ (2 + 1 : ℕ)) ∧
      |gru.hy ()| ≤ 2 * (2 + 1 : ℕ) := by
  have hbinary : (trace (BinaryGruCellModify.asForward (expSoftmax 0)) wideBinary
      [![1, 1], ![1, 1], ![1, -1]])[2]? = some (_, _) := rfl
  have hgru : (trace (GruCellModify.asForward Real.tanh (expSoftmax 0)) wideGate
      [![1, 1], ![1, 1], ![1, -1]])[2]? = some (_, _) := rfl
  have hinterpolate := gates_interpolate abs_tanh_le (expSoftmax 0) wideBinary wideGate
    [![1, 1], ![1, 1], ![1, -1]] 2
  exact ⟨_, _, _, _, hbinary, hgru, (hinterpolate _ _ ()).1 hbinary, (hinterpolate _ _ ()).2 hgru⟩

end Rids.Learner
