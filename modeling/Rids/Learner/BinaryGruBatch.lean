import Mathlib.Analysis.SpecialFunctions.Exp
import Rids.Lib.CarriedVariable
import Rids.Learner.BinaryGruModel

/-!
# A batch in eval mode (`binary_gru.py`)

The eval branch of `BinaryGRUModelModify.forward` over a batch, for `layer_dim = 1`. The hidden
states are created for each sample, but `out` is a local of the whole call: a sample of length 0
never sets it, and `predicted[i] = out[0, 1]` then reads the `out` of an earlier sample, or raises
`UnboundLocalError` when there is none.

* `evalForward_eq_reads` — the predictions are the reads of a carried variable.
* `predictsPerSample_iff` — each prediction is a function of its own sample exactly when no
  sample has length 0.
-/

namespace Rids.Learner

open Rids.Lib.CarriedVariable

variable {ι κ R : Type*} [Fintype ι] [Fintype κ] [Field R] [LinearOrder R]
variable {n : ℕ} (softmax : Softmax n R) (cell : BinaryGruCellModify ι κ n R)

/-! ### The loops -/

/-- The loop over `seq`, from a value of `out` that an earlier sample may have left: the cell
after it and `out`.
Source: `binary_gru.py` `BinaryGRUModelModify.forward`, the loop over `seq` with its `break`
Kind: D -/
def evalSample : BinaryGruCellModify ι κ n R → Option (Fin (n + 2) → R) → (κ → R) → (κ → R) →
    List (ι → R) → BinaryGruCellModify ι κ n R × Option (Fin (n + 2) → R)
  | cell, out, _, _, [] => (cell, out)
  | cell, _, s1Ori, s2Ori, x :: xs =>
    let (cell, step) := cell.forward softmax x s1Ori s2Ori
    if 0.75 < secondScore step.out then (cell, some step.out)
    else evalSample cell (some step.out) step.s1New step.s2New xs

/-- One row of `x_data`, padded to the length `T` of the batch, and `x_length[i]`. -/
structure Sample (ι : Type*) (T : ℕ) (R : Type*) where
  data : Fin T → ι → R
  length : ℕ
  length_le : length ≤ T

/-- `x_data[i, seq, :]` for `seq in range(x_length[i])`. -/
def Sample.rows {T : ℕ} (s : Sample ι T R) : List (ι → R) := (List.ofFn s.data).take s.length

/-- The loop over `i`: the cell after it and `predicted`, or nothing when `out` is read before it
is set.
Source: `binary_gru.py` `BinaryGRUModelModify.forward`, the loop over `i` of the eval branch
Kind: D -/
def evalBatchFrom {T : ℕ} : BinaryGruCellModify ι κ n R → Option (Fin (n + 2) → R) →
    List (Sample ι T R) → Option (BinaryGruCellModify ι κ n R × List R)
  | cell, _, [] => some (cell, [])
  | cell, out, s :: batch =>
    match evalSample softmax cell out (fun _ => 0) (fun _ => 0) s.rows with
    | (_, none) => none
    | (cell, some out) =>
      (evalBatchFrom cell (some out) batch).map fun (cell, predicted) =>
        (cell, secondScore out :: predicted)

/-- Source: `binary_gru.py` `BinaryGRUModelModify.forward`, the eval branch. Kind: D -/
def evalForward {T : ℕ} (batch : List (Sample ι T R)) :
    Option (BinaryGruCellModify ι κ n R × List R) :=
  evalBatchFrom softmax cell none batch

/-! ### What a sample leaves -/

/-- The cell after a step: its layers have stored what they binarise. -/
def BinaryGruCellModify.settled : BinaryGruCellModify ι κ n R :=
  { cell with
    x2h := { cell.x2h with
      weight := { data := binarizeAll cell.x2h.latent, org := some cell.x2h.latent } }
    fc := { cell.fc with
      weight := { data := binarizeAll cell.fc.latent, org := some cell.fc.latent } } }

/-- One turn of the loop over `seq`. -/
theorem evalSample_cons (out : Option (Fin (n + 2) → R)) (s1Ori s2Ori : κ → R) (x : ι → R)
    (xs : List (ι → R)) :
    evalSample softmax cell out s1Ori s2Ori (x :: xs) =
      if 0.75 < (cell.forward softmax x s1Ori s2Ori).2.out 1 then
        (cell.settled, some (cell.forward softmax x s1Ori s2Ori).2.out)
      else
        evalSample softmax cell.settled (some (cell.forward softmax x s1Ori s2Ori).2.out)
          (cell.forward softmax x s1Ori s2Ori).2.s1New
          (cell.forward softmax x s1Ori s2Ori).2.s2New xs := rfl

/-- The loop of the evaluation stops behind the first confident step. -/
theorem evalStepsFrom_cons (s1Ori s2Ori : κ → R) (x : ι → R) (xs : List (ι → R)) :
    evalStepsFrom softmax cell s1Ori s2Ori (x :: xs) =
      (cell.forward softmax x s1Ori s2Ori).2 ::
        if 0.75 < (cell.forward softmax x s1Ori s2Ori).2.out 1 then []
        else evalStepsFrom softmax cell.settled (cell.forward softmax x s1Ori s2Ori).2.s1New
          (cell.forward softmax x s1Ori s2Ori).2.s2New xs := rfl

/-- A settled cell computes what the cell computes. -/
theorem evalStepsFrom_settled (s1Ori s2Ori : κ → R) (xs : List (ι → R)) :
    evalStepsFrom softmax cell.settled s1Ori s2Ori xs =
      evalStepsFrom softmax cell s1Ori s2Ori xs := by
  cases xs <;> rfl

/-- A settled cell predicts what the cell predicts. -/
theorem predicted_settled (xs : List (ι → R)) :
    predicted softmax cell.settled xs = predicted softmax cell xs := by
  unfold predicted evalSteps
  rw [evalStepsFrom_settled]

/-- The cell after a sample is the cell before it, but for what it has stored. -/
theorem evalSample_fst (out : Option (Fin (n + 2) → R)) (s1Ori s2Ori : κ → R)
    (xs : List (ι → R)) :
    (evalSample softmax cell out s1Ori s2Ori xs).1 = if xs = [] then cell else cell.settled := by
  induction xs generalizing cell out s1Ori s2Ori with
  | nil => rfl
  | cons x xs ih =>
    rw [evalSample_cons, if_neg (List.cons_ne_nil x xs)]
    split_ifs with hbreak
    · rfl
    · rw [ih]
      split_ifs <;> rfl

/-- `out` after a sample is the one of its last step, or what it was before. -/
theorem evalSample_snd (out : Option (Fin (n + 2) → R)) (s1Ori s2Ori : κ → R)
    (xs : List (ι → R)) :
    (evalSample softmax cell out s1Ori s2Ori xs).2 =
      ((evalStepsFrom softmax cell s1Ori s2Ori xs).getLast?.map (·.out)).or out := by
  induction xs generalizing cell out s1Ori s2Ori with
  | nil => simp [evalSample, evalStepsFrom]
  | cons x xs ih =>
    rw [evalSample_cons, evalStepsFrom_cons]
    split_ifs with hbreak
    · rfl
    · rw [ih, List.getLast?_cons]
      cases (evalStepsFrom softmax cell.settled _ _ xs).getLast? <;> rfl

/-- A sample sets `out` exactly when it has a row. -/
theorem predicted_isSome_iff (xs : List (ι → R)) :
    (predicted softmax cell xs).isSome ↔ xs ≠ [] := by
  cases xs with
  | nil => simp [predicted, evalSteps, evalStepsFrom]
  | cons x xs => simp [predicted, evalSteps, evalStepsFrom, List.getLast?_cons]

omit [Fintype ι] [Field R] [LinearOrder R] in
/-- A sample has no row exactly when its length is 0. -/
theorem Sample.rows_eq_nil_iff {T : ℕ} (s : Sample ι T R) : s.rows = [] ↔ s.length = 0 := by
  have hlength : s.rows.length = s.length := by
    rw [rows, List.length_take, List.length_ofFn, min_eq_left s.length_le]
  rw [← List.length_eq_zero_iff, hlength]

/-! ### The batch -/

/-- The prediction of a sample on its own. -/
def ownPrediction {T : ℕ} (s : Sample ι T R) : Option R := predicted softmax cell s.rows

/-- A settled cell gives a sample the prediction of the cell. -/
theorem ownPrediction_settled {T : ℕ} :
    ownPrediction (T := T) softmax cell.settled = ownPrediction softmax cell :=
  funext fun _ => predicted_settled softmax cell _

/-- **The predictions of a batch.** `out` is a variable that outlives its sample. -/
theorem evalBatchFrom_eq_reads {T : ℕ} (out : Option (Fin (n + 2) → R))
    (batch : List (Sample ι T R)) :
    (evalBatchFrom softmax cell out batch).map (·.2) =
      reads (ownPrediction softmax cell) (out.map (· 1)) batch := by
  induction batch generalizing cell out with
  | nil => rfl
  | cons s batch ih =>
    have hown : ((evalSample softmax cell out (fun _ => 0) (fun _ => 0) s.rows).2).map (· 1) =
        (ownPrediction softmax cell s).or (out.map (· 1)) := by
      rw [evalSample_snd, Option.map_or, Option.map_map]
      rfl
    have hcell : ownPrediction (T := T) softmax
        (evalSample softmax cell out (fun _ => 0) (fun _ => 0) s.rows).1 =
          ownPrediction softmax cell := by
      rw [evalSample_fst]
      split_ifs
      · rfl
      · exact ownPrediction_settled softmax cell
    rw [reads, ← hown, evalBatchFrom]
    generalize evalSample softmax cell out (fun _ => 0) (fun _ => 0) s.rows = after at hcell ⊢
    obtain ⟨cell', _ | out'⟩ := after
    · rfl
    · have hrest := ih cell' (some out')
      rw [hcell] at hrest
      simp only [Option.map_some, Option.bind_some] at hrest ⊢
      rw [← hrest, Option.map_map, Option.map_map]
      rfl

/-- `predicted[i]` is a value that depends on the weights and on sample `i` only, in every batch
of samples of the pool. -/
def PredictsPerSample {T : ℕ} (pool : Set (Sample ι T R)) : Prop :=
  ∃ f : Sample ι T R → R, ∀ batch : List (Sample ι T R), (∀ s ∈ batch, s ∈ pool) →
    (evalForward softmax cell batch).map (·.2) = some (batch.map f)

/-- **When predictions are per sample.** Whatever the weights are, each prediction of each batch
depends on its own sample only exactly when no sample has length 0. -/
theorem predictsPerSample_iff {T : ℕ} (pool : Set (Sample ι T R)) :
    PredictsPerSample softmax cell pool ↔ ∀ s ∈ pool, 1 ≤ s.length := by
  have hreads : PredictsPerSample softmax cell pool ↔
      ReadsOwn (ownPrediction softmax cell) pool := by
    unfold PredictsPerSample ReadsOwn evalForward
    simp only [evalBatchFrom_eq_reads, Option.map_none]
  rw [hreads, readsOwn_iff]
  refine forall₂_congr fun s _ => ?_
  rw [ownPrediction, predicted_isSome_iff, ne_eq, s.rows_eq_nil_iff, Nat.one_le_iff_ne_zero]

/-! ### A leak -/

/-- Softmax on two or more real scores. -/
noncomputable def expSoftmax (n : ℕ) : Softmax n ℝ :=
  fun score k => Real.exp (score k) / ∑ j, Real.exp (score j)

/-- One input, one unit; the gate stays shut, and class 1 is scored by `-hy`. -/
noncomputable def shutGate : BinaryGruCellModify Unit Unit 0 ℝ where
  x2h := .new (fun | .inl () => fun _ => -1 | .inr () => fun _ => 1) 0
  move1 := 0
  fc := .new (fun k _ => if k = 0 then 1 else -1) 0

/-- A sample of one row. -/
noncomputable def oneRow (x : ℝ) : Sample Unit 1 ℝ := ⟨fun _ _ => x, 1, le_rfl⟩

/-- A sample without rows. -/
noncomputable def noRow : Sample Unit 1 ℝ := ⟨fun _ _ => 0, 0, zero_le_one⟩

/-- The rows of the example sample. -/
theorem oneRow_rows (x : ℝ) : (oneRow x).rows = [fun _ => x] := rfl

/-- What the cell makes of a row between 0 and 1: `hy` is the row. -/
theorem hy_shutGate {x : ℝ} (h0 : 0 ≤ x) (h1 : x ≤ 1) :
    (shutGate.forward (expSoftmax 0) (fun _ => x) (fun _ => 0) fun _ => 0).2.hy = fun _ => x := by
  have hkeep : hardtanh x = x := by
    unfold hardtanh
    rw [min_eq_right h1, max_eq_right (by linarith)]
  have hshut : ¬ 0 < hardtanh (-x) := by
    unfold hardtanh
    rw [not_lt, min_eq_right (by linarith)]
    exact max_le (by linarith) (by linarith)
  funext k
  simp [BinaryGruCellModify.forward, BinaryLinear.forward, shutGate, BinaryLinear.new,
    binaryLinear, binarizeAll, binarize_eq, binaryActive_eq, movement]
  norm_num [hkeep, hshut]

/-- The prediction of the example sample. -/
theorem ownPrediction_oneRow {x : ℝ} (h0 : 0 ≤ x) (h1 : x ≤ 1) :
    ownPrediction (expSoftmax 0) shutGate (oneRow x) =
      some (Real.exp (-x) / (Real.exp x + Real.exp (-x))) := by
  have hout : (shutGate.forward (expSoftmax 0) (fun _ => x) (fun _ => 0) fun _ => 0).2.out 1 =
      expSoftmax 0 (binaryLinear (binarizeAll shutGate.fc.latent) shutGate.fc.move
        (shutGate.forward (expSoftmax 0) (fun _ => x) (fun _ => 0) fun _ => 0).2.hy) 1 := rfl
  have hpred : ownPrediction (expSoftmax 0) shutGate (oneRow x) =
      some ((shutGate.forward (expSoftmax 0) (fun _ => x) (fun _ => 0) fun _ => 0).2.out 1) := by
    rw [ownPrediction, oneRow_rows, predicted, evalSteps, evalStepsFrom_cons]
    split_ifs <;> rfl
  rw [hpred, hout, hy_shutGate h0 h1]
  simp [expSoftmax, Fin.sum_univ_two, binaryLinear, binarizeAll, binarize_eq, movement, shutGate,
    BinaryLinear.latent, BinaryLinear.new]
  norm_num

/-- A sample without rows has no prediction. -/
theorem ownPrediction_noRow : ownPrediction (expSoftmax 0) shutGate noRow = none := rfl

/-- The prediction of a sample without rows is the one of the sample before it; alone, the call
fails. -/
theorem noRow_not_predictsPerSample :
    (evalForward (expSoftmax 0) shutGate [oneRow 0, noRow]).map (·.2) = some [1 / 2, 1 / 2] ∧
      (evalForward (expSoftmax 0) shutGate [oneRow 1, noRow]).map (·.2) =
        some [Real.exp (-1) / (Real.exp 1 + Real.exp (-1)),
          Real.exp (-1) / (Real.exp 1 + Real.exp (-1))] ∧
      Real.exp (-1) / (Real.exp 1 + Real.exp (-1)) ≠ 1 / 2 ∧
      evalForward (expSoftmax 0) shutGate [noRow] = none ∧
      ¬ PredictsPerSample (T := 1) (expSoftmax 0) shutGate Set.univ := by
  have hbatch (x : ℝ) (h0 : 0 ≤ x) (h1 : x ≤ 1) :
      (evalForward (expSoftmax 0) shutGate [oneRow x, noRow]).map (·.2) =
        some [Real.exp (-x) / (Real.exp x + Real.exp (-x)),
          Real.exp (-x) / (Real.exp x + Real.exp (-x))] := by
    rw [evalForward, evalBatchFrom_eq_reads, reads_cons_of_set _ (ownPrediction_oneRow h0 h1),
      reads_cons_of_stale _ ownPrediction_noRow]
    rfl
  have hhalf : Real.exp (-0) / (Real.exp 0 + Real.exp (-0)) = 1 / 2 := by norm_num
  have hless : Real.exp (-1) < Real.exp 1 := Real.exp_lt_exp.mpr (by norm_num)
  refine ⟨hhalf ▸ hbatch 0 le_rfl zero_le_one, hbatch 1 zero_le_one le_rfl, ?_, rfl, ?_⟩
  · rw [ne_eq, div_eq_div_iff (by positivity) two_ne_zero]
    linarith
  · rintro ⟨f, hf⟩
    have hnone : none = some [f noRow] := hf [noRow] fun _ _ => Set.mem_univ _
    exact Option.some_ne_none _ hnone.symm

end Rids.Learner
