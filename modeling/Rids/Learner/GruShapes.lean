import Rids.Lib.TensorShape

/-!
# The shapes of a forward pass (`binary_gru.py`, `binary_grucell.py`)

`forwardShapes` is `BinaryGRUModelModify.forward` on shapes: every tensor operation of the two
branches, for stacked layers, with PyTorch's rules as in `Lib.TensorShape`. Where the eval branch
stops depends on values, so the stops are a parameter.

`__init__` builds every cell for inputs of size `input_dim`, and the cells of the later layers
are given the `hn` of shape `(1, hidden_dim)` of the layer below, which `x.view(-1, x.size(0))`
makes a column.

* `firstLayer` — the first layer is shape-correct for all dimensions.
* `laterLayer` — a later one exactly when both dimensions are 1.
* `forwardShapes_isSome_iff` — hence a pass over a batch fails unless the model has one layer, or
  `input_dim` and `hidden_dim` are 1.
-/

namespace Rids.Learner

open Rids.Lib.TensorShape

/-! ### The cell -/

/-- The sizes of a model.
Source: `binary_gru.py` `BinaryGRUModelModify.__init__`
Kind: D -/
structure ModelDims where
  inputDim : ℕ
  hiddenDim : ℕ
  outputDim : ℕ
  layerDim : ℕ
  inputDim_pos : 1 ≤ inputDim
  hiddenDim_pos : 1 ≤ hiddenDim
  outputDim_ge : 2 ≤ outputDim
  layerDim_pos : 1 ≤ layerDim

/-- What a cell returns. -/
structure CellShapes where
  s1New : Shape
  s2New : Shape
  hy : Shape
  out : Shape
  deriving DecidableEq

/-- The bias is of shape `(1, 1)`.
Source: `binarize.py` `Movement.forward`
Kind: D -/
def movementShape (x : Shape) : Option Shape := broadcast x [1, 1]

/-- Source: `binary_linear.py` `BinaryLinear.forward`. Kind: D -/
def binaryLinearShape (inFeatures outFeatures : ℕ) (input : Shape) : Option Shape := do
  let moved ← movementShape input
  linear outFeatures inFeatures moved

/-- Source: `binary_grucell.py` `BinaryGRUCellModify.forward`. Kind: D -/
def cellShapes (inputSize hiddenSize outputSize : ℕ) (x s1Ori s2Ori : Shape) :
    Option CellShapes := do
  let columns ← size x 0
  let x ← viewRows x columns
  let gateX ← binaryLinearShape inputSize (2 * hiddenSize) x
  let [m1, m2] ← chunk 2 1 gateX | none
  let s1New ← broadcast s1Ori m1
  let s2New ← broadcast s2Ori m2
  let fu ← movementShape s1New
  let kept ← broadcast fu s2New
  let held ← broadcast fu s2Ori
  let hy ← broadcast kept held
  let out ← binaryLinearShape hiddenSize outputSize hy
  let out ← softmax 1 out
  return { s1New := s1New, s2New := s2New, hy := hy, out := out }

/-- On a matrix of the right width, everything a cell computes has its rows. -/
theorem cellShapes_matrix (inputSize outputSize : ℕ) {hiddenSize columns r : ℕ} {x : Shape}
    (hpos : 1 ≤ hiddenSize) (hsize : size x 0 = some columns)
    (hview : viewRows x columns = some [r, columns]) :
    cellShapes inputSize hiddenSize outputSize x [1, hiddenSize] [1, hiddenSize] =
      if columns = inputSize then
        some { s1New := [r, hiddenSize], s2New := [r, hiddenSize], hy := [r, hiddenSize]
               out := [r, outputSize] }
      else none := by
  have hmove (c : ℕ) : movementShape [r, c] = some [r, c] := broadcast_one r c
  by_cases h : columns = inputSize
  · subst h
    simp [cellShapes, binaryLinearShape, hsize, hview, hmove, linear_matrix, chunk_two hpos,
      broadcast_row, broadcast_row', broadcast_self, softmax]
  · simp [cellShapes, binaryLinearShape, hsize, hview, hmove, linear_matrix, h]

/-! ### The layers of a step -/

/-- The locals that survive a layer, unset at first. -/
structure LayerLocals where
  hn : Option Shape := none
  out : Option Shape := none
  deriving DecidableEq

variable (d : ModelDims)

/-- The shape of `S1_ori` and `S2_ori`; assignments to a slice do not change it. -/
def ModelDims.stateShape : Shape := [d.layerDim, 1, d.hiddenDim]

/-- One layer: the two rows are read, the cell runs on the input or on `hn`, and the rows are
written back.
Source: `binary_gru.py` `BinaryGRUModelModify.forward`, the loop over `layer`
Kind: D -/
def layerStep (row : Shape) (locals : LayerLocals) (layer : ℕ) : Option LayerLocals := do
  let input ← if layer = 0 then some row else locals.hn
  let s1Ori ← index d.stateShape [layer]
  let s2Ori ← index d.stateShape [layer]
  let cell ← cellShapes d.inputDim d.hiddenDim d.outputDim input s1Ori s2Ori
  assign s1Ori cell.s1New
  assign s2Ori cell.s2New
  return { hn := some cell.hy, out := some cell.out }

/-- All layers of one step.
Source: `binary_gru.py` `BinaryGRUModelModify.forward`, the body of the loop over `seq`
Kind: D -/
def seqStep (row : Shape) (locals : LayerLocals) : Option LayerLocals :=
  (List.range d.layerDim).foldlM (layerStep d row) locals

/-- The locals after the first layer. -/
def ModelDims.afterFirst : LayerLocals where
  hn := some [1, d.hiddenDim]
  out := some [1, d.outputDim]

/-- The states of a layer are one row. -/
theorem index_stateShape {layer : ℕ} (h : layer < d.layerDim) :
    index d.stateShape [layer] = some [1, d.hiddenDim] := by
  simp [index, ModelDims.stateShape, h]

/-- **The first layer**, from any locals. -/
theorem firstLayer (locals : LayerLocals) :
    layerStep d [d.inputDim] locals 0 = some d.afterFirst := by
  have hview : viewRows [d.inputDim] d.inputDim = some [1, d.inputDim] :=
    viewRows_vector d.inputDim_pos
  have hcell := cellShapes_matrix d.inputDim d.outputDim d.hiddenDim_pos
    (x := [d.inputDim]) rfl hview
  simp [layerStep, index_stateShape d d.layerDim_pos, hcell, assign_row, ModelDims.afterFirst]

/-- **A later layer** makes a column of the state of the layer below. -/
theorem laterLayer {layer : ℕ} (hlayer : layer + 1 < d.layerDim) (row : Shape) :
    layerStep d row d.afterFirst (layer + 1) =
      if d.inputDim = 1 ∧ d.hiddenDim = 1 then some d.afterFirst else none := by
  have hcell := cellShapes_matrix d.inputDim d.outputDim d.hiddenDim_pos
    (x := [1, d.hiddenDim]) rfl (viewRows_row d.hiddenDim)
  have hstep : layerStep d row d.afterFirst (layer + 1) =
      (cellShapes d.inputDim d.hiddenDim d.outputDim [1, d.hiddenDim] [1, d.hiddenDim]
        [1, d.hiddenDim]).bind fun cell =>
          (assign [1, d.hiddenDim] cell.s1New).bind fun _ =>
            (assign [1, d.hiddenDim] cell.s2New).bind fun _ =>
              some { hn := some cell.hy, out := some cell.out } := by
    simp [layerStep, index_stateShape d hlayer, ModelDims.afterFirst]
  rw [hstep, hcell]
  by_cases hinput : 1 = d.inputDim
  · by_cases hhidden : d.hiddenDim = 1
    · simp [← hinput, hhidden, assign_row, ModelDims.afterFirst]
    · simp [← hinput, hhidden, assign_row]
  · simp [hinput, Ne.symm hinput]

/-- **All layers of a step.** -/
theorem seqStep_eq (locals : LayerLocals) :
    seqStep d [d.inputDim] locals =
      if d.layerDim = 1 ∨ d.inputDim = 1 ∧ d.hiddenDim = 1 then some d.afterFirst else none := by
  have hlater (m : ℕ) (hm : m + 1 ≤ d.layerDim) :
      ((List.range m).map (· + 1)).foldlM (layerStep d [d.inputDim]) d.afterFirst =
        if m = 0 ∨ d.inputDim = 1 ∧ d.hiddenDim = 1 then some d.afterFirst else none := by
    induction m with
    | zero => rfl
    | succ m ih =>
      rw [List.range_succ, List.map_append, List.foldlM_append, ih (by omega)]
      by_cases h : d.inputDim = 1 ∧ d.hiddenDim = 1
      · simp [h, laterLayer d hm]
      · by_cases hm0 : m = 0
        · subst hm0
          simp [h, laterLayer d hm]
        · simp [h, hm0]
  obtain ⟨m, hm⟩ : ∃ m, d.layerDim = m + 1 := Nat.exists_eq_succ_of_ne_zero (by
    have := d.layerDim_pos
    omega)
  rw [seqStep, hm, List.range_succ_eq_map, List.foldlM_cons, firstLayer]
  have hrest := hlater m hm.ge
  simpa [Option.bind_eq_bind] using hrest

/-! ### The pass -/

/-- A batch of sequences padded to a common length, and their lengths. -/
structure PaddedBatch where
  steps : ℕ
  lengths : List ℕ
  lengths_pos : ∀ l ∈ lengths, 1 ≤ l
  lengths_le : ∀ l ∈ lengths, l ≤ steps

variable (batch : PaddedBatch)

/-- The shape of `x_data`. -/
def PaddedBatch.xData : Shape := [batch.lengths.length, batch.steps, d.inputDim]

/-- The shape of `x_length`, `x_label` and `predicted`. -/
def PaddedBatch.perSample : Shape := [batch.lengths.length]

/-- One step of one sequence: the layers, and `out[0, 1]`, which either branch reads. -/
def seqTurn (i seq : ℕ) (locals : LayerLocals) : Option (LayerLocals × Shape) := do
  let row ← index (batch.xData d) [i, seq]
  let locals ← seqStep d row locals
  let out ← locals.out
  let score ← index out [0, 1]
  return (locals, score)

/-- Source: `binary_gru.py` `BinaryGRUModelModify.forward`, the loop over `seq` when training.
Kind: D -/
def trainSeqs (i : ℕ) : ℕ → ℕ → LayerLocals → Shape → Option (LayerLocals × Shape)
  | _, 0, locals, lossSingle => some (locals, lossSingle)
  | seq, k + 1, locals, lossSingle => do
    let (locals, score) ← seqTurn d batch i seq locals
    let label ← index batch.perSample [i]
    let diff ← broadcast label score
    let lossSingle ← broadcast lossSingle diff
    trainSeqs i (seq + 1) k locals lossSingle

/-- The losses are scalars.
Source: `binary_gru.py` `BinaryGRUModelModify.forward`, the loop over `i` when training
Kind: D -/
def trainSamples : ℕ → List ℕ → LayerLocals → Shape → Option Shape
  | _, [], _, loss => some loss
  | i, l :: ls, locals, loss => do
    let (locals, lossSingle) ← trainSeqs d batch i 0 l locals []
    let loss ← broadcast loss lossSingle
    trainSamples (i + 1) ls locals loss

/-- Source: `binary_gru.py` `BinaryGRUModelModify.forward`, the loop over `seq` in eval mode.
Kind: D -/
def evalSeqs (stop : ℕ → Bool) (i : ℕ) : ℕ → ℕ → LayerLocals → Option LayerLocals
  | _, 0, locals => some locals
  | seq, k + 1, locals => do
    let (locals, _) ← seqTurn d batch i seq locals
    if stop seq then return locals
    evalSeqs stop i (seq + 1) k locals

/-- Source: `binary_gru.py` `BinaryGRUModelModify.forward`, the loop over `i` in eval mode.
Kind: D -/
def evalSamples (stop : ℕ → ℕ → Bool) : ℕ → List ℕ → LayerLocals → Option Shape
  | _, [], _ => some batch.perSample
  | i, l :: ls, locals => do
    let locals ← evalSeqs d batch (stop i) i 0 l locals
    let out ← locals.out
    let score ← index out [0, 1]
    let slot ← index batch.perSample [i]
    assign slot score
    evalSamples stop (i + 1) ls locals

/-- The shape of what a pass returns; `stop i seq` says that `out[0, 1] > 0.75` there.
Source: `binary_gru.py` `BinaryGRUModelModify.forward`
Kind: D -/
def forwardShapes (training : Bool) (stop : ℕ → ℕ → Bool) : Option Shape :=
  if training then trainSamples d batch 0 batch.lengths {} []
  else evalSamples d batch stop 0 batch.lengths {}

/-- The sizes with which the layers fit together. -/
def ModelDims.Fits : Prop := d.layerDim = 1 ∨ d.inputDim = 1 ∧ d.hiddenDim = 1

instance : Decidable d.Fits := inferInstanceAs (Decidable (_ ∨ _ ∧ _))

variable {d batch}

/-- A turn of the training loop fails exactly where the dimensions do not fit. -/
theorem seqTurn_eq {i seq : ℕ} (hi : i < batch.lengths.length) (hseq : seq < batch.steps)
    (locals : LayerLocals) :
    seqTurn d batch i seq locals = if d.Fits then some (d.afterFirst, []) else none := by
  have hrow : index (batch.xData d) [i, seq] = some [d.inputDim] := by
    simp [index, PaddedBatch.xData, hi, hseq]
  have hscore : index [1, d.outputDim] [0, 1] = some [] := by
    have houtput : 1 < d.outputDim := d.outputDim_ge
    simp [index, houtput]
  have hstep : seqStep d [d.inputDim] locals = if d.Fits then some d.afterFirst else none :=
    seqStep_eq d locals
  by_cases hfits : d.Fits
  · simp [seqTurn, hrow, hstep, hfits, ModelDims.afterFirst, hscore]
  · simp [seqTurn, hrow, hstep, hfits]

/-- The loop over the sequence, where they fit. -/
theorem trainSeqs_eq {i seq k : ℕ} (hi : i < batch.lengths.length) (hk : seq + k ≤ batch.steps)
    (hfits : d.Fits) (locals : LayerLocals) :
    ∃ after, trainSeqs d batch i seq k locals [] = some (after, []) := by
  induction k generalizing seq locals with
  | zero => exact ⟨locals, rfl⟩
  | succ k ih =>
    have hlabel : index batch.perSample [i] = some [] := by
      simp [index, PaddedBatch.perSample, hi]
    have hk' : seq + 1 + k ≤ batch.steps := by omega
    obtain ⟨after, hafter⟩ := ih hk' d.afterFirst
    refine ⟨after, ?_⟩
    rw [trainSeqs, seqTurn_eq hi (by omega), if_pos hfits]
    simpa [hlabel, broadcast, broadcastRev] using hafter

/-- The loop of the evaluation ends in the state after the first step, wherever it stops. -/
theorem evalSeqs_eq {stop : ℕ → Bool} {i seq k : ℕ} (hi : i < batch.lengths.length)
    (hk : seq + (k + 1) ≤ batch.steps) (hfits : d.Fits) (locals : LayerLocals) :
    evalSeqs d batch stop i seq (k + 1) locals = some d.afterFirst := by
  induction k generalizing seq locals with
  | zero =>
    rw [evalSeqs, seqTurn_eq hi (by omega), if_pos hfits]
    simp [evalSeqs]
  | succ k ih =>
    have hk' : seq + 1 + (k + 1) ≤ batch.steps := by omega
    have hrest := ih hk' d.afterFirst
    rw [evalSeqs, seqTurn_eq hi (by omega), if_pos hfits]
    simp [hrest]

/-- Where the layers fit, the rest of a batch goes through, in either branch. -/
theorem trainSamples_eq (hfits : d.Fits) {i : ℕ} {ls : List ℕ}
    (hi : i + ls.length ≤ batch.lengths.length) (hls : ∀ l ∈ ls, l ≤ batch.steps)
    (locals : LayerLocals) : trainSamples d batch i ls locals [] = some [] := by
  induction ls generalizing i locals with
  | nil => rfl
  | cons l ls ih =>
    rw [List.length_cons] at hi
    have hl : 0 + l ≤ batch.steps := by
      have := hls l List.mem_cons_self
      omega
    obtain ⟨after, hafter⟩ := trainSeqs_eq (i := i) (by omega) hl hfits locals
    have hrest := ih (i := i + 1) (by omega) (fun m hm => hls m (List.mem_cons_of_mem l hm)) after
    rw [trainSamples, hafter]
    simpa [broadcast, broadcastRev] using hrest

/-- The loop over the samples, where they fit and none is empty. -/
theorem evalSamples_eq (hfits : d.Fits) (stop : ℕ → ℕ → Bool) {i : ℕ} {ls : List ℕ}
    (hi : i + ls.length ≤ batch.lengths.length) (hls : ∀ l ∈ ls, 1 ≤ l ∧ l ≤ batch.steps)
    (locals : LayerLocals) : evalSamples d batch stop i ls locals = some batch.perSample := by
  induction ls generalizing i locals with
  | nil => rfl
  | cons l ls ih =>
    rw [List.length_cons] at hi
    obtain ⟨hpos, hle⟩ := hls l List.mem_cons_self
    obtain ⟨k, rfl⟩ : ∃ k, l = k + 1 := Nat.exists_eq_succ_of_ne_zero (by omega)
    have hseqs : evalSeqs d batch (stop i) i 0 (k + 1) locals = some d.afterFirst :=
      evalSeqs_eq (by omega) (by omega) hfits locals
    have hscore : index [1, d.outputDim] [0, 1] = some [] := by
      have houtput : 1 < d.outputDim := d.outputDim_ge
      simp [index, houtput]
    have hslot : index batch.perSample [i] = some [] := by
      have hlt : i < batch.lengths.length := by omega
      simp [index, PaddedBatch.perSample, hlt]
    have hrest := ih (i := i + 1) (by omega) (fun m hm => hls m (List.mem_cons_of_mem _ hm))
      d.afterFirst
    rw [evalSamples, hseqs]
    simpa [ModelDims.afterFirst, hscore, hslot, assign] using hrest

/-- Where they do not, the first step of the first sample fails. -/
theorem forwardShapes_eq_none (hfits : ¬ d.Fits) (hbatch : batch.lengths ≠ []) (training : Bool)
    (stop : ℕ → ℕ → Bool) : forwardShapes d batch training stop = none := by
  obtain ⟨l, ls, hlengths⟩ := List.exists_cons_of_ne_nil hbatch
  have hmem : l ∈ batch.lengths := hlengths ▸ List.mem_cons_self
  have hpos := batch.lengths_pos l hmem
  have hle := batch.lengths_le l hmem
  obtain ⟨k, rfl⟩ : ∃ k, l = k + 1 := Nat.exists_eq_succ_of_ne_zero (by omega)
  have hturn : seqTurn d batch 0 0 {} = none := by
    rw [seqTurn_eq (List.length_pos_of_ne_nil hbatch) (by omega), if_neg hfits]
  unfold forwardShapes
  rw [hlengths]
  cases training
  · simp [evalSamples, evalSeqs, hturn]
  · simp [trainSamples, trainSeqs, hturn]

/-- **When a pass fails on no shape.** For all sizes, batches and stops, in training and in eval
mode: on a batch that is not empty, exactly when the model has one layer or takes and keeps
single numbers. -/
theorem forwardShapes_isSome_iff (d : ModelDims) (batch : PaddedBatch) (training : Bool)
    (stop : ℕ → ℕ → Bool) :
    (forwardShapes d batch training stop).isSome ↔
      batch.lengths = [] ∨ d.layerDim = 1 ∨ d.inputDim = 1 ∧ d.hiddenDim = 1 := by
  by_cases hbatch : batch.lengths = []
  · cases training <;> simp [forwardShapes, hbatch, trainSamples, evalSamples]
  by_cases hfits : d.Fits
  · have hall : (forwardShapes d batch training stop).isSome := by
      unfold forwardShapes
      cases training
      · simp [evalSamples_eq hfits stop (Nat.zero_add _).le
          (fun l hl => ⟨batch.lengths_pos l hl, batch.lengths_le l hl⟩)]
      · simp [trainSamples_eq hfits (Nat.zero_add _).le batch.lengths_le]
    exact iff_of_true hall (.inr hfits)
  · rw [forwardShapes_eq_none hfits hbatch, or_iff_right hbatch]
    exact iff_of_false Bool.false_ne_true hfits

/-- Two layers of three units, on two inputs. -/
def twoLayers : ModelDims := ⟨2, 3, 2, 2, by decide, by decide, by decide, by decide⟩

/-- One sequence of length 1. -/
def oneStep : PaddedBatch := ⟨1, [1], by decide, by decide⟩

/-- The second cell is given a column of width 1, and has weights for width 2. -/
theorem twoLayers_fails :
    viewRows [1, 3] 1 = some [3, 1] ∧ linear 6 2 [3, 1] = none ∧
      forwardShapes twoLayers oneStep false (fun _ _ => false) = none ∧
      forwardShapes twoLayers oneStep true (fun _ _ => false) = none := by
  decide

end Rids.Learner
