import Mathlib.Algebra.Order.Field.Rat
import Mathlib.Tactic.NormNum
import Mathlib.Tactic.NormNum.OfScientific
import Rids.Lib.SlotMachine
import Rids.Learner.BinaryGruCell

/-!
# The two copies of a layer's weight (`binarize.py`, `binary_linear.py`)

A `BinaryLinear` layer keeps its weight twice: `weight.data`, which `functional.linear` and every
operation outside the layer work on, and `weight.org`, an attribute that the first `forward` sets
to a clone of `weight.data`. Every `forward` overwrites `weight.data` by `Binarize(weight.org)`;
nothing else in the repository writes `weight.org`.

* `binarize_eq` — the three masked assignments are a threshold at `±0.005`.
* `latent_run` — after any history the next `forward` computes with the weight of the moment
  of the first one, binarised.
* `losesNoUpdate_iff` — hence an update after the first `forward` is lost unless it leaves every
  entry on its side of the thresholds.
-/

namespace Rids.Learner

open Rids.Lib.SlotMachine

variable {ι κ R : Type*} [Field R] [LinearOrder R]

/-! ### Binarize -/

/-- Three masked assignments to a clone, in this order.
Source: `binarize.py` `Binarize`, `quant_mode='det'`
Kind: D -/
def binarize (v : R) : R :=
  let inputCopy := if -100 ≤ v then 0 else v
  let inputCopy := if v ≤ -0.005 then -1 else inputCopy
  if 0.005 ≤ v then 1 else inputCopy

/-- What `Binarize` does to a whole weight. -/
def binarizeAll (w : κ → ι → R) : κ → ι → R := fun k l => binarize (w k l)

/-- Binarising is a comparison with the two thresholds. -/
theorem binarize_eq [IsStrictOrderedRing R] (v : R) :
    binarize v = if 0.005 ≤ v then 1 else if v ≤ -0.005 then -1 else 0 := by
  unfold binarize
  by_cases hhigh : 0.005 ≤ v
  · simp [hhigh]
  by_cases hlow : v ≤ -0.005
  · simp [hhigh, hlow]
  have hge : -100 ≤ v := by
    have hlt : (-100 : R) < -0.005 := by norm_num
    exact hlt.le.trans (not_le.mp hlow).le
  simp [hhigh, hlow, hge]

/-! ### The layer -/

/-- The weight parameter: its `data`, and the attribute `org`, which it has not got at first.
Source: `binary_linear.py` `BinaryLinear.forward`
Kind: D -/
structure Weight (ι κ R : Type*) where
  data : κ → ι → R
  org : Option (κ → ι → R) := none

/-- Source: `binary_linear.py` `BinaryLinear` (`nn.Linear` without bias). Kind: D -/
structure BinaryLinear (ι κ R : Type*) where
  weight : Weight ι κ R
  move : R

namespace BinaryLinear

variable (layer : BinaryLinear ι κ R)

/-- A layer as constructed, with its full-precision weight. -/
def new (w : κ → ι → R) (bias : R) : BinaryLinear ι κ R := ⟨{ data := w }, bias⟩

/-- The weight that the next `forward` binarises. -/
def latent : κ → ι → R := layer.weight.org.getD layer.weight.data

variable [Fintype ι]

/-- The layer after the call and its output.
Source: `binary_linear.py` `BinaryLinear.forward`
Kind: D -/
def forward (input : ι → R) : BinaryLinear ι κ R × (κ → R) :=
  let org := layer.weight.org.getD layer.weight.data
  let weight : Weight ι κ R := { data := binarizeAll org, org := some org }
  ({ layer with weight := weight }, binaryLinear weight.data layer.move input)

/-- A forward pass leaves the latent weights as they are. -/
@[simp] theorem forward_latent (input : ι → R) : (layer.forward input).1.latent = layer.latent :=
  rfl

/-- A forward pass leaves the bias as it is. -/
@[simp] theorem forward_move (input : ι → R) : (layer.forward input).1.move = layer.move := rfl

/-- A forward pass gives the binarised layer on its input. -/
theorem forward_out (input : ι → R) :
    (layer.forward input).2 = binaryLinear (binarizeAll layer.latent) layer.move input := rfl

end BinaryLinear

/-! ### Histories -/

/-- An operation on the weight parameter from outside the layer: an optimizer step `w := w + d`,
or a `load_state_dict` of `v`. -/
inductive WeightOp (ι κ R : Type*)
  | step (d : κ → ι → R)
  | load (v : κ → ι → R)

/-- The weight after an operation. -/
def WeightOp.apply : WeightOp ι κ R → (κ → ι → R) → κ → ι → R
  | .step d, w => fun k l => w k l + d k l
  | .load v, _ => v

/-- What can happen to a layer. -/
inductive Event (ι κ R : Type*)
  | forward (input : ι → R)
  | op (o : WeightOp ι κ R)

/-- The event is a call of `forward`. -/
def Event.isForward : Event ι κ R → Bool
  | .forward _ => true
  | .op _ => false

section Machine

variable [Fintype ι]

/-- Operations from outside read and write `weight.data`. -/
def Event.next (layer : BinaryLinear ι κ R) : Event ι κ R → BinaryLinear ι κ R
  | .forward input => (layer.forward input).1
  | .op o => { layer with weight := { layer.weight with data := o.apply layer.weight.data } }

/-- The layer as a machine over its events; a `forward` outputs the weight it computes with and
its result. -/
def layerMachine :
    Machine (BinaryLinear ι κ R) (Event ι κ R) (Option ((κ → ι → R) × (κ → R))) where
  step layer e := e.next layer
  out layer e :=
    match e with
    | .forward input =>
      some ((layer.forward input).1.weight.data, (layer.forward input).2)
    | .op _ => none

/-- `w*`: all operations of a history applied to the initial weight, in order. -/
def latest (w : κ → ι → R) : List (Event ι κ R) → κ → ι → R
  | [] => w
  | .forward _ :: es => latest w es
  | .op o :: es => latest (o.apply w) es

/-- The history up to the first `forward`. -/
def beforeFirst (es : List (Event ι κ R)) : List (Event ι κ R) :=
  es.takeWhile fun e => !e.isForward

omit [Field R] [LinearOrder R] [Fintype ι] in
/-- What comes before the first forward pass is not changed by later events. -/
theorem beforeFirst_append_forward (pre post : List (Event ι κ R)) (input : ι → R) :
    beforeFirst (pre ++ .forward input :: post) = beforeFirst pre := by
  induction pre with
  | nil => rfl
  | cons e pre ih =>
    unfold beforeFirst at ih ⊢
    cases e with
    | forward => rfl
    | op o =>
      rw [List.cons_append, List.takeWhile_cons_of_pos rfl, List.takeWhile_cons_of_pos rfl, ih]

/-- Every `forward` of the history computes with `Binarize(w*)`. -/
def LosesNoUpdate (w : κ → ι → R) (bias : R) (es : List (Event ι κ R)) : Prop :=
  ∀ pre input post, es = pre ++ .forward input :: post →
    layerMachine.out (layerMachine.run (.new w bias) pre) (.forward input) =
      some (binarizeAll (latest w pre), binaryLinear (binarizeAll (latest w pre)) bias input)

end Machine

/-! ### What a history leaves -/

section Runs

variable [Fintype ι]

/-- Once `org` is set, no event changes it. -/
theorem org_run {layer : BinaryLinear ι κ R} {org : κ → ι → R}
    (h : layer.weight.org = some org) (es : List (Event ι κ R)) :
    (layerMachine.run layer es).weight.org = some org := by
  induction es generalizing layer with
  | nil => exact h
  | cons e es ih =>
    rw [Machine.run_cons]
    apply ih
    cases e with
    | forward input => exact congrArg some (by rw [h, Option.getD_some])
    | op o => exact h

/-- No event changes the bias. -/
theorem move_run (layer : BinaryLinear ι κ R) (es : List (Event ι κ R)) :
    (layerMachine.run layer es).move = layer.move := by
  induction es generalizing layer with
  | nil => rfl
  | cons e es ih =>
    rw [Machine.run_cons, ih]
    cases e <;> rfl

/-- The weight the next `forward` binarises is the one of the moment of the first `forward`. -/
theorem latent_run {layer : BinaryLinear ι κ R} (h : layer.weight.org = none)
    (es : List (Event ι κ R)) :
    (layerMachine.run layer es).latent = latest layer.weight.data (beforeFirst es) := by
  induction es generalizing layer with
  | nil => simp [BinaryLinear.latent, beforeFirst, latest, h]
  | cons e es ih =>
    rw [Machine.run_cons]
    cases e with
    | forward input =>
      have horg : (layerMachine.run (layerMachine.step layer (.forward input)) es).weight.org =
          some (layer.weight.org.getD layer.weight.data) := org_run rfl es
      rw [BinaryLinear.latent, horg]
      simp [beforeFirst, Event.isForward, latest, h]
    | op o =>
      rw [ih (show (layerMachine.step layer (.op o)).weight.org = none from h)]
      simp [beforeFirst, Event.isForward, latest, layerMachine, Event.next]

/-- What a `forward` at the end of a history outputs. -/
theorem out_run (w : κ → ι → R) (bias : R) (pre : List (Event ι κ R)) (input : ι → R) :
    layerMachine.out (layerMachine.run (.new w bias) pre) (.forward input) =
      some (binarizeAll (latest w (beforeFirst pre)),
        binaryLinear (binarizeAll (latest w (beforeFirst pre))) bias input) := by
  have hlatent : (layerMachine.run (.new w bias) pre).latent = latest w (beforeFirst pre) :=
    latent_run rfl pre
  have hmove := move_run (.new w bias) pre
  have hdata : ((layerMachine.run (.new w bias) pre).forward input).1.weight.data =
      binarizeAll (layerMachine.run (.new w bias) pre).latent := rfl
  simp only [layerMachine] at hlatent hmove hdata ⊢
  rw [hdata, BinaryLinear.forward_out, hlatent, hmove]
  rfl

/-- **When no weight update is lost.** Every `forward` of a history computes with the latest
weight exactly when, at each of them, the latest weight binarises to what the weight of the
moment of the first `forward` binarises to. -/
theorem losesNoUpdate_iff (w : κ → ι → R) (bias : R) (es : List (Event ι κ R)) :
    LosesNoUpdate w bias es ↔
      ∀ pre input post, es = pre ++ .forward input :: post →
        ∀ k l, binarize (latest w (beforeFirst es) k l) = binarize (latest w pre k l) := by
  refine forall₄_congr fun pre input post hsplit => ?_
  have hfirst : beforeFirst es = beforeFirst pre := by
    rw [hsplit, beforeFirst_append_forward]
  rw [out_run, ← hfirst]
  constructor
  · intro heq k l
    exact congrFun (congrFun (congrArg Prod.fst (Option.some.inj heq)) k) l
  · intro hsame
    have hall : binarizeAll (latest w (beforeFirst es)) = binarizeAll (latest w pre) := by
      funext k l
      exact hsame k l
    rw [hall]

end Runs

/-- A forward, a checkpoint with the opposite weight, a forward. -/
def lateLoad : List (Event Unit Unit ℚ) :=
  [.forward fun _ => 1, .op (.load fun _ _ => -1), .forward fun _ => 1]

/-- The second forward still computes with the weight 1. -/
theorem lateLoad_not_losesNoUpdate :
    (layerMachine.hist (.new (fun _ _ => 1) 0) lateLoad).map (fun x => x.2.map (·.2 ())) =
        [some 1, none, some 1] ∧
      ¬ LosesNoUpdate (fun _ _ => 1) 0 lateLoad := by
  refine ⟨by decide +kernel, fun h => ?_⟩
  have hsecond := h [.forward fun _ => 1, .op (.load fun _ _ => -1)] (fun _ => 1) [] rfl
  rw [out_run] at hsecond
  have hentry := congrFun (congrFun (congrArg Prod.fst (Option.some.inj hsecond)) ()) ()
  revert hentry
  decide +kernel

end Rids.Learner
