import Mathlib.Algebra.BigOperators.Group.List.Basic
import Mathlib.Data.BitVec
import Rids.Enforcer.Slot
import Rids.Lib.Runs

/-!
# What the recurrent registers accumulate

A pass that runs the inference adds its activation to each of the eight accumulators of its slot,
starting from 0 when it saw `is_collision`. The collision is seen by the pass that takes the
slot only: when that pass does not update an accumulator, the old value stays in it.

* `state_run` — the law of a run: an accumulator is the sum of the activations of all passes since
  the last one that saw the collision and updated it, and of its first value if there was none.
* `inherited_add_ownSum_add_foreignSum` — that sum, split at the last takeover and by flow.
* `isOwnSum_iff` — the accumulators are the sums of the flow's own activations exactly when what
  was inherited and what flows with the same key added vanish modulo 256.
-/

namespace Rids.Enforcer

open Rids.Lib.MatchAction
open Rids.Lib.Runs
open Rids.Lib.SlotMachine

/-! ### The eight accumulators -/

/-- The two halves of the cell: `r_s1_statek` and `r_s2_statek`. -/
inductive Layer
  | s1 | s2
deriving DecidableEq

/-- The accumulators of a layer. -/
def Registers.state (r : Registers) : Layer → Neuron → RegArray (BitVec 16) 8
  | .s1 => r.rS1State
  | .s2 => r.rS2State

/-- The action the table of a layer runs on a packet, `none` on a miss. -/
def Program.act (c : Program) : Layer → Packet → Neuron → Option Activation
  | .s1 => c.act1
  | .s2 => c.act2

/-- An activation as a number. -/
def Activation.sign : Activation → ℤ
  | activate => 1
  | deactivate => -1

/-- The byte of an activation is its sign. -/
theorem Activation.delta_eq (a : Activation) : a.delta = .ofInt 8 a.sign := by
  cases a <;> rfl

/-! ### Passes of a run -/

/-- A pass with the registers it found. -/
abbrev Found := Registers × Pass

variable (c : Program)

/-- The passes on slot `i` of a run from `r`. -/
def slotTrace (r : Registers) (i : BitVec 16) (xs : List Pass) : List Found :=
  ((switch c).trace r xs).filter (c.slotOf ·.2 = i)

/-- The pass saw `is_collision = 1`: it took the slot. -/
def SawCollision (x : Found) : Prop := (runPass c x.1 x.2).md.rstate.isCollision = 1

instance (x : Found) : Decidable (SawCollision c x) := inferInstanceAs (Decidable (_ = _))

/-- The activation a pass added to an accumulator, 0 when it did not update it. -/
def activation (l : Layer) (k : Neuron) (x : Found) : ℤ :=
  if .doTanhAndUpdateState ∈ (runPass c x.1 x.2).applied then
    ((c.act l x.2.pkt k).map Activation.sign).getD 0
  else 0

/-- The pass saw the collision and updated the accumulator, which therefore started from 0. -/
def Restarts (l : Layer) (k : Neuron) (x : Found) : Prop :=
  SawCollision c x ∧ activation c l k x ≠ 0

instance (l : Layer) (k : Neuron) (x : Found) : Decidable (Restarts c l k x) :=
  inferInstanceAs (Decidable (_ ∧ _))

/-- The passes since the slot was last taken, the taking pass included. -/
def sinceTakeover : List Found → List Found := sinceLast (SawCollision c)

/-- The passes before the slot was last taken. -/
def beforeTakeover : List Found → List Found := beforeLast (SawCollision c)

/-- The passes since an accumulator last started from 0, the starting pass included. -/
def sinceRestart (l : Layer) (k : Neuron) : List Found → List Found := sinceLast (Restarts c l k)

/-- The activations that flow `F` added to an accumulator since the slot was last taken. -/
def ownSum (l : Layer) (k : Neuron) (F : FlowKeys) (h : List Found) : ℤ :=
  (((sinceTakeover c h).filter (·.2.flow = F)).map (activation c l k)).sum

/-- The activations that other flows, of the same key, have added since. -/
def foreignSum (l : Layer) (k : Neuron) (F : FlowKeys) (h : List Found) : ℤ :=
  (((sinceTakeover c h).filter (·.2.flow ≠ F)).map (activation c l k)).sum

/-- The activations of the previous occupants that were never cleared: those since an accumulator
last started from 0 and before the slot was last taken. -/
def inherited (l : Layer) (k : Neuron) (h : List Found) : ℤ :=
  ((beforeTakeover c (sinceRestart c l k h)).map (activation c l k)).sum

/-! ### One pass -/

variable {c : Program} {l : Layer} {k : Neuron} {r : Registers} {p : Pass} {i : BitVec 16}

/-- A pass leaves the accumulators of the other slots as they are. -/
theorem state_runPass_of_ne (h : c.slotOf p ≠ i) :
    (runPass c r p).regs.state l k i = r.state l k i := by
  have hslot := (switch_slotWise c).view_step_of_ne r p i (Ne.symm h)
  cases l with
  | s1 => exact congrFun (congrArg Slot.s1State hslot) k
  | s2 => exact congrFun (congrArg Slot.s2State hslot) k

/-- The switch runs the inference exactly on the passes that infer. -/
theorem doTanhAndUpdateState_mem_iff :
    .doTanhAndUpdateState ∈ (runPass c r p).applied ↔ (r.slot (c.slotOf p)).Infers c p := by
  rw [runPass_eq]
  unfold Slot.out Slot.Infers
  split_ifs with hr h h <;> simp [hr, h]

/-- A pass without the inference adds nothing. -/
theorem activation_of_not_infers (h : ¬ (r.slot (c.slotOf p)).Infers c p) :
    activation c l k (r, p) = 0 := by
  rw [activation, if_neg (mt doTanhAndUpdateState_mem_iff.mp h)]

/-- A pass with the inference adds the sign of its activation, 0 on a miss. -/
theorem activation_of_infers (h : (r.slot (c.slotOf p)).Infers c p) :
    activation c l k (r, p) = ((c.act l p.pkt k).map Activation.sign).getD 0 := by
  rw [activation, if_pos (doTanhAndUpdateState_mem_iff.mpr h)]

/-- A pass adds its activation to the accumulator, from 0 when it takes the slot and updates. -/
theorem state_runPass_self (l : Layer) (k : Neuron) (r : Registers) (p : Pass) :
    (runPass c r p).regs.state l k (c.slotOf p) =
      (if Restarts c l k (r, p) then 0 else r.state l k (c.slotOf p)) +
        .ofInt 8 (activation c l k (r, p)) := by
  set s := r.slot (c.slotOf p) with hs
  have hcoll : SawCollision c (r, p) ↔ s.Collides c p := isCollision_runPass c r p
  have hnew : (runPass c r p).regs.state l k (c.slotOf p) =
      if s.Infers c p then s.accumulate c p (c.act l p.pkt k) (r.state l k (c.slotOf p))
        else r.state l k (c.slotOf p) := by
    have hslot := (switch_slotWise c).view_step_self r p
    cases l with
    | s1 => exact congrFun (congrArg Slot.s1State hslot) k
    | s2 => exact congrFun (congrArg Slot.s2State hslot) k
  have hrestarts : Restarts c l k (r, p) ↔ s.Collides c p ∧ activation c l k (r, p) ≠ 0 :=
    and_congr_left fun _ => hcoll
  simp only [hnew, hrestarts]
  by_cases hi : s.Infers c p
  · rw [if_pos hi, activation_of_infers hi]
    cases c.act l p.pkt k with
    | none => simp [Slot.accumulate]
    | some a =>
      have hne : a.sign ≠ 0 := by cases a <;> decide
      simp [Slot.accumulate, Slot.start, a.delta_eq, hne]
  · simp [hi, activation_of_not_infers hi]

/-! ### Runs -/

/-- The trace of a slot grows by the passes that hash to it. -/
theorem slotTrace_append_singleton (r : Registers) (i : BitVec 16) (xs : List Pass) (p : Pass) :
    slotTrace c r i (xs ++ [p]) =
      slotTrace c r i xs ++ if c.slotOf p = i then [((switch c).run r xs, p)] else [] := by
  simp only [slotTrace, Machine.trace_append, Machine.trace_cons, Machine.trace_nil,
    List.filter_append]
  split_ifs with h <;> simp [h]

/-- **The law of the accumulators.** After a run an accumulator is the sum of the activations since
it last started from 0, and of what it began with if it never did. -/
theorem state_run (c : Program) (l : Layer) (k : Neuron) (r : Registers) (i : BitVec 16)
    (xs : List Pass) :
    ((switch c).run r xs).state l k i =
      (if ∃ x ∈ slotTrace c r i xs, Restarts c l k x then 0 else r.state l k i) +
        .ofInt 8 ((sinceRestart c l k (slotTrace c r i xs)).map (activation c l k)).sum := by
  induction xs using List.reverseRecOn with
  | nil => exact (BitVec.add_zero _).symm
  | append_singleton xs p ih =>
    rw [Machine.run_append]
    set q := (switch c).run r xs with hq
    rw [show (switch c).run q [p] = (runPass c q p).regs from rfl, slotTrace_append_singleton]
    by_cases hp : c.slotOf p = i
    swap
    · rw [if_neg hp, List.append_nil, state_runPass_of_ne hp, ih]
    subst hp
    rw [if_pos rfl, ← hq, state_runPass_self, sinceRestart, sinceLast_append_singleton]
    by_cases hrestarts : Restarts c l k (q, p)
    · -- the accumulator starts from 0 with this pass, whatever the slot held
      have hsome : ∃ x ∈ slotTrace c r (c.slotOf p) xs ++ [(q, p)], Restarts c l k x :=
        ⟨(q, p), by simp, hrestarts⟩
      rw [if_pos hrestarts, if_pos hrestarts, if_pos hsome, List.map_singleton, List.sum_singleton]
    · have hsome : (∃ x ∈ slotTrace c r (c.slotOf p) xs ++ [(q, p)], Restarts c l k x) ↔
          ∃ x ∈ slotTrace c r (c.slotOf p) xs, Restarts c l k x := by
        simp [hrestarts]
      rw [if_neg hrestarts, if_neg hrestarts, ih, List.map_append, List.sum_append,
        List.map_singleton, List.sum_singleton, BitVec.ofInt_add, BitVec.add_assoc, sinceRestart]
      simp only [hsome]

/-- From zeroed registers nothing else is in an accumulator. -/
theorem state_run_zero (c : Program) (l : Layer) (k : Neuron) (i : BitVec 16) (xs : List Pass) :
    ((switch c).run .zero xs).state l k i =
      .ofInt 8 ((sinceRestart c l k (slotTrace c .zero i xs)).map (activation c l k)).sum := by
  have hzero : Registers.zero.state l k i = 0 := by cases l <;> rfl
  rw [state_run, hzero, ite_self, zero_add]

/-! ### The flow's own sum -/

/-- Since the slot was last taken every activation is the flow's own or another flow's. -/
theorem ownSum_add_foreignSum (c : Program) (l : Layer) (k : Neuron) (F : FlowKeys)
    (h : List Found) :
    ownSum c l k F h + foreignSum c l k F h =
      ((sinceTakeover c h).map (activation c l k)).sum := by
  unfold ownSum foreignSum
  induction sinceTakeover c h with
  | nil => rfl
  | cons x h ih =>
    by_cases hx : x.2.flow = F
    · simp [hx, ← ih, add_assoc]
    · simp [hx, ← ih, add_left_comm]

/-- **What an accumulator is made of**: what was inherited, the flow's own activations and those
of the other flows. -/
theorem inherited_add_ownSum_add_foreignSum (c : Program) (l : Layer) (k : Neuron) (F : FlowKeys)
    (h : List Found) :
    inherited c l k h + (ownSum c l k F h + foreignSum c l k F h) =
      ((sinceRestart c l k h).map (activation c l k)).sum := by
  have hlast : sinceTakeover c (sinceRestart c l k h) = sinceTakeover c h :=
    sinceLast_sinceLast (fun _ => And.left) h
  rw [ownSum_add_foreignSum, inherited, ← hlast, ← List.sum_append, ← List.map_append,
    beforeTakeover, sinceTakeover, beforeLast_append_sinceLast]

/-- After the run `xs ++ [p]` the eight accumulators of the slot of `p` are, modulo 256, the sums
of the activations of the flow of `p` since the slot was last taken. -/
def IsOwnSum (c : Program) (xs : List Pass) (p : Pass) : Prop :=
  ∀ l k, ((switch c).run .zero (xs ++ [p])).state l k (c.slotOf p) =
    .ofInt 8 (ownSum c l k p.flow (slotTrace c .zero (c.slotOf p) (xs ++ [p])))

/-- **When the accumulators are the flow's own sums.** -/
theorem isOwnSum_iff (c : Program) (xs : List Pass) (p : Pass) :
    IsOwnSum c xs p ↔
      ∀ l k, BitVec.ofInt 8 (inherited c l k (slotTrace c .zero (c.slotOf p) (xs ++ [p])) +
        foreignSum c l k p.flow (slotTrace c .zero (c.slotOf p) (xs ++ [p]))) = 0 := by
  refine forall₂_congr fun l k => ?_
  rw [state_run_zero, ← inherited_add_ownSum_add_foreignSum c l k p.flow, add_left_comm,
    BitVec.ofInt_add]
  exact add_eq_left

/-- Flow 9 accumulates, then flow 7 takes the slot with a packet of class 1. -/
def lateTakeover : List Pass := [.fresh 9 1, .fresh 9 1, .fresh 7 1]

/-- The second packet of flow 7 updates all eight accumulators. Its own sum in the first of
them is 1; the accumulator is 2. -/
theorem lateTakeover_not_isOwnSum :
    (runPass (.sample (tholdAt 2)) ((switch (.sample (tholdAt 2))).run .zero lateTakeover)
        (.fresh 7 1)).md.rstate.overflow = 2 ∧
      (∀ l k, ((Program.sample (tholdAt 2)).act l (.sample 7 1) k).isSome) ∧
      ((switch (.sample (tholdAt 2))).run .zero (lateTakeover ++ [.fresh 7 1])).rS1State .n1 0 =
        2 ∧
      ownSum (.sample (tholdAt 2)) .s1 .n1 ⟨7, 0, 6⟩
        (slotTrace (.sample (tholdAt 2)) .zero 0 (lateTakeover ++ [.fresh 7 1])) = 1 ∧
      ¬ IsOwnSum (.sample (tholdAt 2)) lateTakeover (.fresh 7 1) := by
  have hcell : ((switch (.sample (tholdAt 2))).run .zero
      (lateTakeover ++ [.fresh 7 1])).rS1State .n1 0 = 2 := by decide +kernel
  have hsum : ownSum (.sample (tholdAt 2)) .s1 .n1 ⟨7, 0, 6⟩
      (slotTrace (.sample (tholdAt 2)) .zero 0 (lateTakeover ++ [.fresh 7 1])) = 1 := by
    decide +kernel
  refine ⟨by decide +kernel, ?_, hcell, hsum, fun h => ?_⟩
  · intro l k
    cases l <;> cases k <;> decide +kernel
  · have hslot : (Program.sample (tholdAt 2)).slotOf (.fresh 7 1) = 0 := rfl
    have hflow : (Pass.fresh 7 1).flow = ⟨7, 0, 6⟩ := rfl
    have hown := h .s1 .n1
    rw [hslot, hflow, Registers.state, hcell, hsum] at hown
    exact absurd hown (by decide)

end Rids.Enforcer
