import Rids.Enforcer.Counting

/-!
# The decision that is stored

The inference of a packet is split over its two passes: the fresh one updates the recurrent state
and gates it, the recirculated one merges the eight results and stores the decision. The
results are metadata, and recirculation starts a pass from zero metadata: what is merged is zero
and what is stored is 1.

* `rDecision_runPass` — a pass that applies `t_update_decision` writes 1.
* `storesOwnDecision_iff` — the value stored for a packet is the one its own inference calls for
  exactly when its fresh pass has class 2 and a non-negative score.
-/

namespace Rids.Enforcer

open Rids.Lib.SlotMachine

/-! ### What the two passes do -/

/-- The score of a fresh pass of class 2, from the slot it finds. -/
def Slot.score (c : Program) (s : Slot) (p : Pass) : BitVec 8 :=
  Rids.Enforcer.score (s.mergedMd c p)

/-- The decision a score calls for: 1 when it is non-negative as a signed byte, else 2. -/
def decisionOf (v : BitVec 8) : BitVec 16 := if 0 ≤ v.toInt then 1 else 2

/-- The pass ran the inference branch. -/
def PassOut.RanInference (o : PassOut) : Prop :=
  .doCalcMat ∈ o.applied ∧ .doTanhAndUpdateState ∈ o.applied ∧ .doMergeResult1 ∈ o.applied

variable {c : Program} {r : Registers} {p : Pass}

/-- A fresh pass runs the inference exactly in class 2. -/
theorem ranInference_iff (hp : ¬ p.Recirc) :
    (runPass c r p).RanInference ↔ (r.slot (c.slotOf p)).overflow c p = 2 := by
  rw [runPass_eq, Slot.overflow, ← one_lt_tholdClass_iff, ← Slot.overflow]
  simp only [PassOut.RanInference, Slot.out, if_neg hp]
  split_ifs with h <;> simp [h]

/-- `t_touch_tbl` and `t_recirc` leave the results of the inference alone. -/
theorem score_runPass (hp : ¬ p.Recirc) (h : (r.slot (c.slotOf p)).overflow c p = 2) :
    score (runPass c r p).md = (r.slot (c.slotOf p)).score c p := by
  have htouch (md : Metadata) : score (tRecirc (tTouchTbl c md)) = score md := by
    unfold tTouchTbl tRecirc
    split <;> rfl
  have hlt : 1#2 < (r.slot (c.slotOf p)).overflow c p := by rw [h]; decide
  rw [runPass_eq, Slot.out, if_neg hp, if_pos hlt, htouch, Slot.score]

/-- A pass that applies `t_update_decision` writes 1. -/
theorem rDecision_runPass (h : .tUpdateDecision ∈ (runPass c r p).applied) :
    (runPass c r p).regs.rDecision (c.slotOf p) = 1 := by
  have hself := (switch_slotWise c).view_step_self r p
  have hcell : (runPass c r p).regs.rDecision (c.slotOf p) =
      ((r.slot (c.slotOf p)).step c p).decision := congrArg Slot.decision hself
  rw [runPass_eq] at h
  rw [hcell, decision_step, if_pos h]

/-! ### The stored decision -/

/-- The recirculated pass of `p`, after `p` at `r` and the passes `mid`. -/
def recircPass (c : Program) (r : Registers) (p : Pass) (mid : List Pass) : PassState :=
  runPass c ((switch c).run r (p :: mid)) p.recirculated

/-- The fresh pass `p` at `r` ran the inference, and its recirculated pass, after the passes
`mid`, stores the decision that the results it left call for. -/
def StoresOwnDecision (c : Program) (r : Registers) (p : Pass) (mid : List Pass) : Prop :=
  (runPass c r p).RanInference ∧
    (recircPass c r p mid).regs.rDecision (c.slotOf p) = decisionOf (score (runPass c r p).md)

/-- **When the stored decision is the packet's own.** -/
theorem storesOwnDecision_iff {c : Program} {r : Registers} {p : Pass} {mid : List Pass}
    (hp : ¬ p.Recirc) (hw : .tUpdateDecision ∈ (recircPass c r p mid).applied) :
    StoresOwnDecision c r p mid ↔
      (r.slot (c.slotOf p)).overflow c p = 2 ∧ 0 ≤ ((r.slot (c.slotOf p)).score c p).toInt := by
  have hone : (recircPass c r p mid).regs.rDecision (c.slotOf p) = 1 := rDecision_runPass hw
  rw [StoresOwnDecision, ranInference_iff hp, hone]
  refine and_congr_right fun h => ?_
  rw [score_runPass hp h, decisionOf]
  split_ifs with hs <;> simp [hs]

/-- On the first packet of a flow both sides can be evaluated. -/
theorem firstPacket_storesOwnDecision_iff :
    StoresOwnDecision (.sample tholdEvery) .zero (.fresh 7 1) [] ↔
      (Registers.zero.slot 0).overflow (.sample tholdEvery) (.fresh 7 1) = 2 ∧
        0 ≤ ((Registers.zero.slot 0).score (.sample tholdEvery) (.fresh 7 1)).toInt :=
  storesOwnDecision_iff (by decide) (by decide +kernel)

/-- The first packet of length class 1 has score -4, which calls for 2; stored is 1. -/
theorem firstPacket_stores_other_decision :
    Reachable (.sample tholdEvery) .zero ∧
      .tUpdateDecision ∈
        (recircPass (.sample tholdEvery) .zero (.fresh 7 1) []).applied ∧
      (score (runPass (.sample tholdEvery) .zero (.fresh 7 1)).md).toInt = -4 ∧
      (recircPass (.sample tholdEvery) .zero (.fresh 7 1) []).regs.rDecision 0 = 1 ∧
      ¬ StoresOwnDecision (.sample tholdEvery) .zero (.fresh 7 1) [] := by
  refine ⟨⟨[], rfl⟩, by decide +kernel, by decide +kernel, by decide +kernel, fun h => ?_⟩
  exact absurd h.2 (by decide +kernel)

end Rids.Enforcer
