import Rids.Enforcer.Ingress

/-!
# One slot of the switch

The abstract model of rEnforcer: a `Slot` is the cells of the eleven register arrays at one
index, and `slotMachine` says in closed form what a pass makes of it. The closed form is the
statement of what ingress is for (a key, a count, a class, eight accumulators, a decision); the
register-level program refines it.

* `Slot.step`, `Slot.out` — the next slot and what the pass leaves behind.
* `doFlowCnt_eq`, `doTanhAndUpdateState_eq` — the two register-changing stretches of ingress in
  closed form.
* `switch_slotWise` — **refinement**: the switch is an array of slot machines, each pass touching
  the slot its flow hashes to and no other.
-/

namespace Rids.Enforcer

open Rids.Lib.MatchAction
open Rids.Lib.SlotMachine

/-- The registers at one index. -/
@[ext] structure Slot where
  flowHashKey : BitVec 16
  flowCnt : BitVec 32
  s1State : Neuron → BitVec 8
  s2State : Neuron → BitVec 8
  decision : BitVec 16

/-- The slot of the register arrays at index `i`. -/
def Registers.slot (r : Registers) (i : BitVec 16) : Slot where
  flowHashKey := r.rFlowHashKey i
  flowCnt := r.rFlowCnt i
  s1State k := r.rS1State k i
  s2State k := r.rS2State k i
  decision := r.rDecision i

/-! ### What the tables make of a pass -/

/-- The class `t_check_cnt_thold` gives a count; a miss leaves `overflow` at 0. -/
def Program.tholdClass (c : Program) (n : BitVec 20) : BitVec 2 :=
  match c.tables.tCheckCntThold n with
  | none => 0
  | some a => a.overflow

/-- The one-hot code of a packet. -/
def Program.onehot (c : Program) (pkt : Packet) : PktlenOnehot :=
  (c.tables.tOnehotPktlen pkt.totalLen).getD {}

/-- The action `t_s1_statek_c` runs on a packet, `none` on a miss. -/
def Program.act1 (c : Program) (pkt : Packet) (k : Neuron) : Option Activation :=
  (c.tables.tS1StateC k).lookup (calcM1 (c.onehot pkt) k)

/-- The action `t_s2_statek_c` runs on a packet, `none` on a miss. -/
def Program.act2 (c : Program) (pkt : Packet) (k : Neuron) : Option Activation :=
  (c.tables.tS2StateC k).lookup (calcM2 (c.onehot pkt) k)

/-! ### The slot machine -/

namespace Slot

variable (c : Program) (s : Slot) (p : Pass)

/-- The pass finds another key in the slot. -/
def Collides : Prop := c.keyOf p ≠ s.flowHashKey

instance : Decidable (s.Collides c p) := inferInstanceAs (Decidable (_ ≠ _))

/-- The counter after the pass. -/
def count : BitVec 32 := if s.Collides c p then 1 else s.flowCnt + 1

/-- The class of the pass. -/
def overflow : BitVec 2 := c.tholdClass ((s.count c p).setWidth 20)

/-- The pass runs the inference branch. -/
def Infers : Prop := ¬ p.Recirc ∧ 1#2 < s.overflow c p

/-- The pass takes the branch that writes the decision. -/
def Decides : Prop := p.Recirc ∧ 1#2 < s.overflow c p

instance : Decidable (s.Infers c p) := inferInstanceAs (Decidable (_ ∧ _))
instance : Decidable (s.Decides c p) := inferInstanceAs (Decidable (_ ∧ _))

/-- The value an accumulator is updated from: 0 when the slot changes owner. -/
def start (cell : BitVec 8) : BitVec 8 := if s.Collides c p then 0 else cell

/-- An accumulator after the table of its neuron has run action `a`. -/
def accumulate (a : Option Activation) (cell : BitVec 8) : BitVec 8 :=
  match a with
  | none => cell
  | some a => s.start c p cell + a.delta

/-- The first accumulator of neuron `k` after an inference. -/
def s1New (k : Neuron) : BitVec 8 := s.accumulate c p (c.act1 p.pkt k) (s.s1State k)

/-- The second accumulator of neuron `k` after an inference. -/
def s2New (k : Neuron) : BitVec 8 := s.accumulate c p (c.act2 p.pkt k) (s.s2State k)

/-- The slot after a pass. -/
def step : Slot where
  flowHashKey := c.keyOf p
  flowCnt := s.count c p
  s1State k := if s.Infers c p then s.s1New c p k else s.s1State k
  s2State k := if s.Infers c p then s.s2New c p k else s.s2State k
  decision := if s.Decides c p then 1 else s.decision

/-- The metadata after `do_flow_cnt`. -/
def flowMd : Metadata where
  ingressPort := p.port
  rstate := {
    overflow := s.overflow c p
    isCollision := .ofBool (s.Collides c p)
    flowCnt := (s.count c p).setWidth 20
    hashKey := c.keyOf p
    hashIndex := c.slotOf p }

/-- `m1k` after `do_tanh_and_update_state`: the new accumulator, or the row on a miss. -/
def tanhM1 (k : Neuron) : MbResult1 :=
  match c.act1 p.pkt k with
  | none => ⟨calcM1 (c.onehot p.pkt) k⟩
  | some _ => ⟨s.s1New c p k⟩

/-- `m2k` after `do_tanh_and_update_state`: the activation and the new accumulator, or what
`do_calc_mat` left on a miss. -/
def tanhM2 (k : Neuron) : MbResult :=
  match c.act2 p.pkt k with
  | none => ⟨calcM2 (c.onehot p.pkt) k, calcM2Tail (c.onehot p.pkt) k⟩
  | some a => ⟨a.delta, s.s2New c p k⟩

/-- The metadata after `do_merge_result_1`. -/
def mergedMd : Metadata :=
  { s.flowMd c p with
    pktlenOnehot := c.onehot p.pkt
    m1 := fun k => s.tanhM1 c p k
    m2 := fun k => gated c k (s.tanhM1 c p k).r1 (s.tanhM2 c p k) }

/-- What a pass leaves behind. A recirculated pass of class 2 has nothing but zeroes to merge,
so its decision is 1. -/
def out : PassOut :=
  if p.Recirc then
    if 1#2 < s.overflow c p then
      { md := dcL2Forward c { s.flowMd c p with decision := 1 }
        applied := [.doMergeResult2, .tUpdateDecision, .dcL2Forward 1] }
    else
      { md := dcL2Forward c { s.flowMd c p with decision := s.decision.setWidth 8 }
        applied := [.tTakeDecision, .dcL2Forward (s.decision.setWidth 8)] }
  else
    if 1#2 < s.overflow c p then
      { md := tRecirc (tTouchTbl c (s.mergedMd c p))
        applied := [.doCalcMat, .doTanhAndUpdateState, .doMergeResult1, .tTouchTbl, .tRecirc] }
    else
      { md := tRecirc (s.flowMd c p)
        applied := [.tRecirc] }

end Slot

/-- One slot as a machine over the passes that hash to it. -/
def slotMachine (c : Program) : Machine Slot Pass PassOut where
  step s p := s.step c p
  out s p := s.out c p

/-! ### `do_flow_cnt` in closed form -/

/-- The key register takes the key of the pass. -/
theorem fkeyAlu_aluLo (md : Metadata) (r : BitVec 16) : fkeyAlu.aluLo md r = md.rstate.hashKey := by
  simp [StatefulAlu.aluLo, StatefulAlu.updateValue, AluProgram.fires, fkeyAlu]

/-- The counter starts again at 1 on a collision. -/
theorem fcntAlu_aluLo (md : Metadata) (r : BitVec 32) :
    fcntAlu.aluLo md r = if md.rstate.isCollision = 1#1 then 1 else r + 1 := by
  by_cases h : md.rstate.isCollision = 1#1 <;>
    simp [StatefulAlu.aluLo, StatefulAlu.updateValue, AluProgram.fires, fcntAlu, h]

/-- The key register reports whether the keys differ. -/
theorem fkeyAlu_combinedPredicate (md : Metadata) (r : BitVec 16) :
    fkeyAlu.combinedPredicate md r = decide (md.rstate.hashKey ≠ r) := by
  simp only [StatefulAlu.combinedPredicate, fkeyAlu, bne, decide_not]
  rfl

/-- A flag is 1 exactly when its condition holds. -/
@[simp] theorem ofBool_eq_one (P : Prop) [Decidable P] : BitVec.ofBool (decide P) = 1#1 ↔ P := by
  by_cases h : P <;> simp [h]

/-- From `overflow` 0 the threshold table leaves the class of the count. -/
theorem tCheckCntThold_eq (c : Program) (s : PassState) (h : s.md.rstate.overflow = 0) :
    tCheckCntThold c s =
      { s with md := { s.md with
          rstate := { s.md.rstate with overflow := c.tholdClass s.md.rstate.flowCnt } } } := by
  cases ht : c.tables.tCheckCntThold s.md.rstate.flowCnt with
  | none => simp [tCheckCntThold, PassState.onMd, Program.tholdClass, ht, ← h]
  | some a => simp [tCheckCntThold, PassState.onMd, Program.tholdClass, ht]

/-- The registers after `do_flow_cnt`. -/
def Registers.countPass (c : Program) (r : Registers) (p : Pass) : Registers :=
  { r with
    rFlowHashKey := Function.update r.rFlowHashKey (c.slotOf p) (c.keyOf p)
    rFlowCnt := Function.update r.rFlowCnt (c.slotOf p) ((r.slot (c.slotOf p)).count c p) }

/-- `do_flow_cnt` replaces the key and the counter of the slot and leaves `Slot.flowMd`. -/
theorem doFlowCnt_eq (c : Program) (r : Registers) (p : Pass) :
    doFlowCnt c { md := .init p.port, hdr := p.pkt, regs := r } =
      { md := (r.slot (c.slotOf p)).flowMd c p
        hdr := p.pkt
        regs := r.countPass c p } := by
  rw [doFlowCnt, tCheckCntThold_eq _ _ rfl]
  simp only [tCalcHash, tCheckAndUpdateFkey, tUpdateFlowCounter, PassState.onMd, RegArray.execute,
    fkeyAlu_aluLo, fcntAlu_aluLo, fkeyAlu_combinedPredicate, ofBool_eq_one]
  rfl

/-! ### `do_tanh_and_update_state` in closed form -/

/-- Both state ALUs add their activation to the cell, from 0 on a collision. -/
theorem aluLo_alu (a : Activation) (md : Metadata) (r : BitVec 8) :
    a.alu.aluLo md r = (if md.rstate.isCollision = 1#1 then 0 else r) + a.delta := by
  by_cases h : md.rstate.isCollision = 1#1 <;> cases a <;>
    simp [StatefulAlu.aluLo, StatefulAlu.updateValue, AluProgram.fires, Activation.alu,
      activateAlu, deactivateAlu, stateAlu, Activation.delta, h, BitVec.sub_eq_add_neg]

/-- A cell after the table of its neuron ran `a` with `is_collision = coll`. -/
def accum (coll : BitVec 1) (a : Option Activation) (cell : BitVec 8) : BitVec 8 :=
  match a with
  | none => cell
  | some a => (if coll = 1#1 then 0 else cell) + a.delta

/-- The field `m1k` after its table ran `a`. -/
def accumM1 (coll : BitVec 1) (a : Option Activation) (row : MbResult1) (cell : BitVec 8) :
    MbResult1 :=
  match a with
  | none => row
  | some a => ⟨accum coll (some a) cell⟩

/-- The fields `m2k` after their table ran `a`. -/
def accumM2 (coll : BitVec 1) (a : Option Activation) (row : MbResult) (cell : BitVec 8) :
    MbResult :=
  match a with
  | none => row
  | some a => ⟨a.delta, accum coll (some a) cell⟩

/-- The action a table `t_s1_statek_c` runs in a state. -/
def PassState.act1 (c : Program) (s : PassState) (k : Neuron) : Option Activation :=
  (c.tables.tS1StateC k).lookup (s.md.m1 k).r1

/-- The action a table `t_s2_statek_c` runs in a state. -/
def PassState.act2 (c : Program) (s : PassState) (k : Neuron) : Option Activation :=
  (c.tables.tS2StateC k).lookup (s.md.m2 k).r1

/-- A table `t_s1_statek_c` changes the cell and the field of neuron `k`, nothing else. -/
theorem tS1StateC_eq (k : Neuron) (c : Program) (s : PassState) :
    tS1StateC k c s =
      { s with
        regs := { s.regs with
          rS1State := Function.update s.regs.rS1State k
            (Function.update (s.regs.rS1State k) s.md.rstate.hashIndex
              (accum s.md.rstate.isCollision (s.act1 c k) (s.regs.rS1State k s.md.rstate.hashIndex))) }
        md := { s.md with
          m1 := Function.update s.md.m1 k
            (accumM1 s.md.rstate.isCollision (s.act1 c k) (s.md.m1 k)
              (s.regs.rS1State k s.md.rstate.hashIndex)) } } := by
  unfold tS1StateC PassState.act1
  cases (c.tables.tS1StateC k).lookup (s.md.m1 k).r1 with
  | none => simp [accum, accumM1]
  | some a => simp [accum, accumM1, aS1State, RegArray.execute, aluLo_alu, Metadata.setM1R1]

/-- A table `t_s2_statek_c` changes the cell and the fields of neuron `k`, nothing else. -/
theorem tS2StateC_eq (k : Neuron) (c : Program) (s : PassState) :
    tS2StateC k c s =
      { s with
        regs := { s.regs with
          rS2State := Function.update s.regs.rS2State k
            (Function.update (s.regs.rS2State k) s.md.rstate.hashIndex
              (accum s.md.rstate.isCollision (s.act2 c k) (s.regs.rS2State k s.md.rstate.hashIndex))) }
        md := { s.md with
          m2 := Function.update s.md.m2 k
            (accumM2 s.md.rstate.isCollision (s.act2 c k) (s.md.m2 k)
              (s.regs.rS2State k s.md.rstate.hashIndex)) } } := by
  unfold tS2StateC PassState.act2
  cases (c.tables.tS2StateC k).lookup (s.md.m2 k).r1 with
  | none => simp [accum, accumM2]
  | some a =>
    simp [accum, accumM2, aS2State, RegArray.execute, aluLo_alu, Metadata.setM2R2, Metadata.setM2R1]

/-- `do_tanh_and_update_state` updates the eight cells of the slot and the eight fields. -/
theorem doTanhAndUpdateState_eq (c : Program) (s : PassState) :
    doTanhAndUpdateState c s =
      { s with
        regs := { s.regs with
          rS1State := fun k => Function.update (s.regs.rS1State k) s.md.rstate.hashIndex
            (accum s.md.rstate.isCollision (s.act1 c k) (s.regs.rS1State k s.md.rstate.hashIndex))
          rS2State := fun k => Function.update (s.regs.rS2State k) s.md.rstate.hashIndex
            (accum s.md.rstate.isCollision (s.act2 c k) (s.regs.rS2State k s.md.rstate.hashIndex)) }
        md := { s.md with
          m1 := fun k => accumM1 s.md.rstate.isCollision (s.act1 c k) (s.md.m1 k)
            (s.regs.rS1State k s.md.rstate.hashIndex)
          m2 := fun k => accumM2 s.md.rstate.isCollision (s.act2 c k) (s.md.m2 k)
            (s.regs.rS2State k s.md.rstate.hashIndex) } } := by
  simp only [doTanhAndUpdateState, doUpdateState1, doUpdateState2, tS1State1C, tS1State2C,
    tS1State3C, tS1State4C, tS2State1C, tS2State2C, tS2State3C, tS2State4C, tS1StateC_eq,
    tS2StateC_eq, PassState.act1, PassState.act2, PassState.mk.injEq, PassOut.mk.injEq,
    Metadata.mk.injEq, Registers.mk.injEq, true_and, and_true]
  refine ⟨⟨?_, ?_⟩, ?_, ?_⟩ <;> funext k <;> cases k <;> simp [accum, accumM1, accumM2]

/-! ### Refinement -/

/-- The registers after the inference of a fresh pass. -/
def Registers.inferPass (c : Program) (r : Registers) (p : Pass) : Registers :=
  { r.countPass c p with
    rS1State := fun k => Function.update (r.rS1State k) (c.slotOf p)
      ((r.slot (c.slotOf p)).s1New c p k)
    rS2State := fun k => Function.update (r.rS2State k) (c.slotOf p)
      ((r.slot (c.slotOf p)).s2New c p k) }

/-- An accumulator of the switch is that of the slot. -/
theorem accum_collides (c : Program) (s : Slot) (p : Pass) (a : Option Activation)
    (cell : BitVec 8) :
    accum (.ofBool (s.Collides c p)) a cell = s.accumulate c p a cell := by
  cases a <;> simp [accum, Slot.accumulate, Slot.start]

/-- The first cells of the switch are those of the slot. -/
theorem accumM1_collides (c : Program) (s : Slot) (p : Pass) (k : Neuron) :
    accumM1 (.ofBool (s.Collides c p)) (c.act1 p.pkt k) ⟨calcM1 (c.onehot p.pkt) k⟩ (s.s1State k) =
      s.tanhM1 c p k := by
  unfold accumM1 Slot.tanhM1 Slot.s1New
  cases c.act1 p.pkt k <;> simp [accum_collides]

/-- The second cells of the switch are those of the slot. -/
theorem accumM2_collides (c : Program) (s : Slot) (p : Pass) (k : Neuron) :
    accumM2 (.ofBool (s.Collides c p)) (c.act2 p.pkt k)
        ⟨calcM2 (c.onehot p.pkt) k, calcM2Tail (c.onehot p.pkt) k⟩ (s.s2State k) =
      s.tanhM2 c p k := by
  unfold accumM2 Slot.tanhM2 Slot.s2New
  cases c.act2 p.pkt k <;> simp [accum_collides]

/-- From a zero one-hot code `do_onehot_pktlen` leaves the code of the packet. -/
theorem doOnehotPktlen_eq (c : Program) (s : PassState) (h : s.md.pktlenOnehot = {}) :
    doOnehotPktlen c s = { s with md := { s.md with pktlenOnehot := c.onehot s.hdr } } := by
  obtain ⟨⟨md, applied⟩, hdr, regs⟩ := s
  cases md
  cases h
  cases ht : c.tables.tOnehotPktlen hdr.totalLen <;>
    simp [doOnehotPktlen, PassState.onMd, Program.onehot, ht]

/-- The inference leaves `Slot.mergedMd` and updates the eight cells of the slot. -/
theorem ingressInference_eq (c : Program) (r : Registers) (p : Pass) :
    ingressInference c
        { md := (r.slot (c.slotOf p)).flowMd c p, hdr := p.pkt, regs := r.countPass c p } =
      { md := tTouchTbl c ((r.slot (c.slotOf p)).mergedMd c p)
        applied := [.doCalcMat, .doTanhAndUpdateState, .doMergeResult1, .tTouchTbl]
        hdr := p.pkt
        regs := r.inferPass c p } := by
  rw [ingressInference, doOnehotPktlen_eq _ _ rfl]
  simp only [PassState.onMd, PassState.note, doCalcMat_eq, doTanhAndUpdateState_eq,
    doMergeResult1_eq, PassState.act1, PassState.act2]
  have h1 := accumM1_collides c (r.slot (c.slotOf p)) p
  have h2 := accumM2_collides c (r.slot (c.slotOf p)) p
  have h := accum_collides c (r.slot (c.slotOf p)) p
  simp only [Slot.flowMd, Slot.mergedMd, Registers.inferPass, Registers.countPass, Slot.s1New,
    Slot.s2New, ← h1, ← h2, ← h]
  rfl

/-- A recirculated pass of class 2 merges zeroes. -/
theorem doMergeResult2_flowMd (c : Program) (s : Slot) (p : Pass) :
    doMergeResult2 (s.flowMd c p) = s.flowMd c p := by
  simp only [doMergeResult2, tFmS1, tFmS2, tFmS3, Metadata.setM1R1, Metadata.setM2R1, Slot.flowMd,
    Metadata.mk.injEq, true_and, and_true]
  constructor <;> funext k <;> cases k <;> simp

/-- The registers after a pass. -/
def Registers.afterPass (c : Program) (r : Registers) (p : Pass) : Registers :=
  if (r.slot (c.slotOf p)).Infers c p then r.inferPass c p
  else if (r.slot (c.slotOf p)).Decides c p then
    { r.countPass c p with rDecision := Function.update r.rDecision (c.slotOf p) 1 }
  else r.countPass c p

/-- Of class 2, the update ALU stores `fr.decision`. -/
theorem regUpdateDecisionAlu_aluLo (md : Metadata) (r : BitVec 16) (h : md.rstate.overflow = 2) :
    regUpdateDecisionAlu.aluLo md r = md.decision.setWidth 16 := by
  simp [StatefulAlu.aluLo, StatefulAlu.updateValue, AluProgram.fires, regUpdateDecisionAlu, h]

/-- The only class above 1 is 2. -/
theorem tholdClass_eq_two (c : Program) (n : BitVec 20) (h : 1#2 < c.tholdClass n) :
    c.tholdClass n = 2 := by
  revert h
  unfold Program.tholdClass
  generalize c.tables.tCheckCntThold n = a
  rcases a with _ | _ | _ | _ <;> decide

/-- **A pass in closed form.** -/
theorem runPass_eq (c : Program) (r : Registers) (p : Pass) :
    runPass c r p =
      { toPassOut := (r.slot (c.slotOf p)).out c p, hdr := p.pkt, regs := r.afterPass c p } := by
  rw [runPass, ingress, doFlowCnt_eq]
  set s := r.slot (c.slotOf p) with hs
  have hport : (s.flowMd c p).ingressPort = recircPort ↔ p.Recirc := Iff.rfl
  have hov : (s.flowMd c p).rstate.overflow = s.overflow c p := rfl
  by_cases hr : p.Recirc <;> by_cases h : 1#2 < s.overflow c p
  · have h2 : s.overflow c p = 2 := tholdClass_eq_two c _ h
    have hmerge : ((s.flowMd c p).m1 .n1).r1 < 0x80#8 := show 0#8 < 0x80#8 by decide
    simp only [hport, hr, if_true, ingressRecirc, hov, h, PassState.onMd, PassState.note,
      doMergeResult2_flowMd, hmerge, tSetDecisionOne, tUpdateDecision, RegArray.execute,
      regUpdateDecisionAlu_aluLo { s.flowMd c p with decision := 1 } _ h2, Slot.out,
      Registers.afterPass, ← hs, Slot.Infers, Slot.Decides, not_true, false_and, if_false, true_and]
    rfl
  · simp only [hport, hr, if_true, ingressRecirc, hov, h, if_false, PassState.onMd, PassState.note,
      tTakeDecision, Slot.out, Registers.afterPass, ← hs, Slot.Infers, Slot.Decides, and_false]
    rfl
  · have hinf := ingressInference_eq c r p
    rw [← hs] at hinf
    simp only [hport, hr, if_false, ingressFresh, hov, h, if_true, hinf, PassState.onMd,
      PassState.note, Slot.out, Registers.afterPass, ← hs, Slot.Infers, not_false_iff, true_and]
    rfl
  · simp only [hport, hr, if_false, ingressFresh, hov, h, PassState.onMd, PassState.note, Slot.out,
      Registers.afterPass, ← hs, Slot.Infers, Slot.Decides, and_false]
    rfl

/-- The cells of `countPass` at the slot of the pass. -/
theorem countPass_slot_self (c : Program) (r : Registers) (p : Pass) :
    (r.countPass c p).slot (c.slotOf p) =
      { r.slot (c.slotOf p) with
        flowHashKey := c.keyOf p, flowCnt := (r.slot (c.slotOf p)).count c p } := by
  simp [Registers.countPass, Registers.slot]

/-- The cells of `inferPass` at the slot of the pass. -/
theorem inferPass_slot_self (c : Program) (r : Registers) (p : Pass) :
    (r.inferPass c p).slot (c.slotOf p) =
      { r.slot (c.slotOf p) with
        flowHashKey := c.keyOf p, flowCnt := (r.slot (c.slotOf p)).count c p
        s1State := (r.slot (c.slotOf p)).s1New c p
        s2State := (r.slot (c.slotOf p)).s2New c p } := by
  simp [Registers.inferPass, Registers.countPass, Registers.slot]

/-- The slot a pass hashes to becomes `Slot.step`. -/
theorem afterPass_slot_self (c : Program) (r : Registers) (p : Pass) :
    (r.afterPass c p).slot (c.slotOf p) = (r.slot (c.slotOf p)).step c p := by
  have hexcl : (r.slot (c.slotOf p)).Infers c p → ¬ (r.slot (c.slotOf p)).Decides c p :=
    fun hi hd => hi.1 hd.1
  have hcount := countPass_slot_self c r p
  have hinfer := inferPass_slot_self c r p
  unfold Registers.afterPass Slot.step
  by_cases hi : (r.slot (c.slotOf p)).Infers c p
  · simp only [hi, hexcl hi, if_true, if_false, hinfer]
  · by_cases hd : (r.slot (c.slotOf p)).Decides c p
    · simp only [hi, hd, if_true, if_false]
      rw [Slot.ext_iff] at hcount ⊢
      refine ⟨hcount.1, hcount.2.1, hcount.2.2.1, hcount.2.2.2.1, ?_⟩
      exact Function.update_self _ _ _
    · simp only [hi, hd, if_false, hcount]

/-- The other slots keep their cells. -/
theorem afterPass_slot_of_ne (c : Program) (r : Registers) (p : Pass) {i : BitVec 16}
    (h : i ≠ c.slotOf p) : (r.afterPass c p).slot i = r.slot i := by
  unfold Registers.afterPass
  split_ifs <;> simp [Registers.inferPass, Registers.countPass, Registers.slot, h]

/-- **Refinement.** The switch is an array of slot machines. -/
theorem switch_slotWise (c : Program) :
    SlotWise (switch c) c.slotOf Registers.slot (slotMachine c) where
  view_step_self r p := by
    simp only [switch, slotMachine, runPass_eq]
    exact afterPass_slot_self c r p
  view_step_of_ne r p i h := by
    simp only [switch, runPass_eq]
    exact afterPass_slot_of_ne c r p h
  out_eq r p := by
    simp only [switch, slotMachine, runPass_eq]

/-! ### What a pass leaves behind -/

/-- No control after `do_flow_cnt` writes `rstate`. -/
theorem rstate_out (c : Program) (s : Slot) (p : Pass) :
    (s.out c p).md.rstate = (s.flowMd c p).rstate := by
  have hl2 (md : Metadata) : (dcL2Forward c md).rstate = md.rstate := by
    unfold dcL2Forward
    split <;> rfl
  have htouch (md : Metadata) : (tTouchTbl c md).rstate = md.rstate := by
    unfold tTouchTbl
    split <;> rfl
  unfold Slot.out
  split_ifs <;> simp [hl2, tRecirc, htouch, Slot.mergedMd]

/-- The count a pass carries is that of its slot, cut to 20 bits. -/
theorem flowCnt_runPass (c : Program) (r : Registers) (p : Pass) :
    (runPass c r p).md.rstate.flowCnt = ((r.slot (c.slotOf p)).count c p).setWidth 20 := by
  rw [runPass_eq, rstate_out]
  rfl

/-- The class a pass carries is that of its slot. -/
theorem overflow_runPass (c : Program) (r : Registers) (p : Pass) :
    (runPass c r p).md.rstate.overflow = (r.slot (c.slotOf p)).overflow c p := by
  rw [runPass_eq, rstate_out]
  rfl

/-- The collision a pass sees is that of its slot. -/
theorem isCollision_runPass (c : Program) (r : Registers) (p : Pass) :
    (runPass c r p).md.rstate.isCollision = 1 ↔ (r.slot (c.slotOf p)).Collides c p := by
  rw [runPass_eq, rstate_out]
  exact ofBool_eq_one _

/-- The table that writes the decision is applied exactly on the passes that decide. -/
theorem tUpdateDecision_mem_out_iff {c : Program} {s : Slot} {p : Pass} :
    .tUpdateDecision ∈ (s.out c p).applied ↔ s.Decides c p := by
  unfold Slot.out Slot.Decides
  split_ifs with hr h h <;> simp [hr, h]

/-- The table that reads the decision is applied on the other recirculated passes. -/
theorem tTakeDecision_mem_out_iff {c : Program} {s : Slot} {p : Pass} :
    .tTakeDecision ∈ (s.out c p).applied ↔ p.Recirc ∧ ¬ 1#2 < s.overflow c p := by
  unfold Slot.out
  split_ifs with hr h h <;> simp [hr, h]

/-- `c.tholdClass` is above 1 exactly when it is 2. -/
theorem one_lt_tholdClass_iff (c : Program) (m : BitVec 20) :
    1#2 < c.tholdClass m ↔ c.tholdClass m = 2 := by
  refine ⟨tholdClass_eq_two c m, fun h => ?_⟩
  rw [h]
  decide

/-- A pass in closed form leaves a decision cell as it is or writes 1 to it. -/
theorem decision_step (c : Program) (s : Slot) (p : Pass) :
    (s.step c p).decision =
      if .tUpdateDecision ∈ (s.out c p).applied then 1 else s.decision := by
  simp only [tUpdateDecision_mem_out_iff]
  rfl

end Rids.Enforcer
