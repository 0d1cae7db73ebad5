import Rids.Enforcer.Slot
import Rids.Learner.BinaryGruCell

/-!
# The switch's cell against the learner's

A fresh pass of class 2 computes one step of the recurrent cell. Its matrix output is the
learner's (`calcM1_eq_binaryLinear`, `calcM2_eq_binaryLinear`); two of its other stages differ.

* The gate. `do_merge_result_1` replaces the activation by the new second accumulator where the
  new first one is *non-negative*, and leaves the activation elsewhere; the learner takes the old
  second accumulator where the first one is *positive*, and the new one elsewhere.
  `gateMatches_iff` says for which states the two agree.
* The activation. A range table adds 1, subtracts 1 or misses; `hardtanhTable` realises Hardtanh
  on every weight but 0 (`exists_contents_hardtanh`), and the row of `m22` has a weight 0
  (`no_contents_hardtanh`).
-/

namespace Rids.Enforcer

open Rids.Lib.MatchAction
open Rids.Lib.SlotMachine
open Rids.Learner

/-! ### The matrix output -/

/-- The one-hot vector of a length class. -/
def onehotVec (l : Neuron) : Neuron → ℤ := fun j => if j = l then 1 else 0

/-- The learner's cell with the weights of `mblock.p4` and zero biases. -/
def learnerCell : BinaryGruCell Neuron Neuron ℤ where
  weight1 := weight1
  weight2 := weight2
  moveX := 0
  move1 := 0

/-- The table of the first matrix is the learner's binary layer on a one-hot input. -/
theorem calcM1_eq_binaryLinear (k l : Neuron) :
    (calcM1 (.unit l) k).toInt =
      binaryLinear learnerCell.weight1 learnerCell.moveX (onehotVec l) k := by
  rw [calcM1_onehot]
  exact (binaryLinear_onehot weight1 l k).symm

/-- The table of the second matrix is the learner's binary layer on a one-hot input. -/
theorem calcM2_eq_binaryLinear (k l : Neuron) :
    (calcM2 (.unit l) k).toInt =
      binaryLinear learnerCell.weight2 learnerCell.moveX (onehotVec l) k := by
  rw [calcM2_onehot]
  exact (binaryLinear_onehot weight2 l k).symm

/-! ### A fresh pass of class 2 -/

/-- The cell an update starts from: `S_ori`, 0 when the pass saw a collision. -/
def ori (md : Metadata) (cell : BitVec 8) : BitVec 8 :=
  if md.rstate.isCollision = 1 then 0 else cell

section Pass

variable {c : Program} {r : Registers} {p : Pass}

/-- The old state that a pass works with: 0 where it takes the slot. -/
theorem ori_runPass (c : Program) (r : Registers) (p : Pass) (cell : BitVec 8) :
    ori (runPass c r p).md cell = (r.slot (c.slotOf p)).start c p cell := by
  simp only [ori, Slot.start, isCollision_runPass]

/-- The metadata a pass with the inference ends with. -/
theorem md_runPass_of_infers (h : (r.slot (c.slotOf p)).Infers c p) :
    (runPass c r p).md = tRecirc (tTouchTbl c ((r.slot (c.slotOf p)).mergedMd c p)) := by
  rw [runPass_eq, Slot.out, if_neg h.1, if_pos h.2]

/-- Touching the tables leaves the first matrix results as they are. -/
theorem tTouchTbl_m1 (c : Program) (md : Metadata) : (tTouchTbl c md).m1 = md.m1 := by
  unfold tTouchTbl
  split <;> rfl

/-- Touching the tables leaves the second matrix results as they are. -/
theorem tTouchTbl_m2 (c : Program) (md : Metadata) : (tTouchTbl c md).m2 = md.m2 := by
  unfold tTouchTbl
  split <;> rfl

/-- The first matrix results at the end of a pass. -/
theorem m1_runPass (h : (r.slot (c.slotOf p)).Infers c p) (k : Neuron) :
    (runPass c r p).md.m1 k = (r.slot (c.slotOf p)).tanhM1 c p k := by
  rw [md_runPass_of_infers h]
  exact congrFun (tTouchTbl_m1 c _) k

/-- The second matrix results at the end of a pass, behind the gate. -/
theorem m2_runPass (h : (r.slot (c.slotOf p)).Infers c p) (k : Neuron) :
    (runPass c r p).md.m2 k =
      gated c k ((r.slot (c.slotOf p)).tanhM1 c p k).r1 ((r.slot (c.slotOf p)).tanhM2 c p k) := by
  rw [md_runPass_of_infers h]
  exact congrFun (tTouchTbl_m2 c _) k

/-- The first accumulators after a pass with the inference. -/
theorem rS1State_runPass (h : (r.slot (c.slotOf p)).Infers c p) (k : Neuron) :
    (runPass c r p).regs.rS1State k (c.slotOf p) = (r.slot (c.slotOf p)).s1New c p k := by
  have hslot := congrFun (congrArg Slot.s1State ((switch_slotWise c).view_step_self r p)) k
  exact hslot.trans (if_pos h)

/-- The second accumulators after a pass with the inference. -/
theorem rS2State_runPass (h : (r.slot (c.slotOf p)).Infers c p) (k : Neuron) :
    (runPass c r p).regs.rS2State k (c.slotOf p) = (r.slot (c.slotOf p)).s2New c p k := by
  have hslot := congrFun (congrArg Slot.s2State ((switch_slotWise c).view_step_self r p)) k
  exact hslot.trans (if_pos h)

/-- A fresh pass whose `overflow` is 2 runs the inference. -/
theorem infers_of_overflow (hp : ¬ p.Recirc) (h : (runPass c r p).md.rstate.overflow = 2) :
    (r.slot (c.slotOf p)).Infers c p := by
  rw [overflow_runPass] at h
  exact ⟨hp, by rw [h]; decide⟩

end Pass

/-! ### The gate -/

/-- Every range table maps `0x00`-`0x7f` to activate and `0x80`-`0xff` to deactivate. -/
def SignTables (c : Program) : Prop :=
  ∀ k v, (c.tables.tS1StateC k).lookup v = some (if v < 0x80#8 then .activate else .deactivate) ∧
    (c.tables.tS2StateC k).lookup v = some (if v < 0x80#8 then .activate else .deactivate)

/-- What the pass leaves in `m2k.r1` is the learner's gated output, of the accumulators after the
pass and the second one before it. -/
def GateMatches (c : Program) (r : Registers) (p : Pass) (k : Neuron) : Prop :=
  let s := runPass c r p
  (s.md.m2 k).r1.toInt =
    BinaryGruCell.gatedOutput 0 (s.regs.rS1State k (c.slotOf p)).toInt
      (s.regs.rS2State k (c.slotOf p)).toInt (ori s.md (r.rS2State k (c.slotOf p))).toInt

/-- The unsigned comparison with `0x80` reads the sign bit. -/
theorem lt_0x80_iff (v : BitVec 8) : v < 0x80#8 ↔ 0 ≤ v.toInt := by
  rw [BitVec.lt_def, BitVec.toInt_eq_toNat_cond]
  simp only [BitVec.toNat_ofNat]
  omega

/-- No activation adds 0. -/
theorem delta_ne_zero (a : Activation) : a.delta ≠ 0 := by
  cases a <;> decide

/-- **The gate on bytes.** With `s1` the new first accumulator and `s2` the old second one, the
switch's gate is the learner's exactly where `s1` is zero, or negative with `s2` zero. -/
theorem gate_byte (s1 s2 : BitVec 8) (a : Activation) :
    (if s1 < 0x80#8 then s2 + a.delta else a.delta).toInt =
        BinaryGruCell.gatedOutput 0 s1.toInt (s2 + a.delta).toInt s2.toInt ↔
      s1.toInt = 0 ∨ s1.toInt < 0 ∧ s2 = 0 := by
  rw [BinaryGruCell.gatedOutput_zero]
  rcases lt_trichotomy s1.toInt 0 with hneg | hzero | hpos
  · -- negative: the switch leaves the activation, the learner takes the new accumulator
    have hge : ¬ s1 < 0x80#8 := fun h => absurd ((lt_0x80_iff s1).mp h) (by omega)
    rw [if_neg hge, if_neg (by omega), BitVec.toInt_inj, right_eq_add]
    simp only [hneg, hneg.ne, false_or, true_and]
  · -- zero: both take the new accumulator
    have hlt : s1 < 0x80#8 := (lt_0x80_iff s1).mpr hzero.ge
    rw [if_pos hlt, if_neg (by omega)]
    simp [hzero]
  · -- positive: the switch takes the new accumulator, the learner the old one
    have hlt : s1 < 0x80#8 := (lt_0x80_iff s1).mpr hpos.le
    rw [if_pos hlt, if_pos hpos, BitVec.toInt_inj, add_eq_left]
    simp only [delta_ne_zero a, hpos.ne', hpos.not_gt, false_and, or_self]

/-- The sign of a row of the first half is its weight, which is never 0. -/
theorem delta_calcM1 (k l : Neuron) :
    (if calcM1 (.unit l) k < 0x80#8 then Activation.activate else .deactivate).delta =
      .ofInt 8 (weight1 k l) := by
  revert k l
  decide

/-- The first cell of a pass whose table hits. -/
theorem tanhM1_of_act {c : Program} {s : Slot} {p : Pass} {k : Neuron} {a : Activation}
    (h : c.act1 p.pkt k = some a) : s.tanhM1 c p k = ⟨s.start c p (s.s1State k) + a.delta⟩ := by
  simp only [Slot.tanhM1, Slot.s1New, Slot.accumulate, h]

/-- The second cell of a pass whose table hits. -/
theorem tanhM2_of_act {c : Program} {s : Slot} {p : Pass} {k : Neuron} {a : Activation}
    (h : c.act2 p.pkt k = some a) :
    s.tanhM2 c p k = ⟨a.delta, s.start c p (s.s2State k) + a.delta⟩ := by
  simp only [Slot.tanhM2, Slot.s2New, Slot.accumulate, h]

/-- **When the switch computes the learner's gated output.** Let the range tables be sign tables
and the gate tables run `a_set_m2k`. A fresh pass of class 2 leaves the learner's output of
neuron `k` exactly when its new first accumulator is 0, or negative while the second one was 0. -/
theorem gateMatches_iff {c : Program} {r : Registers} {p : Pass} {l : Neuron} (htab : SignTables c)
    (hset : ∀ k, c.tables.tSetM2 k = .setM2) (hl : c.onehot p.pkt = .unit l) (hp : ¬ p.Recirc)
    (hov : (runPass c r p).md.rstate.overflow = 2) :
    (∀ k, GateMatches c r p k) ↔
      ∀ k,
        let md := (runPass c r p).md
        let s1 := ori md (r.rS1State k (c.slotOf p)) + .ofInt 8 (weight1 k l)
        s1.toInt = 0 ∨ s1.toInt < 0 ∧ ori md (r.rS2State k (c.slotOf p)) = 0 := by
  have hinf := infers_of_overflow hp hov
  refine forall_congr' fun k => ?_
  have h1 : c.act1 p.pkt k =
      some (if calcM1 (.unit l) k < 0x80#8 then .activate else .deactivate) := by
    rw [Program.act1, hl]
    exact (htab k _).1
  have h2 : c.act2 p.pkt k =
      some (if calcM2 (.unit l) k < 0x80#8 then .activate else .deactivate) := by
    rw [Program.act2, hl]
    exact (htab k _).2
  set s := r.slot (c.slotOf p) with hs
  have hs1 : s.s1New c p k = s.start c p (s.s1State k) + .ofInt 8 (weight1 k l) := by
    simp only [Slot.s1New, Slot.accumulate, h1, delta_calcM1]
  have hs2 : s.s2New c p k = s.start c p (s.s2State k) +
      (if calcM2 (.unit l) k < 0x80#8 then Activation.activate else .deactivate).delta := by
    simp only [Slot.s2New, Slot.accumulate, h2]
  have hgate := gate_byte (s.start c p (s.s1State k) + .ofInt 8 (weight1 k l))
    (s.start c p (s.s2State k))
    (if calcM2 (.unit l) k < 0x80#8 then .activate else .deactivate)
  simp only [GateMatches, m2_runPass hinf, rS1State_runPass hinf, rS2State_runPass hinf,
    ori_runPass, gated, tanhM1_of_act h1, tanhM2_of_act h2, hset, and_true, delta_calcM1, ← hs,
    hs1, hs2]
  rw [apply_ite MbResult.r1]
  exact hgate

/-- The sign table hits every byte. -/
theorem lookup_signTable (v : BitVec 8) :
    signTable.lookup v = some (if v < 0x80#8 then .activate else .deactivate) := by
  revert v
  decide +kernel

/-- The example program has sign tables. -/
theorem signTables_sample (thold : BitVec 20 → TholdAction) : SignTables (.sample thold) :=
  fun _ v => ⟨lookup_signTable v, lookup_signTable v⟩

/-- On the first packet of a flow both sides can be evaluated. -/
theorem firstPacket_gateMatches_iff :
    (∀ k, GateMatches (.sample tholdEvery) .zero (.fresh 7 1) k) ↔
      ∀ k,
        let md := (runPass (.sample tholdEvery) .zero (.fresh 7 1)).md
        let s1 := ori md (Registers.zero.rS1State k 0) + .ofInt 8 (weight1 k .n1)
        s1.toInt = 0 ∨ s1.toInt < 0 ∧ ori md (Registers.zero.rS2State k 0) = 0 :=
  gateMatches_iff (signTables_sample _) (fun _ => rfl) rfl (by decide) (by decide +kernel)

/-- The first packet of length class 1 makes the first accumulator 1. The learner's output is
then the old second accumulator, 0; the switch leaves the new one, -1. -/
theorem firstPacket_not_gateMatches :
    SignTables (.sample tholdEvery) ∧ Reachable (.sample tholdEvery) .zero ∧
      ((Program.sample tholdEvery).onehot (.sample 7 1)).IsOnehot ∧
      (runPass (.sample tholdEvery) .zero (.fresh 7 1)).md.rstate.overflow = 2 ∧
      ((runPass (.sample tholdEvery) .zero (.fresh 7 1)).md.m2 .n1).r1.toInt = -1 ∧
      ¬ GateMatches (.sample tholdEvery) .zero (.fresh 7 1) .n1 := by
  refine ⟨signTables_sample _, ⟨[], rfl⟩, ⟨.n1, rfl⟩, by decide +kernel, by decide +kernel,
    fun h => ?_⟩
  unfold GateMatches at h
  revert h
  decide +kernel

/-! ### The activation -/

/-- What the control plane installs in the eight range tables. -/
structure RangeContents where
  tS1StateC : Neuron → RangeTable 8 Activation 2
  tS2StateC : Neuron → RangeTable 8 Activation 2

/-- The program with these range tables; hashes and other tables stay. -/
def Program.withRanges (c : Program) (t : RangeContents) : Program :=
  { c with tables := { c.tables with tS1StateC := t.tS1StateC, tS2StateC := t.tS2StateC } }

/-- The pass adds Hardtanh of the matrix output to the first accumulator of neuron `k` and leaves
the new value in `m1k.r1`. -/
def HardtanhS1 (c : Program) (r : Registers) (p : Pass) (k : Neuron) : Prop :=
  let s := runPass c r p
  s.regs.rS1State k (c.slotOf p) = ori s.md (r.rS1State k (c.slotOf p)) +
      .ofInt 8 (hardtanh (calcM1 (c.onehot p.pkt) k).toInt) ∧
    (s.md.m1 k).r1 = s.regs.rS1State k (c.slotOf p)

/-- The pass adds Hardtanh of the matrix output to the second accumulator of neuron `k` and
leaves the new value in `m2k.r2`. -/
def HardtanhS2 (c : Program) (r : Registers) (p : Pass) (k : Neuron) : Prop :=
  let s := runPass c r p
  s.regs.rS2State k (c.slotOf p) = ori s.md (r.rS2State k (c.slotOf p)) +
      .ofInt 8 (hardtanh (calcM2 (c.onehot p.pkt) k).toInt) ∧
    (s.md.m2 k).r2 = s.regs.rS2State k (c.slotOf p)

/-- The tables miss where the second half of the cell keeps what it has: `r_s2_statek` stays and
`m2k.r2` holds 0. -/
def KeepsS2 (c : Program) (r : Registers) (p : Pass) (k : Neuron) : Prop :=
  let s := runPass c r p
  s.regs.rS2State k (c.slotOf p) = r.rS2State k (c.slotOf p) ∧ (s.md.m2 k).r2 = 0

/-- A table that maps `0x01`-`0x7f` to activate, `0x80`-`0xff` to deactivate, and misses 0. -/
def hardtanhTable : RangeTable 8 Activation 2 where
  entries := [⟨0x01, 0x7f, .activate⟩, ⟨0x80, 0xff, .deactivate⟩]
  length_le := le_rfl

/-- `hardtanhTable` everywhere. -/
def hardtanhContents : RangeContents := ⟨fun _ => hardtanhTable, fun _ => hardtanhTable⟩

/-- The table of `hardtanh` has no entry for 0. -/
theorem lookup_hardtanhTable_zero : hardtanhTable.lookup 0 = none := by decide

/-- On a non-zero matrix output the table runs the action that adds its Hardtanh. -/
theorem lookup_hardtanhTable (v : BitVec 8) (hv : v ≠ 0) :
    ∃ a, hardtanhTable.lookup v = some a ∧ a.delta = .ofInt 8 (hardtanh v.toInt) := by
  revert v
  decide +kernel

section Hardtanh

variable {c : Program} {r : Registers} {p : Pass} {k : Neuron}

/-- The gate leaves the second half of the result as it is. -/
theorem gated_r2 (c : Program) (k : Neuron) (m1 : BitVec 8) (m2 : MbResult) :
    (gated c k m1 m2).r2 = m2.r2 := by
  unfold gated
  split_ifs <;> rfl

/-- The first cell is the learner's where the action is `hardtanh` of the layer. -/
theorem hardtanhS1_of_act {a : Activation} (hinf : (r.slot (c.slotOf p)).Infers c p)
    (ha : c.act1 p.pkt k = some a)
    (hd : a.delta = .ofInt 8 (hardtanh (calcM1 (c.onehot p.pkt) k).toInt)) :
    HardtanhS1 c r p k := by
  have hnew : (r.slot (c.slotOf p)).s1New c p k =
      (r.slot (c.slotOf p)).start c p (r.rS1State k (c.slotOf p)) + a.delta := by
    simp only [Slot.s1New, Slot.accumulate, ha, Registers.slot]
  refine ⟨?_, ?_⟩
  · rw [rS1State_runPass hinf, ori_runPass, hnew, hd]
  · rw [rS1State_runPass hinf, m1_runPass hinf, tanhM1_of_act ha, hnew]
    rfl

/-- The second cell is the learner's where the action is `hardtanh` of the layer. -/
theorem hardtanhS2_of_act {a : Activation} (hinf : (r.slot (c.slotOf p)).Infers c p)
    (ha : c.act2 p.pkt k = some a)
    (hd : a.delta = .ofInt 8 (hardtanh (calcM2 (c.onehot p.pkt) k).toInt)) :
    HardtanhS2 c r p k := by
  have hnew : (r.slot (c.slotOf p)).s2New c p k =
      (r.slot (c.slotOf p)).start c p (r.rS2State k (c.slotOf p)) + a.delta := by
    simp only [Slot.s2New, Slot.accumulate, ha, Registers.slot]
  refine ⟨?_, ?_⟩
  · rw [rS2State_runPass hinf, ori_runPass, hnew, hd]
  · rw [rS2State_runPass hinf, m2_runPass hinf, gated_r2, tanhM2_of_act ha, hnew]
    rfl

/-- On a miss the accumulator stays, and `m2k.r2` is what the matrix left there. -/
theorem s2_of_miss (hinf : (r.slot (c.slotOf p)).Infers c p) (ha : c.act2 p.pkt k = none) :
    (runPass c r p).regs.rS2State k (c.slotOf p) = r.rS2State k (c.slotOf p) ∧
      ((runPass c r p).md.m2 k).r2 = calcM2Tail (c.onehot p.pkt) k := by
  refine ⟨?_, ?_⟩
  · rw [rS2State_runPass hinf]
    simp only [Slot.s2New, Slot.accumulate, ha, Registers.slot]
  · rw [m2_runPass hinf, gated_r2]
    simp only [Slot.tanhM2, ha]

end Hardtanh

/-- The first matrix gives no 0 on a one-hot input. -/
theorem calcM1_unit_ne_zero (k l : Neuron) : calcM1 (.unit l) k ≠ 0 := by
  revert k l
  decide

/-- The only zero weight of the second half is that of length class 2 in row 2. -/
theorem calcM2_unit_eq_zero_iff (k l : Neuron) :
    calcM2 (.unit l) k = 0 ↔ k = .n2 ∧ l = .n2 := by
  revert k l
  decide

/-- **The tables realise Hardtanh on every weight but 0.** There are contents such that a fresh
pass of class 2 on a one-hot length adds Hardtanh of the matrix output to all eight accumulators,
but for the second accumulator of neuron 2 on length class 2, which stays. -/
theorem exists_contents_hardtanh (c : Program) :
    ∃ t : RangeContents, ∀ (r : Registers) (p : Pass) (l : Neuron), ¬ p.Recirc →
      (runPass (c.withRanges t) r p).md.rstate.overflow = 2 → c.onehot p.pkt = .unit l →
        ∀ k, HardtanhS1 (c.withRanges t) r p k ∧
          (¬ (k = .n2 ∧ l = .n2) → HardtanhS2 (c.withRanges t) r p k) ∧
          (k = .n2 ∧ l = .n2 → KeepsS2 (c.withRanges t) r p k) := by
  refine ⟨hardtanhContents, fun r p l hp hov hl k => ?_⟩
  have hinf := infers_of_overflow hp hov
  have hl' : (c.withRanges hardtanhContents).onehot p.pkt = .unit l := hl
  refine ⟨?_, fun hkl => ?_, fun hkl => ?_⟩
  · obtain ⟨a, ha, hd⟩ := lookup_hardtanhTable _ (calcM1_unit_ne_zero k l)
    exact hardtanhS1_of_act hinf (by rw [Program.act1, hl']; exact ha) (by rw [hl', hd])
  · obtain ⟨a, ha, hd⟩ := lookup_hardtanhTable _ (mt (calcM2_unit_eq_zero_iff k l).mp hkl)
    exact hardtanhS2_of_act hinf (by rw [Program.act2, hl']; exact ha) (by rw [hl', hd])
  · have hmiss : (c.withRanges hardtanhContents).act2 p.pkt k = none := by
      rw [Program.act2, hl', (calcM2_unit_eq_zero_iff k l).mpr hkl]
      exact lookup_hardtanhTable_zero
    obtain ⟨hstay, htail⟩ := s2_of_miss hinf hmiss
    refine ⟨hstay, ?_⟩
    obtain ⟨rfl, rfl⟩ := hkl
    rw [htail, hl']
    rfl

/-- No contents realise Hardtanh throughout: after a packet of length class 1 the second
accumulator of neuron 2 is -1; on a packet of length class 2 it must stay and reach `m22.r2`, but
an entry that hits changes it and a miss leaves 0 in `m22.r2`. -/
theorem no_contents_hardtanh :
    ¬ ∃ t : RangeContents, ∀ r p, Reachable ((Program.sample tholdEvery).withRanges t) r →
      ¬ p.Recirc →
      (runPass ((Program.sample tholdEvery).withRanges t) r p).md.rstate.overflow = 2 →
      ((Program.sample tholdEvery).onehot p.pkt).IsOnehot →
        ∀ k, HardtanhS1 ((Program.sample tholdEvery).withRanges t) r p k ∧
          HardtanhS2 ((Program.sample tholdEvery).withRanges t) r p k := by
  rintro ⟨t, h⟩
  generalize hc : (Program.sample tholdEvery).withRanges t = c at h
  have hfresh (len : BitVec 16) : ¬ (Pass.fresh 7 len).Recirc := show ¬ (1 : BitVec 9) = 68 by decide
  have hslot (len : BitVec 16) : c.slotOf (.fresh 7 len) = 0 := by rw [← hc]; rfl
  have hcode (len : BitVec 16) :
      c.onehot (.sample 7 len) = (Program.sample tholdEvery).onehot (.sample 7 len) := by
    rw [← hc]; rfl
  have hov (r : Registers) (p : Pass) : (runPass c r p).md.rstate.overflow = 2 := by
    rw [overflow_runPass, ← hc]; rfl
  -- the packet of length class 1 leaves -1
  set r := (runPass c .zero (.fresh 7 1)).regs with hr
  have hcell : r.rS2State .n2 0 = -1 := by
    have h1 := (h .zero (.fresh 7 1) ⟨[], rfl⟩ (hfresh 1) (hov _ _) ⟨.n1, rfl⟩ .n2).2.1
    have hzero : ori (runPass c .zero (.fresh 7 1)).md (Registers.zero.rS2State .n2 0) = 0 := by
      unfold ori
      split_ifs <;> rfl
    rw [hslot, hzero, ← hr] at h1
    rw [h1, show (Pass.fresh 7 1).pkt = .sample 7 1 from rfl, hcode]
    decide +kernel
  -- the packet of length class 2 finds it and must keep it
  obtain ⟨hreg, hr2⟩ :=
    (h r (.fresh 7 2) ⟨[.fresh 7 1], rfl⟩ (hfresh 2) (hov _ _) ⟨.n2, rfl⟩ .n2).2
  have hinf := infers_of_overflow (hfresh 2) (hov r (.fresh 7 2))
  cases hact : c.act2 (Pass.fresh 7 2).pkt .n2 with
  | none =>
    obtain ⟨hstay, htail⟩ := s2_of_miss hinf hact
    rw [htail, hstay, hslot, hcell, show (Pass.fresh 7 2).pkt = .sample 7 2 from rfl, hcode] at hr2
    revert hr2
    decide +kernel
  | some a =>
    have hnew : (runPass c r (.fresh 7 2)).regs.rS2State .n2 (c.slotOf (.fresh 7 2)) =
        ori (runPass c r (.fresh 7 2)).md (r.rS2State .n2 (c.slotOf (.fresh 7 2))) + a.delta := by
      rw [rS2State_runPass hinf, ori_runPass]
      simp only [Slot.s2New, Slot.accumulate, hact, Registers.slot]
    have hzero : BitVec.ofInt 8 (hardtanh (calcM2 (c.onehot (.sample 7 2)) .n2).toInt) = 0 := by
      rw [hcode]
      decide +kernel
    rw [hnew, add_right_inj, show (Pass.fresh 7 2).pkt = .sample 7 2 from rfl, hzero] at hreg
    exact delta_ne_zero a hreg

end Rids.Enforcer
