import Mathlib.Data.BitVec
import Mathlib.Tactic.Ring
import Rids.Enforcer.Metadata

/-!
# Gate and final score (`mresult.p4`)

`doMergeResult1` is the gate: where `m1k.r1`, as a byte, is below `0x80`, the table `t_set_m2k`
may overwrite `m2k.r1` by `m2k.r2`. `doMergeResult2` folds the eight results into `m11.r1`, the
score whose sign is the decision. `m1_doMergeResult2` gives that score in closed form.
-/

namespace Rids.Enforcer

/-! ### The gate -/

/-- The common text of the tables `t_set_m2k`: `a_set_m2k` copies `m2k.r2` to `m2k.r1`. -/
def tSetM2 (k : Neuron) (c : Program) (md : Metadata) : Metadata :=
  match c.tables.tSetM2 k with
  | .setM2 => md.setM2R1 k (md.m2 k).r2
  | .nop => md

/-- Source: `mresult.p4` `t_set_m21`. Kind: D -/
def tSetM21 := tSetM2 .n1
/-- Source: `mresult.p4` `t_set_m22`. Kind: D -/
def tSetM22 := tSetM2 .n2
/-- Source: `mresult.p4` `t_set_m23`. Kind: D -/
def tSetM23 := tSetM2 .n3
/-- Source: `mresult.p4` `t_set_m24`. Kind: D -/
def tSetM24 := tSetM2 .n4

/-- `if (m1k.r1 < 0x80) apply(t)`: fields compare as unsigned bytes. -/
def ifLess80 (k : Neuron) (t : Metadata → Metadata) (md : Metadata) : Metadata :=
  if (md.m1 k).r1 < 0x80#8 then t md else md

/-- Source: `mresult.p4` `do_merge_result_1`. Kind: D -/
def doMergeResult1 (c : Program) (md : Metadata) : Metadata :=
  md |> ifLess80 .n1 (tSetM21 c)
    |> ifLess80 .n2 (tSetM22 c)
    |> ifLess80 .n3 (tSetM23 c)
    |> ifLess80 .n4 (tSetM24 c)

/-- What the gate leaves in `m2k`, given the byte in `m1k.r1`. -/
def gated (c : Program) (k : Neuron) (m1 : BitVec 8) (m2 : MbResult) : MbResult :=
  if m1 < 0x80#8 ∧ c.tables.tSetM2 k = .setM2 then { m2 with r1 := m2.r2 } else m2

/-- The two tables of the gate together. -/
theorem ifLess80_tSetM2 (k : Neuron) (c : Program) (md : Metadata) :
    ifLess80 k (tSetM2 k c) md =
      { md with m2 := Function.update md.m2 k (gated c k (md.m1 k).r1 (md.m2 k)) } := by
  simp only [ifLess80, tSetM2, gated, Metadata.setM2R1]
  by_cases h : (md.m1 k).r1 < 128#8 <;> cases ht : c.tables.tSetM2 k <;> simp [h]

/-- The gate changes the `m2k` alone, each by its own `m1k`. -/
theorem doMergeResult1_eq (c : Program) (md : Metadata) :
    doMergeResult1 c md = { md with m2 := fun k => gated c k (md.m1 k).r1 (md.m2 k) } := by
  simp only [doMergeResult1, tSetM21, tSetM22, tSetM23, tSetM24, ifLess80_tSetM2,
    Metadata.mk.injEq, true_and, and_true]
  funext k
  cases k <;> simp

/-! ### The score -/

/-- Source: `mresult.p4` `t_fm_s1`, `a_fm_s1`. Kind: D -/
def tFmS1 (md : Metadata) : Metadata :=
  md |>.setM1R1 .n1 ((md.m1 .n1).r1 - (md.m1 .n2).r1)
    |>.setM1R1 .n3 ((md.m1 .n3).r1 + (md.m1 .n4).r1)
    |>.setM2R1 .n1 ((md.m2 .n4).r1 - (md.m2 .n1).r1)

/-- Source: `mresult.p4` `t_fm_s2`, `a_fm_s2`. Kind: D -/
def tFmS2 (md : Metadata) : Metadata := md.setM1R1 .n1 ((md.m1 .n1).r1 - (md.m1 .n3).r1)

/-- Source: `mresult.p4` `t_fm_s3`, `a_fm_s3`. Kind: D -/
def tFmS3 (md : Metadata) : Metadata := md.setM1R1 .n1 ((md.m1 .n1).r1 - (md.m2 .n1).r1)

/-- Source: `mresult.p4` `do_merge_result_2`. Kind: D -/
def doMergeResult2 (md : Metadata) : Metadata := md |> tFmS1 |> tFmS2 |> tFmS3

/-- The score of a metadata: `m11 - m12 - m13 - m14 - (m24 - m21)` on the `r1` bytes. -/
def score (md : Metadata) : BitVec 8 :=
  (md.m1 .n1).r1 - (md.m1 .n2).r1 - (md.m1 .n3).r1 - (md.m1 .n4).r1
    - ((md.m2 .n4).r1 - (md.m2 .n1).r1)

/-- The three in-place steps leave the score in `m11.r1`. -/
theorem m1_doMergeResult2 (md : Metadata) : ((doMergeResult2 md).m1 .n1).r1 = score md := by
  simp [doMergeResult2, tFmS1, tFmS2, tFmS3, score, Metadata.setM1R1, Metadata.setM2R1]
  ring

end Rids.Enforcer
