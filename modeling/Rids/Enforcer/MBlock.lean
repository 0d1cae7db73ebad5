import Rids.Enforcer.Metadata

/-!
# Packet length and weight rows (`rnn.p4`, `mblock.p4`)

`doOnehotPktlen` reads the one-hot code of the packet length, `doCalcMat` multiplies it with the
weight rows of the two halves of the cell. `doCalcMat_eq` gives the rows it leaves in the metadata
in closed form, `calcM1` and `calcM2`; on a one-hot code they are the signed entries `weight1` and
`weight2` (`calcM1_onehot`, `calcM2_onehot`).
-/

namespace Rids.Enforcer

/-! ### The tables -/

/-- Source: `rnn.p4` `t_onehot_pktlen`, `a_onehot_pktlen`, `do_onehot_pktlen`. Kind: D -/
def doOnehotPktlen (c : Program) (s : PassState) : PassState :=
  s.onMd fun md =>
    match c.tables.tOnehotPktlen s.hdr.totalLen with
    | none => md
    | some p => { md with pktlenOnehot := p }

/-- Source: `mblock.p4` `t_mb_s1_11`, `a_mb_s1_11`. Kind: D -/
def tMbS111 (md : Metadata) : Metadata :=
  let p1 := md.pktlenOnehot.p1.setWidth 8
  let p2 := md.pktlenOnehot.p2.setWidth 8
  md |>.setM1R1 .n1 (p1 - p2)
    |>.setM1R1 .n2 (p1 - p2)
    |>.setM1R1 .n3 (p1 - p2)
    |>.setM1R1 .n4 (p1 - p2)

/-- `add_to_field` on `m11` .. `m13` and `subtract_from_field` on `m14`, all with one operand.
`t_mb_s1_12` and `t_mb_s1_13` are this with `p3` and with `p4`. -/
def addToM1Rows (v : BitVec 8) (md : Metadata) : Metadata :=
  md |>.setM1R1 .n1 ((md.m1 .n1).r1 + v)
    |>.setM1R1 .n2 ((md.m1 .n2).r1 + v)
    |>.setM1R1 .n3 ((md.m1 .n3).r1 + v)
    |>.setM1R1 .n4 ((md.m1 .n4).r1 - v)

/-- Source: `mblock.p4` `t_mb_s1_12`, `a_mb_s1_12`. Kind: D -/
def tMbS112 (md : Metadata) : Metadata := addToM1Rows (md.pktlenOnehot.p3.setWidth 8) md

/-- Source: `mblock.p4` `t_mb_s1_13`, `a_mb_s1_13`. Kind: D -/
def tMbS113 (md : Metadata) : Metadata := addToM1Rows (md.pktlenOnehot.p4.setWidth 8) md

/-- Source: `mblock.p4` `t_mb_s1_2`, `a_mb_s1_2`. Kind: D -/
def tMbS12 (md : Metadata) : Metadata :=
  let p1 := md.pktlenOnehot.p1.setWidth 8
  let p2 := md.pktlenOnehot.p2.setWidth 8
  let p3 := md.pktlenOnehot.p3.setWidth 8
  let p4 := md.pktlenOnehot.p4.setWidth 8
  md |>.setM2R1 .n1 (p2 - p1)
    |>.setM2R2 .n1 (p3 - p4)
    |>.setM2R1 .n2 (0 - p1)
    |>.setM2R2 .n2 (p3 + p4)
    |>.setM2R1 .n3 (p1 + p2)
    |>.setM2R2 .n3 (p3 + p4)
    |>.setM2R1 .n4 (p1 - p2)
    |>.setM2R2 .n4 (p3 + p4)

/-- Source: `mblock.p4` `t_mb_s2_2`, `a_mb_s2_2`. Kind: D -/
def tMbS22 (md : Metadata) : Metadata :=
  md |>.setM2R1 .n1 ((md.m2 .n1).r1 + (md.m2 .n1).r2)
    |>.setM2R1 .n2 ((md.m2 .n2).r1 - (md.m2 .n2).r2)
    |>.setM2R1 .n3 ((md.m2 .n3).r1 + (md.m2 .n3).r2)
    |>.setM2R1 .n4 ((md.m2 .n4).r1 + (md.m2 .n4).r2)

/-- Source: `mblock.p4` `do_calc_mat`. Kind: D -/
def doCalcMat (md : Metadata) : Metadata :=
  md |> tMbS111 |> tMbS112 |> tMbS113 |> tMbS12 |> tMbS22

/-! ### The rows in closed form -/

/-- The rows of the first half: what `do_calc_mat` leaves in `m1k.r1`. -/
def calcM1 (p : PktlenOnehot) (k : Neuron) : BitVec 8 :=
  let p1 := p.p1.setWidth 8
  let p2 := p.p2.setWidth 8
  let p3 := p.p3.setWidth 8
  let p4 := p.p4.setWidth 8
  match k with
  | .n1 | .n2 | .n3 => p1 - p2 + p3 + p4
  | .n4 => p1 - p2 - p3 - p4

/-- The second summand of the rows of the second half, which `do_calc_mat` leaves in
`m2k.r2`. -/
def calcM2Tail (p : PktlenOnehot) (k : Neuron) : BitVec 8 :=
  let p3 := p.p3.setWidth 8
  let p4 := p.p4.setWidth 8
  match k with
  | .n1 => p3 - p4
  | .n2 | .n3 | .n4 => p3 + p4

/-- The rows of the second half: what `do_calc_mat` leaves in `m2k.r1`. -/
def calcM2 (p : PktlenOnehot) (k : Neuron) : BitVec 8 :=
  let p1 := p.p1.setWidth 8
  let p2 := p.p2.setWidth 8
  match k with
  | .n1 => p2 - p1 + calcM2Tail p k
  | .n2 => 0 - p1 - calcM2Tail p k
  | .n3 => p1 + p2 + calcM2Tail p k
  | .n4 => p1 - p2 + calcM2Tail p k

/-- `do_calc_mat` writes the rows and nothing else. -/
theorem doCalcMat_eq (md : Metadata) :
    doCalcMat md = { md with
      m1 := fun k => ⟨calcM1 md.pktlenOnehot k⟩
      m2 := fun k => ⟨calcM2 md.pktlenOnehot k, calcM2Tail md.pktlenOnehot k⟩ } := by
  simp only [doCalcMat, tMbS111, tMbS112, tMbS113, addToM1Rows, tMbS12, tMbS22, Metadata.setM1R1,
    Metadata.setM2R1, Metadata.setM2R2, Metadata.mk.injEq, true_and, and_true]
  constructor <;> funext k <;> cases k <;> simp [calcM1, calcM2, calcM2Tail]

/-! ### One-hot lengths -/

/-- The code with a 1 for length class `l` and 0 elsewhere. -/
def PktlenOnehot.unit : Neuron → PktlenOnehot
  | .n1 => { p1 := 1 }
  | .n2 => { p2 := 1 }
  | .n3 => { p3 := 1 }
  | .n4 => { p4 := 1 }

/-- Exactly one of `p1` .. `p4` is 1, the others are 0. -/
def PktlenOnehot.IsOnehot (p : PktlenOnehot) : Prop := ∃ l, p = .unit l

/-- The signed weights of the first half: row `k`, length class `l`. -/
def weight1 (k l : Neuron) : ℤ :=
  match k, l with
  | _, .n1 => 1
  | _, .n2 => -1
  | .n4, _ => -1
  | _, _ => 1

/-- The signed weights of the second half. Row 2 has weight 0 for length class 2. -/
def weight2 (k l : Neuron) : ℤ :=
  match k, l with
  | .n1, .n1 => -1
  | .n1, .n2 => 1
  | .n1, .n3 => 1
  | .n1, .n4 => -1
  | .n2, .n2 => 0
  | .n2, _ => -1
  | .n3, _ => 1
  | .n4, .n2 => -1
  | .n4, _ => 1

/-- The first matrix on a one-hot input is a column of its weights. -/
theorem calcM1_onehot (k l : Neuron) : (calcM1 (.unit l) k).toInt = weight1 k l := by
  revert k l; decide

/-- The second matrix on a one-hot input is a column of its weights. -/
theorem calcM2_onehot (k l : Neuron) : (calcM2 (.unit l) k).toInt = weight2 k l := by
  revert k l; decide

end Rids.Enforcer
