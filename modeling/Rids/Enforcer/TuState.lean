import Rids.Enforcer.Metadata

/-!
# Activation and state update (`tustate.p4`)

A table `t_s1_statek_c` looks the matrix output `m1k.r1` up in its ranges and runs one of two
actions on `r_s1_statek`: activate adds 1 to the cell, deactivate subtracts 1, and either starts
from 0 when `is_collision` is 1. The new cell goes to `m1k.r1`. The tables `t_s2_statek_c` do the
same with `m2k.r1` and `r_s2_statek`, but deliver the new cell to `m2k.r2` and leave the
activation itself in `m2k.r1`. A miss executes nothing.
-/

namespace Rids.Enforcer

open Rids.Lib.MatchAction

/-- The common text of the sixteen state ALUs: `first` replaces the cell on a collision, `next`
updates it otherwise.
Source: `tustate.p4` `s1_state1_activate_alu` .. `s2_state4_deactivate_alu`
Kind: D -/
def stateAlu (first : BitVec 8) (next : BitVec 8 → BitVec 8) : StatefulAlu Metadata 8 where
  conditionLo md _ := md.rstate.isCollision == 1
  updateLo1 := some { predicate := fun lo _ => lo, value := fun _ _ => first }
  updateLo2 := some { predicate := fun lo _ => !lo, value := fun _ registerLo => next registerLo }
  exclusive md r := by simp [AluProgram.fires]

/-- Source: `tustate.p4`, the `activate` ALU of each neuron. Kind: D -/
def activateAlu : StatefulAlu Metadata 8 := stateAlu 1 (· + 1)

/-- Source: `tustate.p4`, the `deactivate` ALU of each neuron. Kind: D -/
def deactivateAlu : StatefulAlu Metadata 8 := stateAlu (-1) (· - 1)

namespace Activation

/-- The ALU an action executes. -/
def alu : Activation → StatefulAlu Metadata 8
  | activate => activateAlu
  | deactivate => deactivateAlu

/-- The value `modify_field(m2k.r1, ..)` of an action. -/
def delta : Activation → BitVec 8
  | activate => 1
  | deactivate => -1

end Activation

/-- Source: `tustate.p4` `a_s1_state1_activate` .. `a_s1_state4_deactivate`. Kind: D -/
def aS1State (k : Neuron) (a : Activation) (s : PassState) : PassState :=
  let i := s.md.rstate.hashIndex
  { s with
    regs := { s.regs with
      rS1State := Function.update s.regs.rS1State k ((s.regs.rS1State k).execute a.alu s.md i) }
    md := s.md.setM1R1 k (a.alu.aluLo s.md (s.regs.rS1State k i)) }

/-- Source: `tustate.p4` `a_s2_state1_activate` .. `a_s2_state4_deactivate`. Kind: D -/
def aS2State (k : Neuron) (a : Activation) (s : PassState) : PassState :=
  let i := s.md.rstate.hashIndex
  { s with
    regs := { s.regs with
      rS2State := Function.update s.regs.rS2State k ((s.regs.rS2State k).execute a.alu s.md i) }
    md := (s.md.setM2R2 k (a.alu.aluLo s.md (s.regs.rS2State k i))).setM2R1 k a.delta }

/-- The common text of the tables `t_s1_statek_c`. -/
def tS1StateC (k : Neuron) (c : Program) (s : PassState) : PassState :=
  match (c.tables.tS1StateC k).lookup (s.md.m1 k).r1 with
  | none => s
  | some a => aS1State k a s

/-- The common text of the tables `t_s2_statek_c`. -/
def tS2StateC (k : Neuron) (c : Program) (s : PassState) : PassState :=
  match (c.tables.tS2StateC k).lookup (s.md.m2 k).r1 with
  | none => s
  | some a => aS2State k a s

/-- Source: `tustate.p4` `t_s1_state1_c`. Kind: D -/
def tS1State1C := tS1StateC .n1
/-- Source: `tustate.p4` `t_s1_state2_c`. Kind: D -/
def tS1State2C := tS1StateC .n2
/-- Source: `tustate.p4` `t_s1_state3_c`. Kind: D -/
def tS1State3C := tS1StateC .n3
/-- Source: `tustate.p4` `t_s1_state4_c`. Kind: D -/
def tS1State4C := tS1StateC .n4
/-- Source: `tustate.p4` `t_s2_state1_c`. Kind: D -/
def tS2State1C := tS2StateC .n1
/-- Source: `tustate.p4` `t_s2_state2_c`. Kind: D -/
def tS2State2C := tS2StateC .n2
/-- Source: `tustate.p4` `t_s2_state3_c`. Kind: D -/
def tS2State3C := tS2StateC .n3
/-- Source: `tustate.p4` `t_s2_state4_c`. Kind: D -/
def tS2State4C := tS2StateC .n4

/-- Source: `tustate.p4` `do_update_state1`. Kind: D -/
def doUpdateState1 (c : Program) (s : PassState) : PassState :=
  s |> tS1State1C c |> tS1State2C c |> tS1State3C c |> tS1State4C c

/-- Source: `tustate.p4` `do_update_state2`. Kind: D -/
def doUpdateState2 (c : Program) (s : PassState) : PassState :=
  s |> tS2State1C c |> tS2State2C c |> tS2State3C c |> tS2State4C c

/-- Source: `tustate.p4` `do_tanh_and_update_state`. Kind: D -/
def doTanhAndUpdateState (c : Program) (s : PassState) : PassState :=
  s |> doUpdateState1 c |> doUpdateState2 c

end Rids.Enforcer
