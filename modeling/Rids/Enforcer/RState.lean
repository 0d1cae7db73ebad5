import Rids.Enforcer.Metadata

/-!
# Flow key, packet counter and threshold class (`rstate.p4`)

`doFlowCnt` is the control every pass starts with. It hashes the flow, compares and replaces
the key register of the slot (`is_collision` is 1 when the key differed), restarts or increments
the counter, and reads the class of the new count from `t_check_cnt_thold`.
-/

namespace Rids.Enforcer

open Rids.Lib.MatchAction

/-- `overflow` as each action of `t_check_cnt_thold` sets it.
Source: `rstate.p4` `a_hit_thold`, `a_less_than_thold`, `a_larger_than_thold`
Kind: D -/
def TholdAction.overflow : TholdAction → BitVec 2
  | .hitThold => 2
  | .lessThanThold => 1
  | .largerThanThold => 0

/-- Source: `rstate.p4` `t_calc_hash`, `a_calc_hash`. Kind: D -/
def tCalcHash (c : Program) (s : PassState) : PassState :=
  s.onMd fun md => { md with
    rstate := { md.rstate with
      hashKey := c.flowHashKey s.hdr.flowKeys
      hashIndex := c.flowHashIndex s.hdr.flowKeys } }

/-- Source: `rstate.p4` `fkey_alu`. Kind: D -/
def fkeyAlu : StatefulAlu Metadata 16 where
  conditionLo md registerLo := md.rstate.hashKey != registerLo
  updateLo1 := some { value := fun md _ => md.rstate.hashKey }
  exclusive md r := by simp [AluProgram.fires]

/-- Source: `rstate.p4` `t_check_and_update_fkey`, `a_check_and_update_fkey`. Kind: D -/
def tCheckAndUpdateFkey (s : PassState) : PassState :=
  let i := s.md.rstate.hashIndex
  { s with
    regs := { s.regs with rFlowHashKey := s.regs.rFlowHashKey.execute fkeyAlu s.md i }
    md := { s.md with
      rstate := { s.md.rstate with
        isCollision := .ofBool (fkeyAlu.combinedPredicate s.md (s.regs.rFlowHashKey i)) } } }

/-- Source: `rstate.p4` `fcnt_alu`. Kind: D -/
def fcntAlu : StatefulAlu Metadata 32 where
  conditionLo md _ := md.rstate.isCollision == 1
  updateLo1 := some { predicate := fun lo _ => lo, value := fun _ _ => 1 }
  updateLo2 := some { predicate := fun lo _ => !lo, value := fun _ registerLo => registerLo + 1 }
  exclusive md r := by simp [AluProgram.fires]

/-- The counter is delivered into the 20-bit field `flow_cnt`.
Source: `rstate.p4` `t_update_flow_counter`, `a_update_flow_counter`
Kind: D -/
def tUpdateFlowCounter (s : PassState) : PassState :=
  let i := s.md.rstate.hashIndex
  { s with
    regs := { s.regs with rFlowCnt := s.regs.rFlowCnt.execute fcntAlu s.md i }
    md := { s.md with
      rstate := { s.md.rstate with
        flowCnt := (fcntAlu.aluLo s.md (s.regs.rFlowCnt i)).setWidth 20 } } }

/-- A miss leaves `overflow` as it is.
Source: `rstate.p4` `t_check_cnt_thold`
Kind: D -/
def tCheckCntThold (c : Program) (s : PassState) : PassState :=
  s.onMd fun md =>
    match c.tables.tCheckCntThold md.rstate.flowCnt with
    | none => md
    | some a => { md with rstate := { md.rstate with overflow := a.overflow } }

/-- Source: `rstate.p4` `do_flow_cnt`. Kind: D -/
def doFlowCnt (c : Program) (s : PassState) : PassState :=
  s |> tCalcHash c |> tCheckAndUpdateFkey |> tUpdateFlowCounter |> tCheckCntThold c

end Rids.Enforcer
