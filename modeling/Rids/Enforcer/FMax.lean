import Rids.Enforcer.Metadata

/-!
# The stored decision (`fmax.p4`)

`tUpdateDecision` writes `fr.decision` to `r_decision` of the slot when `overflow` is 2 and 0 to
it when `overflow` is 1; `tTakeDecision` reads the register back into the 8-bit `fr.decision`.
-/

namespace Rids.Enforcer

open Rids.Lib.MatchAction

/-- Source: `fmax.p4` `t_set_decision_one`, `a_set_decision_one`. Kind: D -/
def tSetDecisionOne (md : Metadata) : Metadata := { md with decision := 1 }

/-- Source: `fmax.p4` `t_set_decision_two`, `a_set_decision_two`. Kind: D -/
def tSetDecisionTwo (md : Metadata) : Metadata := { md with decision := 2 }

/-- Source: `fmax.p4` `reg_update_decision_alu`. Kind: D -/
def regUpdateDecisionAlu : StatefulAlu Metadata 16 where
  conditionLo md _ := md.rstate.overflow == 1
  conditionHi md _ := md.rstate.overflow == 2
  updateLo1 := some { predicate := fun lo _ => lo, value := fun _ _ => 0 }
  updateLo2 := some { predicate := fun _ hi => hi, value := fun md _ => md.decision.setWidth 16 }
  exclusive md r := by
    simp only [AluProgram.fires, beq_iff_eq]
    rintro ⟨h1, h2⟩
    exact absurd (h1.symm.trans h2) (by decide)

/-- Source: `fmax.p4` `t_update_decision`, `a_update_decision`. Kind: D -/
def tUpdateDecision (s : PassState) : PassState :=
  { s with
    regs := { s.regs with
      rDecision := s.regs.rDecision.execute regUpdateDecisionAlu s.md s.md.rstate.hashIndex } }

/-- `register_lo` goes to the 8-bit `fr.decision`; the ALU updates nothing.
Source: `fmax.p4` `t_take_decision`, `a_take_decision`, `reg_take_decision_alu`
Kind: D -/
def tTakeDecision (s : PassState) : PassState :=
  s.onMd fun md => { md with decision := (s.regs.rDecision md.rstate.hashIndex).setWidth 8 }

end Rids.Enforcer
