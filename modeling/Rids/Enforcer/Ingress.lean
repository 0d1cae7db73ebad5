import Rids.Enforcer.RState
import Rids.Enforcer.MBlock
import Rids.Enforcer.TuState
import Rids.Enforcer.MResult
import Rids.Enforcer.FMax
import Rids.Lib.SlotMachine

/-!
# The ingress control and runs of passes (`main.p4`)

`ingress` is one pass: a *fresh* packet (any port but 68) is counted, classified, run through the
inference when its class is 2, and recirculated; a *recirculated* one (port 68) is counted and
classified again, takes or writes the decision of its slot, and is forwarded with it. Every
pass starts from zero metadata: recirculation carries no field list.

`switch` is the machine whose steps are passes; `Reachable` are its states from zeroed registers.
-/

namespace Rids.Enforcer

open Rids.Lib.MatchAction
open Rids.Lib.SlotMachine

/-! ### Forwarding -/

/-- Source: `rnn.p4` `t_touch_tbl`. Kind: D -/
def tTouchTbl (c : Program) (md : Metadata) : Metadata :=
  match c.tables.tTouchTbl (fun k => (md.m1 k).r1) (fun k => (md.m2 k).r1) with
  | some .drop => { md with dropped := true }
  | _ => md

/-- Source: `l2_switch.p4` `dc_l2_forward`; `includes/actions.p4` `set_egr`, `nop`, `_drop`.
Kind: D -/
def dcL2Forward (c : Program) (md : Metadata) : Metadata :=
  match c.tables.dcL2Forward md.decision with
  | some (.setEgr egressSpec) => { md with ucastEgressPort := egressSpec }
  | some .drop => { md with dropped := true }
  | _ => md

/-- Source: `main.p4` `t_recirc`, `a_do_recirc`. Kind: D -/
def tRecirc (md : Metadata) : Metadata := { md with recirculated := true }

/-! ### Ingress -/

/-- The port recirculated packets come in at. -/
def recircPort : BitVec 9 := 68

/-- The branch of a recirculated pass.
Source: `main.p4` `control ingress`, `ig_intr_md.ingress_port == 68`
Kind: D -/
def ingressRecirc (c : Program) (s : PassState) : PassState :=
  if 1#2 < s.md.rstate.overflow then
    let s := (s.onMd doMergeResult2).note .doMergeResult2
    let s := if (s.md.m1 .n1).r1 < 0x80#8 then s.onMd tSetDecisionOne else s.onMd tSetDecisionTwo
    let s := (tUpdateDecision s).note .tUpdateDecision
    (s.onMd (dcL2Forward c)).note (.dcL2Forward s.md.decision)
  else
    let s := (tTakeDecision s).note .tTakeDecision
    (s.onMd (dcL2Forward c)).note (.dcL2Forward s.md.decision)

/-- The inference of a fresh pass of class 2.
Source: `main.p4` `control ingress`, the branch `rstate.overflow > 1` of a fresh pass
Kind: D -/
def ingressInference (c : Program) (s : PassState) : PassState :=
  let s := doOnehotPktlen c s
  let s := (s.onMd doCalcMat).note .doCalcMat
  let s := (doTanhAndUpdateState c s).note .doTanhAndUpdateState
  let s := (s.onMd (doMergeResult1 c)).note .doMergeResult1
  (s.onMd (tTouchTbl c)).note .tTouchTbl

/-- The branch of a fresh pass.
Source: `main.p4` `control ingress`, `ig_intr_md.ingress_port != 68`
Kind: D -/
def ingressFresh (c : Program) (s : PassState) : PassState :=
  let s := if 1#2 < s.md.rstate.overflow then ingressInference c s else s
  (s.onMd tRecirc).note .tRecirc

/-- Source: `main.p4` `control ingress`. Kind: D -/
def ingress (c : Program) (s : PassState) : PassState :=
  let s := doFlowCnt c s
  if s.md.ingressPort = recircPort then ingressRecirc c s else ingressFresh c s

/-! ### Passes and runs -/

/-- One pass: a packet and the port it comes in at. -/
structure Pass where
  pkt : Packet
  port : BitVec 9
deriving DecidableEq, Repr

namespace Pass

/-- A pass of a packet that has been recirculated. -/
def Recirc (p : Pass) : Prop := p.port = recircPort

instance (p : Pass) : Decidable p.Recirc := inferInstanceAs (Decidable (_ = _))

/-- The recirculated pass of the packet. -/
def recirculated (p : Pass) : Pass := ⟨p.pkt, recircPort⟩

/-- The flow of the pass's packet. -/
def flow (p : Pass) : FlowKeys := p.pkt.flowKeys

end Pass

variable (c : Program)

/-- The slot a pass hashes to. -/
def Program.slotOf (p : Pass) : BitVec 16 := c.flowHashIndex p.flow

/-- The key a pass hashes to. -/
def Program.keyOf (p : Pass) : BitVec 16 := c.flowHashKey p.flow

/-- A pass at registers `r`, from zero metadata. -/
def runPass (r : Registers) (p : Pass) : PassState :=
  ingress c { md := .init p.port, hdr := p.pkt, regs := r }

/-- The switch: a step is a pass, its output what the pass leaves besides the registers. -/
def switch : Machine Registers Pass PassOut where
  step r p := (runPass c r p).regs
  out r p := (runPass c r p).toPassOut

/-- The register states of a switch that started from zeroed registers. -/
def Reachable (r : Registers) : Prop := ∃ ps, r = (switch c).run .zero ps

/-! ### A small configuration

The runs on fixed inputs below are runs of this program. -/

/-- The range table of a sign: `0x00`-`0x7f` to activate, `0x80`-`0xff` to deactivate. -/
def signTable : RangeTable 8 Activation 2 where
  entries := [⟨0x00, 0x7f, .activate⟩, ⟨0x80, 0xff, .deactivate⟩]
  length_le := le_rfl

/-- Every flow hashes to slot 0, its key is the low half of the source address; the packet
lengths 1 .. 4 are the four length classes. -/
def Program.sample (thold : BitVec 20 → TholdAction) : Program where
  flowHashKey F := F.srcIp.setWidth 16
  flowHashIndex _ := 0
  tables := {
    tCheckCntThold := fun n => some (thold n)
    tOnehotPktlen := fun len =>
      if len = 1 then some (.unit .n1) else if len = 2 then some (.unit .n2)
      else if len = 3 then some (.unit .n3) else if len = 4 then some (.unit .n4) else none
    tS1StateC := fun _ => signTable
    tS2StateC := fun _ => signTable
    tSetM2 := fun _ => .setM2
    tTouchTbl := fun _ _ => none
    dcL2Forward := fun d => some (.setEgr (d.setWidth 9)) }

/-- The threshold table with class 2 for the count `m` and class 1 for the others. -/
def tholdAt (m n : BitVec 20) : TholdAction := if n = m then .hitThold else .lessThanThold

/-- The threshold table with class 2 for every count. -/
def tholdEvery (_ : BitVec 20) : TholdAction := .hitThold

/-- A packet of length `len` of the flow with key `key`. -/
def Packet.sample (key : BitVec 32) (len : BitVec 16) : Packet where
  srcIp := key
  dstIp := 0
  proto := 6
  totalLen := len

/-- A fresh pass of such a packet, at port 1. -/
def Pass.fresh (key : BitVec 32) (len : BitVec 16) : Pass := ⟨.sample key len, 1⟩

/-- A recirculated pass of such a packet. -/
def Pass.recirc (key : BitVec 32) (len : BitVec 16) : Pass := ⟨.sample key len, recircPort⟩

end Rids.Enforcer
