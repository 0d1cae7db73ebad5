import Mathlib.Data.Fintype.Basic
import Rids.Lib.MatchAction

/-!
# Headers, metadata, registers and tables of rEnforcer

The data the P4 program carries through one pass of a packet.

* `Packet` — the header fields that ingress reads; `Packet.flowKeys` is the field list the two
  hash functions of `rstate.p4` are taken over.
* `Metadata` — the metadata of a pass. A pass starts from `Metadata.init`, all fields zero.
* `Registers` — the eleven register arrays ingress uses, 65536 cells each. The four neurons of a
  layer are indexed by `Neuron`: `rS1State .n1` is `r_s1_state1`, `m1 .n1` is `m11`, and so on.
* `Tables` — what the control plane installs. `Program` adds the two hash functions.
* `PassState` — a pass under way: header, metadata, registers, and the list of controls and
  tables it has applied, which the program does not read.
-/

namespace Rids.Enforcer

open Rids.Lib.MatchAction

/-! ### Headers -/

/-- The field list `flow_keys`.
Source: `rstate.p4` `flow_keys`
Kind: D -/
structure FlowKeys where
  srcIp : BitVec 32
  dstIp : BitVec 32
  proto : BitVec 8
deriving DecidableEq, Repr

/-- The fields of `ipv4_t` that ingress reads.
Source: `includes/headers.p4` `ipv4_t`
Kind: D -/
structure Packet where
  srcIp : BitVec 32
  dstIp : BitVec 32
  proto : BitVec 8
  totalLen : BitVec 16
deriving DecidableEq, Repr

/-- The flow of a packet, as the hash functions see it.
Source: `rstate.p4` `flow_keys`
Kind: D -/
def Packet.flowKeys (p : Packet) : FlowKeys := ⟨p.srcIp, p.dstIp, p.proto⟩

/-! ### Metadata -/

/-- The four neurons of a layer: `n1` is the index 1 of `m11`, `r_s1_state1`, `t_set_m21`. -/
inductive Neuron
  | n1 | n2 | n3 | n4
deriving DecidableEq, Repr

instance : Fintype Neuron := ⟨{.n1, .n2, .n3, .n4}, fun k => by cases k <;> decide⟩

/-- Source: `rstate.p4` `rnn_state_t` (`old_key` is read by no control of ingress). Kind: D -/
structure RnnState where
  overflow : BitVec 2 := 0
  isCollision : BitVec 1 := 0
  flowCnt : BitVec 20 := 0
  hashKey : BitVec 16 := 0
  hashIndex : BitVec 16 := 0
deriving DecidableEq, Repr

/-- Source: `rnn.p4` `pktlen_onehot_t`. Kind: D -/
structure PktlenOnehot where
  p1 : BitVec 2 := 0
  p2 : BitVec 2 := 0
  p3 : BitVec 2 := 0
  p4 : BitVec 2 := 0
deriving DecidableEq, Repr

/-- Source: `mblock.p4` `mb_result1_t`. Kind: D -/
structure MbResult1 where
  r1 : BitVec 8 := 0
deriving DecidableEq, Repr

/-- Source: `mblock.p4` `mb_result_t`. Kind: D -/
structure MbResult where
  r1 : BitVec 8 := 0
  r2 : BitVec 8 := 0
deriving DecidableEq, Repr

/-- The metadata of a pass. `m1 k` is `m1(k)` and `m2 k` is `m2(k)`; `ucastEgressPort`,
`dropped` and `recirculated` are what `set_egr`, `drop` and `recirculate` leave for the traffic
manager.
Source: `rstate.p4`, `rnn.p4`, `mblock.p4`, `fmax.p4` (the `metadata` instances),
`includes/actions.p4`
Kind: D -/
structure Metadata where
  ingressPort : BitVec 9
  rstate : RnnState := {}
  pktlenOnehot : PktlenOnehot := {}
  m1 : Neuron → MbResult1 := fun _ => {}
  m2 : Neuron → MbResult := fun _ => {}
  decision : BitVec 8 := 0
  ucastEgressPort : BitVec 9 := 0
  dropped : Bool := false
  recirculated : Bool := false

namespace Metadata

/-- The metadata a pass starts from: everything zero but the port the packet came in at. -/
def init (port : BitVec 9) : Metadata := { ingressPort := port }

variable (md : Metadata) (k : Neuron) (v : BitVec 8)

/-- Writes `m1k.r1`. -/
def setM1R1 : Metadata := { md with m1 := Function.update md.m1 k { r1 := v } }

/-- Writes `m2k.r1`. -/
def setM2R1 : Metadata := { md with m2 := Function.update md.m2 k { md.m2 k with r1 := v } }

/-- Writes `m2k.r2`. -/
def setM2R2 : Metadata := { md with m2 := Function.update md.m2 k { md.m2 k with r2 := v } }

end Metadata

/-! ### Registers -/

/-- The per-flow register arrays, indexed by the 16-bit `hash_index`.
Source: `rstate.p4` `r_flow_hash_key`, `r_flow_cnt`, `r_s1_state1` .. `r_s2_state4`; `fmax.p4`
`r_decision`
Kind: D -/
structure Registers where
  rFlowHashKey : RegArray (BitVec 16) 16
  rFlowCnt : RegArray (BitVec 16) 32
  rS1State : Neuron → RegArray (BitVec 16) 8
  rS2State : Neuron → RegArray (BitVec 16) 8
  rDecision : RegArray (BitVec 16) 16

/-- The registers of a switch that has seen no packet. -/
def Registers.zero : Registers where
  rFlowHashKey _ := 0
  rFlowCnt _ := 0
  rS1State _ _ := 0
  rS2State _ _ := 0
  rDecision _ := 0

/-! ### Tables -/

/-- The actions of `t_check_cnt_thold`. -/
inductive TholdAction
  | hitThold | lessThanThold | largerThanThold
deriving DecidableEq, Repr

/-- The two actions of a table `t_s1_statek_c` or `t_s2_statek_c`. -/
inductive Activation
  | activate | deactivate
deriving DecidableEq, Repr

/-- The actions of a table `t_set_m2k`. -/
inductive SetM2Action
  | setM2 | nop
deriving DecidableEq, Repr

/-- The actions of `t_touch_tbl`. -/
inductive TouchAction
  | nop | drop
deriving DecidableEq, Repr

/-- The actions of `dc_l2_forward`. -/
inductive L2Action
  | setEgr (egressSpec : BitVec 9) | nop | drop
deriving DecidableEq, Repr

/-- What the control plane has installed. A table's match is the function from its key to the
action it runs, `none` being a miss; the eight range tables of `tustate.p4` keep their
`size : 2`. A table `t_set_m2k` has no key: only its default action can be set.
Source: the `table` declarations of `rstate.p4`, `rnn.p4`, `tustate.p4`, `mresult.p4`,
`l2_switch.p4`
Kind: D -/
structure Tables where
  tCheckCntThold : BitVec 20 → Option TholdAction
  tOnehotPktlen : BitVec 16 → Option PktlenOnehot
  tS1StateC : Neuron → RangeTable 8 Activation 2
  tS2StateC : Neuron → RangeTable 8 Activation 2
  tSetM2 : Neuron → SetM2Action
  tTouchTbl : (Neuron → BitVec 8) → (Neuron → BitVec 8) → Option TouchAction
  dcL2Forward : BitVec 8 → Option L2Action

/-- A loaded program: its two hash functions and its tables. The hashes are parameters; with
base 0 and size 65536 `modify_field_with_hash_based_offset` leaves a 16-bit hash as it is.
Source: `rstate.p4` `flow_hash_key`, `flow_hash_index`
Kind: D -/
structure Program where
  flowHashKey : FlowKeys → BitVec 16
  flowHashIndex : FlowKeys → BitVec 16
  tables : Tables

/-! ### A pass under way -/

/-- The controls and tables whose execution the results below speak about. -/
inductive Applied
  | doCalcMat | doTanhAndUpdateState | doMergeResult1 | doMergeResult2
  | tUpdateDecision | tTakeDecision | tTouchTbl | tRecirc
  | dcL2Forward (decision : BitVec 8)
deriving DecidableEq, Repr

/-- What a pass leaves behind besides the registers. -/
structure PassOut where
  md : Metadata
  applied : List Applied := []

/-- A pass under way. -/
structure PassState extends PassOut where
  hdr : Packet
  regs : Registers

namespace PassState

variable (s : PassState)

/-- Runs a metadata-only action. -/
def onMd (f : Metadata → Metadata) : PassState := { s with md := f s.md }

/-- Records that a control or table was applied. -/
def note (a : Applied) : PassState := { s with applied := s.applied ++ [a] }

end PassState

end Rids.Enforcer
