import Rids.Lib.KeyedList
import Rids.Pipeline.Table
import Rids.Pipeline.TableAction

/-!
# The objects of a configuration

Memory pools, links, rings, traffic managers, taps, kernel interfaces, crypto devices, action
profiles and pipelines: the parameters that a command gives for them, and what is kept of them. A
pointer that the library has returned is a number. Every kind has a list, in which an object is
found by its name.
-/

namespace Rids.Cli

open Rids.Lib Rids.Lib.ByteMem
open Rids.Pipeline (EncapType ActionProfile TableAclParams TableParams)

/-! ### Parameters -/

/-- Source: `mempool.h` `struct mempool_params`. Kind: D -/
structure MempoolParams where
  bufferSize : ℕ
  poolSize : ℕ
  cacheSize : ℕ
  cpuId : ℕ
deriving DecidableEq, Repr

/-- The queue identifiers `rss.queue_id`, of which there are `rss.n_queues`.
Source: `link.h` `struct link_params`, `struct link_params_rss`
Kind: D -/
structure LinkParams where
  devName : Option String
  portId : ℕ
  rxNQueues : ℕ
  rxQueueSize : ℕ
  rxMempoolName : String
  rss : Option (List ℕ)
  txNQueues : ℕ
  txQueueSize : ℕ
  promiscuous : Bool
deriving DecidableEq, Repr

/-- Source: `link.h` `LINK_RXQ_RSS_MAX`. Kind: D -/
def linkRxqRssMax : ℕ := 16

/-- Source: `swq.h` `struct swq_params`. Kind: D -/
structure SwqParams where
  size : ℕ
  cpuId : ℕ
deriving DecidableEq, Repr

/-- Source: DPDK `struct rte_sched_subport_profile_params`. Kind: D -/
structure SubportProfile where
  tbRate : ℕ
  tbSize : ℕ
  tcRate : List ℕ
  tcPeriod : ℕ
deriving DecidableEq, Repr

/-- Source: DPDK `struct rte_sched_pipe_params`. Kind: D -/
structure PipeProfile extends SubportProfile where
  tcOvWeight : ℕ
  wrrWeights : List ℕ
deriving DecidableEq, Repr

/-- Source: `tmgr.h` `struct tmgr_port_params`. Kind: D -/
structure TmgrPortParams where
  rate : ℕ
  nSubportsPerPort : ℕ
  nPipesPerSubport : ℕ
  frameOverhead : ℕ
  mtu : ℕ
  cpuId : ℕ
deriving DecidableEq, Repr

/-- `thread_id` counts where `force_bind` is set.
Source: `kni.h` `struct kni_params`
Kind: D -/
structure KniParams where
  linkName : String
  mempoolName : String
  forceBind : Bool
  threadId : ℕ
deriving DecidableEq, Repr

/-- Source: `cryptodev.h` `struct cryptodev_params`. Kind: D -/
structure CryptodevParams where
  devName : Option String
  devId : ℕ
  nQueues : ℕ
  queueSize : ℕ
  sessionPoolSize : ℕ
deriving DecidableEq, Repr

/-- Source: DPDK `struct rte_port_in_action_fltr_config`. Kind: D -/
structure FltrConfig where
  filterOnMatch : Bool
  keyOffset : ℕ
  keyMask : Mem
  key : Mem
  portId : ℕ

/-- Source: DPDK `struct rte_port_in_action_lb_config`. Kind: D -/
structure PortInLbConfig where
  keyOffset : ℕ
  keyMask : Mem
  keySize : ℕ
  portId : List ℕ

/-- A part is there when its bit of `action_mask` is set.
Source: `action.h` `struct port_in_action_profile_params`
Kind: D -/
structure PortInActionProfileParams where
  fltr : Option FltrConfig
  lb : Option PortInLbConfig

/-- Source: DPDK `struct rte_table_action_lb_config`. Kind: D -/
structure LbConfig where
  keyOffset : ℕ
  keyMask : Mem
  keySize : ℕ
  outOffset : ℕ

/-- Source: DPDK `enum rte_table_action_meter_algorithm`. Kind: D -/
inductive MeterAlgorithm
  | srtcm | trtcm
deriving DecidableEq, Repr

/-- Source: DPDK `struct rte_table_action_mtr_config`. Kind: D -/
structure MtrConfig where
  alg : MeterAlgorithm
  nTc : ℕ
  nPacketsEnabled : Bool
  nBytesEnabled : Bool

/-- Source: DPDK `struct rte_table_action_tm_config`. Kind: D -/
structure TmConfig where
  nSubportsPerPort : ℕ
  nPipesPerSubport : ℕ

/-- Source: DPDK `struct rte_table_action_encap_config`, `vxlan`. Kind: D -/
structure VxlanConfig where
  dataOffset : ℕ
  ipv4 : Bool
  vlan : Bool

/-- The one bit of `encap_mask` that is set.
Source: DPDK `struct rte_table_action_encap_config`
Kind: D -/
structure EncapConfig where
  type : EncapType
  vxlan : VxlanConfig

/-- Source: DPDK `struct rte_table_action_nat_config`. Kind: D -/
structure NatConfig where
  sourceNat : Bool
  proto : ℕ

/-- Source: DPDK `struct rte_table_action_ttl_config`. Kind: D -/
structure TtlConfig where
  drop : Bool
  nPacketsEnabled : Bool

/-- Source: DPDK `struct rte_table_action_stats_config`. Kind: D -/
structure StatsConfig where
  nPacketsEnabled : Bool
  nBytesEnabled : Bool

/-- Source: DPDK `struct rte_table_action_sym_crypto_config`. Kind: D -/
structure SymCryptoConfig where
  cryptodevId : ℕ
  opOffset : ℕ
  mpCreate : ℕ
  mpInit : ℕ

/-- A part is there when its bit of `action_mask` is set; the bit of `fwd` always is.
Source: `action.h` `struct table_action_profile_params`
Kind: D -/
structure TableActionProfileParams where
  /-- `common.ip_version`. -/
  ipv4 : Bool
  /-- `common.ip_offset`. -/
  ipOffset : ℕ
  lb : Option LbConfig
  mtr : Option MtrConfig
  tm : Option TmConfig
  encap : Option EncapConfig
  nat : Option NatConfig
  ttl : Option TtlConfig
  stats : Option StatsConfig
  time : Bool
  symCrypto : Option SymCryptoConfig
  tag : Bool
  decap : Bool

/-- What rules are checked against: a part that is not there holds zeros. -/
def TableActionProfileParams.profile (p : TableActionProfileParams) : ActionProfile where
  actionMask := [true, p.lb.isSome, p.mtr.isSome, p.tm.isSome, p.encap.isSome, p.nat.isSome,
    p.ttl.isSome, p.stats.isSome, p.time, p.symCrypto.isSome, p.tag, p.decap]
  ipv4 := p.ipv4
  nTc := p.mtr.elim 0 MtrConfig.nTc
  nSubportsPerPort := p.tm.elim 0 TmConfig.nSubportsPerPort
  nPipesPerSubport := p.tm.elim 0 TmConfig.nPipesPerSubport
  encapMask := (p.encap.map EncapConfig.type).toList
  vxlanVlan := p.encap.any fun e => e.vxlan.vlan
  vxlanIpv4 := p.encap.any fun e => e.vxlan.ipv4

/-- Source: `pipeline.h` `struct pipeline_params`. Kind: D -/
structure PipelineParams where
  timerPeriodMs : ℕ
  offsetPortId : ℕ
  cpuId : ℕ
deriving DecidableEq, Repr

/-- The type and the device of an input port.
Source: `pipeline.h` `struct port_in_params`, `enum port_in_type`
Kind: D -/
inductive PortInDev
  | rxq (devName : String) (queueId : ℕ)
  | swq (devName : String)
  | tmgr (devName : String)
  | tap (devName mempoolName : String) (mtu : ℕ)
  | kni (devName : String)
  | source (mempoolName fileName : String) (nBytesPerPkt : ℕ)
  | cryptodev (devName : String) (queueId : ℕ)
deriving DecidableEq, Repr

/-- Source: `pipeline.h` `struct port_in_params`. Kind: D -/
structure PortInParams where
  dev : PortInDev
  burstSize : ℕ
  actionProfileName : Option String
deriving DecidableEq, Repr

/-- The type and the device of an output port.
Source: `pipeline.h` `struct port_out_params`, `enum port_out_type`
Kind: D -/
inductive PortOutDev
  | txq (devName : String) (queueId : ℕ)
  | swq (devName : String)
  | tmgr (devName : String)
  | tap (devName : String)
  | kni (devName : String)
  | sink (file : Option (String × ℕ))
  | cryptodev (devName : String) (queueId opOffset : ℕ)
deriving DecidableEq, Repr

/-- No command sets `retry` and `n_retries`, which are 0.
Source: `pipeline.h` `struct port_out_params`
Kind: D -/
structure PortOutParams where
  dev : PortOutDev
  burstSize : ℕ
deriving DecidableEq, Repr

/-- Source: `pipeline.h` `struct table_hash_params`. Kind: D -/
structure TableHashParams where
  nKeys : ℕ
  keyOffset : ℕ
  keySize : ℕ
  keyMask : Mem
  nBuckets : ℕ
  extendableBucket : Bool

/-- The type of a table and the arm of the union `match`.
Source: `pipeline.h` `struct table_params`
Kind: D -/
inductive TableMatchParams
  | acl (acl : TableAclParams)
  | array (nKeys keyOffset : ℕ)
  | hash (hash : TableHashParams)
  | lpm (nRules keyOffset keySize : ℕ)
  | stub

/-- Source: `pipeline.h` `struct table_params`. Kind: D -/
structure PipelineTableParams where
  tableMatch : TableMatchParams
  actionProfileName : Option String

/-- What rules are checked against. -/
def TableMatchParams.params : TableMatchParams → TableParams
  | .acl t => .acl t
  | .array _ _ => .array
  | .hash _ => .hash
  | .lpm _ _ keySize => .lpm (.ofNat 32 keySize)
  | .stub => .stub

/-! ### Objects -/

/-- Source: `mempool.h` `struct mempool`. Kind: D -/
structure Mempool where
  name : String
  m : ℕ
  bufferSize : ℕ

/-- Source: `link.h` `struct link`. Kind: D -/
structure Link where
  name : String
  portId : ℕ
  nRxq : ℕ
  nTxq : ℕ

/-- Source: `swq.h` `struct swq`. Kind: D -/
structure Swq where
  name : String
  r : ℕ

/-- Source: `tmgr.h` `struct tmgr_port`. Kind: D -/
structure TmgrPort where
  name : String
  s : ℕ
  nSubportsPerPort : ℕ
  nPipesPerSubport : ℕ

/-- Source: `tap.h` `struct tap`. Kind: D -/
structure Tap where
  name : String
  fd : ℕ

/-- Source: `kni.h` `struct kni`. Kind: D -/
structure Kni where
  name : String
  k : ℕ

/-- Source: `cryptodev.h` `struct cryptodev`. Kind: D -/
structure Cryptodev where
  name : String
  devId : ℕ
  nQueues : ℕ
  mpCreate : ℕ
  mpInit : ℕ

/-- Source: `action.h` `struct port_in_action_profile`. Kind: D -/
structure PortInActionProfile where
  name : String
  params : PortInActionProfileParams
  ap : ℕ

/-- Source: `action.h` `struct table_action_profile`. Kind: D -/
structure TableActionProfile where
  name : String
  params : TableActionProfileParams
  ap : ℕ

end Rids.Cli
