import Rids.Cli.CliProcess
import Rids.Threads.MainThread

/-!
# Creating objects (`mempool.c`, `link.c`, `swq.c`, `tmgr.c`, `tap.c`, `kni.c`, `cryptodev.c`,
`action.c`, `pipeline.c`)

What a command creates, and what it refers to. A creation function checks its parameters, asks the
library for what it needs and appends an object to its list; where the library fails, or an
allocation, nothing is appended. No function removes an object.

* `exec` — the objects after a command.
-/

namespace Rids.Cli

open Rids.Lib Rids.Pipeline

/-! ### State -/

/-- What an input port reads from: the `arg_create` of the library's reader.
Source: `pipeline.c` `pipeline_port_in_create`, `pp`
Kind: D -/
inductive Reader
  | ethdev (portId queueId : ℕ)
  | ring (r : ℕ)
  | sched (s : ℕ)
  | fd (fd mempool mtu : ℕ)
  | kni (k : ℕ)
  | source (mempool : ℕ) (fileName : String) (nBytesPerPkt : ℕ)
  | symCrypto (cryptodevId queueId : ℕ)
deriving DecidableEq, Repr

/-- What an output port writes to.
Source: `pipeline.c` `pipeline_port_out_create`, `pp`
Kind: D -/
inductive Writer
  | ethdev (portId queueId : ℕ)
  | ring (r : ℕ)
  | sched (s : ℕ)
  | fd (fd : ℕ)
  | kni (k : ℕ)
  | sink (file : Option (String × ℕ))
  | symCrypto (cryptodevId queueId opOffset : ℕ)
deriving DecidableEq, Repr

/-- The profile and the action object made with it, and what the library was given.
Source: `pipeline.h` `struct port_in`
Kind: D -/
structure PortIn where
  reader : Reader
  burstSize : ℕ
  ap : Option PortInActionProfile
  a : Option ℕ

/-- The profile and the action object made with it. The rules are not part of a configuration.
Source: `pipeline.h` `struct table`
Kind: D -/
structure TableObject where
  tableMatch : TableMatchParams
  ap : Option TableActionProfile
  a : Option ℕ

/-- Source: `pipeline.h` `struct pipeline`. Kind: D -/
structure PipelineObject where
  name : String
  p : ℕ
  timerPeriodMs : ℕ
  cpuId : ℕ
  portIn : List PortIn
  portOut : List Writer
  table : List TableObject
  /-- The tables that the library has connected input ports to. -/
  connected : List (ℕ × ℕ)

/-- The lists of objects. -/
structure Configuration where
  mempools : List Mempool
  links : List Link
  swqs : List Swq
  subportProfiles : List SubportProfile
  pipeProfiles : List PipeProfile
  tmgrPorts : List TmgrPort
  taps : List Tap
  knis : List Kni
  cryptodevs : List Cryptodev
  portInActionProfiles : List PortInActionProfile
  tableActionProfiles : List TableActionProfile
  pipelines : List PipelineObject

/-- Source: `main.c` `main`, the calls of `mempool_init` to `pipeline_init`. Kind: D -/
def Configuration.init : Configuration := ⟨[], [], [], [], [], [], [], [], [], [], [], []⟩

/-- Source: `link.h` `NAME_SIZE`. Kind: D -/
def nameSize : ℕ := 64

/-- A name as an object keeps it.
Source: `<string.h>` `strlcpy`
Kind: D -/
def strlcpy (name : String) : String := .ofList (name.toList.take (nameSize - 1))

/-- The answers of the library to one command; `none` and `false` are its failures, those of
`calloc` among them. A function that makes many calls for an object has one answer. -/
structure Library where
  /-- `sizeof(struct rte_mbuf) + RTE_PKTMBUF_HEADROOM`. -/
  bufferSizeMin : ℕ
  /-- `RTE_MAX_NUMA_NODES`. -/
  maxNumaNodes : ℕ
  /-- `RTE_PORT_IN_BURST_SIZE_MAX`. -/
  burstSizeMax : ℕ
  pktmbufPoolCreate : String → MempoolParams → Option ℕ
  /-- The port of a device name, or the port itself where it is valid. -/
  ethPort : Option String → ℕ → Option ℕ
  /-- `max_rx_queues` and `reta_size`. -/
  ethInfo : ℕ → Option (ℕ × ℕ)
  /-- From `rte_eth_dev_configure` to the start of the port, with the pool of its queues. -/
  ethStart : ℕ → LinkParams → ℕ → Bool
  ringCreate : String → SwqParams → Option ℕ
  schedCreate : TmgrPortParams → Option ℕ
  tapOpen : String → Option ℕ
  kniAlloc : String → KniParams → Option ℕ
  cryptodevId : Option String → ℕ → Option ℕ
  /-- `max_nb_queue_pairs`. -/
  cryptodevMaxQueues : ℕ → ℕ
  /-- From `rte_cryptodev_configure` to the two session pools. -/
  cryptodevStart : ℕ → CryptodevParams → Option (ℕ × ℕ)
  portInActionProfileCreate : PortInActionProfileParams → Option ℕ
  tableActionProfileCreate : TableActionProfileParams → Option ℕ
  pipelineCreate : String → PipelineParams → Option ℕ
  /-- The action object of a profile on a socket, its parameters being fit for a port. -/
  portInActionCreate : ℕ → ℕ → Option ℕ
  portInCreate : ℕ → Reader → Option ℕ → Bool
  portOutCreate : ℕ → Writer → Bool
  /-- The action object of a profile on a socket, its data being no larger than
  `TABLE_RULE_ACTION_SIZE_MAX`. -/
  tableActionCreate : ℕ → ℕ → Option ℕ
  tableCreate : ℕ → TableMatchParams → Option ℕ → Bool
  connect : ℕ → ℕ → ℕ → Bool

/-! ### Devices -/

section Devices

variable (lib : Library) (c : Configuration)

/-- Source: `mempool.c` `mempool_find`. Kind: D -/
def mempoolFind := KeyedList.find Mempool.name c.mempools

/-- Source: `mempool.c` `mempool_create`. Kind: D -/
def mempoolCreate (name : String) (params : MempoolParams) : Option Mempool := do
  guard ((mempoolFind c name).isNone ∧ lib.bufferSizeMin ≤ params.bufferSize ∧
    params.poolSize ≠ 0)
  let m ← lib.pktmbufPoolCreate name params
  some ⟨strlcpy name, m, params.bufferSize⟩

/-- Source: `link.c` `link_find`. Kind: D -/
def linkFind := KeyedList.find Link.name c.links

/-- Source: `link.c` `ETH_RSS_RETA_SIZE_512`. Kind: D -/
def ethRssRetaSize512 : ℕ := 512

/-- The queues that packets are spread over are less than `LINK_RXQ_RSS_MAX`, and they are compared
with what the device has, not with what the link has.
Source: `link.c` `link_create`
Kind: D -/
def linkCreate (name : String) (params : LinkParams) : Option Link := do
  guard ((linkFind c name).isNone ∧ params.rxNQueues ≠ 0 ∧ params.rxQueueSize ≠ 0 ∧
    params.txNQueues ≠ 0 ∧ params.txQueueSize ≠ 0)
  let portId ← lib.ethPort params.devName params.portId
  let (maxRxQueues, retaSize) ← lib.ethInfo portId
  let mempool ← mempoolFind c params.rxMempoolName
  guard (params.rss.all fun queueIds =>
    retaSize ≠ 0 ∧ retaSize ≤ ethRssRetaSize512 ∧ queueIds ≠ [] ∧
      queueIds.length < linkRxqRssMax ∧ ∀ q ∈ queueIds, q < maxRxQueues)
  guard (lib.ethStart portId params mempool.m)
  some ⟨strlcpy name, portId, params.rxNQueues, params.txNQueues⟩

/-- Source: `swq.c` `swq_find`. Kind: D -/
def swqFind := KeyedList.find Swq.name c.swqs

/-- Source: `swq.c` `swq_create`. Kind: D -/
def swqCreate (name : String) (params : SwqParams) : Option Swq := do
  guard ((swqFind c name).isNone ∧ params.size ≠ 0)
  let r ← lib.ringCreate name params
  some ⟨strlcpy name, r⟩

/-- Source: `tmgr.c` `tmgr_port_find`. Kind: D -/
def tmgrPortFind := KeyedList.find TmgrPort.name c.tmgrPorts

/-- Source: `tmgr.c` `tmgr_port_create`. Kind: D -/
def tmgrPortCreate (name : String) (params : TmgrPortParams) : Option TmgrPort := do
  guard ((tmgrPortFind c name).isNone ∧ params.nSubportsPerPort ≠ 0 ∧
    params.nPipesPerSubport ≠ 0 ∧ params.cpuId < lib.maxNumaNodes ∧ c.subportProfiles ≠ [] ∧
    c.pipeProfiles ≠ [])
  let s ← lib.schedCreate params
  some ⟨strlcpy name, s, params.nSubportsPerPort, params.nPipesPerSubport⟩

/-- Source: `tap.c` `tap_find`. Kind: D -/
def tapFind := KeyedList.find Tap.name c.taps

/-- Source: `tap.c` `tap_create`. Kind: D -/
def tapCreate (name : String) : Option Tap := do
  guard (tapFind c name).isNone
  let fd ← lib.tapOpen name
  some ⟨strlcpy name, fd⟩

/-- Source: `kni.c` `kni_find`. Kind: D -/
def kniFind := KeyedList.find Kni.name c.knis

/-- Source: `kni.c` `kni_create`. Kind: D -/
def kniCreate (name : String) (params : KniParams) : Option Kni := do
  guard ((kniFind c name).isNone ∧ (mempoolFind c params.mempoolName).isSome ∧
    (linkFind c params.linkName).isSome)
  let k ← lib.kniAlloc name params
  some ⟨strlcpy name, k⟩

/-- Source: `cryptodev.c` `cryptodev_find`. Kind: D -/
def cryptodevFind := KeyedList.find Cryptodev.name c.cryptodevs

/-- Source: `cryptodev.c` `cryptodev_create`. Kind: D -/
def cryptodevCreate (name : String) (params : CryptodevParams) : Option Cryptodev := do
  guard ((cryptodevFind c name).isNone ∧ params.nQueues ≠ 0 ∧ params.queueSize ≠ 0 ∧
    params.sessionPoolSize ≠ 0)
  let devId ← lib.cryptodevId params.devName params.devId
  guard (params.nQueues ≤ lib.cryptodevMaxQueues devId)
  let (mpCreate, mpInit) ← lib.cryptodevStart devId params
  some ⟨strlcpy name, devId, params.nQueues, mpCreate, mpInit⟩

end Devices

/-! ### Action profiles -/

section Profiles

variable (lib : Library) (c : Configuration)

/-- The key sizes that there is a hash function for. -/
def hashKeySizes : List ℕ := [8, 16, 24, 32, 40, 48, 56, 64]

/-- Source: `action.c` `port_in_action_profile_find`. Kind: D -/
def portInActionProfileFind := KeyedList.find PortInActionProfile.name c.portInActionProfiles

/-- Source: `action.c` `port_in_action_profile_create`. Kind: D -/
def portInActionProfileCreate (name : String) (params : PortInActionProfileParams) :
    Option PortInActionProfile := do
  guard ((portInActionProfileFind c name).isNone ∧
    params.lb.all fun lb => lb.keySize ∈ hashKeySizes)
  let ap ← lib.portInActionProfileCreate params
  some ⟨strlcpy name, params, ap⟩

/-- Source: `action.c` `table_action_profile_find`. Kind: D -/
def tableActionProfileFind := KeyedList.find TableActionProfile.name c.tableActionProfiles

/-- The test of `RTE_TABLE_ACTION_FWD` is not here: the parameters have it set.
Source: `action.c` `table_action_profile_create`
Kind: D -/
def tableActionProfileCreate (name : String) (params : TableActionProfileParams) :
    Option TableActionProfile := do
  guard ((tableActionProfileFind c name).isNone ∧
    params.lb.all fun lb => lb.keySize ∈ hashKeySizes)
  let ap ← lib.tableActionProfileCreate params
  some ⟨strlcpy name, params, ap⟩

end Profiles

/-! ### Pipelines -/

section Pipelines

variable (lib : Library) (c : Configuration)

/-- Source: `pipeline.c` `pipeline_find`. Kind: D -/
def pipelineFind := KeyedList.find PipelineObject.name c.pipelines

/-- Source: `pipeline.c` `pipeline_create`. Kind: D -/
def pipelineCreate (name : String) (params : PipelineParams) : Option PipelineObject := do
  guard ((pipelineFind c name).isNone ∧ params.timerPeriodMs ≠ 0)
  let p ← lib.pipelineCreate name params
  some ⟨strlcpy name, p, params.timerPeriodMs, params.cpuId, [], [], [], []⟩

/-- Source: `pipeline.c` `pipeline_port_in_create`, `switch (params->type)`. Kind: D -/
def readerOf : PortInDev → Option Reader
  | .rxq devName queueId => do
    let link ← linkFind c devName
    guard (queueId < link.nRxq)
    some (.ethdev link.portId queueId)
  | .swq devName => do
    let swq ← swqFind c devName
    some (.ring swq.r)
  | .tmgr devName => do
    let tmgrPort ← tmgrPortFind c devName
    some (.sched tmgrPort.s)
  | .tap devName mempoolName mtu => do
    let tap ← tapFind c devName
    let mempool ← mempoolFind c mempoolName
    some (.fd tap.fd mempool.m mtu)
  | .kni devName => do
    let kni ← kniFind c devName
    some (.kni kni.k)
  | .source mempoolName fileName nBytesPerPkt => do
    let mempool ← mempoolFind c mempoolName
    some (.source mempool.m fileName nBytesPerPkt)
  | .cryptodev devName queueId => do
    let cryptodev ← cryptodevFind c devName
    guard (queueId ≤ cryptodev.nQueues - 1)
    some (.symCrypto cryptodev.devId queueId)

/-- What is found for a key that is given, none where none is; to find nothing is a failure. -/
def ifGiven {κ α : Type} (find : κ → Option α) : Option κ → Option (Option α)
  | none => some none
  | some k => (find k).map some

/-- Source: `pipeline.c` `pipeline_port_in_create`. Kind: D -/
def pipelinePortInCreate (pipelineName : String) (params : PortInParams) :
    Option PipelineObject := do
  guard (params.burstSize ≠ 0 ∧ params.burstSize ≤ lib.burstSizeMax)
  let pipeline ← pipelineFind c pipelineName
  let ap ← ifGiven (portInActionProfileFind c) params.actionProfileName
  let reader ← readerOf c params.dev
  let a ← ifGiven (fun ap => lib.portInActionCreate ap.ap pipeline.cpuId) ap
  guard (lib.portInCreate pipeline.p reader a)
  some { pipeline with portIn := pipeline.portIn ++ [⟨reader, params.burstSize, ap, a⟩] }

/-- Source: `pipeline.c` `pipeline_port_in_connect_to_table`. Kind: D -/
def pipelinePortInConnectToTable (pipelineName : String) (portId tableId : ℕ) :
    Option PipelineObject := do
  let pipeline ← pipelineFind c pipelineName
  guard (portId < pipeline.portIn.length ∧ tableId < pipeline.table.length)
  guard (lib.connect pipeline.p portId tableId)
  some { pipeline with connected := pipeline.connected ++ [(portId, tableId)] }

/-- Source: `pipeline.c` `pipeline_port_out_create`, `switch (params->type)`. Kind: D -/
def writerOf : PortOutDev → Option Writer
  | .txq devName queueId => do
    let link ← linkFind c devName
    guard (queueId < link.nTxq)
    some (.ethdev link.portId queueId)
  | .swq devName => do
    let swq ← swqFind c devName
    some (.ring swq.r)
  | .tmgr devName => do
    let tmgrPort ← tmgrPortFind c devName
    some (.sched tmgrPort.s)
  | .tap devName => do
    let tap ← tapFind c devName
    some (.fd tap.fd)
  | .kni devName => do
    let kni ← kniFind c devName
    some (.kni kni.k)
  | .sink file => some (.sink file)
  | .cryptodev devName queueId opOffset => do
    let cryptodev ← cryptodevFind c devName
    guard (queueId < cryptodev.nQueues)
    some (.symCrypto cryptodev.devId queueId opOffset)

/-- Source: `pipeline.c` `pipeline_port_out_create`. Kind: D -/
def pipelinePortOutCreate (pipelineName : String) (params : PortOutParams) :
    Option PipelineObject := do
  guard (params.burstSize ≠ 0 ∧ params.burstSize ≤ lib.burstSizeMax)
  let pipeline ← pipelineFind c pipelineName
  let writer ← writerOf c params.dev
  guard (lib.portOutCreate pipeline.p writer)
  some { pipeline with portOut := pipeline.portOut ++ [writer] }

/-- What a table must have to be created.
Source: `pipeline.c` `pipeline_table_create`, `switch (params->match_type)`
Kind: D -/
def tableMatchOk : TableMatchParams → Bool
  | .acl acl => acl.nRules ≠ 0
  | .array nKeys _ => nKeys ≠ 0
  | .hash hash => hash.nKeys ≠ 0 ∧ hash.keySize ∈ hashKeySizes
  | .lpm nRules _ keySize => nRules ≠ 0 ∧ keySize ∈ [4, 16]
  | .stub => true

/-- Source: `pipeline.c` `pipeline_table_create`. Kind: D -/
def pipelineTableCreate (pipelineName : String) (params : PipelineTableParams) :
    Option PipelineObject := do
  let pipeline ← pipelineFind c pipelineName
  guard (pipeline.table.length < Threads.rtePipelineTableMax)
  let ap ← ifGiven (tableActionProfileFind c) params.actionProfileName
  guard (tableMatchOk params.tableMatch)
  let a ← ifGiven (fun ap => lib.tableActionCreate ap.ap pipeline.cpuId) ap
  guard (lib.tableCreate pipeline.p params.tableMatch a)
  some { pipeline with table := pipeline.table ++ [⟨params.tableMatch, ap, a⟩] }

end Pipelines

/-! ### Commands -/

/-- The pipelines with `p` in the place of that with its name. -/
def Configuration.setPipeline (c : Configuration) (p : PipelineObject) : Configuration :=
  { c with pipelines := KeyedList.put PipelineObject.name p c.pipelines }

/-- The objects after a command. A command whose function fails leaves them as they were, and those
on a subport or a pipe change the library alone.
Source: `cli.c` `cmd_mempool` to `cmd_pipeline_port_in_table`
Kind: D -/
def exec (lib : Library) (c : Configuration) : ConfigCommand → Configuration
  | .mempool name params =>
    { c with mempools := c.mempools ++ (mempoolCreate lib c name params).toList }
  | .link name params => { c with links := c.links ++ (linkCreate lib c name params).toList }
  | .swq name params => { c with swqs := c.swqs ++ (swqCreate lib c name params).toList }
  | .tmgrSubportProfile params => { c with subportProfiles := c.subportProfiles ++ [params] }
  | .tmgrPipeProfile params => { c with pipeProfiles := c.pipeProfiles ++ [params] }
  | .tmgr name params =>
    { c with tmgrPorts := c.tmgrPorts ++ (tmgrPortCreate lib c name params).toList }
  | .tmgrSubport _ _ _ => c
  | .tmgrSubportPipe _ _ => c
  | .tap name => { c with taps := c.taps ++ (tapCreate lib c name).toList }
  | .kni name params => { c with knis := c.knis ++ (kniCreate lib c name params).toList }
  | .cryptodev name params =>
    { c with cryptodevs := c.cryptodevs ++ (cryptodevCreate lib c name params).toList }
  | .portInActionProfile name params =>
    { c with portInActionProfiles :=
        c.portInActionProfiles ++ (portInActionProfileCreate lib c name params).toList }
  | .tableActionProfile name params =>
    { c with tableActionProfiles :=
        c.tableActionProfiles ++ (tableActionProfileCreate lib c name params).toList }
  | .pipeline name params =>
    { c with pipelines := c.pipelines ++ (pipelineCreate lib c name params).toList }
  | .portIn pipelineName params _ =>
    (pipelinePortInCreate lib c pipelineName params).elim c c.setPipeline
  | .portOut pipelineName params =>
    (pipelinePortOutCreate lib c pipelineName params).elim c c.setPipeline
  | .table pipelineName params =>
    (pipelineTableCreate lib c pipelineName params).elim c c.setPipeline
  | .portInTable pipelineName portId tableId =>
    (pipelinePortInConnectToTable lib c pipelineName portId tableId).elim c c.setPipeline

end Rids.Cli
