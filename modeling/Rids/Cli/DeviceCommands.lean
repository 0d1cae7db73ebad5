import Rids.Cli.Objects
import Rids.Pipeline.ParseMatch

/-!
# Commands on devices (`cli.c`)

The arguments of the commands that create memory pools, links, rings, traffic managers, taps,
kernel interfaces and crypto devices.
-/

namespace Rids.Cli

open Rids.Pipeline

/-- `MSG_ARG_MISMATCH` with the name of the command. -/
def mismatch (tokens : List String) : ParseError := .argMismatch (tokens.headD "")

section Readers

variable (tokens : List String) (i : ℕ)

/-- One of two words, as a number of one bit; another word is an error. -/
def readSwitch (yes no : String) (e : ParseError) : Parse Bool := do
  let t ← arg tokens i
  if t = yes then .ok true
  else if t = no then .ok false
  else .error e

/-- The numbers from token `i` on. -/
def readUints {w : ℕ} (n : ℕ) (name : String) (read : String → Except Errno (BitVec w)) :
    Parse (List ℕ) :=
  (List.range n).mapM fun j => readUint tokens (i + j) name read

/-- A word and the number behind it. -/
def readNamed {w : ℕ} (word name : String) (read : String → Except Errno (BitVec w)) :
    Parse ℕ := do
  keyword tokens i word
  readUint tokens (i + 1) name read

end Readers

section Commands

variable (tokens : List String)

/-- Source: `cli.c` `cmd_mempool`. Kind: D -/
def cmdMempool : Parse (String × MempoolParams) := do
  ensure (tokens.length = 10) (mismatch tokens)
  let name ← arg tokens 1
  let bufferSize ← readNamed tokens 2 "buffer" "buffer_size" parserReadUint32
  let poolSize ← readNamed tokens 4 "pool" "pool_size" parserReadUint32
  let cacheSize ← readNamed tokens 6 "cache" "cache_size" parserReadUint32
  let cpuId ← readNamed tokens 8 "cpu" "cpu_id" parserReadUint32
  .ok (name, ⟨bufferSize, poolSize, cacheSize, cpuId⟩)

/-- The device name, or none and the port.
Source: `cli.c` `cmd_link`, `dev` and `port`
Kind: D -/
def cmdLinkDev : Parse (Option String × ℕ) := do
  let kind ← arg tokens 2
  if kind = "dev" then do
    let devName ← arg tokens 3
    .ok (some devName, 0)
  else if kind = "port" then do
    let portId ← readUint tokens 3 "port_id" parserReadUint16
    .ok (none, portId)
  else .error (.argNotFound "dev or port")

/-- The queues from token 14 on.
Source: `cli.c` `cmd_link`, `RSS`
Kind: D -/
def cmdLinkRss : Parse (Option (List ℕ)) :=
  if 13 < tokens.length then do
    keyword tokens 13 "rss"
    let queueIds ← readUints tokens 14 (tokens.length - 14) "queue_id" parserReadUint32
    .ok (some queueIds)
  else .ok none

/-- Source: `cli.c` `cmd_link`. Kind: D -/
def cmdLink : Parse (String × LinkParams) := do
  ensure (13 ≤ tokens.length ∧ tokens.length ≤ 14 + linkRxqRssMax) (mismatch tokens)
  let name ← arg tokens 1
  let (devName, portId) ← cmdLinkDev tokens
  let rxNQueues ← readNamed tokens 4 "rxq" "n_queues" parserReadUint32
  let rxQueueSize ← readUint tokens 6 "queue_size" parserReadUint32
  let rxMempoolName ← arg tokens 7
  let txNQueues ← readNamed tokens 8 "txq" "n_queues" parserReadUint32
  let txQueueSize ← readUint tokens 10 "queue_size" parserReadUint32
  keyword tokens 11 "promiscuous"
  let promiscuous ← readSwitch tokens 12 "on" "off" (.argNotFound "on or off")
  let rss ← cmdLinkRss tokens
  .ok (name, ⟨devName, portId, rxNQueues, rxQueueSize, rxMempoolName, rss, txNQueues, txQueueSize,
    promiscuous⟩)

/-- The link that is shown, or all of them.
Source: `cli.c` `cmd_link_show`
Kind: D -/
def cmdLinkShow : Parse (Option String) := do
  ensure (tokens.length = 2 ∨ tokens.length = 3) (mismatch tokens)
  if tokens.length = 2 then .ok none
  else do
    let linkName ← arg tokens 2
    .ok (some linkName)

/-- Source: `cli.c` `cmd_swq`. Kind: D -/
def cmdSwq : Parse (String × SwqParams) := do
  ensure (tokens.length = 6) (mismatch tokens)
  let name ← arg tokens 1
  let size ← readNamed tokens 2 "size" "size" parserReadUint32
  let cpuId ← readNamed tokens 4 "cpu" "cpu_id" parserReadUint32
  .ok (name, ⟨size, cpuId⟩)

/-- `RTE_SCHED_TRAFFIC_CLASSES_PER_PIPE` and `RTE_SCHED_BE_QUEUES_PER_PIPE`. -/
def schedTrafficClassesPerPipe : ℕ := 13
def schedBeQueuesPerPipe : ℕ := 4

/-- The common part of the two profile commands. -/
def readSchedProfile : Parse SubportProfile := do
  let tbRate ← readUint tokens 3 "tb_rate" parserReadUint64
  let tbSize ← readUint tokens 4 "tb_size" parserReadUint64
  let tcRate ← readUints tokens 5 schedTrafficClassesPerPipe "tc_rate" parserReadUint64
  let tcPeriod ← readUint tokens 18 "tc_period" parserReadUint64
  .ok ⟨tbRate, tbSize, tcRate, tcPeriod⟩

/-- Source: `cli.c` `cmd_tmgr_subport_profile`. Kind: D -/
def cmdTmgrSubportProfile : Parse SubportProfile := do
  ensure (tokens.length = 19) (mismatch tokens)
  readSchedProfile tokens

/-- Source: `cli.c` `cmd_tmgr_pipe_profile`. Kind: D -/
def cmdTmgrPipeProfile : Parse PipeProfile := do
  ensure (tokens.length = 24) (mismatch tokens)
  let p ← readSchedProfile tokens
  let tcOvWeight ← readUint tokens 19 "tc_ov_weight" parserReadUint8
  let wrrWeights ← readUints tokens 20 schedBeQueuesPerPipe "wrr_weights" parserReadUint8
  .ok ⟨p, tcOvWeight, wrrWeights⟩

/-- The message for a missing `pps` names `spp`.
Source: `cli.c` `cmd_tmgr`
Kind: D -/
def cmdTmgr : Parse (String × TmgrPortParams) := do
  ensure (tokens.length = 14) (mismatch tokens)
  let name ← arg tokens 1
  let rate ← readNamed tokens 2 "rate" "rate" parserReadUint64
  let nSubportsPerPort ← readNamed tokens 4 "spp" "n_subports_per_port" parserReadUint32
  let pps ← arg tokens 6
  ensure (pps = "pps") (.argNotFound "spp")
  let nPipesPerSubport ← readUint tokens 7 "n_pipes_per_subport" parserReadUint32
  let frameOverhead ← readNamed tokens 8 "fo" "frame_overhead" parserReadUint32
  let mtu ← readNamed tokens 10 "mtu" "mtu" parserReadUint32
  let cpuId ← readNamed tokens 12 "cpu" "cpu_id" parserReadUint32
  .ok (name, ⟨rate, nSubportsPerPort, nPipesPerSubport, frameOverhead, mtu, cpuId⟩)

/-- Source: `cli.c` `cmd_tmgr_subport`. Kind: D -/
def cmdTmgrSubport : Parse (String × ℕ × ℕ) := do
  ensure (tokens.length = 6) (mismatch tokens)
  let name ← arg tokens 1
  let subportId ← readUint tokens 3 "subport_id" parserReadUint32
  let subportProfileId ← readUint tokens 5 "subport_profile_id" parserReadUint32
  .ok (name, subportId, subportProfileId)

/-- A subport of a traffic manager, the first and the last pipe, and a pipe profile. -/
structure PipeRange where
  subportId : ℕ
  pipeIdFirst : ℕ
  pipeIdLast : ℕ
  pipeProfileId : ℕ
deriving DecidableEq, Repr

/-- Source: `cli.c` `cmd_tmgr_subport_pipe`. Kind: D -/
def cmdTmgrSubportPipe : Parse (String × PipeRange) := do
  ensure (tokens.length = 11) (mismatch tokens)
  let name ← arg tokens 1
  let subportId ← readUint tokens 3 "subport_id" parserReadUint32
  keyword tokens 4 "pipe"
  let pipeIdFirst ← readNamed tokens 5 "from" "pipe_id_first" parserReadUint32
  let pipeIdLast ← readNamed tokens 7 "to" "pipe_id_last" parserReadUint32
  let pipeProfileId ← readNamed tokens 9 "profile" "pipe_profile_id" parserReadUint32
  .ok (name, ⟨subportId, pipeIdFirst, pipeIdLast, pipeProfileId⟩)

/-- Source: `cli.c` `cmd_tap`. Kind: D -/
def cmdTap : Parse String := do
  ensure (tokens.length = 2) (mismatch tokens)
  arg tokens 1

/-- Source: `cli.c` `cmd_kni`. Kind: D -/
def cmdKni : Parse (String × KniParams) := do
  ensure (tokens.length = 6 ∨ tokens.length = 8) (mismatch tokens)
  let name ← arg tokens 1
  keyword tokens 2 "link"
  let linkName ← arg tokens 3
  keyword tokens 4 "mempool"
  let mempoolName ← arg tokens 5
  if tokens.length = 8 then do
    let threadId ← readNamed tokens 6 "thread" "thread_id" parserReadUint32
    .ok (name, ⟨linkName, mempoolName, true, threadId⟩)
  else .ok (name, ⟨linkName, mempoolName, false, 0⟩)

/-- The device name, or none and the device.
Source: `cli.c` `cmd_cryptodev`, `dev` and `dev_id`
Kind: D -/
def cmdCryptodevDev : Parse (Option String × ℕ) := do
  let kind ← arg tokens 2
  if kind = "dev" then do
    let devName ← arg tokens 3
    .ok (some devName, 0)
  else if kind = "dev_id" then do
    let devId ← readUint tokens 3 "dev_id" parserReadUint32
    .ok (none, devId)
  else .error (.argInvalid "cryptodev")

/-- The message for a bad number of sessions names `queue_size`.
Source: `cli.c` `cmd_cryptodev`
Kind: D -/
def cmdCryptodev : Parse (String × CryptodevParams) := do
  ensure (tokens.length = 9) (mismatch tokens)
  let name ← arg tokens 1
  let (devName, devId) ← cmdCryptodevDev tokens
  let nQueues ← readNamed tokens 4 "queue" "q" parserReadUint32
  let queueSize ← readUint tokens 6 "queue_size" parserReadUint32
  let sessionPoolSize ← readNamed tokens 7 "max_sessions" "queue_size" parserReadUint32
  .ok (name, ⟨devName, devId, nQueues, queueSize, sessionPoolSize⟩)

end Commands

end Rids.Cli
