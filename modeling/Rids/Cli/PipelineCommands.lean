import Rids.Cli.ProfileCommands
import Rids.Pipeline.RuleCommand

/-!
# Commands on pipelines (`cli.c`)

The arguments of the commands that create pipelines, ports and tables, and of those that call the
functions of `thread.c`.
-/

namespace Rids.Cli

open Rids.Lib.ByteMem Rids.Pipeline

section Create

variable (tokens : List String)

/-- Source: `cli.c` `cmd_pipeline`. Kind: D -/
def cmdPipeline : Parse (String × PipelineParams) := do
  ensure (tokens.length = 8) (mismatch tokens)
  let name ← arg tokens 1
  let timerPeriodMs ← readNamed tokens 2 "period" "timer_period_ms" parserReadUint32
  let offsetPortId ← readNamed tokens 4 "offset_port_id" "offset_port_id" parserReadUint32
  let cpuId ← readNamed tokens 6 "cpu" "cpu_id" parserReadUint32
  .ok (name, ⟨timerPeriodMs, offsetPortId, cpuId⟩)

/-- `action <profile_name>`. -/
def actionName : Parse (String × ℕ) := do
  ensure (2 ≤ tokens.length) (.argMismatch "action")
  let name ← arg tokens 1
  .ok (name, 2)

/-! ### Input ports -/

/-- The device, and the number of the token behind it. The check of `source` counts one token too
few, as does that of `cryptodev`, which does not look at the word in front of the queue.
Source: `cli.c` `cmd_pipeline_port_in`, from token 6 on
Kind: D -/
def cmdPortInDev : Parse (PortInDev × ℕ) := do
  let kind ← arg tokens 6
  if kind = "link" then do
    ensure (10 ≤ tokens.length) (.argMismatch "pipeline port in link")
    let devName ← arg tokens 7
    let queueId ← readNamed tokens 8 "rxq" "queue_id" parserReadUint16
    .ok (.rxq devName queueId, 10)
  else if kind = "swq" then do
    ensure (8 ≤ tokens.length) (.argMismatch "pipeline port in swq")
    let devName ← arg tokens 7
    .ok (.swq devName, 8)
  else if kind = "tmgr" then do
    ensure (8 ≤ tokens.length) (.argMismatch "pipeline port in tmgr")
    let devName ← arg tokens 7
    .ok (.tmgr devName, 8)
  else if kind = "tap" then do
    ensure (12 ≤ tokens.length) (.argMismatch "pipeline port in tap")
    let devName ← arg tokens 7
    keyword tokens 8 "mempool"
    let mempoolName ← arg tokens 9
    let mtu ← readNamed tokens 10 "mtu" "mtu" parserReadUint32
    .ok (.tap devName mempoolName mtu, 12)
  else if kind = "kni" then do
    ensure (8 ≤ tokens.length) (.argMismatch "pipeline port in kni")
    let devName ← arg tokens 7
    .ok (.kni devName, 8)
  else if kind = "source" then do
    ensure (12 ≤ tokens.length) (.argMismatch "pipeline port in source")
    keyword tokens 7 "mempool"
    let mempoolName ← arg tokens 8
    keyword tokens 9 "file"
    let fileName ← arg tokens 10
    let nBytesPerPkt ← readNamed tokens 11 "bpp" "n_bytes_per_pkt" parserReadUint32
    .ok (.source mempoolName fileName nBytesPerPkt, 13)
  else if kind = "cryptodev" then do
    ensure (9 ≤ tokens.length) (.argMismatch "pipeline port in cryptodev")
    let devName ← arg tokens 7
    let queueId ← readUint tokens 9 "rxq" parserReadUint16
    .ok (.cryptodev devName queueId, 10)
  else .error (.argInvalid (tokens.headD ""))

/-- The pipeline, the port, and whether it is enabled.
Source: `cli.c` `cmd_pipeline_port_in`
Kind: D -/
def cmdPipelinePortIn : Parse (String × PortInParams × Bool) := do
  ensure (7 ≤ tokens.length) (mismatch tokens)
  let pipelineName ← arg tokens 1
  keyword tokens 2 "port"
  keyword tokens 3 "in"
  let burstSize ← readNamed tokens 4 "bsz" "burst_size" parserReadUint32
  let (dev, t0) ← cmdPortInDev tokens
  let (actionProfileName, left) ← optionalPart "action" actionName (tokens.drop t0)
  let (disabled, left) ← optionalPart "disabled" flagPart left
  ensure left.isEmpty (mismatch tokens)
  .ok (pipelineName, ⟨dev, burstSize, actionProfileName⟩, disabled.isNone)

/-- Source: `cli.c` `cmd_pipeline_port_in_table`. Kind: D -/
def cmdPipelinePortInTable : Parse (String × ℕ × ℕ) := do
  ensure (tokens.length = 7) (mismatch tokens)
  let pipelineName ← arg tokens 1
  keyword tokens 2 "port"
  keyword tokens 3 "in"
  let portId ← readUint tokens 4 "port_id" parserReadUint32
  let tableId ← readNamed tokens 5 "table" "table_id" parserReadUint32
  .ok (pipelineName, portId, tableId)

/-! ### Output ports -/

/-- Source: `cli.c` `cmd_pipeline_port_out`, `sink`. Kind: D -/
def cmdPortOutSink : Parse PortOutDev := do
  ensure (tokens.length = 7 ∨ tokens.length = 11) (.argMismatch "pipeline port out sink")
  if tokens.length = 7 then .ok (.sink none)
  else do
    keyword tokens 7 "file"
    let fileName ← arg tokens 8
    let maxNPkts ← readNamed tokens 9 "pkts" "max_n_pkts" parserReadUint32
    .ok (.sink (some (fileName, maxNPkts)))

/-- Source: `cli.c` `cmd_pipeline_port_out`, `cryptodev`. Kind: D -/
def cmdPortOutCryptodev : Parse PortOutDev := do
  ensure (tokens.length = 12) (.argMismatch "pipeline port out cryptodev")
  let devName ← arg tokens 7
  let txq ← arg tokens 8
  ensure (txq = "txq") (.argMismatch "pipeline port out cryptodev")
  let queueId ← readUint tokens 9 "queue_id" parserReadUint16
  let offset ← arg tokens 10
  ensure (offset = "offset") (.argMismatch "pipeline port out cryptodev")
  let opOffset ← readUint tokens 11 "queue_id" parserReadUint32
  .ok (.cryptodev devName queueId opOffset)

/-- Source: `cli.c` `cmd_pipeline_port_out`, from token 6 on. Kind: D -/
def cmdPortOutDev : Parse PortOutDev := do
  let kind ← arg tokens 6
  if kind = "link" then do
    ensure (tokens.length = 10) (.argMismatch "pipeline port out link")
    let devName ← arg tokens 7
    let queueId ← readNamed tokens 8 "txq" "queue_id" parserReadUint16
    .ok (.txq devName queueId)
  else if kind = "swq" then do
    ensure (tokens.length = 8) (.argMismatch "pipeline port out swq")
    let devName ← arg tokens 7
    .ok (.swq devName)
  else if kind = "tmgr" then do
    ensure (tokens.length = 8) (.argMismatch "pipeline port out tmgr")
    let devName ← arg tokens 7
    .ok (.tmgr devName)
  else if kind = "tap" then do
    ensure (tokens.length = 8) (.argMismatch "pipeline port out tap")
    let devName ← arg tokens 7
    .ok (.tap devName)
  else if kind = "kni" then do
    ensure (tokens.length = 8) (.argMismatch "pipeline port out kni")
    let devName ← arg tokens 7
    .ok (.kni devName)
  else if kind = "sink" then cmdPortOutSink tokens
  else if kind = "cryptodev" then cmdPortOutCryptodev tokens
  else .error (.argInvalid (tokens.headD ""))

/-- Source: `cli.c` `cmd_pipeline_port_out`. Kind: D -/
def cmdPipelinePortOut : Parse (String × PortOutParams) := do
  ensure (7 ≤ tokens.length) (mismatch tokens)
  let pipelineName ← arg tokens 1
  keyword tokens 2 "port"
  keyword tokens 3 "out"
  let burstSize ← readNamed tokens 4 "bsz" "burst_size" parserReadUint32
  let dev ← cmdPortOutDev tokens
  .ok (pipelineName, ⟨dev, burstSize⟩)

/-! ### Tables -/

/-- Source: `cli.c` `cmd_pipeline_table`, `hash`. Kind: D -/
def cmdTableHash : Parse TableHashParams := do
  ensure (16 ≤ tokens.length) (.argMismatch "pipeline table hash")
  let extendableBucket ← readSwitch tokens 5 "ext" "lru" (.argNotFound "ext or lru")
  let keySize ← readNamed tokens 6 "key" "key_size" parserReadUint32
  ensure (keySize ≠ 0 ∧ keySize ≤ tableRuleMatchSizeMax) (.argInvalid "key_size")
  keyword tokens 8 "mask"
  let (keyMask, keyMaskSize) ← readHex tokens 9 "key_mask" tableRuleMatchSizeMax
  ensure (keyMaskSize = keySize) (.argInvalid "key_mask")
  let keyOffset ← readNamed tokens 10 "offset" "key_offset" parserReadUint32
  let nBuckets ← readNamed tokens 12 "buckets" "n_buckets" parserReadUint32
  let nKeys ← readNamed tokens 14 "size" "n_keys" parserReadUint32
  .ok ⟨nKeys, keyOffset, keySize, keyMask, nBuckets, extendableBucket⟩

/-- The match of a table, and the number of the token behind it.
Source: `cli.c` `cmd_pipeline_table`, from token 4 on
Kind: D -/
def cmdTableMatch : Parse (TableMatchParams × ℕ) := do
  let kind ← arg tokens 4
  if kind = "acl" then do
    let acl ← parseTableAcl tokens 4
    .ok (.acl acl, 10)
  else if kind = "array" then do
    ensure (9 ≤ tokens.length) (.argMismatch "pipeline table array")
    let keyOffset ← readNamed tokens 5 "offset" "key_offset" parserReadUint32
    let nKeys ← readNamed tokens 7 "size" "n_keys" parserReadUint32
    .ok (.array nKeys keyOffset, 9)
  else if kind = "hash" then do
    let hash ← cmdTableHash tokens
    .ok (.hash hash, 16)
  else if kind = "lpm" then do
    ensure (10 ≤ tokens.length) (.argMismatch "pipeline table lpm")
    let ipv4 ← readSwitch tokens 5 "ipv4" "ipv6" (.argNotFound "ipv4 or ipv6")
    let keyOffset ← readNamed tokens 6 "offset" "key_offset" parserReadUint32
    let nRules ← readNamed tokens 8 "size" "n_rules" parserReadUint32
    .ok (.lpm nRules keyOffset (if ipv4 then 4 else 16), 10)
  else if kind = "stub" then .ok (.stub, 5)
  else .error (.argInvalid (tokens.headD ""))

/-- Source: `cli.c` `cmd_pipeline_table`. Kind: D -/
def cmdPipelineTable : Parse (String × PipelineTableParams) := do
  ensure (5 ≤ tokens.length) (mismatch tokens)
  let pipelineName ← arg tokens 1
  keyword tokens 2 "table"
  keyword tokens 3 "match"
  let (tableMatch, t0) ← cmdTableMatch tokens
  let (actionProfileName, left) ← optionalPart "action" actionName (tokens.drop t0)
  ensure left.isEmpty (mismatch tokens)
  .ok (pipelineName, ⟨tableMatch, actionProfileName⟩)

end Create

/-! ### Calls on a pipeline -/

section Calls

variable (tokens : List String)

/-- The word `clear` behind the last token. -/
def readClear (i : ℕ) : Parse Bool :=
  if tokens.length = i + 1 then do
    keywordInvalid tokens i "clear"
    .ok true
  else .ok false

/-- `pipeline <pipeline_name> port <dir> <port_id>`. -/
def readPort (dir : String) : Parse (String × ℕ) := do
  let pipelineName ← arg tokens 1
  keyword tokens 2 "port"
  keyword tokens 3 dir
  let portId ← readUint tokens 4 "port_id" parserReadUint32
  .ok (pipelineName, portId)

/-- The common text of the commands that read the counters of a port. -/
def cmdPortStats (dir : String) : Parse (String × ℕ × Bool) := do
  ensure (tokens.length = 7 ∨ tokens.length = 8) (mismatch tokens)
  let (pipelineName, portId) ← readPort tokens dir
  keyword tokens 5 "stats"
  keyword tokens 6 "read"
  let clear ← readClear tokens 7
  .ok (pipelineName, portId, clear)

/-- Source: `cli.c` `cmd_pipeline_port_in_stats`. Kind: D -/
def cmdPipelinePortInStats := cmdPortStats tokens "in"

/-- Source: `cli.c` `cmd_pipeline_port_out_stats`. Kind: D -/
def cmdPipelinePortOutStats := cmdPortStats tokens "out"

/-- The common text of the commands that enable and disable an input port. -/
def cmdPortInSwitch (verb : String) : Parse (String × ℕ) := do
  ensure (tokens.length = 6) (mismatch tokens)
  let port ← readPort tokens "in"
  keyword tokens 5 verb
  .ok port

/-- Source: `cli.c` `cmd_pipeline_port_in_enable`. Kind: D -/
def cmdPipelinePortInEnable := cmdPortInSwitch tokens "enable"

/-- Source: `cli.c` `cmd_pipeline_port_in_disable`. Kind: D -/
def cmdPipelinePortInDisable := cmdPortInSwitch tokens "disable"

/-- `pipeline <pipeline_name> table <table_id>`, where the message for a missing `table` names
`port`. -/
def readTableOfPort : Parse (String × ℕ) := do
  let pipelineName ← arg tokens 1
  let table ← arg tokens 2
  ensure (table = "table") (.argNotFound "port")
  let tableId ← readUint tokens 3 "table_id" parserReadUint32
  .ok (pipelineName, tableId)

/-- Source: `cli.c` `cmd_pipeline_table_stats`. Kind: D -/
def cmdPipelineTableStats : Parse (String × ℕ × Bool) := do
  ensure (tokens.length = 6 ∨ tokens.length = 7) (mismatch tokens)
  let (pipelineName, tableId) ← readTableOfPort tokens
  keyword tokens 4 "stats"
  keyword tokens 5 "read"
  let clear ← readClear tokens 6
  .ok (pipelineName, tableId, clear)

/-- The table, and the file.
Source: `cli.c` `cmd_pipeline_table_rule_add_bulk`
Kind: D -/
def cmdPipelineTableRuleAddBulk : Parse (String × ℕ × String) := do
  ensure (tokens.length = 8) (mismatch tokens)
  let (pipelineName, tableId) ← readTarget tokens "add"
  keywordInvalid tokens 6 "bulk"
  let fileName ← arg tokens 7
  .ok (pipelineName, tableId, fileName)

/-- The table, and the file.
Source: `cli.c` `cmd_pipeline_table_rule_show`
Kind: D -/
def cmdPipelineTableRuleShow : Parse (String × ℕ × String) := do
  ensure (tokens.length = 8) (mismatch tokens)
  let (pipelineName, tableId) ← readTarget tokens "show"
  keyword tokens 6 "file"
  let fileName ← arg tokens 7
  .ok (pipelineName, tableId, fileName)

/-- A match at the end of a command, behind the word `clear` or not. -/
def readMatchOfRule (inet : InetPton) (clearable : Bool) :
    Parse (TableRuleMatch × Bool) := do
  let clear := clearable ∧ tokens.head? = some "clear"
  let tokens := if clear then tokens.drop 1 else tokens
  ensure (tokens.head? = some "match") (.argNotFound "match")
  let (m, n) ← parseMatch inet tokens
  ensure (tokens.drop n).isEmpty (.argInvalid ((tokens.drop n).headD ""))
  .ok (m, clear)

/-- The table, the match, and whether the counters are cleared: the common text of the commands that
read something of a rule. -/
def cmdRuleRead (inet : InetPton) (what : String) (clearable : Bool) :
    Parse ((String × ℕ) × TableRuleMatch × Bool) := do
  ensure (7 ≤ tokens.length) (mismatch tokens)
  let target ← readTarget tokens "read"
  keyword tokens 6 what
  let rest ← readMatchOfRule (tokens.drop 7) inet clearable
  .ok (target, rest)

/-- Source: `cli.c` `cmd_pipeline_table_rule_stats_read`. Kind: D -/
def cmdPipelineTableRuleStatsRead (inet : InetPton) := cmdRuleRead tokens inet "stats" true

/-- Source: `cli.c` `cmd_pipeline_table_rule_meter_read`. Kind: D -/
def cmdPipelineTableRuleMeterRead (inet : InetPton) := cmdRuleRead tokens inet "meter" true

/-- Source: `cli.c` `cmd_pipeline_table_rule_ttl_read`. Kind: D -/
def cmdPipelineTableRuleTtlRead (inet : InetPton) := cmdRuleRead tokens inet "ttl" true

/-- Source: `cli.c` `cmd_pipeline_table_rule_time_read`. Kind: D -/
def cmdPipelineTableRuleTimeRead (inet : InetPton) := cmdRuleRead tokens inet "time" false

/-- Source: DPDK `struct rte_table_action_meter_profile`. Kind: D -/
inductive MeterProfile
  | srtcm (cir cbs ebs : ℕ)
  | trtcm (cir pir cbs pbs : ℕ)
deriving DecidableEq, Repr

/-- Source: `cli.c` `cmd_pipeline_table_meter_profile_add`, from token 8 on. Kind: D -/
def readMeterProfile : Parse MeterProfile := do
  let alg ← arg tokens 8
  if alg = "srtcm" then do
    ensure (tokens.length = 15) (mismatch tokens)
    let cir ← readNamed tokens 9 "cir" "cir" parserReadUint64
    let cbs ← readNamed tokens 11 "cbs" "cbs" parserReadUint64
    let ebs ← readNamed tokens 13 "ebs" "ebs" parserReadUint64
    .ok (.srtcm cir cbs ebs)
  else if alg = "trtcm" then do
    ensure (tokens.length = 17) (mismatch tokens)
    let cir ← readNamed tokens 9 "cir" "cir" parserReadUint64
    let pir ← readNamed tokens 11 "pir" "pir" parserReadUint64
    let cbs ← readNamed tokens 13 "cbs" "cbs" parserReadUint64
    let pbs ← readNamed tokens 15 "pbs" "pbs" parserReadUint64
    .ok (.trtcm cir pir cbs pbs)
  else .error (mismatch tokens)

/-- The table and the number of the profile, up to the verb in token 7. -/
def readMeterTarget (verb : String) : Parse ((String × ℕ) × ℕ) := do
  let target ← readTableOfPort tokens
  keyword tokens 4 "meter"
  keyword tokens 5 "profile"
  let meterProfileId ← readUint tokens 6 "meter_profile_id" parserReadUint32
  keyword tokens 7 verb
  .ok (target, meterProfileId)

/-- Source: `cli.c` `cmd_pipeline_table_meter_profile_add`. Kind: D -/
def cmdPipelineTableMeterProfileAdd : Parse (((String × ℕ) × ℕ) × MeterProfile) := do
  ensure (9 ≤ tokens.length) (mismatch tokens)
  let target ← readMeterTarget tokens "add"
  let p ← readMeterProfile tokens
  .ok (target, p)

/-- Source: `cli.c` `cmd_pipeline_table_meter_profile_delete`. Kind: D -/
def cmdPipelineTableMeterProfileDelete : Parse ((String × ℕ) × ℕ) := do
  ensure (tokens.length = 8) (mismatch tokens)
  readMeterTarget tokens "delete"

/-- The table, and the file.
Source: `cli.c` `cmd_pipeline_table_dscp`
Kind: D -/
def cmdPipelineTableDscp : Parse ((String × ℕ) × String) := do
  ensure (tokens.length = 6) (mismatch tokens)
  let target ← readTableOfPort tokens
  keyword tokens 4 "dscp"
  let fileName ← arg tokens 5
  .ok (target, fileName)

/-- The common text of the commands that enable and disable a pipeline on a thread. -/
def cmdThreadPipeline (verb : String) : Parse (ℕ × String) := do
  ensure (tokens.length = 5) (mismatch tokens)
  let threadId ← readUint tokens 1 "thread_id" parserReadUint32
  keyword tokens 2 "pipeline"
  let pipelineName ← arg tokens 3
  keyword tokens 4 verb
  .ok (threadId, pipelineName)

/-- Source: `cli.c` `cmd_thread_pipeline_enable`. Kind: D -/
def cmdThreadPipelineEnable := cmdThreadPipeline tokens "enable"

/-- Source: `cli.c` `cmd_thread_pipeline_disable`. Kind: D -/
def cmdThreadPipelineDisable := cmdThreadPipeline tokens "disable"

end Calls

end Rids.Cli
