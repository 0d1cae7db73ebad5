import Rids.Cli.PipelineCommands

/-!
# The dispatch of commands (`cli.c`)

`cli_process` cuts a line into tokens, selects the function of the command and calls it. What the
function reads from the tokens is a `Command`; what it then does is not part of this module.

* `cliProcessTokens` — from tokens to a command.
* `cliProcessTokens_rule` — on the commands that add and delete a rule it is `parseRuleCommand`.
-/

namespace Rids.Cli

open Rids.Pipeline

/-! ### Commands -/

/-- A command that creates or connects objects. -/
inductive ConfigCommand
  | mempool (name : String) (params : MempoolParams)
  | link (name : String) (params : LinkParams)
  | swq (name : String) (params : SwqParams)
  | tmgrSubportProfile (params : SubportProfile)
  | tmgrPipeProfile (params : PipeProfile)
  | tmgr (name : String) (params : TmgrPortParams)
  | tmgrSubport (name : String) (subportId subportProfileId : ℕ)
  | tmgrSubportPipe (name : String) (range : PipeRange)
  | tap (name : String)
  | kni (name : String) (params : KniParams)
  | cryptodev (name : String) (params : CryptodevParams)
  | portInActionProfile (name : String) (params : PortInActionProfileParams)
  | tableActionProfile (name : String) (params : TableActionProfileParams)
  | pipeline (name : String) (params : PipelineParams)
  | portIn (pipelineName : String) (params : PortInParams) (enabled : Bool)
  | portOut (pipelineName : String) (params : PortOutParams)
  | table (pipelineName : String) (params : PipelineTableParams)
  | portInTable (pipelineName : String) (portId tableId : ℕ)

/-- A command that calls a function of `thread.c`. A bulk of rules and a DSCP table are read from a
file, and the rules of a table are written to one. -/
inductive CallCommand (S : Type)
  | portInStats (pipelineName : String) (portId : ℕ) (clear : Bool)
  | portInEnable (pipelineName : String) (portId : ℕ)
  | portInDisable (pipelineName : String) (portId : ℕ)
  | portOutStats (pipelineName : String) (portId : ℕ) (clear : Bool)
  | tableStats (pipelineName : String) (tableId : ℕ) (clear : Bool)
  | rule (cmd : RuleCommand S)
  | ruleAddBulk (pipelineName : String) (tableId : ℕ) (fileName : String)
  | ruleShow (pipelineName : String) (tableId : ℕ) (fileName : String)
  | ruleStatsRead (pipelineName : String) (tableId : ℕ) (m : TableRuleMatch) (clear : Bool)
  | meterProfileAdd (pipelineName : String) (tableId meterProfileId : ℕ) (p : MeterProfile)
  | meterProfileDelete (pipelineName : String) (tableId meterProfileId : ℕ)
  | ruleMeterRead (pipelineName : String) (tableId : ℕ) (m : TableRuleMatch) (clear : Bool)
  | dscp (pipelineName : String) (tableId : ℕ) (fileName : String)
  | ruleTtlRead (pipelineName : String) (tableId : ℕ) (m : TableRuleMatch) (clear : Bool)
  | ruleTimeRead (pipelineName : String) (tableId : ℕ) (m : TableRuleMatch)
  | threadEnable (threadId : ℕ) (pipelineName : String)
  | threadDisable (threadId : ℕ) (pipelineName : String)

/-- What `help` prints: the list of commands, the text of one, or a message. -/
inductive HelpText
  | commands
  | command (words : List String)
  | invalid
deriving DecidableEq, Repr

/-- What a line asks for. -/
inductive Command (S : Type)
  | nothing
  | help (text : HelpText)
  | linkShow (linkName : Option String)
  | config (c : ConfigCommand)
  | call (c : CallCommand S)
  | unknown (name : String)

/-! ### Help -/

/-- The commands whose help is found by all of their words. -/
def helpCommands : List (List String) :=
  [["tmgr"], ["tmgr", "subport"], ["tmgr", "subport", "profile"], ["tmgr", "subport", "pipe"],
    ["tmgr", "pipe", "profile"], ["port", "in", "action", "profile"], ["table", "action", "profile"],
    ["pipeline"], ["pipeline", "port", "in"], ["pipeline", "port", "out"],
    ["pipeline", "port", "in", "table"], ["pipeline", "port", "in", "stats"],
    ["pipeline", "port", "in", "enable"], ["pipeline", "port", "in", "disable"],
    ["pipeline", "port", "out", "stats"], ["pipeline", "table"], ["pipeline", "table", "stats"],
    ["pipeline", "table", "dscp"], ["pipeline", "table", "rule", "add"],
    ["pipeline", "table", "rule", "add", "default"], ["pipeline", "table", "rule", "add", "bulk"],
    ["pipeline", "table", "rule", "delete"], ["pipeline", "table", "rule", "delete", "default"],
    ["pipeline", "table", "rule", "show"], ["pipeline", "table", "rule", "stats", "read"],
    ["pipeline", "table", "meter", "profile", "add"],
    ["pipeline", "table", "meter", "profile", "delete"],
    ["pipeline", "table", "rule", "meter", "read"], ["pipeline", "table", "rule", "ttl", "read"],
    ["pipeline", "table", "rule", "time", "read"], ["thread", "pipeline", "enable"],
    ["thread", "pipeline", "disable"]]

/-- The text of a command that is found by all of its words. -/
def helpText (words : List String) : HelpText :=
  if words ∈ helpCommands then .command words else .invalid

/-- The number of tokens is compared before they are, but for the second of `pipeline`.
Source: `cli.c` `cmd_help`
Kind: D -/
def cmdHelp (tokens : List String) : Parse HelpText :=
  if tokens.length = 1 then .ok .commands
  else do
    let word ← arg tokens 1
    if word ∈ ["mempool", "link", "swq", "tap", "kni", "cryptodev"] then .ok (.command [word])
    else if word = "pipeline" ∧ tokens.length ≠ 2 then do
      let _ ← arg tokens 2
      .ok (helpText (tokens.drop 1))
    else .ok (helpText (tokens.drop 1))

/-! ### Dispatch -/

section Dispatch

variable {S : Type} (inet : InetPton) (symCrypto : List String → Parse (S × ℕ))
  (cryptodevFind : String → Option Cryptodev) (tokens : List String)

/-- `n_tokens > i` and `strcmp(tokens[i], word) == 0`. -/
def tokenIs (i : ℕ) (word : String) : Bool := tokens[i]? = some word

/-- Source: `cli.c` `cli_process`, `tmgr`. Kind: D -/
def cliProcessTmgr : Parse (Command S) :=
  if tokenIs tokens 1 "subport" && tokenIs tokens 2 "profile" then do
    let p ← cmdTmgrSubportProfile tokens
    .ok (.config (.tmgrSubportProfile p))
  else if tokenIs tokens 1 "pipe" && tokenIs tokens 2 "profile" then do
    let p ← cmdTmgrPipeProfile tokens
    .ok (.config (.tmgrPipeProfile p))
  else if tokenIs tokens 2 "subport" && tokenIs tokens 4 "profile" then do
    let (name, subportId, subportProfileId) ← cmdTmgrSubport tokens
    .ok (.config (.tmgrSubport name subportId subportProfileId))
  else if tokenIs tokens 2 "subport" && tokenIs tokens 4 "pipe" then do
    let (name, range) ← cmdTmgrSubportPipe tokens
    .ok (.config (.tmgrSubportPipe name range))
  else do
    let (name, p) ← cmdTmgr tokens
    .ok (.config (.tmgr name p))

/-- The commands on ports.
Source: `cli.c` `cli_process`, `pipeline <pipeline_name> port`
Kind: D -/
def cliProcessPort : Parse (Command S) :=
  if tokenIs tokens 3 "in" && tokenIs tokens 4 "bsz" then do
    let (pipelineName, p, enabled) ← cmdPipelinePortIn tokens
    .ok (.config (.portIn pipelineName p enabled))
  else if tokenIs tokens 3 "out" && tokenIs tokens 4 "bsz" then do
    let (pipelineName, p) ← cmdPipelinePortOut tokens
    .ok (.config (.portOut pipelineName p))
  else if tokenIs tokens 3 "in" && tokenIs tokens 5 "table" then do
    let (pipelineName, portId, tableId) ← cmdPipelinePortInTable tokens
    .ok (.config (.portInTable pipelineName portId tableId))
  else if tokenIs tokens 3 "in" && tokenIs tokens 5 "stats" then do
    let (pipelineName, portId, clear) ← cmdPipelinePortInStats tokens
    .ok (.call (.portInStats pipelineName portId clear))
  else if tokenIs tokens 3 "in" && tokenIs tokens 5 "enable" then do
    let (pipelineName, portId) ← cmdPipelinePortInEnable tokens
    .ok (.call (.portInEnable pipelineName portId))
  else if tokenIs tokens 3 "in" && tokenIs tokens 5 "disable" then do
    let (pipelineName, portId) ← cmdPipelinePortInDisable tokens
    .ok (.call (.portInDisable pipelineName portId))
  else if tokenIs tokens 3 "out" && tokenIs tokens 5 "stats" then do
    let (pipelineName, portId, clear) ← cmdPipelinePortOutStats tokens
    .ok (.call (.portOutStats pipelineName portId clear))
  else .ok (.unknown (tokens.headD ""))

/-- The commands that read something of a rule.
Source: `cli.c` `cli_process`, `pipeline <pipeline_name> table <table_id> rule read`
Kind: D -/
def cliProcessRuleRead : Parse (Command S) :=
  if tokenIs tokens 6 "stats" then do
    let ((pipelineName, tableId), m, clear) ← cmdPipelineTableRuleStatsRead tokens inet
    .ok (.call (.ruleStatsRead pipelineName tableId m clear))
  else if tokenIs tokens 6 "meter" then do
    let ((pipelineName, tableId), m, clear) ← cmdPipelineTableRuleMeterRead tokens inet
    .ok (.call (.ruleMeterRead pipelineName tableId m clear))
  else if tokenIs tokens 6 "ttl" then do
    let ((pipelineName, tableId), m, clear) ← cmdPipelineTableRuleTtlRead tokens inet
    .ok (.call (.ruleTtlRead pipelineName tableId m clear))
  else if tokenIs tokens 6 "time" then do
    let ((pipelineName, tableId), m, _) ← cmdPipelineTableRuleTimeRead tokens inet
    .ok (.call (.ruleTimeRead pipelineName tableId m))
  else .ok (.unknown (tokens.headD ""))

/-- The commands on the rules of a table.
Source: `cli.c` `cli_process`, `pipeline <pipeline_name> table <table_id> rule`
Kind: D -/
def cliProcessRule : Parse (Command S) :=
  if tokenIs tokens 5 "add" && tokenIs tokens 6 "match" then do
    let cmd ←
      if tokenIs tokens 7 "default" then parseRuleAddDefault tokens
      else parseRuleAdd inet symCrypto tokens
    .ok (.call (.rule cmd))
  else if tokenIs tokens 5 "add" && tokenIs tokens 6 "bulk" then do
    let (pipelineName, tableId, fileName) ← cmdPipelineTableRuleAddBulk tokens
    .ok (.call (.ruleAddBulk pipelineName tableId fileName))
  else if tokenIs tokens 5 "delete" && tokenIs tokens 6 "match" then do
    let cmd ←
      if tokenIs tokens 7 "default" then parseRuleDeleteDefault tokens
      else parseRuleDelete inet tokens
    .ok (.call (.rule cmd))
  else if tokenIs tokens 5 "show" then do
    let (pipelineName, tableId, fileName) ← cmdPipelineTableRuleShow tokens
    .ok (.call (.ruleShow pipelineName tableId fileName))
  else if tokenIs tokens 5 "read" then cliProcessRuleRead inet tokens
  else .ok (.unknown (tokens.headD ""))

/-- The commands on tables.
Source: `cli.c` `cli_process`, `pipeline <pipeline_name> table`
Kind: D -/
def cliProcessTable : Parse (Command S) :=
  if tokenIs tokens 3 "match" then do
    let (pipelineName, p) ← cmdPipelineTable tokens
    .ok (.config (.table pipelineName p))
  else if tokenIs tokens 4 "stats" then do
    let (pipelineName, tableId, clear) ← cmdPipelineTableStats tokens
    .ok (.call (.tableStats pipelineName tableId clear))
  else if tokenIs tokens 4 "rule" then cliProcessRule inet symCrypto tokens
  else if tokenIs tokens 4 "meter" && tokenIs tokens 5 "profile" && tokenIs tokens 7 "add" then do
    let (((pipelineName, tableId), id), p) ← cmdPipelineTableMeterProfileAdd tokens
    .ok (.call (.meterProfileAdd pipelineName tableId id p))
  else if tokenIs tokens 4 "meter" && tokenIs tokens 5 "profile" && tokenIs tokens 7 "delete"
  then do
    let ((pipelineName, tableId), id) ← cmdPipelineTableMeterProfileDelete tokens
    .ok (.call (.meterProfileDelete pipelineName tableId id))
  else if tokenIs tokens 4 "dscp" then do
    let ((pipelineName, tableId), fileName) ← cmdPipelineTableDscp tokens
    .ok (.call (.dscp pipelineName tableId fileName))
  else .ok (.unknown (tokens.headD ""))

/-- Source: `cli.c` `cli_process`, `pipeline`. Kind: D -/
def cliProcessPipeline : Parse (Command S) :=
  if tokenIs tokens 2 "period" then do
    let (name, p) ← cmdPipeline tokens
    .ok (.config (.pipeline name p))
  else if tokenIs tokens 2 "port" then cliProcessPort tokens
  else if tokenIs tokens 2 "table" then cliProcessTable inet symCrypto tokens
  else .ok (.unknown (tokens.headD ""))

/-- Source: `cli.c` `cli_process`, `thread`. Kind: D -/
def cliProcessThread : Parse (Command S) :=
  if tokenIs tokens 4 "enable" then do
    let (threadId, pipelineName) ← cmdThreadPipelineEnable tokens
    .ok (.call (.threadEnable threadId pipelineName))
  else if tokenIs tokens 4 "disable" then do
    let (threadId, pipelineName) ← cmdThreadPipelineDisable tokens
    .ok (.call (.threadDisable threadId pipelineName))
  else .ok (.unknown (tokens.headD ""))

/-- The second word of `link` is read without a look at the number of tokens.
Source: `cli.c` `cli_process`, `link`
Kind: D -/
def cliProcessLink : Parse (Command S) := do
  let t ← arg tokens 1
  if t = "show" then do
    let linkName ← cmdLinkShow tokens
    .ok (.linkShow linkName)
  else do
    let (name, p) ← cmdLink tokens
    .ok (.config (.link name p))

/-- The tests of `cli_process` are nested here: those of the commands on pipelines look at the same
words in the same order.
Source: `cli.c` `cli_process`
Kind: D -/
def cliProcessTokens : Parse (Command S) :=
  match tokens.head? with
  | none => .ok .nothing
  | some word =>
    if word = "help" then do
      let text ← cmdHelp tokens
      .ok (.help text)
    else if word = "mempool" then do
      let (name, p) ← cmdMempool tokens
      .ok (.config (.mempool name p))
    else if word = "link" then cliProcessLink tokens
    else if word = "swq" then do
      let (name, p) ← cmdSwq tokens
      .ok (.config (.swq name p))
    else if word = "tmgr" then cliProcessTmgr tokens
    else if word = "tap" then do
      let name ← cmdTap tokens
      .ok (.config (.tap name))
    else if word = "kni" then do
      let (name, p) ← cmdKni tokens
      .ok (.config (.kni name p))
    else if word = "cryptodev" then do
      let (name, p) ← cmdCryptodev tokens
      .ok (.config (.cryptodev name p))
    else if word = "port" then do
      let (name, p) ← cmdPortInActionProfile tokens
      .ok (.config (.portInActionProfile name p))
    else if word = "table" then do
      let (name, p) ← cmdTableActionProfile cryptodevFind tokens
      .ok (.config (.tableActionProfile name p))
    else if word = "pipeline" then cliProcessPipeline inet symCrypto tokens
    else if word = "thread" then cliProcessThread tokens
    else .ok (.unknown word)

variable {tokens}

/-- A command on a table goes to the commands on tables. -/
theorem cliProcessTokens_table (hpipeline : tokens[0]? = some "pipeline")
    (htable : tokens[2]? = some "table") :
    cliProcessTokens inet symCrypto cryptodevFind tokens =
      cliProcessTable inet symCrypto tokens := by
  rw [← List.head?_eq_getElem?] at hpipeline
  simp [cliProcessTokens, cliProcessPipeline, tokenIs, hpipeline, htable]

/-- A command on rules goes to the commands on rules. -/
theorem cliProcessTable_rule (hmatch : tokens[3]? ≠ some "match") (hrule : tokens[4]? = some "rule") :
    cliProcessTable inet symCrypto tokens = cliProcessRule inet symCrypto tokens := by
  simp [cliProcessTable, tokenIs, hmatch, hrule]

/-- The commands that add and delete a rule are found as `commandKind` finds them. -/
theorem cliProcessTokens_rule {x : Parse (RuleCommand S)}
    (h : parseRuleCommand inet symCrypto tokens = some x) :
    cliProcessTokens inet symCrypto cryptodevFind tokens =
      x >>= fun cmd => .ok (.call (.rule cmd)) := by
  by_cases hpipe : tokens[0]? = some "pipeline" ∧ tokens[2]? = some "table" ∧
      tokens[3]? ≠ some "match" ∧ tokens[4]? = some "rule" ∧ tokens[6]? = some "match"
  · rw [cliProcessTokens_table _ _ _ hpipe.1 hpipe.2.1,
      cliProcessTable_rule _ _ hpipe.2.2.1 hpipe.2.2.2.1]
    have hword : tokens[6]? = some "match" := hpipe.2.2.2.2
    rw [parseRuleCommand, commandKind, if_pos hpipe] at h
    split_ifs at h with hadd hdefault hdelete hdefault
    all_goals obtain rfl := Option.some.inj h
    · simp [cliProcessRule, tokenIs, hword, hadd, hdefault]
    · simp [cliProcessRule, tokenIs, hword, hadd, hdefault]
    · simp [cliProcessRule, tokenIs, hword, hdelete, hdefault]
    · simp [cliProcessRule, tokenIs, hword, hdelete, hdefault]
  · rw [parseRuleCommand, commandKind, if_neg hpipe] at h
    cases h

end Dispatch

end Rids.Cli
