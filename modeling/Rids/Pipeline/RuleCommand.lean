import Rids.Pipeline.CommandLine
import Rids.Pipeline.Dispatch
import Rids.Pipeline.RuleStore
import Rids.Pipeline.TableAction

/-!
# The rule commands (`cli.c`, `thread.c`)

The commands `rule add`, `rule delete` and their variants for the default rule, from a line of a
script to the tables. The other commands of `cli_process` are a parameter.

* `cliScriptProcess` — a script, line by line.
* `Pipelines.exec` — a command on the table it names; `table_execAll` says what a list of commands
  does to one table.
* `cliScriptProcess_eq` — a script of rule commands runs the commands that its lines parse to.
-/

namespace Rids.Pipeline

open Rids.Lib

/-! ### Tables -/

section Tables

variable (κ E D S : Type)

/-- A table as it was created, with the sizes of its pipeline. The actions are converted, and a
default entry is added and deleted, by the library: `convert`, `defaultAdd` and `defaultDelete`,
the status of a delete of a default entry that is there or not. -/
structure TableConf where
  params : TableParams
  ap : ActionProfile
  nPortsOut : ℕ
  nTables : ℕ
  lib : LowLevel κ E D
  convert : TableRuleAction S → Option E
  defaultAdd : FwdAction → Bool
  defaultDelete : Bool → Int

variable {κ E D S}

/-- `action_check` and `action_convert` for a table. -/
def TableConf.ops (c : TableConf κ E D S) : ActionOps (TableRuleAction S) E where
  check := actionCheck c.ap c.nPortsOut c.nTables
  convert := c.convert

/-- The rules of a table and its default rule. -/
structure TableContents (c : TableConf κ E D S) where
  rules : TableState c.lib (TableRuleAction S)
  ruleDefault : Option FwdAction

variable {c : TableConf κ E D S}

/-- Status and contents.
Source: `thread.c` `pipeline_table_rule_add_default`, `action_default_check`
Kind: D -/
def pipelineTableRuleAddDefault (t : TableContents c) (action : FwdAction) :
    Int × TableContents c :=
  if !fwdCheck c.nPortsOut c.nTables action then (-1, t)
  else if c.defaultAdd action then (0, { t with ruleDefault := some action })
  else (-1, t)

/-- Status and contents.
Source: `thread.c` `pipeline_table_rule_delete_default`
Kind: D -/
def pipelineTableRuleDeleteDefault (t : TableContents c) : Int × TableContents c :=
  let status := c.defaultDelete t.ruleDefault.isSome
  (status, { t with ruleDefault := if status = 0 then none else t.ruleDefault })

/-- What a rule command does to a table. -/
inductive TableOp (S : Type)
  | add (m : TableRuleMatch) (action : TableRuleAction S)
  | addDefault (action : FwdAction)
  | delete (m : TableRuleMatch)
  | deleteDefault

variable [DecidableEq κ]

/-- Status and contents. -/
def TableContents.exec (t : TableContents c) : TableOp S → Int × TableContents c
  | .add m action =>
    let (status, rules) := pipelineTableRuleAdd c.ops c.params t.rules m action
    (status, { t with rules := rules })
  | .addDefault action => pipelineTableRuleAddDefault t action
  | .delete m =>
    let (status, rules) := pipelineTableRuleDelete c.params t.rules m
    (status, { t with rules := rules })
  | .deleteDefault => pipelineTableRuleDeleteDefault t

/-- The contents after a list of operations. -/
def TableContents.execAll (t : TableContents c) (ops : List (TableOp S)) : TableContents c :=
  ops.foldl (fun t op => (t.exec op).2) t

end Tables

/-! ### Pipelines -/

section Pipelines

variable {κ E D S : Type}

/-- Source: `pipeline.h` `struct table`. Kind: D -/
structure Table (κ E D S : Type) where
  conf : TableConf κ E D S
  contents : TableContents conf

/-- The pipelines, each with its tables.
Source: `pipeline.c` `pipeline_find`
Kind: D -/
abbrev Pipelines (κ E D S : Type) := String → Option (List (Table κ E D S))

/-- The table of a command. -/
structure RuleCommand (S : Type) where
  pipelineName : String
  tableId : ℕ
  op : TableOp S

/-- The table `id` of a pipeline. -/
def Pipelines.table (ps : Pipelines κ E D S) (name : String) (id : ℕ) : Option (Table κ E D S) :=
  (ps name).bind fun tables => tables[id]?

variable [DecidableEq κ]

/-- Status and pipelines: without the pipeline or the table a command fails. -/
def Pipelines.exec (ps : Pipelines κ E D S) (cmd : RuleCommand S) : Int × Pipelines κ E D S :=
  match ps cmd.pipelineName with
  | none => (-1, ps)
  | some tables =>
    match tables[cmd.tableId]? with
    | none => (-1, ps)
    | some t =>
      let (status, contents) := t.contents.exec cmd.op
      (status,
        Function.update ps cmd.pipelineName (some (tables.set cmd.tableId ⟨t.conf, contents⟩)))

/-- The pipelines after a list of commands. -/
def Pipelines.execAll (ps : Pipelines κ E D S) (cmds : List (RuleCommand S)) :
    Pipelines κ E D S :=
  cmds.foldl (fun ps cmd => (ps.exec cmd).2) ps

/-- The operations of the commands that name a table. -/
def opsOn (name : String) (id : ℕ) (cmds : List (RuleCommand S)) : List (TableOp S) :=
  (cmds.filter fun cmd => cmd.pipelineName = name ∧ cmd.tableId = id).map RuleCommand.op

/-- A table with other contents. -/
def Table.execAll (t : Table κ E D S) (ops : List (TableOp S)) : Table κ E D S :=
  ⟨t.conf, t.contents.execAll ops⟩

/-- A command acts on the table it names and on no other. -/
theorem table_exec (ps : Pipelines κ E D S) (cmd : RuleCommand S) (name : String) (id : ℕ) :
    (ps.exec cmd).2.table name id =
      (ps.table name id).map fun t => t.execAll (opsOn name id [cmd]) := by
  by_cases hname : cmd.pipelineName = name
  · subst hname
    unfold Pipelines.exec Pipelines.table
    cases htables : ps cmd.pipelineName with
    | none => simp [htables]
    | some tables =>
      simp only [Option.bind_some]
      cases ht : tables[cmd.tableId]? with
      | none =>
        have hne : tables[id]?.isSome → cmd.tableId ≠ id := by
          rintro hsome rfl
          rw [ht] at hsome
          cases hsome
        simp only [htables, Option.bind_some]
        cases hid : tables[id]? with
        | none => rfl
        | some t =>
          have hid' : cmd.tableId ≠ id := hne (by rw [hid]; rfl)
          simp [opsOn, hid', Table.execAll, TableContents.execAll]
      | some t =>
        simp only [Function.update_self, Option.bind_some]
        by_cases hid : cmd.tableId = id
        · subst hid
          obtain ⟨hlt, -⟩ := List.getElem?_eq_some_iff.mp ht
          rw [List.getElem?_set_self hlt, ht]
          simp [opsOn, Table.execAll, TableContents.execAll]
        · rw [List.getElem?_set_ne hid]
          cases tables[id]? with
          | none => rfl
          | some t => simp [opsOn, hid, Table.execAll, TableContents.execAll]
  · have hops : opsOn name id [cmd] = [] := by simp [opsOn, hname]
    have hsame : (ps.exec cmd).2 name = ps name := by
      unfold Pipelines.exec
      split
      · rfl
      · split
        · rfl
        · exact Function.update_of_ne (Ne.symm hname) _ _
    rw [Pipelines.table, hsame, hops, ← Pipelines.table]
    cases ps.table name id <;> rfl

/-- A list of commands does to a table what its operations on that table do. -/
theorem table_execAll (ps : Pipelines κ E D S) (cmds : List (RuleCommand S)) (name : String)
    (id : ℕ) : (ps.execAll cmds).table name id =
      (ps.table name id).map fun t => t.execAll (opsOn name id cmds) := by
  induction cmds generalizing ps with
  | nil =>
    change ps.table name id = _
    cases ps.table name id <;> rfl
  | cons cmd cmds ih =>
    have hops : opsOn name id (cmd :: cmds) = opsOn name id [cmd] ++ opsOn name id cmds := by
      rw [opsOn, opsOn, opsOn, ← List.map_append, ← List.filter_append]
      rfl
    change ((ps.exec cmd).2.execAll cmds).table name id = _
    rw [ih, table_exec, Option.map_map, hops]
    apply congrArg (fun f => Option.map f _)
    funext t
    simp only [Function.comp_apply, Table.execAll, TableContents.execAll, List.foldl_append]

/-- The operations of two groups of commands. -/
theorem opsOn_append (name : String) (id : ℕ) (cmds cmds' : List (RuleCommand S)) :
    opsOn name id (cmds ++ cmds') = opsOn name id cmds ++ opsOn name id cmds' := by
  rw [opsOn, opsOn, opsOn, List.filter_append, List.map_append]

end Pipelines

/-! ### Reading a command -/

section Commands

variable {S : Type} (inet : InetPton) (symCrypto : List String → Parse (S × ℕ))
  (tokens : List String)

/-- `strcmp(tokens[i], name) != 0` is an invalid argument. -/
def keywordInvalid (i : ℕ) (name : String) : Parse Unit := do
  let t ← arg tokens i
  ensure (t = name) (.argInvalid name)

/-- `pipeline <pipeline_name> table <table_id> rule <verb>`. -/
def readTarget (verb : String) : Parse (String × ℕ) := do
  let pipelineName ← arg tokens 1
  keyword tokens 2 "table"
  let tableId ← readUint tokens 3 "table_id" parserReadUint32
  keyword tokens 4 "rule"
  keyword tokens 5 verb
  .ok (pipelineName, tableId)

/-- The arguments of `cmd_pipeline_table_rule_add`.
Source: `cli.c` `cmd_pipeline_table_rule_add`
Kind: D -/
def parseRuleAdd : Parse (RuleCommand S) := do
  ensure (8 ≤ tokens.length) (.argMismatch (tokens.headD ""))
  let (name, id) ← readTarget tokens "add"
  let (m, n) ← parseMatch inet (tokens.drop 6)
  let (a, n') ← parseTableAction inet symCrypto (tokens.drop (6 + n))
  ensure (6 + n + n' = tokens.length) (.argInvalid (tokens.headD ""))
  .ok ⟨name, id, .add m a⟩

/-- The action of a default rule, from its kind in token 10 on.
Source: `cli.c` `cmd_pipeline_table_rule_add_default`
Kind: D -/
def parseDefaultAction : Parse FwdAction := do
  let kind ← arg tokens 10
  if kind = "drop" then do
    ensure (tokens.length = 11) (.argMismatch (tokens.headD ""))
    .ok .drop
  else if kind = "port" then do
    ensure (tokens.length = 12) (.argMismatch (tokens.headD ""))
    let id ← readUint tokens 11 "port_id" parserReadUint32
    .ok (.port (.ofNat 32 id))
  else if kind = "meta" then do
    ensure (tokens.length = 11) (.argMismatch (tokens.headD ""))
    .ok .portMeta
  else if kind = "table" then do
    ensure (tokens.length = 12) (.argMismatch (tokens.headD ""))
    let id ← readUint tokens 11 "table_id" parserReadUint32
    .ok (.table (.ofNat 32 id))
  else .error (.argInvalid "drop or port or meta or table")

/-- The arguments of `cmd_pipeline_table_rule_add_default`.
Source: `cli.c` `cmd_pipeline_table_rule_add_default`
Kind: D -/
def parseRuleAddDefault : Parse (RuleCommand S) := do
  ensure (tokens.length = 11 ∨ tokens.length = 12) (.argMismatch (tokens.headD ""))
  let (name, id) ← readTarget tokens "add"
  keywordInvalid tokens 6 "match"
  keywordInvalid tokens 7 "default"
  keywordInvalid tokens 8 "action"
  keywordInvalid tokens 9 "fwd"
  let action ← parseDefaultAction tokens
  .ok ⟨name, id, .addDefault action⟩

/-- The arguments of `cmd_pipeline_table_rule_delete`.
Source: `cli.c` `cmd_pipeline_table_rule_delete`
Kind: D -/
def parseRuleDelete : Parse (RuleCommand S) := do
  ensure (8 ≤ tokens.length) (.argMismatch (tokens.headD ""))
  let (name, id) ← readTarget tokens "delete"
  let (m, n) ← parseMatch inet (tokens.drop 6)
  ensure (6 + n = tokens.length) (.argMismatch (tokens.headD ""))
  .ok ⟨name, id, .delete m⟩

/-- The arguments of `cmd_pipeline_table_rule_delete_default`.
Source: `cli.c` `cmd_pipeline_table_rule_delete_default`
Kind: D -/
def parseRuleDeleteDefault : Parse (RuleCommand S) := do
  ensure (tokens.length = 8) (.argMismatch (tokens.headD ""))
  let (name, id) ← readTarget tokens "delete"
  keywordInvalid tokens 6 "match"
  keywordInvalid tokens 7 "default"
  .ok ⟨name, id, .deleteDefault⟩

/-- The four rule commands, and all others. -/
inductive CommandKind
  | ruleAdd | ruleAddDefault | ruleDelete | ruleDeleteDefault | other
deriving DecidableEq, Repr

/-- Which function `cli_process` calls. The branches in front of those of the rule commands ask
for another third word, for `match` as the fourth or for `stats` as the fifth.
Source: `cli.c` `cli_process`
Kind: D -/
def commandKind : CommandKind :=
  if tokens[0]? = some "pipeline" ∧ tokens[2]? = some "table" ∧ tokens[3]? ≠ some "match" ∧
      tokens[4]? = some "rule" ∧ tokens[6]? = some "match" then
    if tokens[5]? = some "add" then
      if tokens[7]? = some "default" then .ruleAddDefault else .ruleAdd
    else if tokens[5]? = some "delete" then
      if tokens[7]? = some "default" then .ruleDeleteDefault else .ruleDelete
    else .other
  else .other

/-- The rule command that tokens parse to: `none` for another command, an error where the function
of the command prints one. -/
def parseRuleCommand : Option (Parse (RuleCommand S)) :=
  match commandKind tokens with
  | .ruleAdd => some (parseRuleAdd inet symCrypto tokens)
  | .ruleAddDefault => some (parseRuleAddDefault tokens)
  | .ruleDelete => some (parseRuleDelete inet tokens)
  | .ruleDeleteDefault => some (parseRuleDeleteDefault tokens)
  | .other => none

end Commands

/-! ### Running a script -/

section Script

variable {κ E D S : Type} [DecidableEq κ] (inet : InetPton)
  (symCrypto : List String → Parse (S × ℕ))

/-- What a command prints. -/
inductive CliMessage
  | parse (e : ParseError)
  | argTooMany
  | cmdFail (name : String)
  | text (s : String)

/-- The end of a command function: arguments that do not parse are reported, as is a status other
than 0. -/
def runRuleCommand (name : String) (ps : Pipelines κ E D S) :
    Parse (RuleCommand S) → Option CliMessage × Pipelines κ E D S
  | .error e => (some (.parse e), ps)
  | .ok cmd =>
    let (status, ps') := ps.exec cmd
    (if status = 0 then none else some (.cmdFail name), ps')

variable (other : List String → Pipelines κ E D S → Option CliMessage × Pipelines κ E D S)

/-- What a line prints, and the pipelines after it; `other` runs the other commands.
Source: `cli.c` `cli_process`
Kind: D -/
def cliProcess (line : List Char) (ps : Pipelines κ E D S) :
    Option CliMessage × Pipelines κ E D S :=
  let s := cString line
  if isComment s then (none, ps)
  else
    match parseTokenizeString s with
    | none => (some .argTooMany, ps)
    | some [] => (none, ps)
    | some tokens =>
      match parseRuleCommand inet symCrypto tokens with
      | some cmd => runRuleCommand (tokens.headD "") ps cmd
      | none => other tokens ps

/-- `conn.msg_in_len_max`. -/
def msgInLenMax : ℕ := 1024

/-- The lines of a script. -/
def scriptLines (text : List Char) : List (List Char) := messages msgInLenMax msgInLenMax text

/-- The pipelines after a script.
Source: `cli.c` `cli_script_process`
Kind: D -/
def cliScriptProcess (c : FileContent) (ps : Pipelines κ E D S) : Pipelines κ E D S :=
  (scriptLines c.text).foldl (fun ps line => (cliProcess inet symCrypto other line ps).2) ps

/-- The tokens of a line that is a command. -/
def lineTokens (line : List Char) : Option (List String) :=
  let s := cString line
  if isComment s then none
  else
    match parseTokenizeString s with
    | none => none
    | some [] => none
    | some tokens => some tokens

/-- The rule command of a line, if it is one that parses. -/
def lineCommand (line : List Char) : Option (RuleCommand S) :=
  match (lineTokens line).bind (parseRuleCommand inet symCrypto) with
  | some (.ok cmd) => some cmd
  | _ => none

/-- The rule commands of a script. -/
def scriptCommands (text : List Char) : List (RuleCommand S) :=
  (scriptLines text).filterMap (lineCommand inet symCrypto)

/-- Every command of the script is one of the four rule commands. -/
def IsRuleScript (text : List Char) : Prop :=
  ∀ line ∈ scriptLines text, ∀ tokens ∈ lineTokens line, commandKind tokens ≠ .other

instance (text : List Char) : Decidable (IsRuleScript text) :=
  inferInstanceAs (Decidable (∀ line ∈ scriptLines text, ∀ tokens ∈ lineTokens line, _))

/-- The tokens of the commands of a script. -/
def scriptTokens (text : List Char) : List (List String) :=
  (scriptLines text).filterMap lineTokens

/-- A rule script, by its tokens. -/
theorem isRuleScript_iff {text : List Char} :
    IsRuleScript text ↔ ∀ tokens ∈ scriptTokens text, commandKind tokens ≠ .other := by
  unfold IsRuleScript scriptTokens
  constructor
  · intro h tokens htokens
    obtain ⟨line, hline, hline'⟩ := List.mem_filterMap.mp htokens
    exact h line hline tokens hline'
  · intro h line hline tokens htokens
    exact h tokens (List.mem_filterMap.mpr ⟨line, hline, htokens⟩)

/-- The commands of a script depend on its tokens only. -/
theorem scriptCommands_eq (text : List Char) : scriptCommands inet symCrypto text =
    (scriptTokens text).filterMap fun tokens =>
      (parseRuleCommand inet symCrypto tokens).bind Except.toOption := by
  rw [scriptCommands, scriptTokens, List.filterMap_filterMap]
  apply List.filterMap_congr
  intro line _
  unfold lineCommand
  cases lineTokens line with
  | none => rfl
  | some tokens =>
    simp only [Option.bind_some]
    rcases parseRuleCommand inet symCrypto tokens with _ | e | cmd <;> rfl

/-- A newline behind a line adds no token. -/
theorem lineTokens_newline (line : List Char) : lineTokens (line ++ ['\n']) = lineTokens line := by
  unfold lineTokens
  rcases cString_newline line with h | h
  · simp only [h, isComment_newline, parseTokenizeString_newline]
  · simp only [h]

/-- A newline behind a script adds no line. -/
theorem scriptTokens_newline (text : List Char) :
    scriptTokens (text ++ ['\n']) = scriptTokens text := by
  have hempty : lineTokens ['\n'] = none := by decide
  unfold scriptTokens scriptLines
  rcases messages_newline msgInLenMax text with h | ⟨lines, line, h, h'⟩
  · rw [h, List.filterMap_append, List.filterMap_cons_none hempty]
    exact List.append_nil _
  · simp only [h, h', List.filterMap_append, List.filterMap_cons, lineTokens_newline]

/-- A script is read before what follows it, where a newline ends its last line. -/
theorem scriptTokens_append {text more : List Char}
    (h : EndsWithLine text ∨ more.head? = some '\n') :
    scriptTokens (text ++ more) = scriptTokens text ++ scriptTokens more := by
  have happend {text : List Char} (h : EndsWithLine text) (more : List Char) :
      scriptTokens (text ++ more) = scriptTokens text ++ scriptTokens more := by
    unfold scriptTokens scriptLines
    rw [messages_append h, List.filterMap_append]
  rcases h with h | h
  · exact happend h more
  · obtain ⟨more, rfl⟩ := List.head?_eq_some_iff.mp h
    have hline : EndsWithLine ['\n'] := .inr rfl
    have htext : EndsWithLine (text ++ ['\n']) := .inr (by simp)
    have hfirst := happend hline more
    have hnewline : scriptTokens ['\n'] = [] := scriptTokens_newline []
    rw [List.append_cons, happend htext, scriptTokens_newline]
    rw [hnewline] at hfirst
    exact congrArg (scriptTokens text ++ ·) hfirst.symm

variable {inet symCrypto}

variable (inet symCrypto) in
/-- A rule command is parsed to one. -/
theorem parseRuleCommand_isSome {tokens : List String} (h : commandKind tokens ≠ .other) :
    ∃ cmd, parseRuleCommand inet symCrypto tokens = some cmd := by
  unfold parseRuleCommand
  cases hkind : commandKind tokens with
  | ruleAdd => exact ⟨_, rfl⟩
  | ruleAddDefault => exact ⟨_, rfl⟩
  | ruleDelete => exact ⟨_, rfl⟩
  | ruleDeleteDefault => exact ⟨_, rfl⟩
  | other => exact absurd hkind h

/-- A line without another command runs the rule command it parses to. -/
theorem cliProcess_eq {line : List Char}
    (hline : ∀ tokens, lineTokens line = some tokens → commandKind tokens ≠ .other)
    (ps : Pipelines κ E D S) : (cliProcess inet symCrypto other line ps).2 =
      ps.execAll (lineCommand inet symCrypto line).toList := by
  unfold cliProcess lineCommand
  unfold lineTokens at hline ⊢
  by_cases hcomment : isComment (cString line) = true
  · simp only [hcomment, if_true]
    rfl
  · simp only [hcomment, if_false, Bool.false_eq_true] at hline ⊢
    cases htokens : parseTokenizeString (cString line) with
    | none => rfl
    | some tokens =>
      cases tokens with
      | nil => rfl
      | cons t tokens =>
        simp only [htokens, Option.some.injEq, forall_eq', Option.bind_some] at hline ⊢
        obtain ⟨cmd, hcmd⟩ := parseRuleCommand_isSome inet symCrypto hline
        rw [hcmd]
        cases cmd with
        | error e => rfl
        | ok cmd => rfl

/-- The lines of a rule script execute its commands. -/
theorem foldl_cliProcess {lines : List (List Char)}
    (hlines : ∀ line ∈ lines, ∀ tokens, lineTokens line = some tokens →
      commandKind tokens ≠ .other) (ps : Pipelines κ E D S) :
    lines.foldl (fun ps line => (cliProcess inet symCrypto other line ps).2) ps =
      ps.execAll (lines.filterMap (lineCommand inet symCrypto)) := by
  induction lines generalizing ps with
  | nil => rfl
  | cons line lines ih =>
    obtain ⟨hline, hlines⟩ := List.forall_mem_cons.mp hlines
    rw [List.foldl_cons, ih hlines, cliProcess_eq other hline]
    cases hcmd : lineCommand inet symCrypto line with
    | none => rw [List.filterMap_cons_none hcmd]; rfl
    | some cmd => rw [List.filterMap_cons_some hcmd]; rfl

/-- A script of rule commands runs the commands that its lines parse to. -/
theorem cliScriptProcess_eq {c : FileContent} (hscript : IsRuleScript c.text)
    (ps : Pipelines κ E D S) : cliScriptProcess inet symCrypto other c ps =
      ps.execAll (scriptCommands inet symCrypto c.text) :=
  foldl_cliProcess other hscript ps

end Script

end Rids.Pipeline
