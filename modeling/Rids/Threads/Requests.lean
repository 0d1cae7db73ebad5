import Rids.Pipeline.BulkAdd
import Rids.Pipeline.TableAction
import Rids.Threads.Linearization
import Rids.Threads.Service

/-!
# The requests on one pipeline (`thread.c`)

Every function on one pipeline checks its arguments, and then either calls the library itself or
sends a request to the data plane thread that runs the pipeline, whose handler calls the library.
The two ways do not use the same data: a direct call has the tables of the pipeline at hand, a
handler the entry of the pipeline, which was written when the pipeline was enabled.

* `prepare`, `direct`, `pipelineMsgHandle` — the checks and the request, and the two ways.
* `completeDirect`, `complete` — what is done with what the library, or the response, has given. A
  direct read leaves the counters to the library, whatever the status; from a response they are
  copied when the status is zero.
* `requests_agree` — the two ways agree for an entry that knows all tables, up to the value of a
  non-zero status, when a read that fails writes nothing.
* `requests_linearizable` — hence every run of the system is one of the system without messages.

The library is a parameter: its state, and what its functions do to it and return.
-/

namespace Rids.Threads

open Rids.Lib Rids.Lib.SlotMachine Rids.Lib.Runs
open Rids.Pipeline (TableRuleAction TableRule TableRuleMatch TableParams ActionProfile FwdAction
  LbParams MtrParams TmParams EncapParams NatParams matchCheck matchConvert actionCheck fwdCheck
  tableRuleFind tableRuleAdd tableRuleDelete)
open Rids.Pipeline.BulkAdd (Status Insertions ActionStages tableRuleAddBulkLl)
open Rids.Lib.ByteMem (Mem)

/-! ### The library -/

/-- A part of an action, as `rte_table_action_apply` is told of it. -/
inductive ActionPart (S : Type)
  | fwd (fwd : FwdAction)
  | lb (lb : LbParams)
  | mtr (mtr : MtrParams)
  | tm (tm : TmParams)
  | encap (encap : EncapParams)
  | nat (nat : NatParams)
  | ttl (decrement : Bool)
  | stats
  | time
  | symCrypto (xform : S)
  | tag (tag : BitVec 32)
  | decap (n : BitVec 16)

/-- The types that the library works with: its state, the entries that it is given and the places
that it keeps them at, sessions, counters, meter profiles and DSCP tables. -/
structure LibraryTypes where
  L : Type
  E : Type
  D : Type
  S : Type
  N : Type
  Profile : Type
  Dscp : Type

/-- The functions of the library that `thread.c` calls. A pipeline, an action object and a table are
given by their numbers; a status is returned with the state and, by a read, with the counters that
it has written through the pointer it was given, if it has. -/
structure Library (τ : LibraryTypes) where
  run : ℕ → τ.L → τ.L
  flush : ℕ → τ.L → τ.L
  portInStatsRead : (p id : ℕ) → (clear : Bool) → τ.L → τ.L × Int × Option τ.N
  portInEnable : (p id : ℕ) → τ.L → τ.L × Int
  portInDisable : (p id : ℕ) → τ.L → τ.L × Int
  portOutStatsRead : (p id : ℕ) → (clear : Bool) → τ.L → τ.L × Int × Option τ.N
  tableStatsRead : (p id : ℕ) → (clear : Bool) → τ.L → τ.L × Int × Option τ.N
  zeroEntry : τ.E
  actionApply : (a : Option ℕ) → ActionPart τ.S → τ.L → τ.E → Except Status τ.E
  tableEntryAdd : (p id : ℕ) → Insertions τ.L τ.E τ.D
  tableEntryDelete : (p id : ℕ) → Mem → τ.L → τ.L × Int
  tableDefaultEntryAdd : (p id : ℕ) → FwdAction → τ.L → Except Status (τ.L × τ.D)
  tableDefaultEntryDelete : (p id : ℕ) → τ.L → τ.L × Int
  statsRead : (a : Option ℕ) → (data : τ.D) → (clear : Bool) → τ.L → τ.L × Int × Option τ.N
  meterProfileAdd : (a : Option ℕ) → (id : ℕ) → τ.Profile → τ.L → τ.L × Int
  meterProfileDelete : (a : Option ℕ) → (id : ℕ) → τ.L → τ.L × Int
  meterRead : (a : Option ℕ) → (data : τ.D) → (tcMask : ℕ) → (clear : Bool) → τ.L → τ.L × Int × Option τ.N
  dscpTableUpdate : (a : Option ℕ) → (dscpMask : ℕ) → τ.Dscp → τ.L → τ.L × Int
  ttlRead : (a : Option ℕ) → (data : τ.D) → (clear : Bool) → τ.L → τ.L × Int × Option τ.N
  timeRead : (a : Option ℕ) → (data : τ.D) → τ.L → τ.L × Int × Option τ.N

variable {τ : LibraryTypes}

/-- What a read of counters returns. -/
inductive Library.IsRead (lib : Library τ) : τ.L × Int × Option τ.N → Prop
  | portIn (p id : ℕ) (clear : Bool) (l : τ.L) : IsRead lib (lib.portInStatsRead p id clear l)
  | portOut (p id : ℕ) (clear : Bool) (l : τ.L) : IsRead lib (lib.portOutStatsRead p id clear l)
  | table (p id : ℕ) (clear : Bool) (l : τ.L) : IsRead lib (lib.tableStatsRead p id clear l)
  | stats (a : Option ℕ) (data : τ.D) (clear : Bool) (l : τ.L) :
    IsRead lib (lib.statsRead a data clear l)
  | meter (a : Option ℕ) (data : τ.D) (tcMask : ℕ) (clear : Bool) (l : τ.L) :
    IsRead lib (lib.meterRead a data tcMask clear l)
  | ttl (a : Option ℕ) (data : τ.D) (clear : Bool) (l : τ.L) :
    IsRead lib (lib.ttlRead a data clear l)
  | time (a : Option ℕ) (data : τ.D) (l : τ.L) : IsRead lib (lib.timeRead a data l)

/-- A read that succeeds writes the counters; one that fails writes nothing. -/
def Library.ReadsWriteOnSuccess (lib : Library τ) : Prop :=
  ∀ r, lib.IsRead r → (r.2.1 = 0 ↔ r.2.2.isSome = true)

/-! ### Tables, requests and responses -/

abbrev Rule (τ : LibraryTypes) := TableRule (TableRuleAction τ.S) τ.D

/-- What the main thread keeps of a table besides its action object.
Source: `pipeline.h` `struct table`
Kind: D -/
structure TableInfo (τ : LibraryTypes) where
  params : TableParams
  ap : ActionProfile
  /-- `ap->params.ttl.n_packets_enabled`. -/
  ttlCounts : Bool
  rules : List (Rule τ)
  ruleDefault : Option (FwdAction × τ.D)

/-- A call of the main thread on a pipeline. -/
inductive Request (τ : LibraryTypes)
  | portInStatsRead (portId : ℕ) (clear : Bool)
  | portInEnable (portId : ℕ)
  | portInDisable (portId : ℕ)
  | portOutStatsRead (portId : ℕ) (clear : Bool)
  | tableStatsRead (tableId : ℕ) (clear : Bool)
  | ruleAdd (tableId : ℕ) (m : TableRuleMatch) (action : TableRuleAction τ.S)
  | ruleAddDefault (tableId : ℕ) (action : TableRuleAction τ.S)
  | ruleAddBulk (tableId : ℕ) (list : List (Rule τ))
  | ruleDelete (tableId : ℕ) (m : TableRuleMatch)
  | ruleDeleteDefault (tableId : ℕ)
  | ruleStatsRead (tableId : ℕ) (m : TableRuleMatch) (clear : Bool)
  | mtrProfileAdd (tableId id : ℕ) (profile : τ.Profile)
  | mtrProfileDelete (tableId id : ℕ)
  | ruleMtrRead (tableId : ℕ) (m : TableRuleMatch) (clear : Bool)
  | dscpTableUpdate (tableId dscpMask : ℕ) (dscpTable : τ.Dscp)
  | ruleTtlRead (tableId : ℕ) (m : TableRuleMatch) (clear : Bool)
  | ruleTimeRead (tableId : ℕ) (m : TableRuleMatch)

/-- Source: `thread.c` `struct pipeline_msg_req`. Kind: D -/
inductive PipelineMsgReq (τ : LibraryTypes)
  | portInStatsRead (id : ℕ) (clear : Bool)
  | portInEnable (id : ℕ)
  | portInDisable (id : ℕ)
  | portOutStatsRead (id : ℕ) (clear : Bool)
  | tableStatsRead (id : ℕ) (clear : Bool)
  | tableRuleAdd (id : ℕ) (m : TableRuleMatch) (action : TableRuleAction τ.S)
  | tableRuleAddDefault (id : ℕ) (fwd : FwdAction)
  | tableRuleAddBulk (id : ℕ) (list : List (Rule τ)) (bulk : Bool)
  | tableRuleDelete (id : ℕ) (m : TableRuleMatch)
  | tableRuleDeleteDefault (id : ℕ)
  | tableRuleStatsRead (id : ℕ) (data : τ.D) (clear : Bool)
  | tableMtrProfileAdd (id meterProfileId : ℕ) (profile : τ.Profile)
  | tableMtrProfileDelete (id meterProfileId : ℕ)
  | tableRuleMtrRead (id : ℕ) (data : τ.D) (tcMask : ℕ) (clear : Bool)
  | tableDscpTableUpdate (id dscpMask : ℕ) (dscpTable : τ.Dscp)
  | tableRuleTtlRead (id : ℕ) (data : τ.D) (clear : Bool)
  | tableRuleTimeRead (id : ℕ) (data : τ.D)

/-- What a response carries besides the status; the list of a bulk is written in place. -/
inductive RspBody (τ : LibraryTypes)
  | nothing
  | counters (n : Option τ.N)
  | data (d : τ.D)
  | bulk (nRules : ℕ) (list : List (Rule τ))

/-- Source: `thread.c` `struct pipeline_msg_rsp`. Kind: D -/
structure PipelineMsgRsp (τ : LibraryTypes) where
  status : Int
  body : RspBody τ

/-- What a call writes for its caller; `stale` is what the message held in the place of the counters
when it was sent. -/
inductive Written (N : Type)
  | nothing
  | counters (n : N)
  | stale
  | added (nRulesAdded nRulesNotAdded : ℕ)

/-- What a call returns and writes. -/
structure Result (N : Type) where
  status : Int
  written : Written N

/-- What a caller looks at: whether the status is zero, and what is written. -/
def Result.view {N : Type} (r : Result N) : Bool × Written N := (r.status = 0, r.written)

/-! ### Checks -/

/-- The table of a call.
Source: `thread.c`, `table_id >= p->n_tables`
Kind: D -/
def tableOf (p : Pipeline (TableInfo τ)) (tableId : ℕ) : Except (Result τ.N) (TableInfo τ) :=
  match p.table[tableId]? with
  | none => .error ⟨-1, .nothing⟩
  | some t => .ok t.rest

/-- The checks of a call: a check that fails ends it. -/
def check (ok : Bool) (status : Int) : Except (Result τ.N) Unit :=
  if ok then .ok () else .error ⟨status, .nothing⟩

/-- The action has a destination and no other part, and the destination is there.
Source: `thread.c` `action_default_check`
Kind: D -/
def actionDefaultCheck {S : Type} (nPortsOut nTables : ℕ) (a : TableRuleAction S) :
    Option FwdAction :=
  match a.fwd with
  | none => none
  | some fwd =>
    if a.actionMask = true :: List.replicate 11 false ∧ fwdCheck nPortsOut nTables fwd then some fwd
    else none

/-- The rule with a match.
Source: `pipeline.c` `table_rule_find`
Kind: D -/
def ruleOf (t : TableInfo τ) (m : TableRuleMatch) : Except (Result τ.N) (Rule τ) :=
  match tableRuleFind t.rules m with
  | none => .error ⟨-1, .nothing⟩
  | some rule => .ok rule

/-- What a function on one pipeline checks, and the request that it writes.
Source: `thread.c` `pipeline_port_in_stats_read` and the other functions on one pipeline, up to
`Write request`
Kind: D -/
def prepare (p : Pipeline (TableInfo τ)) : Request τ → Except (Result τ.N) (PipelineMsgReq τ)
  | .portInStatsRead portId clear => do
    check (portId < p.nPortsIn) (-1)
    return .portInStatsRead portId clear
  | .portInEnable portId => do
    check (portId < p.nPortsIn) (-1)
    return .portInEnable portId
  | .portInDisable portId => do
    check (portId < p.nPortsIn) (-1)
    return .portInDisable portId
  | .portOutStatsRead portId clear => do
    check (portId < p.nPortsOut) (-1)
    return .portOutStatsRead portId clear
  | .tableStatsRead tableId clear => do
    let _ ← tableOf p tableId
    return .tableStatsRead tableId clear
  | .ruleAdd tableId m action => do
    let t ← tableOf p tableId
    check (matchCheck m t.params) (-1)
    check (actionCheck t.ap p.nPortsOut p.table.length action) (-1)
    return .tableRuleAdd tableId m action
  | .ruleAddDefault tableId action => do
    let _ ← tableOf p tableId
    match actionDefaultCheck p.nPortsOut p.table.length action with
    | none => .error ⟨-1, .nothing⟩
    | some fwd => return .tableRuleAddDefault tableId fwd
  | .ruleAddBulk tableId list => do
    check (!list.isEmpty) (-22)
    match p.table[tableId]? with
    | none => .error ⟨-22, .nothing⟩
    | some t =>
      check (list.all fun r => matchCheck r.ruleMatch t.rest.params &&
        actionCheck t.rest.ap p.nPortsOut p.table.length r.action) (-22)
      return .tableRuleAddBulk tableId list (t.rest.params.matchType = .acl)
  | .ruleDelete tableId m => do
    let t ← tableOf p tableId
    check (matchCheck m t.params) (-1)
    return .tableRuleDelete tableId m
  | .ruleDeleteDefault tableId => do
    let _ ← tableOf p tableId
    return .tableRuleDeleteDefault tableId
  | .ruleStatsRead tableId m clear => do
    let t ← tableOf p tableId
    check (matchCheck m t.params) (-1)
    let rule ← ruleOf t m
    return .tableRuleStatsRead tableId rule.data clear
  | .mtrProfileAdd tableId id profile => do
    let _ ← tableOf p tableId
    return .tableMtrProfileAdd tableId id profile
  | .mtrProfileDelete tableId id => do
    let _ ← tableOf p tableId
    return .tableMtrProfileDelete tableId id
  | .ruleMtrRead tableId m clear => do
    let t ← tableOf p tableId
    check (matchCheck m t.params) (-1)
    let rule ← ruleOf t m
    return .tableRuleMtrRead tableId rule.data (2 ^ t.ap.nTc - 1) clear
  | .dscpTableUpdate tableId dscpMask dscpTable => do
    let _ ← tableOf p tableId
    return .tableDscpTableUpdate tableId dscpMask dscpTable
  | .ruleTtlRead tableId m clear => do
    let t ← tableOf p tableId
    check (matchCheck m t.params) (-1)
    check t.ttlCounts (-1)
    let rule ← ruleOf t m
    return .tableRuleTtlRead tableId rule.data clear
  | .ruleTimeRead tableId m => do
    let t ← tableOf p tableId
    check (matchCheck m t.params) (-1)
    let rule ← ruleOf t m
    return .tableRuleTimeRead tableId rule.data

/-! ### Into the library -/

/-- The parts of an action, in the order in which they are applied.
Source: `thread.c` `action_convert`
Kind: D -/
def actionParts {S : Type} (a : TableRuleAction S) : List (ActionPart S) :=
  a.fwd.toList.map .fwd ++ a.lb.toList.map .lb ++ a.mtr.toList.map .mtr ++ a.tm.toList.map .tm ++
    a.encap.toList.map .encap ++ a.nat.toList.map .nat ++ a.ttl.toList.map .ttl ++
    (if a.stats then [.stats] else []) ++ (if a.time then [.time] else []) ++
    a.symCrypto.toList.map .symCrypto ++ a.tag.toList.map .tag ++ a.decap.toList.map .decap

variable (lib : Library τ)

/-- The parts are applied to an entry of zeros, up to the first that fails.
Source: `thread.c` `action_convert`
Kind: D -/
def actionConvert (a : Option ℕ) (action : TableRuleAction τ.S) (l : τ.L) : Except Status τ.E :=
  (actionParts action).foldlM (fun e part => lib.actionApply a part l e) lib.zeroEntry

/-- A status alone. -/
def returns (r : τ.L × Int) : τ.L × PipelineMsgRsp τ := (r.1, ⟨r.2, .nothing⟩)

/-- A status with counters. -/
def reads (r : τ.L × Int × Option τ.N) : τ.L × PipelineMsgRsp τ := (r.1, ⟨r.2.1, .counters r.2.2⟩)

/-- A failure in a function that returns -1 for any of them. -/
def fails (l : τ.L) : τ.L × PipelineMsgRsp τ := (l, ⟨-1, .nothing⟩)

/-- The rule is converted with the action object `a` and added.
Source: `thread.c` `pipeline_table_rule_add`, `pipeline_msg_handle_table_rule_add`
Kind: D -/
def entryAdd (p id : ℕ) (a : Option ℕ) (m : TableRuleMatch) (action : TableRuleAction τ.S)
    (l : τ.L) : τ.L × PipelineMsgRsp τ :=
  match matchConvert m true with
  | none => fails l
  | some ml =>
    match actionConvert lib a action l with
    | .error _ => fails l
    | .ok e =>
      match (lib.tableEntryAdd p id).add l (ml, e) with
      | .error _ => fails l
      | .ok (l, data) => (l, ⟨0, .data data⟩)

/-- Source: `thread.c` `pipeline_table_rule_add_default`,
`pipeline_msg_handle_table_rule_add_default`
Kind: D -/
def defaultEntryAdd (p id : ℕ) (fwd : FwdAction) (l : τ.L) : τ.L × PipelineMsgRsp τ :=
  match lib.tableDefaultEntryAdd p id fwd l with
  | .error _ => fails l
  | .ok (l, data) => (l, ⟨0, .data data⟩)

/-- `table_rule_add_bulk_ll` with the action object `a`; the library is the table that the entries
are added to.
Source: `thread.c` `struct table_ll`
Kind: D -/
def bulkAddLl (p id : ℕ) (a : Option ℕ) (list : List (Rule τ)) (bulk : Bool) (l : τ.L) :
    Except Status (ℕ × List (Rule τ) × τ.L) :=
  tableRuleAddBulkLl (lib.tableEntryAdd p id)
    ⟨fun _ => true, fun action => actionConvert lib a action l⟩ bulk l list

/-- Source: `thread.c` `pipeline_table_rule_delete`, `pipeline_msg_handle_table_rule_delete`.
Kind: D -/
def entryDelete (p id : ℕ) (m : TableRuleMatch) (l : τ.L) : τ.L × PipelineMsgRsp τ :=
  match matchConvert m false with
  | none => fails l
  | some ml => returns (lib.tableEntryDelete p id ml l)

/-- A function on a pipeline that is not running calls the library: the action object is that of
the table.
Source: `thread.c` `pipeline_port_in_stats_read` and the other functions on one pipeline, when the
pipeline is not running
Kind: D -/
def direct (p : Pipeline (TableInfo τ)) : PipelineMsgReq τ → τ.L → τ.L × PipelineMsgRsp τ
  | .portInStatsRead id clear, l => reads (lib.portInStatsRead p.p id clear l)
  | .portInEnable id, l => returns (lib.portInEnable p.p id l)
  | .portInDisable id, l => returns (lib.portInDisable p.p id l)
  | .portOutStatsRead id clear, l => reads (lib.portOutStatsRead p.p id clear l)
  | .tableStatsRead id clear, l => reads (lib.tableStatsRead p.p id clear l)
  | .tableRuleAdd id m action, l => entryAdd lib p.p id (p.table[id]?.bind Table.a) m action l
  | .tableRuleAddDefault id fwd, l => defaultEntryAdd lib p.p id fwd l
  | .tableRuleAddBulk id list bulk, l =>
    match bulkAddLl lib p.p id (p.table[id]?.bind Table.a) list bulk l with
    | .error status => (l, ⟨status, .nothing⟩)
    | .ok (n, list, l) => (l, ⟨0, .bulk n list⟩)
  | .tableRuleDelete id m, l => entryDelete lib p.p id m l
  | .tableRuleDeleteDefault id, l => returns (lib.tableDefaultEntryDelete p.p id l)
  | .tableRuleStatsRead id data clear, l =>
    reads (lib.statsRead (p.table[id]?.bind Table.a) data clear l)
  | .tableMtrProfileAdd id meterProfileId profile, l =>
    returns (lib.meterProfileAdd (p.table[id]?.bind Table.a) meterProfileId profile l)
  | .tableMtrProfileDelete id meterProfileId, l =>
    returns (lib.meterProfileDelete (p.table[id]?.bind Table.a) meterProfileId l)
  | .tableRuleMtrRead id data tcMask clear, l =>
    reads (lib.meterRead (p.table[id]?.bind Table.a) data tcMask clear l)
  | .tableDscpTableUpdate id dscpMask dscpTable, l =>
    returns (lib.dscpTableUpdate (p.table[id]?.bind Table.a) dscpMask dscpTable l)
  | .tableRuleTtlRead id data clear, l =>
    reads (lib.ttlRead (p.table[id]?.bind Table.a) data clear l)
  | .tableRuleTimeRead id data, l => reads (lib.timeRead (p.table[id]?.bind Table.a) data l)

/-- The handler of a data plane thread calls the library: the action object is that of the entry.
Source: `thread.c` `pipeline_msg_handle`, `pipeline_msg_handle_port_in_stats_read` and the other
handlers
Kind: D -/
def pipelineMsgHandle (p : PipelineConf) : PipelineMsgReq τ → τ.L → τ.L × PipelineMsgRsp τ
  | .portInStatsRead id clear, l => reads (lib.portInStatsRead p.p id clear l)
  | .portInEnable id, l => returns (lib.portInEnable p.p id l)
  | .portInDisable id, l => returns (lib.portInDisable p.p id l)
  | .portOutStatsRead id clear, l => reads (lib.portOutStatsRead p.p id clear l)
  | .tableStatsRead id clear, l => reads (lib.tableStatsRead p.p id clear l)
  | .tableRuleAdd id m action, l => entryAdd lib p.p id (p.tableAction id) m action l
  | .tableRuleAddDefault id fwd, l => defaultEntryAdd lib p.p id fwd l
  | .tableRuleAddBulk id list bulk, l =>
    match bulkAddLl lib p.p id (p.tableAction id) list bulk l with
    | .error _ => (l, ⟨-1, .bulk 0 list⟩)
    | .ok (n, list, l) => (l, ⟨0, .bulk n list⟩)
  | .tableRuleDelete id m, l => entryDelete lib p.p id m l
  | .tableRuleDeleteDefault id, l => returns (lib.tableDefaultEntryDelete p.p id l)
  | .tableRuleStatsRead id data clear, l => reads (lib.statsRead (p.tableAction id) data clear l)
  | .tableMtrProfileAdd id meterProfileId profile, l =>
    returns (lib.meterProfileAdd (p.tableAction id) meterProfileId profile l)
  | .tableMtrProfileDelete id meterProfileId, l =>
    returns (lib.meterProfileDelete (p.tableAction id) meterProfileId l)
  | .tableRuleMtrRead id data tcMask clear, l =>
    reads (lib.meterRead (p.tableAction id) data tcMask clear l)
  | .tableDscpTableUpdate id dscpMask dscpTable, l =>
    returns (lib.dscpTableUpdate (p.tableAction id) dscpMask dscpTable l)
  | .tableRuleTtlRead id data clear, l => reads (lib.ttlRead (p.tableAction id) data clear l)
  | .tableRuleTimeRead id data, l => reads (lib.timeRead (p.tableAction id) data l)

/-! ### What is done with a response -/

/-- A table of which the rules change.
Source: `thread.c`, `table_rule_add`, `table_rule_add_bulk`, `table_rule_delete` of a call
Kind: D -/
def TableInfo.setRules (t : TableInfo τ) (rules : List (Rule τ)) : TableInfo τ :=
  { t with rules := rules }

/-- The library writes through the pointer of the caller, which no status guards.
Source: `thread.c` `pipeline_port_in_stats_read` and the other reads, the pipeline not running
Kind: D -/
def directCounters (r : PipelineMsgRsp τ) : Written τ.N :=
  match r.body with
  | .counters (some n) => .counters n
  | _ => .nothing

/-- When the status is zero, the counters of the response are copied, whether written or not.
Source: `thread.c` `pipeline_port_in_stats_read` and the other reads, `Read response`
Kind: D -/
def rspCounters (r : PipelineMsgRsp τ) : Written τ.N :=
  if r.status = 0 then
    match r.body with
    | .counters (some n) => .counters n
    | .counters none => .stale
    | _ => .nothing
  else .nothing

/-- A call that changes its table when the status is zero. -/
def writeTable (p : Pipeline (TableInfo τ)) (tableId : ℕ) (r : PipelineMsgRsp τ)
    (write : TableInfo τ → RspBody τ → Option (TableInfo τ)) : Option (ℕ × TableInfo τ) :=
  if r.status ≠ 0 then none
  else
    match p.table[tableId]? with
    | none => none
    | some t => (write t.rest r.body).map (tableId, ·)

/-- What is written to a table, and the result; `counters` is what a read writes. -/
def completeWith (counters : PipelineMsgRsp τ → Written τ.N) (p : Pipeline (TableInfo τ))
    (req : Request τ) (r : PipelineMsgRsp τ) : Option (ℕ × TableInfo τ) × Result τ.N :=
  match req with
  | .ruleAdd tableId m action =>
    (writeTable p tableId r fun t body =>
      match body with
      | .data d => some (t.setRules (tableRuleAdd t.rules ⟨m, action, d⟩))
      | _ => none,
      ⟨r.status, .nothing⟩)
  | .ruleAddDefault tableId action =>
    (writeTable p tableId r fun t body =>
      match body, action.fwd with
      | .data d, some fwd => some { t with ruleDefault := some (fwd, d) }
      | _, _ => none,
      ⟨r.status, .nothing⟩)
  | .ruleAddBulk tableId _ =>
    match r.body, p.table[tableId]? with
    | .bulk n list, some t =>
      if r.status = 0 then
        let (rules, rest) := Rids.Pipeline.RuleList.tableRuleAddBulk t.rest.rules list n
        (some (tableId, t.rest.setRules rules), ⟨r.status, .added n rest.length⟩)
      else (none, ⟨r.status, .nothing⟩)
    | _, _ => (none, ⟨r.status, .nothing⟩)
  | .ruleDelete tableId m =>
    (writeTable p tableId r fun t _ => some (t.setRules (tableRuleDelete t.rules m)),
      ⟨r.status, .nothing⟩)
  | .ruleDeleteDefault tableId =>
    (writeTable p tableId r fun t _ => some { t with ruleDefault := none }, ⟨r.status, .nothing⟩)
  | _ => (none, ⟨r.status, counters r⟩)

/-- Source: `thread.c` `pipeline_port_in_stats_read` and the other functions on one pipeline, the
pipeline not running, from the call into the library on
Kind: D -/
def completeDirect : Pipeline (TableInfo τ) → Request τ → PipelineMsgRsp τ →
    Option (ℕ × TableInfo τ) × Result τ.N :=
  completeWith directCounters

/-- Source: `thread.c` `pipeline_port_in_stats_read` and the other functions on one pipeline, from
`Read response` on
Kind: D -/
def complete : Pipeline (TableInfo τ) → Request τ → PipelineMsgRsp τ →
    Option (ℕ × TableInfo τ) × Result τ.N :=
  completeWith rspCounters

/-- The functions on one pipeline, as the system calls them. -/
def requestApi (tscHz : ℕ) (worker : ℕ → Bool) :
    Api τ.L (TableInfo τ) (PipelineMsgReq τ) (PipelineMsgRsp τ) (Request τ) (Result τ.N) where
  tscHz := tscHz
  worker := worker
  run := lib.run
  flush := lib.flush
  prepare := prepare
  direct := direct lib
  handle := pipelineMsgHandle lib
  completeDirect := completeDirect
  complete := complete
  notFound
    | .ruleAddBulk _ _ => ⟨-22, .nothing⟩
    | _ => ⟨-1, .nothing⟩

/-! ### The two ways agree -/

section Agree

variable {lib} {p : Pipeline (TableInfo τ)}

/-- The table that a request is about. -/
def PipelineMsgReq.tableId : PipelineMsgReq τ → Option ℕ
  | portInStatsRead _ _ => none
  | portInEnable _ => none
  | portInDisable _ => none
  | portOutStatsRead _ _ => none
  | tableStatsRead id _ => some id
  | tableRuleAdd id _ _ => some id
  | tableRuleAddDefault id _ => some id
  | tableRuleAddBulk id _ _ => some id
  | tableRuleDelete id _ => some id
  | tableRuleDeleteDefault id => some id
  | tableRuleStatsRead id _ _ => some id
  | tableMtrProfileAdd id _ _ => some id
  | tableMtrProfileDelete id _ => some id
  | tableRuleMtrRead id _ _ _ => some id
  | tableDscpTableUpdate id _ _ => some id
  | tableRuleTtlRead id _ _ => some id
  | tableRuleTimeRead id _ => some id

/-- A check passes exactly when its condition holds. -/
theorem check_eq_ok {ok : Bool} {status : Int} {u : Unit} :
    (check ok status : Except (Result τ.N) Unit) = .ok u ↔ ok = true := by
  cases ok <;> simp [check]

/-- A table that is found is one of the pipeline. -/
theorem tableOf_eq_ok {tableId : ℕ} {t : TableInfo τ} (h : tableOf p tableId = .ok t) :
    tableId < p.table.length := by
  unfold tableOf at h
  cases hget : p.table[tableId]? with
  | none => simp [hget] at h
  | some t' => exact (List.getElem?_eq_some_iff.mp hget).1

/-- A bind returns when both its parts do. -/
theorem bind_eq_ok {ε α β : Type} {x : Except ε α} {f : α → Except ε β} {b : β} :
    x >>= f = .ok b ↔ ∃ a, x = .ok a ∧ f a = .ok b := by
  cases x with
  | error e => simp [bind, Except.bind]
  | ok a => simp [bind, Except.bind]

/-- The request is about the table of the call, and the table is there. -/
theorem prepare_tableId {c : Request τ} {q : PipelineMsgReq τ} (h : prepare p c = .ok q) :
    ∀ id, q.tableId = some id → id < p.table.length := by
  cases c with
  | portInStatsRead portId clear =>
    obtain ⟨_, -, ⟨⟩⟩ := bind_eq_ok.mp h
    exact nofun
  | portInEnable portId =>
    obtain ⟨_, -, ⟨⟩⟩ := bind_eq_ok.mp h
    exact nofun
  | portInDisable portId =>
    obtain ⟨_, -, ⟨⟩⟩ := bind_eq_ok.mp h
    exact nofun
  | portOutStatsRead portId clear =>
    obtain ⟨_, -, ⟨⟩⟩ := bind_eq_ok.mp h
    exact nofun
  | tableStatsRead tableId clear =>
    obtain ⟨t, ht, ⟨⟩⟩ := bind_eq_ok.mp h
    rintro id ⟨⟩
    exact tableOf_eq_ok ht
  | ruleAdd tableId m action =>
    obtain ⟨t, ht, h⟩ := bind_eq_ok.mp h
    obtain ⟨_, -, h⟩ := bind_eq_ok.mp h
    obtain ⟨_, -, ⟨⟩⟩ := bind_eq_ok.mp h
    rintro id ⟨⟩
    exact tableOf_eq_ok ht
  | ruleAddDefault tableId action =>
    obtain ⟨t, ht, h⟩ := bind_eq_ok.mp h
    cases hfwd : actionDefaultCheck p.nPortsOut p.table.length action with
    | none => simp [hfwd] at h
    | some fwd =>
      simp only [hfwd] at h
      cases h
      rintro id ⟨⟩
      exact tableOf_eq_ok ht
  | ruleAddBulk tableId list =>
    obtain ⟨_, -, h⟩ := bind_eq_ok.mp h
    cases hget : p.table[tableId]? with
    | none => simp [hget] at h
    | some t =>
      simp only [hget] at h
      obtain ⟨_, -, ⟨⟩⟩ := bind_eq_ok.mp h
      rintro id ⟨⟩
      exact (List.getElem?_eq_some_iff.mp hget).1
  | ruleDelete tableId m =>
    obtain ⟨t, ht, h⟩ := bind_eq_ok.mp h
    obtain ⟨_, -, ⟨⟩⟩ := bind_eq_ok.mp h
    rintro id ⟨⟩
    exact tableOf_eq_ok ht
  | ruleDeleteDefault tableId =>
    obtain ⟨t, ht, ⟨⟩⟩ := bind_eq_ok.mp h
    rintro id ⟨⟩
    exact tableOf_eq_ok ht
  | ruleStatsRead tableId m clear =>
    obtain ⟨t, ht, h⟩ := bind_eq_ok.mp h
    obtain ⟨_, -, h⟩ := bind_eq_ok.mp h
    obtain ⟨_, -, ⟨⟩⟩ := bind_eq_ok.mp h
    rintro id ⟨⟩
    exact tableOf_eq_ok ht
  | mtrProfileAdd tableId id profile =>
    obtain ⟨t, ht, ⟨⟩⟩ := bind_eq_ok.mp h
    rintro id ⟨⟩
    exact tableOf_eq_ok ht
  | mtrProfileDelete tableId id =>
    obtain ⟨t, ht, ⟨⟩⟩ := bind_eq_ok.mp h
    rintro id ⟨⟩
    exact tableOf_eq_ok ht
  | ruleMtrRead tableId m clear =>
    obtain ⟨t, ht, h⟩ := bind_eq_ok.mp h
    obtain ⟨_, -, h⟩ := bind_eq_ok.mp h
    obtain ⟨_, -, ⟨⟩⟩ := bind_eq_ok.mp h
    rintro id ⟨⟩
    exact tableOf_eq_ok ht
  | dscpTableUpdate tableId dscpMask dscpTable =>
    obtain ⟨t, ht, ⟨⟩⟩ := bind_eq_ok.mp h
    rintro id ⟨⟩
    exact tableOf_eq_ok ht
  | ruleTtlRead tableId m clear =>
    obtain ⟨t, ht, h⟩ := bind_eq_ok.mp h
    obtain ⟨_, -, h⟩ := bind_eq_ok.mp h
    obtain ⟨_, -, h⟩ := bind_eq_ok.mp h
    obtain ⟨_, -, ⟨⟩⟩ := bind_eq_ok.mp h
    rintro id ⟨⟩
    exact tableOf_eq_ok ht
  | ruleTimeRead tableId m =>
    obtain ⟨t, ht, h⟩ := bind_eq_ok.mp h
    obtain ⟨_, -, h⟩ := bind_eq_ok.mp h
    obtain ⟨_, -, ⟨⟩⟩ := bind_eq_ok.mp h
    rintro id ⟨⟩
    exact tableOf_eq_ok ht

/-- A request that is no bulk is handled as it is called directly. -/
theorem pipelineMsgHandle_eq_direct {conf : PipelineConf} {q : PipelineMsgReq τ}
    (hp : conf.p = p.p)
    (ha : ∀ id, q.tableId = some id → conf.tableAction id = p.table[id]?.bind Table.a)
    (hbulk : ∀ id list bulk, q ≠ .tableRuleAddBulk id list bulk) (l : τ.L) :
    pipelineMsgHandle lib conf q l = direct lib p q l := by
  cases q with
  | tableRuleAddBulk id list bulk => exact absurd rfl (hbulk id list bulk)
  | portInStatsRead id clear => simp only [pipelineMsgHandle, direct, hp]
  | portInEnable id => simp only [pipelineMsgHandle, direct, hp]
  | portInDisable id => simp only [pipelineMsgHandle, direct, hp]
  | portOutStatsRead id clear => simp only [pipelineMsgHandle, direct, hp]
  | tableStatsRead id clear => simp only [pipelineMsgHandle, direct, hp]
  | tableRuleAdd id m action => simp only [pipelineMsgHandle, direct, hp, ha id rfl]
  | tableRuleAddDefault id fwd => simp only [pipelineMsgHandle, direct, hp]
  | tableRuleDelete id m => simp only [pipelineMsgHandle, direct, hp]
  | tableRuleDeleteDefault id => simp only [pipelineMsgHandle, direct, hp]
  | tableRuleStatsRead id data clear => simp only [pipelineMsgHandle, direct, ha id rfl]
  | tableMtrProfileAdd id i profile => simp only [pipelineMsgHandle, direct, ha id rfl]
  | tableMtrProfileDelete id i => simp only [pipelineMsgHandle, direct, ha id rfl]
  | tableRuleMtrRead id data tcMask clear => simp only [pipelineMsgHandle, direct, ha id rfl]
  | tableDscpTableUpdate id dscpMask dscpTable => simp only [pipelineMsgHandle, direct, ha id rfl]
  | tableRuleTtlRead id data clear => simp only [pipelineMsgHandle, direct, ha id rfl]
  | tableRuleTimeRead id data => simp only [pipelineMsgHandle, direct, ha id rfl]

/-- What is written to a table does not depend on the way. -/
theorem completeDirect_fst (req : Request τ) (r : PipelineMsgRsp τ) :
    (completeDirect p req r).1 = (complete p req r).1 := by
  cases req <;> rfl

/-- A response with a non-zero status changes nothing and writes nothing, whatever it carries. -/
theorem complete_of_status_ne {r : PipelineMsgRsp τ} (hr : r.status ≠ 0) (req : Request τ) :
    (complete p req r).1 = none ∧ (complete p req r).2.view = (false, .nothing) := by
  have htable (tableId : ℕ) (write : TableInfo τ → RspBody τ → Option (TableInfo τ)) :
      writeTable p tableId r write = none := if_pos hr
  have hread : (⟨r.status, rspCounters r⟩ : Result τ.N).view = (false, .nothing) := by
    simp [Result.view, rspCounters, hr]
  cases req with
  | ruleAdd tableId m action => simp [complete, completeWith, htable, Result.view, hr]
  | ruleAddDefault tableId action => simp [complete, completeWith, htable, Result.view, hr]
  | ruleDelete tableId m => simp [complete, completeWith, htable, Result.view, hr]
  | ruleDeleteDefault tableId => simp [complete, completeWith, htable, Result.view, hr]
  | ruleAddBulk tableId list =>
    unfold complete completeWith
    dsimp only
    split
    · simp [Result.view, hr]
    · simp [Result.view, hr]
  | _ => exact ⟨rfl, hread⟩

/-- The counters of a direct call are those of a read. -/
theorem isRead_of_direct {q : PipelineMsgReq τ} {l : τ.L} {n : Option τ.N}
    (h : (direct lib p q l).2.body = .counters n) :
    ∃ r, lib.IsRead r ∧ (direct lib p q l).2 = ⟨r.2.1, .counters r.2.2⟩ := by
  cases q with
  | portInStatsRead id clear => exact ⟨_, .portIn p.p id clear l, rfl⟩
  | portOutStatsRead id clear => exact ⟨_, .portOut p.p id clear l, rfl⟩
  | tableStatsRead id clear => exact ⟨_, .table p.p id clear l, rfl⟩
  | tableRuleStatsRead id data clear => exact ⟨_, .stats _ data clear l, rfl⟩
  | tableRuleMtrRead id data tcMask clear => exact ⟨_, .meter _ data tcMask clear l, rfl⟩
  | tableRuleTtlRead id data clear => exact ⟨_, .ttl _ data clear l, rfl⟩
  | tableRuleTimeRead id data => exact ⟨_, .time _ data l, rfl⟩
  | tableRuleAdd id m action =>
    simp only [direct, entryAdd, fails] at h
    split at h
    · cases h
    · split at h
      · cases h
      · split at h <;> cases h
  | tableRuleAddDefault id fwd =>
    simp only [direct, defaultEntryAdd, fails] at h
    split at h <;> cases h
  | tableRuleAddBulk id list bulk =>
    simp only [direct] at h
    split at h <;> cases h
  | tableRuleDelete id m =>
    simp only [direct, entryDelete, fails, returns] at h
    split at h <;> cases h
  | portInEnable id => cases h
  | portInDisable id => cases h
  | tableRuleDeleteDefault id => cases h
  | tableMtrProfileAdd id i profile => cases h
  | tableMtrProfileDelete id i => cases h
  | tableDscpTableUpdate id dscpMask dscpTable => cases h

/-- What the library has written is what is copied, when a read that fails writes nothing. -/
theorem directCounters_eq_rspCounters (hreads : lib.ReadsWriteOnSuccess)
    (q : PipelineMsgReq τ) (l : τ.L) :
    directCounters (direct lib p q l).2 = rspCounters (direct lib p q l).2 := by
  rcases hbody : (direct lib p q l).2.body with _ | n | d | ⟨k, list⟩
  · simp [directCounters, rspCounters, hbody]
  · obtain ⟨⟨l', status, written⟩, hread, heq⟩ := isRead_of_direct hbody
    have hwrites := hreads _ hread
    rw [heq]
    rcases written with _ | n
    · have hfails : status ≠ 0 := fun h => absurd (hwrites.mp h) Bool.false_ne_true
      exact (if_neg hfails).symm
    · exact (if_pos (hwrites.mpr rfl)).symm
  · simp [directCounters, rspCounters, hbody]
  · simp [directCounters, rspCounters, hbody]

/-- **A direct call returns what a response would.** -/
theorem completeDirect_eq_complete (hreads : lib.ReadsWriteOnSuccess) (req : Request τ)
    (q : PipelineMsgReq τ) (l : τ.L) :
    completeDirect p req (direct lib p q l).2 = complete p req (direct lib p q l).2 := by
  have hcounters := directCounters_eq_rspCounters (p := p) hreads q l
  cases req with
  | ruleAdd tableId m action => rfl
  | ruleAddDefault tableId action => rfl
  | ruleAddBulk tableId list => rfl
  | ruleDelete tableId m => rfl
  | ruleDeleteDefault tableId => rfl
  | _ => exact congrArg (fun w => (none, Result.mk _ w)) hcounters

/-- The handler and the direct call leave the same library and give the same response, or both fail
and leave the library as it was. -/
theorem handle_cases {conf : PipelineConf} {q : PipelineMsgReq τ} (hp : conf.p = p.p)
    (ha : ∀ id, q.tableId = some id → conf.tableAction id = p.table[id]?.bind Table.a) (l : τ.L) :
    pipelineMsgHandle lib conf q l = direct lib p q l ∨
      (pipelineMsgHandle lib conf q l).1 = l ∧ (direct lib p q l).1 = l ∧
        (pipelineMsgHandle lib conf q l).2.status ≠ 0 ∧ (direct lib p q l).2.status ≠ 0 := by
  by_cases hbulk : ∃ id list bulk, q = .tableRuleAddBulk id list bulk
  · obtain ⟨id, list, bulk, rfl⟩ := hbulk
    have haction := ha id rfl
    simp only [pipelineMsgHandle, direct, hp, haction]
    cases bulkAddLl lib p.p id (p.table[id]?.bind Table.a) list bulk l with
    | error status => exact .inr ⟨rfl, rfl, by simp, status.2⟩
    | ok result => exact .inl rfl
  · left
    apply pipelineMsgHandle_eq_direct hp ha
    intro id list bulk hq
    exact hbulk ⟨id, list, bulk, hq⟩

/-- Of an entry that knows all tables of its pipeline, the handler and the direct call agree. -/
theorem handle_cases_of_serves {c : Request τ} {q : PipelineMsgReq τ} {conf : PipelineConf}
    (hprepare : prepare p c = .ok q) (hp : conf.p = p.p) (hserves : Serves True conf p) (l : τ.L) :
    pipelineMsgHandle lib conf q l = direct lib p q l ∨
      (pipelineMsgHandle lib conf q l).1 = l ∧ (direct lib p q l).1 = l ∧
        (pipelineMsgHandle lib conf q l).2.status ≠ 0 ∧ (direct lib p q l).2.status ≠ 0 := by
  apply handle_cases hp
  intro id hid
  apply hserves.tableAction
  rw [hserves.knows trivial]
  exact prepare_tableId hprepare id hid

/-- The two ways agree in what they do to the library and to the tables; what they return is left
to `view`. -/
theorem requests_agree_of (view : Result τ.N → W) (lib : Library τ) (tscHz : ℕ) (worker : ℕ → Bool)
    (hvalue : ∀ p c q conf l, prepare p c = .ok q → conf.p = p.p → Serves True conf p →
      view (complete p c (pipelineMsgHandle lib conf q l).2).2 =
        view (completeDirect p c (direct lib p q l).2).2) :
    (requestApi lib tscHz worker).Agrees view := by
  refine ⟨?_, ?_, hvalue⟩
  · intro p c q conf l hprepare hp hserves
    rcases handle_cases_of_serves hprepare hp hserves l with heq | ⟨hhandle, hdirect, -, -⟩
    · exact congrArg Prod.fst heq
    · exact hhandle.trans hdirect.symm
  · intro p c q conf l hprepare hp hserves
    refine Eq.trans ?_ (completeDirect_fst c _).symm
    rcases handle_cases_of_serves hprepare hp hserves l with heq | ⟨-, -, hhandle, hdirect⟩
    · exact congrArg (fun r => (complete p c r.2).1) heq
    · exact (complete_of_status_ne hhandle c).1.trans (complete_of_status_ne hdirect c).1.symm

/-- **The two ways agree.** For an entry that knows all tables of its pipeline, a request that is
handled by the data plane thread has the effect on the library, on the rules of the pipeline and on
what the caller looks at, that the direct call has. A direct read hands the pointer of its caller to
the library, so this takes a library of which a read that fails writes nothing. -/
theorem requests_agree {lib : Library τ} (hreads : lib.ReadsWriteOnSuccess) (tscHz : ℕ)
    (worker : ℕ → Bool) : (requestApi lib tscHz worker).Agrees Result.view := by
  apply requests_agree_of
  intro p c q conf l hprepare hp hserves
  rw [completeDirect_eq_complete hreads]
  rcases handle_cases_of_serves hprepare hp hserves l with heq | ⟨-, -, hhandle, hdirect⟩
  · exact congrArg (fun r => (complete p c r.2).2.view) heq
  · exact (complete_of_status_ne hhandle c).2.trans (complete_of_status_ne hdirect c).2.symm

end Agree

/-- **The functions of `thread.c`.** For every run in which no table is created on an enabled
pipeline there is one run of the system without messages, where each function calls the library at
once, that matches it in every state: the calls have the same effects on the library and on the
rules of the pipelines, their statuses are zero together, and they write the same for their callers;
nothing else is created or launched there. The library writes no counters when a read fails. -/
theorem requests_linearizable (lib : Library τ) (hreads : lib.ReadsWriteOnSuccess) (tscHz : ℕ)
    (worker : ℕ → Bool) (now : ℕ → ℕ) (l : τ.L)
    (xs : List (Event τ.L (TableInfo τ) (Request τ)))
    (hspares : AllSafe (system (requestApi lib tscHz worker)).step System.Spares
      (System.init (requestApi lib tscHz worker) now l) xs) :
    ∃ ess : List (List (AtomicEvent τ.L (TableInfo τ) (Request τ))), ess.length = xs.length ∧
      ∀ k, Matches (requestApi lib tscHz worker) Result.view now l (ess.take k).flatten
        (xs.take k) :=
  linearizable (requests_agree hreads tscHz worker) now l xs hspares

/-- A library without state of which every function succeeds. -/
def unitLibrary : Library ⟨Unit, Unit, Unit, Unit, Unit, Unit, Unit⟩ where
  run _ l := l
  flush _ l := l
  portInStatsRead _ _ _ l := (l, 0, some ())
  portInEnable _ _ l := (l, 0)
  portInDisable _ _ l := (l, 0)
  portOutStatsRead _ _ _ l := (l, 0, some ())
  tableStatsRead _ _ _ l := (l, 0, some ())
  zeroEntry := ()
  actionApply _ _ _ e := .ok e
  tableEntryAdd _ _ := {
    add := fun l _ => .ok (l, ())
    addBulk := fun l entries => .ok (l, entries.map fun _ => ())
    addBulk_length := by
      rintro l entries l' ds ⟨⟩
      exact List.length_map _ }
  tableEntryDelete _ _ _ l := (l, 0)
  tableDefaultEntryAdd _ _ _ l := .ok (l, ())
  tableDefaultEntryDelete _ _ l := (l, 0)
  statsRead _ _ _ l := (l, 0, some ())
  meterProfileAdd _ _ _ l := (l, 0)
  meterProfileDelete _ _ l := (l, 0)
  meterRead _ _ _ _ l := (l, 0, some ())
  dscpTableUpdate _ _ _ l := (l, 0)
  ttlRead _ _ _ l := (l, 0, some ())
  timeRead _ _ l := (l, 0, some ())

/-- A pipeline with an array table is created and enabled, and a rule is added that drops. -/
def unitRun : List (Event Unit (TableInfo ⟨Unit, Unit, Unit, Unit, Unit, Unit, Unit⟩)
    (Request ⟨Unit, Unit, Unit, Unit, Unit, Unit, Unit⟩)) :=
  [.create (.pipeline "PIPELINE0" 1) id, .create (.portIn "PIPELINE0") id,
    .create (.portOut "PIPELINE0") id,
    .create (.table "PIPELINE0"
      ⟨some 0, ⟨.array, ⟨true :: List.replicate 11 false, true, 0, 0, 0, [], true, true⟩, true, [],
        none⟩⟩) id,
    .call 0 (.thread (.enable 1 "PIPELINE0")), .launch 1,
    .call 0 (.pipeline "PIPELINE0" (.ruleAdd 0 ⟨.array, fun _ => 0⟩
      ⟨some .drop, none, none, none, none, none, none, false, false, none, none, none⟩)),
    .main, .thread 1 100, .thread 1 100, .thread 1 100, .thread 1 100, .main]

/-- Its reads all write. -/
theorem unitLibrary_reads : unitLibrary.ReadsWriteOnSuccess := by
  intro r hread
  cases hread <;> exact iff_of_true rfl rfl

/-- A run with a library that never fails. -/
theorem requests_linearizable_unitRun :
    ∃ ess : List (List (AtomicEvent Unit (TableInfo ⟨Unit, Unit, Unit, Unit, Unit, Unit, Unit⟩)
        (Request ⟨Unit, Unit, Unit, Unit, Unit, Unit, Unit⟩))), ess.length = unitRun.length ∧
      ∀ k, Matches (requestApi unitLibrary 1000 fun _ => true) Result.view (fun _ => 0) ()
        (ess.take k).flatten (unitRun.take k) := by
  apply requests_linearizable unitLibrary unitLibrary_reads 1000 (fun _ => true) (fun _ => 0) ()
    unitRun
  have htable : ∀ p, pipelineFind ((system (requestApi unitLibrary 1000 fun _ => true)).run
      (System.init (requestApi unitLibrary 1000 fun _ => true) (fun _ => 0) ())
        (unitRun.take 3)).pipelines "PIPELINE0" = some p → p.enabled = false := by
    rintro p ⟨⟩
    rfl
  simp only [unitRun, allSafe_cons]
  refine ⟨trivial, trivial, trivial, htable, ?_⟩
  simp only [System.Spares, true_and]
  intro pre x post hsplit
  simp at hsplit

end Rids.Threads
