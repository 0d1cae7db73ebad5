import Rids.Lib.KeyedList
import Rids.Lib.SlotMachine
import Rids.Threads.DispatchLoop

/-!
# The main thread and the system (`thread.c`, `pipeline.c`)

The main thread executes its calls one after the other. A pipeline that is enabled on a running
data plane thread is out of its reach: the main thread sends a request over a ring and polls another
ring for the response, while the data plane threads go round their dispatch loops.

* `threadPipelineEnable`, `threadPipelineDisable`, `pipelineCall` — the calls, as far as the main
  thread comes without a response.
* `stepOut`, `system` — the system: one event is one step of one thread; a call that ends gives its
  outcome.
-/

namespace Rids.Threads

open Rids.Lib Rids.Lib.Mailbox Rids.Lib.SlotMachine

/-- Source: `rte_config.h` `RTE_MAX_LCORE`, the bound of the arrays of `thread.c`. Kind: D -/
def rteMaxLcore : ℕ := 128

/-- Source: `rte_pipeline.h` `RTE_PIPELINE_TABLE_MAX`. Kind: D -/
def rtePipelineTableMax : ℕ := 64

/-! ### Calls -/

/-- A call that maps a pipeline to a data plane thread, or takes it off. -/
inductive ThreadCall
  | enable (threadId : ℕ) (pipelineName : String)
  | disable (threadId : ℕ) (pipelineName : String)

def ThreadCall.threadId : ThreadCall → ℕ
  | enable threadId _ => threadId
  | disable threadId _ => threadId

def ThreadCall.pipelineName : ThreadCall → String
  | enable _ pipelineName => pipelineName
  | disable _ pipelineName => pipelineName

/-- A call of the main thread. -/
inductive Call (C : Type)
  | thread (call : ThreadCall)
  | pipeline (pipelineName : String) (c : C)

/-- What a call returns: a status, or what a call on a pipeline returns. -/
inductive Outcome (V : Type)
  | status (status : Int)
  | value (v : V)

/-- Where the main thread is: between two calls, or in one of the two loops of
`thread_msg_send_recv` or of `pipeline_msg_send_recv`. -/
inductive Main (Q C : Type)
  | idle
  | threadSend (call : ThreadCall) (req : ThreadReq)
  | threadRecv (call : ThreadCall)
  | pipelineSend (pipelineName : String) (c : C) (msgq : ℕ) (req : Q)
  | pipelineRecv (pipelineName : String) (c : C) (msgq : ℕ)

/-- The state of the system. -/
structure System (L T Q R C : Type) extends DataPlane L Q R where
  pipelines : List (Pipeline T)
  main : Main Q C

section Main

variable {L T Q R C V : Type}

/-- Source: `pipeline.c` `pipeline_find`. Kind: D -/
def pipelineFind (pipelines : List (Pipeline T)) (name : String) : Option (Pipeline T) :=
  KeyedList.find Pipeline.name pipelines name

/-- What the main thread writes to the pipeline, once it is mapped to a thread. -/
def Pipeline.enable (p : Pipeline T) (threadId : ℕ) : Pipeline T :=
  { p with threadId := threadId, enabled := true }

def Pipeline.disable (p : Pipeline T) : Pipeline T := { p with enabled := false }

/-- What a call has to write to a table. -/
def Pipeline.writeTable (p : Pipeline T) : Option (ℕ × T) → Pipeline T
  | none => p
  | some (id, rest) => { p with table := p.table.modify id fun t => { t with rest := rest } }

/-- The pipeline, written at its place in `pipeline_list`. -/
def System.put (s : System L T Q R C) (p : Pipeline T) : System L T Q R C :=
  { s with pipelines := KeyedList.put Pipeline.name p s.pipelines }

def System.setData (s : System L T Q R C) (tid : ℕ) (t : ThreadData) : System L T Q R C :=
  { s with threads := Function.update s.threads tid ((s.threads tid).setData t) }

/-- Source: `thread.c` `pipeline_is_running`. Kind: D -/
def System.pipelineIsRunning (s : System L T Q R C) (p : Pipeline T) : Bool :=
  p.enabled && s.running p.threadId

/-- The state, and the status when the call ends without a response.
Source: `thread.c` `thread_pipeline_enable`
Kind: D -/
def threadPipelineEnable (api : Api L T Q R C V) (s : System L T Q R C) (now threadId : ℕ)
    (name : String) : System L T Q R C × Option Int :=
  match pipelineFind s.pipelines name with
  | none => (s, some (-1))
  | some p =>
    if rteMaxLcore ≤ threadId ∨ p.nPortsIn = 0 ∨ p.nPortsOut = 0 ∨ p.table.length = 0 then
      (s, some (-1))
    else if !api.worker threadId || p.enabled then (s, some (-1))
    else if !s.running threadId then
      let t := (s.threads threadId).data
      if threadPipelinesMax ≤ t.nPipelines then (s, some (-1))
      else
        ((s.setData threadId (t.install api.tscHz now p.enableReq)).put (p.enable threadId), some 0)
    else ({ s with main := .threadSend (.enable threadId name) (.enable p.enableReq) }, none)

/-- The state, and the status when the call ends without a response.
Source: `thread.c` `thread_pipeline_disable`
Kind: D -/
def threadPipelineDisable (api : Api L T Q R C V) (s : System L T Q R C) (threadId : ℕ)
    (name : String) : System L T Q R C × Option Int :=
  match pipelineFind s.pipelines name with
  | none => (s, some (-1))
  | some p =>
    if rteMaxLcore ≤ threadId then (s, some (-1))
    else if !api.worker threadId then (s, some (-1))
    else if !p.enabled then (s, some 0)
    else if p.threadId ≠ threadId then (s, some (-1))
    else if !s.running threadId then
      match (s.threads threadId).data.findPipeline p.p with
      | some i =>
        ((s.setData threadId ((s.threads threadId).data.uninstall i)).put p.disable, some 0)
      | none => (s, some 0)
    else ({ s with main := .threadSend (.disable threadId name) (.disable p.p) }, none)

/-- The state, and the value when the call ends without a response.
Source: `thread.c` `pipeline_table_rule_add` and the other functions on one pipeline
Kind: D -/
def pipelineCall (api : Api L T Q R C V) (s : System L T Q R C) (name : String) (c : C) :
    System L T Q R C × Option V :=
  match pipelineFind s.pipelines name with
  | none => (s, some (api.notFound c))
  | some p =>
    match api.prepare p c with
    | .error v => (s, some v)
    | .ok q =>
      if !s.pipelineIsRunning p then
        let (lib, r) := api.direct p q s.lib
        let (write, v) := api.completeDirect p c r
        ({ s.put (p.writeTable write) with lib := lib }, some v)
      else ({ s with main := .pipelineSend name c p.msgq q }, none)

/-- The pipelines and the status, after the response.
Source: `thread.c` `thread_pipeline_enable`, `thread_pipeline_disable`, from `Read response` on
Kind: D -/
def threadResponse (pipelines : List (Pipeline T)) (call : ThreadCall) (status : Int) :
    List (Pipeline T) × Int :=
  if status ≠ 0 then (pipelines, status)
  else
    match pipelineFind pipelines call.pipelineName with
    | none => (pipelines, 0)
    | some p =>
      match call with
      | .enable threadId _ => (KeyedList.put Pipeline.name (p.enable threadId) pipelines, 0)
      | .disable _ _ => (KeyedList.put Pipeline.name p.disable pipelines, 0)

/-- The pipelines and the value, after the response.
Source: `thread.c` `pipeline_table_rule_add` and the others, from `Read response` on
Kind: D -/
def pipelineResponse (api : Api L T Q R C V) (pipelines : List (Pipeline T)) (name : String)
    (c : C) (r : R) : List (Pipeline T) × V :=
  match pipelineFind pipelines name with
  | none => (pipelines, api.notFound c)
  | some p =>
    let (write, v) := api.complete p c r
    (KeyedList.put Pipeline.name (p.writeTable write) pipelines, v)

/-! ### Creating pipelines, ports and tables -/

/-- What a command creates. -/
inductive Create (T : Type)
  | pipeline (name : String) (timerPeriodMs : ℕ)
  | portIn (pipelineName : String)
  | portOut (pipelineName : String)
  | table (pipelineName : String) (t : Table T)

/-- The pipelines afterwards. The library has no two pipelines and no two rings at one address: a
new pipeline gets a number that none has.
Source: `pipeline.c` `pipeline_create`, `pipeline_port_in_create`, `pipeline_port_out_create`,
`pipeline_table_create`
Kind: D -/
def Create.apply (pipelines : List (Pipeline T)) : Create T → List (Pipeline T)
  | .pipeline name timerPeriodMs =>
    if (pipelineFind pipelines name).isSome ∨ timerPeriodMs = 0 then pipelines
    else
      pipelines ++ [{
        name := name, p := pipelines.length, nPortsIn := 0, nPortsOut := 0, table := []
        msgq := pipelines.length, timerPeriodMs := timerPeriodMs, enabled := false, threadId := 0 }]
  | .portIn name =>
    match pipelineFind pipelines name with
    | none => pipelines
    | some p => KeyedList.put Pipeline.name { p with nPortsIn := p.nPortsIn + 1 } pipelines
  | .portOut name =>
    match pipelineFind pipelines name with
    | none => pipelines
    | some p => KeyedList.put Pipeline.name { p with nPortsOut := p.nPortsOut + 1 } pipelines
  | .table name t =>
    match pipelineFind pipelines name with
    | none => pipelines
    | some p =>
      if rtePipelineTableMax ≤ p.table.length then pipelines
      else KeyedList.put Pipeline.name { p with table := p.table ++ [t] } pipelines

/-! ### Steps -/

/-- A step of one thread: the main thread begins a call, or turns round in a loop over a ring, or
creates something, or launches a data plane thread; a data plane thread makes a step. `lib` is what
a creation does to the library. -/
inductive Event (L T C : Type)
  | call (now : ℕ) (call : Call C)
  | main
  | create (c : Create T) (lib : L → L)
  | launch (tid : ℕ)
  | thread (tid now : ℕ)

variable (api : Api L T Q R C V)

/-- The main thread begins a call. -/
def begin (s : System L T Q R C) (now : ℕ) : Call C → System L T Q R C × Option (Outcome V)
  | .thread (.enable threadId name) =>
    let (s, status) := threadPipelineEnable api s now threadId name
    (s, status.map .status)
  | .thread (.disable threadId name) =>
    let (s, status) := threadPipelineDisable api s threadId name
    (s, status.map .status)
  | .pipeline name c =>
    let (s, v) := pipelineCall api s name c
    (s, v.map .value)

/-- The main thread turns round in a loop over a ring.
Source: `thread.c` `thread_msg_send_recv`, `pipeline_msg_send_recv`
Kind: D -/
def turn (s : System L T Q R C) : System L T Q R C × Option (Call C × Outcome V) :=
  match s.main with
  | .idle => (s, none)
  | .threadSend call req =>
    if (s.threadMsgq call.threadId).req.length < ringCapacity then
      ({ s with
        threadMsgq := ask call.threadId req s.threadMsgq
        main := .threadRecv call }, none)
    else (s, none)
  | .threadRecv call =>
    match (s.threadMsgq call.threadId).rsp with
    | [] => (s, none)
    | status :: _ =>
      let (pipelines, status) := threadResponse s.pipelines call status
      ({ s with
        threadMsgq := receive call.threadId s.threadMsgq
        pipelines := pipelines
        main := .idle }, some (.thread call, .status status))
  | .pipelineSend name c msgq req =>
    if (s.pipelineMsgq msgq).req.length < ringCapacity then
      ({ s with
        pipelineMsgq := ask msgq req s.pipelineMsgq
        main := .pipelineRecv name c msgq }, none)
    else (s, none)
  | .pipelineRecv name c msgq =>
    match (s.pipelineMsgq msgq).rsp with
    | [] => (s, none)
    | r :: _ =>
      let (pipelines, v) := pipelineResponse api s.pipelines name c r
      ({ s with
        pipelineMsgq := receive msgq s.pipelineMsgq
        pipelines := pipelines
        main := .idle }, some (.pipeline name c, .value v))

/-- The next state, and the call that ends with its outcome. An event that cannot take place, a
call in the middle of another or a step of a thread that is not launched, does nothing. -/
def stepOut (s : System L T Q R C) :
    Event L T C → System L T Q R C × Option (Call C × Outcome V)
  | .call now call =>
    match s.main with
    | .idle =>
      let (s, outcome) := begin api s now call
      (s, outcome.map (call, ·))
    | _ => (s, none)
  | .main => turn api s
  | .create c lib =>
    match s.main with
    | .idle => ({ s with pipelines := c.apply s.pipelines, lib := lib s.lib }, none)
    | _ => (s, none)
  | .launch tid =>
    match s.main with
    | .idle =>
      if api.worker tid then ({ s with running := Function.update s.running tid true }, none)
      else (s, none)
    | _ => (s, none)
  | .thread tid now =>
    if s.running tid then ({ s with toDataPlane := dispatch api s.toDataPlane tid now }, none)
    else (s, none)

/-- The system as a machine. -/
def system : Machine (System L T Q R C) (Event L T C) (Option (Call C × Outcome V)) where
  step s e := (stepOut api s e).1
  out s e := (stepOut api s e).2

/-- A data plane thread after `thread_init`.
Source: `thread.c` `thread_init`
Kind: D -/
def ThreadData.init (tscHz now : ℕ) : ThreadData where
  p := fun _ => 0
  nPipelines := 0
  pipelineData := fun _ => ⟨⟨0, fun _ => none, 0, 0⟩, 0, 0⟩
  timerPeriod := timerCycles tscHz 100
  timeNext := add64 now (timerCycles tscHz 100)
  timeNextMin := add64 now (timerCycles tscHz 100)

/-- The system before the first command; `now tid` is the time at which thread `tid` is set up. -/
def System.init (now : ℕ → ℕ) (lib : L) : System L T Q R C where
  threads tid := ⟨.init api.tscHz (now tid), 0, .run 0⟩
  running _ := false
  threadMsgq _ := ⟨[], []⟩
  pipelineMsgq _ := ⟨[], []⟩
  lib := lib
  pipelines := []
  main := .idle

end Main

end Rids.Threads
