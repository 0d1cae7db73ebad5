import Rids.Lib.Mailbox
import Rids.Threads.ThreadData

/-!
# The dispatch loop of a data plane thread (`thread.c`)

A data plane thread runs its pipelines again and again. Every sixteenth turn it may look at its
rings: at those of a pipeline when the timer of the pipeline has expired, at its own when its own
timer has.

* `dispatch` — one step of `thread_main` on one thread. Between two steps any other thread may
  move.

The commands on one pipeline are given by an `Api`: what they check and ask, what the library does
for them when they call it directly and what the handler of the data plane thread does, and what
they do with the response.
-/

namespace Rids.Threads

open Rids.Lib.Mailbox

/-- A ring of `THREAD_MSGQ_SIZE` or `PIPELINE_MSGQ_SIZE` slots holds one message less.
Source: `thread.c` `THREAD_MSGQ_SIZE`, `pipeline.c` `PIPELINE_MSGQ_SIZE`
Kind: D -/
def ringCapacity : ℕ := 64 - 1

/-! ### Pipelines -/

/-- The action object of a table, and what else the main thread keeps of it.
Source: `pipeline.h` `struct table`
Kind: D -/
structure Table (T : Type) where
  a : Option ℕ
  rest : T

/-- Source: `pipeline.h` `struct pipeline`; the input ports are only counted. Kind: D -/
structure Pipeline (T : Type) where
  name : String
  p : ℕ
  nPortsIn : ℕ
  nPortsOut : ℕ
  table : List (Table T)
  msgq : ℕ
  timerPeriodMs : ℕ
  enabled : Bool
  threadId : ℕ

/-- What `thread_pipeline_enable` writes to its request.
Source: `thread.c` `thread_pipeline_enable`
Kind: D -/
def Pipeline.enableReq {T : Type} (p : Pipeline T) : EnableReq where
  p := p.p
  tableAction i := p.table[i]?.bind Table.a
  msgq := p.msgq
  timerPeriodMs := p.timerPeriodMs
  nTables := p.table.length

/-! ### The library and the handlers -/

/-- The commands on one pipeline and the library below them. `prepare` are the checks and the
request, or what the call returns when a check fails; `direct` is the call into the library of a
pipeline that is not running, `handle` the handler for one that is; `completeDirect` and `complete`
are what a call does with what the library, or the response, has given: to one table, and as its
result. -/
structure Api (L T Q R C V : Type) where
  tscHz : ℕ
  worker : ℕ → Bool
  run : ℕ → L → L
  flush : ℕ → L → L
  prepare : Pipeline T → C → Except V Q
  direct : Pipeline T → Q → L → L × R
  handle : PipelineConf → Q → L → L × R
  completeDirect : Pipeline T → C → R → Option (ℕ × T) × V
  complete : Pipeline T → C → R → Option (ℕ × T) × V
  notFound : C → V

/-! ### The data plane threads -/

/-- Where a thread is in its dispatch loop: before `j < t->n_pipelines` in one of the two loops over
the pipelines, or at its own messages. `rsp` is a response that waits for room in its ring. -/
inductive DispatchPc (R : Type)
  | run (j : ℕ)
  | pipelineMsgs (j time timeNextMin : ℕ) (rsp : Option R)
  | threadMsgs (time timeNextMin : ℕ) (rsp : Option Int)

/-- A data plane thread; `iter` is the loop variable `i`. -/
structure Thread (R : Type) where
  data : ThreadData
  iter : ℕ
  pc : DispatchPc R

/-- What the data plane threads see. -/
structure DataPlane (L Q R : Type) where
  threads : ℕ → Thread R
  running : ℕ → Bool
  threadMsgq : ℕ → Box ThreadReq Int
  pipelineMsgq : ℕ → Box Q R
  lib : L

section Dispatch

variable {L T Q R C V : Type}

def DataPlane.setThread (d : DataPlane L Q R) (tid : ℕ) (th : Thread R) : DataPlane L Q R :=
  { d with threads := Function.update d.threads tid th }

def Thread.goto (th : Thread R) (pc : DispatchPc R) : Thread R := { th with pc := pc }

/-- The next turn of the dispatch loop; `i` has 32 bits. -/
def Thread.next (th : Thread R) : Thread R :=
  { th with iter := (th.iter + 1) % 2 ^ 32, pc := .run 0 }

def Thread.setData (th : Thread R) (data : ThreadData) : Thread R := { th with data := data }

/-- `p->time_next = time_next` of entry `j`. -/
def ThreadData.setPipelineTime (t : ThreadData) (j timeNext : ℕ) : ThreadData :=
  { t with
    pipelineData :=
      Function.update t.pipelineData j { t.pipelineData j with timeNext := timeNext } }

/-- The data plane part of a turn, and the tests that end it.
Source: `thread.c` `thread_main`, `Data Plane`
Kind: D -/
def dispatchRun (api : Api L T Q R C V) (d : DataPlane L Q R) (tid now j : ℕ) :
    DataPlane L Q R :=
  let th := d.threads tid
  if j < th.data.nPipelines then
    { d.setThread tid (th.goto (.run (j + 1))) with lib := api.run (th.data.p j) d.lib }
  else if th.iter % 16 ≠ 0 then d.setThread tid th.next
  else if now < th.data.timeNextMin then d.setThread tid th.next
  else d.setThread tid (th.goto (.pipelineMsgs 0 now (2 ^ 64 - 1) none))

/-- One message of pipeline `j`, or the end of its turn.
Source: `thread.c` `thread_main`, `Pipeline message queues`; `pipeline_msg_handle`
Kind: D -/
def dispatchPipelineMsgs (api : Api L T Q R C V) (d : DataPlane L Q R)
    (tid j time timeNextMin : ℕ) (rsp : Option R) : DataPlane L Q R :=
  let th := d.threads tid
  let p := th.data.pipelineData j
  if j < th.data.nPipelines then
    match rsp with
    | some r =>
      if (d.pipelineMsgq p.msgq).rsp.length < ringCapacity then
        { d.setThread tid (th.goto (.pipelineMsgs j time timeNextMin none)) with
          pipelineMsgq := answer p.msgq r d.pipelineMsgq }
      else d
    | none =>
      if p.timeNext ≤ time then
        match (d.pipelineMsgq p.msgq).req with
        | q :: _ =>
          let (lib, r) := api.handle p.toPipelineConf q d.lib
          { d.setThread tid (th.goto (.pipelineMsgs j time timeNextMin (some r))) with
            pipelineMsgq := take p.msgq d.pipelineMsgq
            lib := lib }
        | [] =>
          let timeNext := add64 time p.timerPeriod
          let th := th.setData (th.data.setPipelineTime j timeNext)
          { d.setThread tid
              (th.goto (.pipelineMsgs (j + 1) time (min timeNext timeNextMin) none)) with
            lib := api.flush p.p d.lib }
      else
        d.setThread tid (th.goto (.pipelineMsgs (j + 1) time (min p.timeNext timeNextMin) none))
  else d.setThread tid (th.goto (.threadMsgs time timeNextMin none))

/-- One message of the thread, or the end of the turn.
Source: `thread.c` `thread_main`, `Thread message queues`; `thread_msg_handle`
Kind: D -/
def dispatchThreadMsgs (api : Api L T Q R C V) (d : DataPlane L Q R)
    (tid now time timeNextMin : ℕ) (rsp : Option Int) : DataPlane L Q R :=
  let th := d.threads tid
  let t := th.data
  match rsp with
  | some status =>
    if (d.threadMsgq tid).rsp.length < ringCapacity then
      { d.setThread tid (th.goto (.threadMsgs time timeNextMin none)) with
        threadMsgq := answer tid status d.threadMsgq }
    else d
  | none =>
    if t.timeNext ≤ time then
      match (d.threadMsgq tid).req with
      | req :: _ =>
        let (status, t) := threadMsgHandle api.tscHz now t req
        { d.setThread tid ((th.setData t).goto (.threadMsgs time timeNextMin (some status))) with
          threadMsgq := take tid d.threadMsgq }
      | [] =>
        let timeNext := add64 time t.timerPeriod
        let t := { t with timeNext := timeNext, timeNextMin := min timeNext timeNextMin }
        d.setThread tid (th.setData t).next
    else
      d.setThread tid (th.setData { t with timeNextMin := min t.timeNext timeNextMin }).next

/-- A step of a data plane thread; `now` is what `rte_get_tsc_cycles` returns in it.
Source: `thread.c` `thread_main`
Kind: D -/
def dispatch (api : Api L T Q R C V) (d : DataPlane L Q R) (tid now : ℕ) : DataPlane L Q R :=
  match (d.threads tid).pc with
  | .run j => dispatchRun api d tid now j
  | .pipelineMsgs j time timeNextMin rsp => dispatchPipelineMsgs api d tid j time timeNextMin rsp
  | .threadMsgs time timeNextMin rsp => dispatchThreadMsgs api d tid now time timeNextMin rsp

end Dispatch

end Rids.Threads
