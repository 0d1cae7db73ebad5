import Rids.Threads.Atomic

/-!
# What holds between two steps of any interleaving

The state of the system is described by two exchanges: that of the main thread with a data plane
thread and that with the thread of a pipeline. `Phase` says how far the call of the main thread has
come, `Held` which thread holds a response, and `Inv` that the rings hold what these exchanges say
and that the entries of the threads agree with the pipelines.

While a request has been taken and its response not been read, the threads are ahead of the main
thread: `settled` is what the main thread will have written to the pipelines, `pending` the outcome
it will return.

* `Inv.frame` — a step of a data plane thread that moves no message.
* `Simulates` — what a step does to the system without messages.
-/

namespace Rids.Threads

open Rids.Lib Rids.Lib.Mailbox Rids.Lib.SlotMachine

variable {L T Q R C V W : Type}

/-! ### The call of the main thread -/

/-- The request of the main thread to a data plane thread, with what the main thread has checked. -/
inductive ThreadAsks (api : Api L T Q R C V) (ps : List (Pipeline T)) (running : ℕ → Bool) :
    ThreadCall → ThreadReq → Prop
  | enable {threadId : ℕ} {name : String} {p : Pipeline T} (hfind : pipelineFind ps name = some p)
      (hchecks : ¬(rteMaxLcore ≤ threadId ∨ p.nPortsIn = 0 ∨ p.nPortsOut = 0 ∨ p.table.length = 0))
      (hworker : ¬(!api.worker threadId || p.enabled) = true) (hrun : running threadId = true) :
      ThreadAsks api ps running (.enable threadId name) (.enable p.enableReq)
  | disable {threadId : ℕ} {name : String} {p : Pipeline T} (hfind : pipelineFind ps name = some p)
      (hlcore : ¬rteMaxLcore ≤ threadId) (hworker : ¬(!api.worker threadId) = true)
      (hon : p.isOn threadId = true) (hrun : running threadId = true) :
      ThreadAsks api ps running (.disable threadId name) (.disable p.p)

/-- The request of the main thread to the thread of a pipeline. -/
structure PipelineAsks (api : Api L T Q R C V) (ps : List (Pipeline T)) (running : ℕ → Bool)
    (name : String) (c : C) (msgq : ℕ) (q : Q) (p : Pipeline T) : Prop where
  find : pipelineFind ps name = some p
  prepare : api.prepare p c = .ok q
  enabled : p.enabled = true
  running : running p.threadId = true
  msgq : msgq = p.msgq

/-- The response of a handler to the request of a call. -/
def PipelineAnswers (api : Api L T Q R C V) (ps : List (Pipeline T)) (name : String) (c : C)
    (r : R) : Prop :=
  ∃ p q conf l, pipelineFind ps name = some p ∧ api.prepare p c = .ok q ∧
    (api.handle conf q l).2 = r

/-- How far the main thread has come with its call, and the exchanges with it. -/
inductive Phase (api : Api L T Q R C V) (ps : List (Pipeline T)) (running : ℕ → Bool) :
    Main Q C → Talk ℕ ThreadReq Int → Talk ℕ Q R → Prop
  | idle : Phase api ps running .idle .silent .silent
  | threadSend {call : ThreadCall} {req : ThreadReq} (h : ThreadAsks api ps running call req) :
      Phase api ps running (.threadSend call req) .silent .silent
  | threadAsked {call : ThreadCall} {req : ThreadReq} (h : ThreadAsks api ps running call req) :
      Phase api ps running (.threadRecv call) (.asked call.threadId req) .silent
  | threadTaken {call : ThreadCall} {status : Int} :
      Phase api ps running (.threadRecv call) (.taken call.threadId status) .silent
  | threadAnswered {call : ThreadCall} {status : Int} :
      Phase api ps running (.threadRecv call) (.answered call.threadId status) .silent
  | pipelineSend {name : String} {c : C} {msgq : ℕ} {q : Q} {p : Pipeline T}
      (h : PipelineAsks api ps running name c msgq q p) :
      Phase api ps running (.pipelineSend name c msgq q) .silent .silent
  | pipelineAsked {name : String} {c : C} {msgq : ℕ} {q : Q} {p : Pipeline T}
      (h : PipelineAsks api ps running name c msgq q p) :
      Phase api ps running (.pipelineRecv name c msgq) .silent (.asked msgq q)
  | pipelineTaken {name : String} {c : C} {msgq : ℕ} {r : R}
      (h : PipelineAnswers api ps name c r) :
      Phase api ps running (.pipelineRecv name c msgq) .silent (.taken msgq r)
  | pipelineAnswered {name : String} {c : C} {msgq : ℕ} {r : R}
      (h : PipelineAnswers api ps name c r) :
      Phase api ps running (.pipelineRecv name c msgq) .silent (.answered msgq r)

/-- The pipelines, once the main thread has read the response. -/
def settled (api : Api L T Q R C V) (ps : List (Pipeline T)) :
    Main Q C → Talk ℕ ThreadReq Int → Talk ℕ Q R → List (Pipeline T)
  | .threadRecv call, tt, _ =>
    match tt.response with
    | some status => (threadResponse ps call status).1
    | none => ps
  | .pipelineRecv name c _, _, pt =>
    match pt.response with
    | some r => (pipelineResponse api ps name c r).1
    | none => ps
  | _, _, _ => ps

/-- The outcome of a call that has taken effect and not ended. -/
def pending (api : Api L T Q R C V) (ps : List (Pipeline T)) :
    Main Q C → Talk ℕ ThreadReq Int → Talk ℕ Q R → List (Call C × Outcome V)
  | .threadRecv call, tt, _ =>
    match tt.response with
    | some status => [(.thread call, .status (threadResponse ps call status).2)]
    | none => []
  | .pipelineRecv name c _, _, pt =>
    match pt.response with
    | some r => [(.pipeline name c, .value (pipelineResponse api ps name c r).2)]
    | none => []
  | _, _, _ => []

/-! ### The responses of the data plane threads -/

/-- The response to a message of its own that a thread holds. -/
def Thread.status (th : Thread R) : Option Int :=
  match th.pc with
  | .threadMsgs _ _ rsp => rsp
  | _ => none

/-- The response to a message of a pipeline that a thread holds, with the entry of the pipeline. -/
def Thread.response (th : Thread R) : Option (ℕ × R) :=
  match th.pc with
  | .pipelineMsgs j _ _ rsp => rsp.map (j, ·)
  | _ => none

/-- Who holds a response: `own` is in the hand of the thread it names, `other` in that of the thread
that has an entry with this ring. -/
structure Held (running : ℕ → Bool) (threads : ℕ → Thread R) (own : Option (ℕ × Int))
    (other : Option (ℕ × R)) : Prop where
  still : ∀ tid, running tid = false → (threads tid).pc = .run 0
  status : ∀ tid status, (threads tid).status = some status ↔ own = some (tid, status)
  of_response : ∀ tid j r, (threads tid).response = some (j, r) →
    j < (threads tid).data.nPipelines ∧ other = some (((threads tid).data.pipelineData j).msgq, r)
  of_other : ∀ msgq r, other = some (msgq, r) →
    ∃ tid j, (threads tid).response = some (j, r) ∧ ((threads tid).data.pipelineData j).msgq = msgq

/-! ### The invariant -/

/-- The entries of all threads. -/
def dataOf (threads : ℕ → Thread R) (tid : ℕ) : ThreadData := (threads tid).data

/-- What holds between two steps. With `all`, the entries know all tables of their pipelines. -/
structure Inv (api : Api L T Q R C V) (all : Prop) (s : System L T Q R C)
    (tt : Talk ℕ ThreadReq Int) (pt : Talk ℕ Q R) : Prop where
  threadMsgq : s.threadMsgq = tt.box
  pipelineMsgq : s.pipelineMsgq = pt.box
  registered : Registered s.pipelines
  mapped : Mapped all (dataOf s.threads) (settled api s.pipelines s.main tt pt)
  phase : Phase api s.pipelines s.running s.main tt pt
  held : Held s.running s.threads tt.inHand pt.inHand

/-- The system as it is without messages. -/
def atomicOf (api : Api L T Q R C V) (s : System L T Q R C) (tt : Talk ℕ ThreadReq Int)
    (pt : Talk ℕ Q R) : Atomic L T where
  pipelines := settled api s.pipelines s.main tt pt
  running := s.running
  lib := s.lib

/-- The call into the library and the handler of the data plane thread do the same, for an entry
that knows all tables. -/
structure Api.Agrees (api : Api L T Q R C V) (view : V → W) : Prop where
  lib : ∀ p c q conf l, api.prepare p c = .ok q → conf.p = p.p → Serves True conf p →
    (api.handle conf q l).1 = (api.direct p q l).1
  write : ∀ p c q conf l, api.prepare p c = .ok q → conf.p = p.p → Serves True conf p →
    (api.complete p c (api.handle conf q l).2).1 = (api.completeDirect p c (api.direct p q l).2).1
  value : ∀ p c q conf l, api.prepare p c = .ok q → conf.p = p.p → Serves True conf p →
    view (api.complete p c (api.handle conf q l).2).2 =
      view (api.completeDirect p c (api.direct p q l).2).2

/-- The system without messages gets from `a` to `a'`, with the creations and launches `setups`, and
gives the outcomes `os`. -/
def AtomicRun (api : Api L T Q R C V) (view : V → W) (setups : List (Event L T C))
    (a a' : Atomic L T) (os : List (Call C × Outcome W)) : Prop :=
  ∃ es, (atomic api).run a es = a' ∧ seen view (ended ((atomic api).hist a es)) = os ∧
    es.filterMap AtomicEvent.setup = setups

/-- A step keeps the invariant, and the system without messages can follow it with the creations and
launches `setups`. -/
def Simulates (api : Api L T Q R C V) (all : Prop) (view : V → W) (setups : List (Event L T C))
    (s : System L T Q R C) (tt : Talk ℕ ThreadReq Int) (pt : Talk ℕ Q R)
    (s' : System L T Q R C × Option (Call C × Outcome V)) : Prop :=
  ∃ tt' pt', Inv api all s'.1 tt' pt' ∧ (all → api.Agrees view →
    ∃ os, AtomicRun api view setups (atomicOf api s tt pt) (atomicOf api s'.1 tt' pt') os ∧
      seen view (pending api s.pipelines s.main tt pt) ++ os =
        seen view s'.2.toList ++ seen view (pending api s'.1.pipelines s'.1.main tt' pt'))

/-! ### A step of one thread -/

section Held

variable {running : ℕ → Bool} {threads : ℕ → Thread R} {own own' : Option (ℕ × Int)}
  {other : Option (ℕ × R)} {tid : ℕ} {th : Thread R}

/-- No thread but the one asked holds a status. -/
theorem Held.status_eq_none (h : Held running threads none other) (k : ℕ) :
    (threads k).status = none := by
  cases hk : (threads k).status with
  | none => rfl
  | some status => cases (h.status k status).mp hk

/-- No thread but the one asked holds a response. -/
theorem Held.response_eq_none (h : Held running threads own none) (k : ℕ) :
    (threads k).response = none := by
  cases hk : (threads k).response with
  | none => rfl
  | some rsp => cases (h.of_response k rsp.1 rsp.2 hk).2

/-- A step of a thread that holds no response to a message of a pipeline, neither before nor
after. -/
theorem Held.setOwn (h : Held running threads own other) (hrun : running tid = true)
    (hbefore : (threads tid).response = none) (hafter : th.response = none)
    (hothers : ∀ k status, k ≠ tid → (own = some (k, status) ↔ own' = some (k, status)))
    (hself : ∀ status, th.status = some status ↔ own' = some (tid, status)) :
    Held running (Function.update threads tid th) own' other := by
  refine ⟨?_, ?_, ?_, ?_⟩
  · intro k hk
    have hne : k ≠ tid := by
      rintro rfl
      rw [hrun] at hk
      cases hk
    rw [Function.update_of_ne hne]
    exact h.still k hk
  · intro k status
    by_cases hk : k = tid
    · subst hk
      rw [Function.update_self]
      exact hself status
    · rw [Function.update_of_ne hk, h.status]
      exact hothers k status hk
  · intro k j r hresponse
    by_cases hk : k = tid
    · subst hk
      rw [Function.update_self, hafter] at hresponse
      cases hresponse
    · rw [Function.update_of_ne hk] at hresponse ⊢
      exact h.of_response k j r hresponse
  · intro msgq r hother
    obtain ⟨k, j, hresponse, hmsgq⟩ := h.of_other msgq r hother
    have hk : k ≠ tid := by
      rintro rfl
      rw [hbefore] at hresponse
      cases hresponse
    refine ⟨k, j, ?_, ?_⟩
    · rwa [Function.update_of_ne hk]
    · rwa [Function.update_of_ne hk]

/-- A step of a thread that holds no response, neither before nor after. -/
theorem Held.frame (h : Held running threads own other) (hrun : running tid = true)
    (hresponse : (threads tid).response = none) (hresponse' : th.response = none)
    (hstatus : (threads tid).status = none) (hstatus' : th.status = none) :
    Held running (Function.update threads tid th) own other := by
  apply h.setOwn hrun hresponse hresponse'
  · intro k status _
    exact Iff.rfl
  · intro status
    rw [hstatus', ← h.status, hstatus]

/-- A thread takes a message of a pipeline. -/
theorem Held.take (h : Held running threads own none) (hrun : running tid = true) {j msgq : ℕ}
    {r : R} (hstatus : (threads tid).status = none) (hstatus' : th.status = none)
    (hresponse : th.response = some (j, r)) (hj : j < th.data.nPipelines)
    (hmsgq : (th.data.pipelineData j).msgq = msgq) :
    Held running (Function.update threads tid th) own (some (msgq, r)) := by
  refine ⟨?_, ?_, ?_, ?_⟩
  · intro k hk
    have hne : k ≠ tid := by
      rintro rfl
      rw [hrun] at hk
      cases hk
    rw [Function.update_of_ne hne]
    exact h.still k hk
  · intro k status
    by_cases hk : k = tid
    · subst hk
      rw [Function.update_self, hstatus', ← h.status, hstatus]
    · rw [Function.update_of_ne hk, h.status]
  · intro k i r' hresponse'
    by_cases hk : k = tid
    · subst hk
      rw [Function.update_self] at hresponse' ⊢
      rw [hresponse] at hresponse'
      cases hresponse'
      exact ⟨hj, by rw [hmsgq]⟩
    · rw [Function.update_of_ne hk, h.response_eq_none k] at hresponse'
      cases hresponse'
  · intro msgq' r' hother
    cases hother
    refine ⟨tid, j, ?_, ?_⟩
    · rwa [Function.update_self]
    · rwa [Function.update_self]

/-- A thread answers a message of a pipeline; no other thread holds a response. -/
theorem Held.answer (h : Held running threads own other) (hrun : running tid = true)
    (hstatus : (threads tid).status = none) (hstatus' : th.status = none)
    (hresponse' : th.response = none)
    (honly : ∀ k, k ≠ tid → (threads k).response = none) :
    Held running (Function.update threads tid th) own none := by
  refine ⟨?_, ?_, ?_, ?_⟩
  · intro k hk
    have hne : k ≠ tid := by
      rintro rfl
      rw [hrun] at hk
      cases hk
    rw [Function.update_of_ne hne]
    exact h.still k hk
  · intro k status
    by_cases hk : k = tid
    · subst hk
      rw [Function.update_self, hstatus', ← h.status, hstatus]
    · rw [Function.update_of_ne hk, h.status]
  · intro k j r hresponse
    by_cases hk : k = tid
    · subst hk
      rw [Function.update_self, hresponse'] at hresponse
      cases hresponse
    · rw [Function.update_of_ne hk, honly k hk] at hresponse
      cases hresponse
  · intro msgq r hother
    cases hother

end Held

section Step

variable {api : Api L T Q R C V} {all : Prop} {view : V → W} {s : System L T Q R C}
  {tt : Talk ℕ ThreadReq Int} {pt : Talk ℕ Q R} {a a' : Atomic L T}

/-- Nothing ended, nothing seen. -/
@[simp] theorem seen_nil : seen view ([] : List (Call C × Outcome V)) = [] := rfl

/-- What is seen of two lists of ended calls. -/
theorem seen_append (os os' : List (Call C × Outcome V)) :
    seen view (os ++ os') = seen view os ++ seen view os' :=
  List.map_append

/-- Two atomic runs after each other. -/
theorem AtomicRun.trans {a'' : Atomic L T} {setups setups' : List (Event L T C)}
    {os os' : List (Call C × Outcome W)} (h : AtomicRun api view setups a a' os)
    (h' : AtomicRun api view setups' a' a'' os') :
    AtomicRun api view (setups ++ setups') a a'' (os ++ os') := by
  obtain ⟨es, rfl, rfl, rfl⟩ := h
  obtain ⟨es', rfl, rfl, rfl⟩ := h'
  refine ⟨es ++ es', Machine.run_append _ _ _ _, ?_, List.filterMap_append⟩
  rw [Machine.hist_append, ended, List.filterMap_append, seen_append]
  rfl

/-- The atomic run without events. -/
theorem AtomicRun.refl (a : Atomic L T) : AtomicRun api view [] a a [] := ⟨[], rfl, rfl, rfl⟩

/-- The atomic run of one event. -/
theorem AtomicRun.step (e : AtomicEvent L T C) {o : Option (Call C × Outcome V)}
    (h : atomicStep api a e = (a', o)) :
    AtomicRun api view e.setup.toList a a' (seen view o.toList) := by
  refine ⟨[e], ?_, ?_, ?_⟩
  · exact congrArg Prod.fst h
  · have hout : (atomic api).out a e = o := congrArg Prod.snd h
    cases o with
    | none => simp [ended, hout]
    | some o => simp [ended, hout]
  · cases hsetup : e.setup <;> simp [hsetup]

/-- The data of the threads after a step of one of them. -/
theorem dataOf_update (threads : ℕ → Thread R) (tid : ℕ) (th : Thread R) :
    dataOf (Function.update threads tid th) = Function.update (dataOf threads) tid th.data := by
  funext k
  by_cases hk : k = tid
  · subst hk
    simp [dataOf]
  · simp [dataOf, hk]

/-- A step of a data plane thread that moves no message, and leaves the used entries. -/
theorem Inv.frame (h : Inv api all s tt pt) {tid : ℕ} {th : Thread R} (lib : L)
    (hrun : s.running tid = true)
    (hresponse : (s.threads tid).response = none) (hresponse' : th.response = none)
    (hstatus : (s.threads tid).status = none) (hstatus' : th.status = none)
    (hslots : th.data.slots = (s.threads tid).data.slots) (haligned : th.data.Aligned) :
    Inv api all { s with threads := Function.update s.threads tid th, lib := lib } tt pt where
  threadMsgq := h.threadMsgq
  pipelineMsgq := h.pipelineMsgq
  registered := h.registered
  phase := h.phase
  held := h.held.frame hrun hresponse hresponse' hstatus hstatus'
  mapped := by
    apply h.mapped.congr
    · intro k
      rw [dataOf_update]
      by_cases hk : k = tid
      · subst hk
        rw [Function.update_self, hslots]
        rfl
      · rw [Function.update_of_ne hk]
    · intro k
      rw [dataOf_update]
      by_cases hk : k = tid
      · subst hk
        rwa [Function.update_self]
      · rw [Function.update_of_ne hk]
        exact h.mapped.aligned k

/-- The pipelines that a running thread runs and polls are mapped. -/
theorem Inv.isMapped (h : Inv api all s tt pt) {tid j : ℕ} (hrun : s.running tid = true)
    (hj : j < (s.threads tid).data.nPipelines) :
    (atomicOf api s tt pt).isMapped ((s.threads tid).data.pipelineData j).p = true := by
  obtain ⟨p, hp, hon, hpc, -⟩ := h.mapped.exists_pipeline (slot_mem (t := dataOf s.threads tid) hj)
  obtain ⟨hen, htid⟩ := isOn_iff.mp hon
  apply List.any_eq_true.mpr
  refine ⟨p, hp, ?_⟩
  have hrunning : s.running p.threadId = true := htid ▸ hrun
  simp [atomicOf, hen, hrunning, hpc, dataOf]

end Step

end Rids.Threads
