import Rids.Threads.Exchange

/-!
# Steps of the data plane threads

Every step of a data plane thread keeps the invariant, whatever the others do between. A call takes
effect when a thread takes its request; all other steps run or flush a pipeline that is mapped, or
move a response.

* `Inv.simulates_dispatchRun`, `Inv.simulates_dispatchPipelineMsgs`,
  `Inv.simulates_dispatchThreadMsgs` — the three parts of a turn.
* `Inv.simulates_handle`, `Inv.simulates_threadHandle` — the steps at which a call takes effect.
* `ThreadAsks.handle` — the two sides of an enable or a disable agree.
-/

namespace Rids.Threads

open Rids.Lib Rids.Lib.Mailbox Rids.Lib.SlotMachine

variable {L T Q R C V W : Type} {api : Api L T Q R C V} {all : Prop} {view : V → W}
  {s : System L T Q R C} {tt : Talk ℕ ThreadReq Int} {pt : Talk ℕ Q R} {tid : ℕ}

/-! ### Steps without a message -/

/-- A step without a message, that does nothing to the library or moves a mapped pipeline. -/
theorem Inv.simulates_frame {th : Thread R} {lib : L}
    (hinv : Inv api all { s with threads := Function.update s.threads tid th, lib := lib } tt pt)
    (hlib : AtomicRun api view [] (atomicOf api s tt pt) { atomicOf api s tt pt with lib := lib } []) :
    Simulates api all view [] s tt pt
      ({ s with threads := Function.update s.threads tid th, lib := lib }, none) := by
  refine ⟨tt, pt, hinv, fun _ _ => ⟨[], hlib, ?_⟩⟩
  simp

/-- A thread runs only pipelines that are mapped to it, so the run is an atomic one. -/
theorem Inv.run_mapped (h : Inv api all s tt pt) (hrun : s.running tid = true) {j : ℕ}
    (hj : j < (s.threads tid).data.nPipelines) :
    AtomicRun api view [] (atomicOf api s tt pt)
      { atomicOf api s tt pt with lib := api.run ((s.threads tid).data.p j) s.lib } [] := by
  apply AtomicRun.step (.run ((s.threads tid).data.p j)) (o := none)
  have haligned := h.mapped.aligned tid j hj
  have hmapped := h.isMapped hrun hj
  rw [show (s.threads tid).data.p j = ((s.threads tid).data.pipelineData j).p from haligned]
  simp only [atomicStep, Atomic.onMapped, hmapped, if_true]
  rfl

/-- A thread flushes only pipelines that are mapped to it. -/
theorem Inv.flush_mapped (h : Inv api all s tt pt) (hrun : s.running tid = true) {j : ℕ}
    (hj : j < (s.threads tid).data.nPipelines) :
    AtomicRun api view [] (atomicOf api s tt pt)
      { atomicOf api s tt pt with
        lib := api.flush ((s.threads tid).data.pipelineData j).p s.lib } [] := by
  apply AtomicRun.step (.flush ((s.threads tid).data.pipelineData j).p) (o := none)
  have hmapped := h.isMapped hrun hj
  simp only [atomicStep, Atomic.onMapped, hmapped, if_true]
  rfl

/-- The data plane part of a turn. -/
theorem Inv.simulates_dispatchRun (h : Inv api all s tt pt) (hrun : s.running tid = true) {j : ℕ}
    (hpc : (s.threads tid).pc = .run j) (now : ℕ) :
    Simulates api all view [] s tt pt
      ({ s with toDataPlane := dispatchRun api s.toDataPlane tid now j }, none) := by
  have hresponse : (s.threads tid).response = none := by simp [Thread.response, hpc]
  have hstatus : (s.threads tid).status = none := by simp [Thread.status, hpc]
  have haligned := h.mapped.aligned tid
  dsimp only [dispatchRun]
  split_ifs with hj hiter hmin
  · apply Inv.simulates_frame
    · exact h.frame _ hrun hresponse rfl hstatus rfl rfl haligned
    · exact h.run_mapped hrun hj
  · apply Inv.simulates_frame
    · exact h.frame _ hrun hresponse rfl hstatus rfl rfl haligned
    · exact AtomicRun.refl _
  · apply Inv.simulates_frame
    · exact h.frame _ hrun hresponse rfl hstatus rfl rfl haligned
    · exact AtomicRun.refl _
  · apply Inv.simulates_frame
    · exact h.frame _ hrun hresponse rfl hstatus rfl rfl haligned
    · exact AtomicRun.refl _

/-! ### Messages of the pipelines -/

/-- Setting a timer leaves the entries as they are. -/
theorem slots_setPipelineTime (t : ThreadData) (j timeNext : ℕ) :
    (t.setPipelineTime j timeNext).slots = t.slots := by
  apply List.map_congr_left
  intro i _
  by_cases hi : i = j
  · subst hi
    simp [ThreadData.setPipelineTime]
  · simp [ThreadData.setPipelineTime, hi]

/-- Setting a timer keeps the arrays aligned. -/
theorem aligned_setPipelineTime {t : ThreadData} (h : t.Aligned) (j timeNext : ℕ) :
    (t.setPipelineTime j timeNext).Aligned := by
  intro i hi
  by_cases hij : i = j
  · subst hij
    simpa [ThreadData.setPipelineTime] using h i hi
  · simpa [ThreadData.setPipelineTime, hij] using h i hi

/-- A request in the ring of an entry is that of the main thread, to the pipeline of the entry. -/
theorem Phase.of_pipelineAsked {ps : List (Pipeline T)} {running : ℕ → Bool} {main : Main Q C}
    {msgq : ℕ} {q : Q} (h : Phase api ps running main tt (.asked msgq q)) :
    ∃ name c p, main = .pipelineRecv name c msgq ∧ tt = .silent ∧
      PipelineAsks api ps running name c msgq q p := by
  cases h with
  | pipelineAsked h => exact ⟨_, _, _, rfl, rfl, h⟩

/-- A reply in the hand of a thread belongs to the request the main thread waits for. -/
theorem Phase.of_pipelineTaken {ps : List (Pipeline T)} {running : ℕ → Bool} {main : Main Q C}
    {msgq : ℕ} {r : R} (h : Phase api ps running main tt (.taken msgq r)) :
    ∃ name c, main = .pipelineRecv name c msgq ∧ tt = .silent ∧
      PipelineAnswers api ps name c r := by
  cases h with
  | pipelineTaken h => exact ⟨_, _, rfl, rfl, h⟩

/-- What is written to a pipeline with a response leaves it where it is. -/
theorem Mapped.put_writeTable {data : ℕ → ThreadData} {ps : List (Pipeline T)}
    (h : Mapped all data ps) (hps : Registered ps) {p : Pipeline T} {name : String}
    (hfind : pipelineFind ps name = some p) (write : Option (ℕ × T)) :
    Mapped all data (KeyedList.put Pipeline.name (p.writeTable write) ps) := by
  obtain rfl : p.name = name := KeyedList.key_of_find hfind
  cases write with
  | none => exact h.put hps hfind rfl (fun _ => rfl) fun _ _ _ hserves => hserves
  | some w =>
    refine h.put hps hfind rfl (fun _ => rfl) ?_
    intro _ _ c hserves
    refine ⟨hserves.msgq, ?_, ?_, ?_⟩
    · simpa [Pipeline.writeTable] using hserves.nTables_le
    · intro i hi
      rw [hserves.tableAction i hi]
      by_cases hiw : w.1 = i
      · subst hiw
        cases htable : p.table[w.1]? with
        | none => simp [Pipeline.writeTable, htable]
        | some t => simp [Pipeline.writeTable, htable]
      · simp [Pipeline.writeTable, hiw]
    · intro hall
      simpa [Pipeline.writeTable] using hserves.knows hall

/-- A write to a table keeps the name. -/
@[simp] theorem Pipeline.writeTable_name (p : Pipeline T) (write : Option (ℕ × T)) :
    (p.writeTable write).name = p.name := by
  cases write <;> rfl

/-- A write to a table keeps the identifier. -/
@[simp] theorem Pipeline.writeTable_p (p : Pipeline T) (write : Option (ℕ × T)) :
    (p.writeTable write).p = p.p := by
  cases write <;> rfl

/-- A write to a table keeps the rings. -/
@[simp] theorem Pipeline.writeTable_msgq (p : Pipeline T) (write : Option (ℕ × T)) :
    (p.writeTable write).msgq = p.msgq := by
  cases write <;> rfl

/-- A write to a table keeps the registration. -/
theorem Registered.put_writeTable {ps : List (Pipeline T)} (hps : Registered ps) {p : Pipeline T}
    {name : String} (hfind : pipelineFind ps name = some p) (write : Option (ℕ × T)) :
    Registered (KeyedList.put Pipeline.name (p.writeTable write) ps) := by
  obtain rfl : p.name = name := KeyedList.key_of_find hfind
  apply hps.put _ (p.writeTable_p write) (p.writeTable_msgq write)
  rwa [p.writeTable_name]

/-- The answer of a pipeline keeps the registration. -/
theorem Registered.pipelineResponse {ps : List (Pipeline T)} (hps : Registered ps) {name : String}
    (c : C) (r : R) : Registered (pipelineResponse api ps name c r).1 := by
  unfold Threads.pipelineResponse
  cases hfind : pipelineFind ps name with
  | none => exact hps
  | some p => exact hps.put_writeTable hfind _

/-- A data plane thread takes a request of a pipeline and handles it: the call takes effect. -/
theorem Inv.simulates_handle (h : Inv api all s tt pt) (hrun : s.running tid = true) {j : ℕ}
    (hj : j < (s.threads tid).data.nPipelines) {conf : PipelineConf}
    (hconf : ((s.threads tid).data.pipelineData j).toPipelineConf = conf) {th : Thread R} {q : Q}
    {qs : List Q} (hreq : (s.pipelineMsgq conf.msgq).req = q :: qs)
    (hresponse : th.response = some (j, (api.handle conf q s.lib).2))
    (hstatus : (s.threads tid).status = none) (hstatus' : th.status = none)
    (hdata : th.data = (s.threads tid).data) :
    Simulates api all view [] s tt pt
      ({ s with
          threads := Function.update s.threads tid th
          pipelineMsgq := take conf.msgq s.pipelineMsgq
          lib := (api.handle conf q s.lib).1 },
        none) := by
  rw [h.pipelineMsgq, req_box_eq_cons_iff] at hreq
  obtain ⟨rfl, -⟩ := hreq
  obtain ⟨name, c, p, hmain, rfl, hasks⟩ := h.phase.of_pipelineAsked
  have hdataOf : dataOf (Function.update s.threads tid th) = dataOf s.threads := by
    rw [dataOf_update, hdata]
    exact Function.update_eq_self _ _
  have hmapped : Mapped all (dataOf s.threads) s.pipelines := by
    have hold := h.mapped
    rwa [hmain] at hold
  have hmem : p ∈ s.pipelines := KeyedList.mem_of_find hasks.find
  have hserves : conf.p = p.p ∧ Serves all conf p := by
    obtain ⟨p', hp', -, hpc, hserves⟩ :=
      hmapped.exists_pipeline (slot_mem (t := dataOf s.threads tid) hj)
    change Serves all ((s.threads tid).data.pipelineData j).toPipelineConf p' at hserves
    rw [hconf] at hserves
    have hmsgq : p'.msgq = p.msgq := by rw [← hserves.msgq, hasks.msgq]
    obtain rfl := h.registered.msgq_inj hp' hmem hmsgq
    exact ⟨hconf ▸ hpc.symm, hserves⟩
  refine ⟨.silent, .taken conf.msgq (api.handle conf q s.lib).2, ?_, ?_⟩
  · refine ⟨h.threadMsgq, ?_, h.registered, ?_, ?_, ?_⟩
    · rw [h.pipelineMsgq]
      exact take_asked _ _ _
    · simp only [hmain, settled, Talk.response, pipelineResponse, hasks.find, hdataOf]
      exact hmapped.put_writeTable h.registered hasks.find _
    · simp only [hmain]
      exact .pipelineTaken ⟨p, q, conf, s.lib, hasks.find, hasks.prepare, rfl⟩
    · exact h.held.take hrun hstatus hstatus' hresponse (hdata ▸ hj) (by rw [hdata, hconf])
  · intro hall hagrees
    have hserves' : Serves True conf p :=
      ⟨hserves.2.msgq, hserves.2.nTables_le, hserves.2.tableAction, fun _ => hserves.2.knows hall⟩
    have hlib := hagrees.lib p c q conf s.lib hasks.prepare hserves.1 hserves'
    have hwrite := hagrees.write p c q conf s.lib hasks.prepare hserves.1 hserves'
    have hvalue := hagrees.value p c q conf s.lib hasks.prepare hserves.1 hserves'
    refine ⟨_, AtomicRun.step (.call (.pipeline name c)) (Prod.ext ?_ rfl), ?_⟩
    · simp only [atomicStep, atomicCall, atomicPipelineCall, atomicOf, settled, hmain,
        Talk.response, hasks.find, hasks.prepare, pipelineResponse, Atomic.put, hlib, hwrite]
    · simp only [atomicStep, atomicCall, atomicPipelineCall, atomicOf, settled, pending, hmain,
        Talk.response, hasks.find, hasks.prepare, pipelineResponse, seen, Outcome.through,
        Option.toList, List.map_cons, List.map_nil, List.nil_append, hvalue]

/-- A data plane thread puts a response into the ring of a pipeline. -/
theorem Inv.simulates_answer (h : Inv api all s tt pt) (hrun : s.running tid = true) {j : ℕ}
    {th : Thread R} {r : R} (hresponse : (s.threads tid).response = some (j, r))
    (hresponse' : th.response = none) (hstatus : (s.threads tid).status = none)
    (hstatus' : th.status = none) (hdata : th.data = (s.threads tid).data) :
    Simulates api all view [] s tt pt
      ({ s with
          threads := Function.update s.threads tid th
          pipelineMsgq := answer ((s.threads tid).data.pipelineData j).msgq r s.pipelineMsgq },
        none) := by
  obtain ⟨hj, htaken⟩ := h.held.of_response tid j r hresponse
  obtain rfl : pt = .taken ((s.threads tid).data.pipelineData j).msgq r :=
    inHand_eq_some_iff.mp htaken
  obtain ⟨name, c, hmain, rfl, hanswers⟩ := h.phase.of_pipelineTaken
  have hdataOf : dataOf (Function.update s.threads tid th) = dataOf s.threads := by
    rw [dataOf_update, hdata]
    exact Function.update_eq_self _ _
  have hregistered : Registered (settled api s.pipelines s.main .silent
      (.taken ((s.threads tid).data.pipelineData j).msgq r)) := by
    rw [hmain]
    exact h.registered.pipelineResponse c r
  have honly : ∀ k, k ≠ tid → (s.threads k).response = none := by
    intro k hk
    cases hother : (s.threads k).response with
    | none => rfl
    | some rsp =>
      obtain ⟨hi, hmsgq⟩ := h.held.of_response k rsp.1 rsp.2 hother
      have hring := (Prod.mk.inj (Option.some.inj hmsgq)).1
      have hsame : tid = k ∧ j = rsp.1 := h.mapped.eq_of_msgq_eq hregistered hj hi hring
      exact absurd hsame.1.symm hk
  refine ⟨.silent, .answered ((s.threads tid).data.pipelineData j).msgq r, ?_, ?_⟩
  · refine ⟨h.threadMsgq, ?_, h.registered, ?_, ?_, ?_⟩
    · rw [h.pipelineMsgq]
      exact answer_taken _ _
    · have hmapped := h.mapped
      simp only [hmain, settled, Talk.response] at hmapped ⊢
      rwa [hdataOf]
    · simp only [hmain]
      exact .pipelineAnswered hanswers
    · exact h.held.answer hrun hstatus hstatus' hresponse' honly
  · intro _ _
    refine ⟨[], ?_, ?_⟩
    · have hsame : atomicOf api s .silent (.taken ((s.threads tid).data.pipelineData j).msgq r) =
          atomicOf api s .silent (.answered ((s.threads tid).data.pipelineData j).msgq r) := by
        simp [atomicOf, hmain, settled, Talk.response]
      rw [hsame]
      exact AtomicRun.refl _
    · simp [pending, hmain, Talk.response]

/-- One message of a pipeline, or the end of its turn. -/
theorem Inv.simulates_dispatchPipelineMsgs (h : Inv api all s tt pt) (hrun : s.running tid = true)
    {j time timeNextMin : ℕ} {rsp : Option R}
    (hpc : (s.threads tid).pc = .pipelineMsgs j time timeNextMin rsp) :
    Simulates api all view [] s tt pt
      ({ s with
          toDataPlane := dispatchPipelineMsgs api s.toDataPlane tid j time timeNextMin rsp },
        none) := by
  have hstatus : (s.threads tid).status = none := by simp [Thread.status, hpc]
  have hresponse : (s.threads tid).response = rsp.map (j, ·) := by simp [Thread.response, hpc]
  have haligned := h.mapped.aligned tid
  dsimp only [dispatchPipelineMsgs]
  cases rsp with
  | some r =>
    obtain ⟨hj, -⟩ := h.held.of_response tid j r hresponse
    simp only [hj, if_true]
    split_ifs with hroom
    · exact h.simulates_answer hrun hresponse rfl hstatus rfl rfl
    · exact ⟨tt, pt, h, fun _ _ => ⟨[], AtomicRun.refl _, by simp⟩⟩
  | none =>
    dsimp only
    split_ifs with hj htimer
    · cases hreq : (s.pipelineMsgq ((s.threads tid).data.pipelineData j).msgq).req with
      | cons q qs => exact h.simulates_handle hrun hj rfl hreq rfl hstatus rfl rfl
      | nil =>
        apply Inv.simulates_frame
        · exact h.frame _ hrun hresponse rfl hstatus rfl (slots_setPipelineTime _ _ _)
            (aligned_setPipelineTime haligned _ _)
        · exact h.flush_mapped hrun hj
    · apply Inv.simulates_frame
      · exact h.frame _ hrun hresponse rfl hstatus rfl rfl haligned
      · exact AtomicRun.refl _
    · apply Inv.simulates_frame
      · exact h.frame _ hrun hresponse rfl hstatus rfl rfl haligned
      · exact AtomicRun.refl _

/-! ### Messages of the thread -/

/-- A request to a thread is the one the main thread waits for. -/
theorem Phase.of_threadAsked {ps : List (Pipeline T)} {running : ℕ → Bool} {main : Main Q C}
    {i : ℕ} {req : ThreadReq} (h : Phase api ps running main (.asked i req) pt) :
    ∃ call, main = .threadRecv call ∧ i = call.threadId ∧ pt = .silent ∧
      ThreadAsks api ps running call req := by
  cases h with
  | threadAsked h => exact ⟨_, rfl, rfl, rfl, h⟩

/-- A status in the hand of a thread belongs to the call the main thread waits for. -/
theorem Phase.of_threadTaken {ps : List (Pipeline T)} {running : ℕ → Bool} {main : Main Q C}
    {i : ℕ} {status : Int} (h : Phase api ps running main (.taken i status) pt) :
    ∃ call, main = .threadRecv call ∧ i = call.threadId ∧ pt = .silent := by
  cases h with
  | threadTaken => exact ⟨_, rfl, rfl, rfl⟩

/-- A thread has as many entries as pipelines are on it. -/
theorem Mapped.length_onThread {data : ℕ → ThreadData} {ps : List (Pipeline T)}
    (h : Mapped all data ps) (tid : ℕ) : (onThread ps tid).length = (data tid).nPipelines := by
  rw [← (h.perm tid).length_eq, List.length_map, length_slots]

/-- The atomic enable where the checks of the main thread pass. -/
theorem atomicEnable_eq {a : Atomic L T} {threadId : ℕ} {name : String} {p : Pipeline T}
    (hfind : pipelineFind a.pipelines name = some p)
    (hchecks : ¬(rteMaxLcore ≤ threadId ∨ p.nPortsIn = 0 ∨ p.nPortsOut = 0 ∨ p.table.length = 0))
    (hworker : ¬(!api.worker threadId || p.enabled) = true) :
    atomicEnable api a threadId name =
      if threadPipelinesMax ≤ (onThread a.pipelines threadId).length then (a, -1)
      else (a.put (p.enable threadId), 0) := by
  simp only [atomicEnable, hfind, if_neg hchecks, if_neg hworker]

/-- What a data plane thread does with a request, and what the main thread does with the status:
the entries and the pipelines agree again, and a call at once would have had the same effect. -/
theorem ThreadAsks.handle {data : ℕ → ThreadData} {ps : List (Pipeline T)} {running : ℕ → Bool}
    {call : ThreadCall} {req : ThreadReq} (hasks : ThreadAsks api ps running call req)
    (hmapped : Mapped all data ps) (hps : Registered ps) (now : ℕ) (lib : L) :
    Mapped all (Function.update data call.threadId
      (threadMsgHandle api.tscHz now (data call.threadId) req).2)
      (threadResponse ps call (threadMsgHandle api.tscHz now (data call.threadId) req).1).1 ∧
    atomicCall api ⟨ps, running, lib⟩ (.thread call) =
      (⟨(threadResponse ps call (threadMsgHandle api.tscHz now (data call.threadId) req).1).1,
        running, lib⟩,
        .status
          (threadResponse ps call (threadMsgHandle api.tscHz now (data call.threadId) req).1).2) := by
  cases hasks with
  | @enable threadId name p hfind hchecks hworker hrun =>
    have hoff : p.enabled = false := by
      simp only [Bool.or_eq_true, not_or, Bool.not_eq_true] at hworker
      exact hworker.2
    have hatomic := atomicEnable_eq (a := ⟨ps, running, lib⟩) hfind hchecks hworker
    rw [hmapped.length_onThread threadId] at hatomic
    by_cases hroom : threadPipelinesMax ≤ (data threadId).nPipelines
    · have hhandle : threadMsgHandle api.tscHz now (data threadId) (.enable p.enableReq) =
          (-1, data threadId) := if_pos hroom
      refine ⟨?_, ?_⟩
      · simpa [ThreadCall.threadId, hhandle, threadResponse] using hmapped
      · rw [if_pos hroom] at hatomic
        simp [ThreadCall.threadId, hhandle, threadResponse, atomicCall, hatomic]
    · have hhandle : threadMsgHandle api.tscHz now (data threadId) (.enable p.enableReq) =
          (0, (data threadId).install api.tscHz now p.enableReq) := if_neg hroom
      have hinstall := hmapped.install hps hfind hoff (Nat.lt_of_not_le hroom) api.tscHz now
      refine ⟨?_, ?_⟩
      · simpa [ThreadCall.threadId, hhandle, threadResponse, ThreadCall.pipelineName, hfind]
          using hinstall
      · rw [if_neg hroom] at hatomic
        simp [ThreadCall.threadId, hhandle, threadResponse, ThreadCall.pipelineName, atomicCall,
          hatomic, hfind, Atomic.put]
  | @disable threadId name p hfind hlcore hworker hon hrun =>
    obtain ⟨i, hi⟩ := hmapped.exists_findPipeline (KeyedList.mem_of_find hfind) hon
    have hhandle : threadMsgHandle api.tscHz now (data threadId) (.disable p.p) =
        (0, (data threadId).uninstall i) := by
      simp [threadMsgHandle, threadMsgHandlePipelineDisable, hi]
    have huninstall := hmapped.uninstall hps hfind hon hi
    obtain ⟨hen, htid⟩ := isOn_iff.mp hon
    refine ⟨?_, ?_⟩
    · simpa [ThreadCall.threadId, hhandle, threadResponse, ThreadCall.pipelineName, hfind]
        using huninstall
    · simp [ThreadCall.threadId, hhandle, threadResponse, ThreadCall.pipelineName, atomicCall,
        atomicDisable, hfind, hlcore, hworker, hen, htid, Atomic.put]

/-- A data plane thread takes a request of its own and handles it: the call takes effect. -/
theorem Inv.simulates_threadHandle (h : Inv api all s tt pt) (hrun : s.running tid = true)
    {th : Thread R} {req : ThreadReq} {reqs : List ThreadReq} {now : ℕ}
    (hreq : (s.threadMsgq tid).req = req :: reqs)
    (hstatus' : th.status =
      some (threadMsgHandle api.tscHz now (s.threads tid).data req).1)
    (hresponse : (s.threads tid).response = none) (hresponse' : th.response = none)
    (hdata : th.data = (threadMsgHandle api.tscHz now (s.threads tid).data req).2) :
    Simulates api all view [] s tt pt
      ({ s with
          threads := Function.update s.threads tid th
          threadMsgq := take tid s.threadMsgq }, none) := by
  rw [h.threadMsgq, req_box_eq_cons_iff] at hreq
  obtain ⟨rfl, -⟩ := hreq
  obtain ⟨call, hmain, rfl, rfl, hasks⟩ := h.phase.of_threadAsked
  have hmapped : Mapped all (dataOf s.threads) s.pipelines := by
    have hold := h.mapped
    rwa [hmain] at hold
  obtain ⟨hnew, hatomic⟩ := hasks.handle hmapped h.registered now s.lib
  change th.data = (threadMsgHandle api.tscHz now (dataOf s.threads call.threadId) req).2 at hdata
  change th.status = some (threadMsgHandle api.tscHz now (dataOf s.threads call.threadId) req).1
    at hstatus'
  generalize threadMsgHandle api.tscHz now (dataOf s.threads call.threadId) req = result at *
  obtain ⟨status, t⟩ := result
  refine ⟨.taken call.threadId status, .silent, ?_, ?_⟩
  · refine ⟨?_, h.pipelineMsgq, h.registered, ?_, ?_, ?_⟩
    · rw [h.threadMsgq]
      exact take_asked _ _ _
    · simp only [hmain, settled, Talk.response]
      rw [dataOf_update, hdata]
      exact hnew
    · simp only [hmain]
      exact .threadTaken
    · apply h.held.setOwn hrun hresponse hresponse'
      · intro k status' hk
        constructor
        · intro hnone
          cases hnone
        · intro hsome
          exact absurd (Prod.mk.inj (Option.some.inj hsome)).1.symm hk
      · intro status'
        rw [hstatus']
        simp [Talk.inHand]
  · intro _ _
    refine ⟨_, AtomicRun.step (.call (.thread call)) (Prod.ext ?_ rfl), ?_⟩
    · have hbefore : atomicOf api s (.asked call.threadId req) .silent =
          ⟨s.pipelines, s.running, s.lib⟩ := by
        simp [atomicOf, hmain, settled, Talk.response]
      rw [hbefore]
      simp only [atomicStep, hatomic]
      simp [atomicOf, hmain, settled, Talk.response]
    · have hbefore : atomicOf api s (.asked call.threadId req) .silent =
          ⟨s.pipelines, s.running, s.lib⟩ := by
        simp [atomicOf, hmain, settled, Talk.response]
      rw [hbefore]
      simp only [atomicStep, hatomic]
      simp [hmain, pending, Talk.response, seen]

/-- A data plane thread puts a response into its ring. -/
theorem Inv.simulates_threadAnswer (h : Inv api all s tt pt) (hrun : s.running tid = true)
    {th : Thread R} {status : Int} (hstatus : (s.threads tid).status = some status)
    (hstatus' : th.status = none) (hresponse : (s.threads tid).response = none)
    (hresponse' : th.response = none) (hdata : th.data = (s.threads tid).data) :
    Simulates api all view [] s tt pt
      ({ s with
          threads := Function.update s.threads tid th
          threadMsgq := answer tid status s.threadMsgq }, none) := by
  have htaken := (h.held.status tid status).mp hstatus
  obtain rfl : tt = .taken tid status := inHand_eq_some_iff.mp htaken
  obtain ⟨call, hmain, rfl, rfl⟩ := h.phase.of_threadTaken
  refine ⟨.answered call.threadId status, .silent, ?_, ?_⟩
  · refine ⟨?_, h.pipelineMsgq, h.registered, ?_, ?_, ?_⟩
    · rw [h.threadMsgq]
      exact answer_taken _ _
    · have hmapped := h.mapped
      simp only [hmain, settled, Talk.response] at hmapped ⊢
      rw [dataOf_update, hdata]
      rwa [show Function.update (dataOf s.threads) call.threadId (s.threads call.threadId).data =
        dataOf s.threads from Function.update_eq_self _ _]
    · simp only [hmain]
      exact .threadAnswered
    · apply h.held.setOwn hrun hresponse hresponse'
      · intro k status' hk
        constructor
        · intro hsome
          exact absurd (Prod.mk.inj (Option.some.inj hsome)).1.symm hk
        · intro hnone
          cases hnone
      · intro status'
        rw [hstatus']
        simp [Talk.inHand]
  · intro _ _
    refine ⟨[], ?_, ?_⟩
    · have hsame : atomicOf api s (.taken call.threadId status) .silent =
          atomicOf api s (.answered call.threadId status) .silent := by
        simp [atomicOf, hmain, settled, Talk.response]
      rw [hsame]
      exact AtomicRun.refl _
    · simp [pending, hmain, Talk.response]

/-- One message of the thread, or the end of the turn. -/
theorem Inv.simulates_dispatchThreadMsgs (h : Inv api all s tt pt) (hrun : s.running tid = true)
    {time timeNextMin : ℕ} {rsp : Option Int}
    (hpc : (s.threads tid).pc = .threadMsgs time timeNextMin rsp) (now : ℕ) :
    Simulates api all view [] s tt pt
      ({ s with
          toDataPlane := dispatchThreadMsgs api s.toDataPlane tid now time timeNextMin rsp },
        none) := by
  have hstatus : (s.threads tid).status = rsp := by simp [Thread.status, hpc]
  have hresponse : (s.threads tid).response = none := by simp [Thread.response, hpc]
  have haligned := h.mapped.aligned tid
  dsimp only [dispatchThreadMsgs]
  cases rsp with
  | some status =>
    dsimp only
    split_ifs with hroom
    · exact h.simulates_threadAnswer hrun hstatus rfl hresponse rfl rfl
    · exact ⟨tt, pt, h, fun _ _ => ⟨[], AtomicRun.refl _, by simp⟩⟩
  | none =>
    dsimp only
    split_ifs with htimer
    · cases hreq : (s.threadMsgq tid).req with
      | cons req reqs => exact h.simulates_threadHandle hrun hreq rfl hresponse rfl rfl
      | nil =>
        apply Inv.simulates_frame
        · exact h.frame _ hrun hresponse rfl hstatus rfl rfl haligned
        · exact AtomicRun.refl _
    · apply Inv.simulates_frame
      · exact h.frame _ hrun hresponse rfl hstatus rfl rfl haligned
      · exact AtomicRun.refl _

end Rids.Threads
