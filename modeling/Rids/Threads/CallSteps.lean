import Rids.Threads.DispatchSteps

/-!
# Steps of the main thread

The main thread begins a call, sends its request and reads its response. A call that ends without a
message takes effect at once, and one that needs a message takes no effect here.

* `Inv.simulates_begin` — the begin of a call.
* `Inv.simulates_turn` — a turn in one of the loops over a ring.
* `Inv.simulates_stepOut` — any step of any thread; a table that is created on an enabled pipeline
  is one that the entry of the pipeline does not know.
-/

namespace Rids.Threads

open Rids.Lib Rids.Lib.Mailbox Rids.Lib.SlotMachine

variable {L T Q R C V W : Type} {api : Api L T Q R C V} {all : Prop} {view : V → W}
  {s s' : System L T Q R C} {tt : Talk ℕ ThreadReq Int} {pt : Talk ℕ Q R} {tid : ℕ}

/-! ### A call begins -/

/-- Between two calls a thread may be given other entries. -/
theorem Held.setData {running : ℕ → Bool} {threads : ℕ → Thread R}
    (h : Held running threads none none) (tid : ℕ) (t : ThreadData) :
    Held running (Function.update threads tid ((threads tid).setData t)) none none := by
  have hpc (k : ℕ) :
      (Function.update threads tid ((threads tid).setData t) k).pc = (threads k).pc := by
    by_cases hk : k = tid
    · subst hk
      rw [Function.update_self]
      rfl
    · rw [Function.update_of_ne hk]
  refine ⟨?_, ?_, ?_, ?_⟩
  · intro k hk
    rw [hpc]
    exact h.still k hk
  · intro k status
    rw [← h.status k status, Thread.status, hpc]
    rfl
  · intro k j r hresponse
    have hnone := h.response_eq_none k
    rw [Thread.response, hpc] at hresponse
    rw [Thread.response, hresponse] at hnone
    cases hnone
  · intro msgq r hother
    cases hother

/-- A call that ends at once. -/
theorem Inv.simulates_end (h' : Inv api all s' .silent .silent) (hmain : s.main = .idle)
    (hmain' : s'.main = .idle) {call : Call C} {outcome : Outcome V}
    (hatomic : atomicCall api ⟨s.pipelines, s.running, s.lib⟩ call =
      (⟨s'.pipelines, s'.running, s'.lib⟩, outcome)) :
    Simulates api all view [] s .silent .silent (s', some (call, outcome)) := by
  refine ⟨.silent, .silent, h', fun _ _ => ⟨_, AtomicRun.step (.call call) (Prod.ext ?_ rfl), ?_⟩⟩
  · simp only [atomicStep, atomicOf, settled, hmain, hmain', hatomic]
  · simp only [atomicStep, atomicOf, settled, hmain, hmain', hatomic, pending, seen_nil,
      List.nil_append, List.append_nil]

/-- A call that goes to a ring. -/
theorem Inv.simulates_send (h : Inv api all s .silent .silent) (hmain : s.main = .idle)
    {main : Main Q C} (hphase : Phase api s.pipelines s.running main .silent .silent) :
    Simulates api all view [] s .silent .silent ({ s with main := main }, none) := by
  have hsettled : settled api s.pipelines main .silent .silent = s.pipelines := by
    cases hphase <;> rfl
  have hpending : pending api s.pipelines main .silent .silent = [] := by
    cases hphase <;> rfl
  have hmapped : Mapped all (dataOf s.threads) s.pipelines := by
    have hold := h.mapped
    rwa [hmain] at hold
  refine ⟨.silent, .silent, ⟨h.threadMsgq, h.pipelineMsgq, h.registered, ?_, hphase, h.held⟩, ?_⟩
  · rwa [hsettled]
  · intro _ _
    refine ⟨[], ?_, ?_⟩
    · have hsame : atomicOf api s .silent .silent =
          atomicOf api { s with main := main } .silent .silent := by
        rw [atomicOf, atomicOf, hsettled, hmain]
        rfl
      rw [hsame]
      exact AtomicRun.refl _
    · rw [hpending, hmain]
      rfl

/-- While the main thread is idle nobody talks. -/
theorem Inv.silent (h : Inv api all s tt pt) (hmain : s.main = .idle) :
    tt = .silent ∧ pt = .silent := by
  have hphase := h.phase
  rw [hmain] at hphase
  cases hphase
  exact ⟨rfl, rfl⟩

/-- While the main thread is idle the mapping is that of the threads. -/
theorem Inv.mapped_pipelines (h : Inv api all s .silent .silent) (hmain : s.main = .idle) :
    Mapped all (dataOf s.threads) s.pipelines := by
  have hold := h.mapped
  rwa [hmain] at hold

/-- The main thread writes the entries of a thread that is not running. -/
theorem Inv.setData (h : Inv api all s .silent .silent) (hmain : s.main = .idle) {t : ThreadData}
    {p : Pipeline T} (hps : Registered (KeyedList.put Pipeline.name p s.pipelines))
    (hmapped : Mapped all (Function.update (dataOf s.threads) tid t)
      (KeyedList.put Pipeline.name p s.pipelines)) :
    Inv api all ((s.setData tid t).put p) .silent .silent := by
  refine ⟨h.threadMsgq, h.pipelineMsgq, hps, ?_, ?_, ?_⟩
  · have hsettled : settled api ((s.setData tid t).put p).pipelines
        ((s.setData tid t).put p).main .silent .silent =
          KeyedList.put Pipeline.name p s.pipelines := by
      simp [System.put, System.setData, hmain, settled]
    rw [hsettled, show dataOf ((s.setData tid t).put p).threads =
      Function.update (dataOf s.threads) tid t from dataOf_update _ _ _]
    exact hmapped
  · have hidle : ((s.setData tid t).put p).main = .idle := hmain
    rw [hidle]
    exact .idle
  · exact h.held.setData tid t

/-- Enabling a pipeline keeps the registration. -/
theorem Registered.put_enable {ps : List (Pipeline T)} (hps : Registered ps) {p : Pipeline T}
    {name : String} (hfind : pipelineFind ps name = some p) (threadId : ℕ) :
    Registered (KeyedList.put Pipeline.name (p.enable threadId) ps) := by
  obtain rfl : p.name = name := KeyedList.key_of_find hfind
  exact hps.put hfind rfl rfl

/-- Disabling a pipeline keeps the registration. -/
theorem Registered.put_disable {ps : List (Pipeline T)} (hps : Registered ps) {p : Pipeline T}
    {name : String} (hfind : pipelineFind ps name = some p) :
    Registered (KeyedList.put Pipeline.name p.disable ps) := by
  obtain rfl : p.name = name := KeyedList.key_of_find hfind
  exact hps.put hfind rfl rfl

/-- An enable begins. -/
theorem Inv.simulates_enable (h : Inv api all s .silent .silent) (hmain : s.main = .idle)
    (now threadId : ℕ) (name : String) :
    Simulates api all view [] s .silent .silent
      ((threadPipelineEnable api s now threadId name).1,
        ((threadPipelineEnable api s now threadId name).2.map Outcome.status).map
          (Call.thread (.enable threadId name), ·)) := by
  have hmapped := h.mapped_pipelines hmain
  unfold threadPipelineEnable
  cases hfind : pipelineFind s.pipelines name with
  | none =>
    apply h.simulates_end hmain hmain
    simp [atomicCall, atomicEnable, hfind]
  | some p =>
    dsimp only
    split_ifs with hchecks hworker hidle hroom
    · apply h.simulates_end hmain hmain
      simp only [atomicCall, atomicEnable, hfind, if_pos hchecks]
    · apply h.simulates_end hmain hmain
      simp only [atomicCall, atomicEnable, hfind, if_neg hchecks, if_pos hworker]
    · have hatomic := atomicEnable_eq (a := ⟨s.pipelines, s.running, s.lib⟩) hfind hchecks hworker
      rw [hmapped.length_onThread threadId, dataOf, if_pos hroom] at hatomic
      apply h.simulates_end hmain hmain
      simp only [atomicCall, hatomic]
    · have hatomic := atomicEnable_eq (a := ⟨s.pipelines, s.running, s.lib⟩) hfind hchecks hworker
      rw [hmapped.length_onThread threadId, dataOf, if_neg hroom] at hatomic
      have hoff : p.enabled = false := by
        simp only [Bool.or_eq_true, not_or, Bool.not_eq_true] at hworker
        exact hworker.2
      have hinstall := hmapped.install h.registered hfind hoff (Nat.lt_of_not_le hroom) api.tscHz now
      apply (h.setData hmain (h.registered.put_enable hfind threadId) hinstall).simulates_end hmain
        hmain
      simp only [atomicCall, hatomic]
      rfl
    · apply h.simulates_send hmain
      exact .threadSend (.enable hfind hchecks hworker (by simpa using hidle))

/-- A disable begins. -/
theorem Inv.simulates_disable (h : Inv api all s .silent .silent) (hmain : s.main = .idle)
    (threadId : ℕ) (name : String) :
    Simulates api all view [] s .silent .silent
      ((threadPipelineDisable api s threadId name).1,
        ((threadPipelineDisable api s threadId name).2.map Outcome.status).map
          (Call.thread (.disable threadId name), ·)) := by
  have hmapped := h.mapped_pipelines hmain
  unfold threadPipelineDisable
  cases hfind : pipelineFind s.pipelines name with
  | none =>
    apply h.simulates_end hmain hmain
    simp [atomicCall, atomicDisable, hfind]
  | some p =>
    dsimp only
    split_ifs with hlcore hworker hoff htid hidle
    · apply h.simulates_end hmain hmain
      simp only [atomicCall, atomicDisable, hfind, if_pos hlcore]
    · apply h.simulates_end hmain hmain
      simp only [atomicCall, atomicDisable, hfind, if_neg hlcore, if_pos hworker]
    · apply h.simulates_end hmain hmain
      simp only [atomicCall, atomicDisable, hfind, if_neg hlcore, if_neg hworker, if_pos hoff]
    · apply h.simulates_end hmain hmain
      simp only [atomicCall, atomicDisable, hfind, if_neg hlcore, if_neg hworker, if_neg hoff,
        if_pos htid]
    · have hon : p.isOn threadId = true := isOn_iff.mpr ⟨by simpa using hoff, by simpa using htid⟩
      obtain ⟨i, hi⟩ := hmapped.exists_findPipeline (KeyedList.mem_of_find hfind) hon
      have huninstall := hmapped.uninstall h.registered hfind hon hi
      rw [show (s.threads threadId).data.findPipeline p.p = some i from hi]
      apply (h.setData hmain (h.registered.put_disable hfind) huninstall).simulates_end hmain hmain
      simp only [atomicCall, atomicDisable, hfind, if_neg hlcore, if_neg hworker, if_neg hoff,
        if_neg htid]
      rfl
    · have hon : p.isOn threadId = true := isOn_iff.mpr ⟨by simpa using hoff, by simpa using htid⟩
      apply h.simulates_send hmain
      exact .threadSend (.disable hfind hlcore hworker hon (by simpa using hidle))

/-- A call on a pipeline begins. -/
theorem Inv.simulates_pipelineCall (h : Inv api all s .silent .silent) (hmain : s.main = .idle)
    (name : String) (c : C) :
    Simulates api all view [] s .silent .silent
      ((pipelineCall api s name c).1,
        ((pipelineCall api s name c).2.map Outcome.value).map (Call.pipeline name c, ·)) := by
  have hmapped := h.mapped_pipelines hmain
  unfold pipelineCall
  cases hfind : pipelineFind s.pipelines name with
  | none =>
    apply h.simulates_end hmain hmain
    simp [atomicCall, atomicPipelineCall, hfind]
  | some p =>
    dsimp only
    cases hprepare : api.prepare p c with
    | error v =>
      apply h.simulates_end hmain hmain
      simp [atomicCall, atomicPipelineCall, hfind, hprepare]
    | ok q =>
      dsimp only
      split_ifs with hidle
      · have hinv : Inv api all
            { s.put (p.writeTable (api.completeDirect p c (api.direct p q s.lib).2).1) with
              lib := (api.direct p q s.lib).1 } .silent .silent := by
          refine ⟨h.threadMsgq, h.pipelineMsgq, h.registered.put_writeTable hfind _, ?_, ?_, h.held⟩
          · have hput := hmapped.put_writeTable h.registered hfind
              (api.completeDirect p c (api.direct p q s.lib).2).1
            simpa only [System.put, hmain, settled] using hput
          · simp only [System.put, hmain]
            exact .idle
        apply hinv.simulates_end hmain hmain
        simp only [atomicCall, atomicPipelineCall, hfind, hprepare]
        rfl
      · apply h.simulates_send hmain
        rw [Bool.not_eq_true, Bool.not_eq_false', System.pipelineIsRunning, Bool.and_eq_true]
          at hidle
        exact .pipelineSend ⟨hfind, hprepare, hidle.1, hidle.2, rfl⟩

/-- The main thread begins a call. -/
theorem Inv.simulates_begin (h : Inv api all s .silent .silent) (hmain : s.main = .idle) (now : ℕ)
    (call : Call C) :
    Simulates api all view [] s .silent .silent
      ((begin api s now call).1, (begin api s now call).2.map (call, ·)) := by
  cases call with
  | thread call =>
    cases call with
    | enable threadId name => exact h.simulates_enable hmain now threadId name
    | disable threadId name => exact h.simulates_disable hmain threadId name
  | pipeline name c => exact h.simulates_pipelineCall hmain name c

/-! ### The loops over the rings -/

/-- The answer of a thread keeps the registration. -/
theorem Registered.threadResponse {ps : List (Pipeline T)} (hps : Registered ps) (call : ThreadCall)
    (status : Int) : Registered (threadResponse ps call status).1 := by
  unfold Threads.threadResponse
  split_ifs with hstatus
  · exact hps
  · cases hfind : pipelineFind ps call.pipelineName with
    | none => exact hps
    | some p =>
      cases call with
      | enable threadId name => exact hps.put_enable hfind threadId
      | disable threadId name => exact hps.put_disable hfind

/-- The main thread puts a request into a ring. -/
theorem Inv.simulates_ask (h : Inv api all s tt pt) {main : Main Q C}
    {tt' : Talk ℕ ThreadReq Int} {pt' : Talk ℕ Q R} {threadMsgq : ℕ → Box ThreadReq Int}
    {pipelineMsgq : ℕ → Box Q R} (hthread : threadMsgq = tt'.box)
    (hpipeline : pipelineMsgq = pt'.box)
    (hphase : Phase api s.pipelines s.running main tt' pt')
    (hown : tt'.inHand = tt.inHand) (hother : pt'.inHand = pt.inHand)
    (hsettled : settled api s.pipelines main tt' pt' = settled api s.pipelines s.main tt pt)
    (hpending : pending api s.pipelines main tt' pt' = pending api s.pipelines s.main tt pt) :
    Simulates api all view [] s tt pt
      ({ s with threadMsgq := threadMsgq, pipelineMsgq := pipelineMsgq, main := main }, none) := by
  refine ⟨tt', pt', ⟨hthread, hpipeline, h.registered, ?_, hphase, ?_⟩, ?_⟩
  · dsimp only
    rw [hsettled]
    exact h.mapped
  · rw [hown, hother]
    exact h.held
  · intro _ _
    refine ⟨[], ?_, ?_⟩
    · have hsame : atomicOf api s tt pt = atomicOf api
          { s with threadMsgq := threadMsgq, pipelineMsgq := pipelineMsgq, main := main } tt' pt' := by
        rw [atomicOf, atomicOf, hsettled]
      rw [hsame]
      exact AtomicRun.refl _
    · dsimp only
      rw [hpending, List.append_nil]
      rfl

/-- The main thread reads a response, and its call ends. -/
theorem Inv.simulates_receive (h : Inv api all s tt pt) {pipelines : List (Pipeline T)}
    {threadMsgq : ℕ → Box ThreadReq Int} {pipelineMsgq : ℕ → Box Q R} {call : Call C}
    {outcome : Outcome V} (hthread : threadMsgq = (Talk.silent : Talk ℕ ThreadReq Int).box)
    (hpipeline : pipelineMsgq = (Talk.silent : Talk ℕ Q R).box)
    (hps : Registered pipelines) (hown : tt.inHand = none) (hother : pt.inHand = none)
    (hsettled : settled api s.pipelines s.main tt pt = pipelines)
    (hpending : pending api s.pipelines s.main tt pt = [(call, outcome)]) :
    Simulates api all view [] s tt pt
      ({ s with
          threadMsgq := threadMsgq
          pipelineMsgq := pipelineMsgq
          pipelines := pipelines
          main := .idle }, some (call, outcome)) := by
  refine ⟨.silent, .silent, ⟨hthread, hpipeline, hps, ?_, .idle, ?_⟩, ?_⟩
  · have hmapped := h.mapped
    rwa [hsettled] at hmapped
  · have hheld := h.held
    rwa [hown, hother] at hheld
  · intro _ _
    refine ⟨[], ?_, ?_⟩
    · have hsame : atomicOf api s tt pt = atomicOf api
          { s with
            threadMsgq := threadMsgq
            pipelineMsgq := pipelineMsgq
            pipelines := pipelines
            main := .idle } .silent .silent := by
        rw [atomicOf, atomicOf, hsettled]
        rfl
      rw [hsame]
      exact AtomicRun.refl _
    · rw [hpending]
      rfl

/-- The main thread turns round in a loop over a ring. -/
theorem Inv.simulates_turn (h : Inv api all s tt pt) :
    Simulates api all view [] s tt pt (turn api s) := by
  have hsame : Simulates api all view [] s tt pt (s, none) :=
    ⟨tt, pt, h, fun _ _ => ⟨[], AtomicRun.refl _, by simp⟩⟩
  have hphase := h.phase
  have hthread := h.threadMsgq
  have hpipeline := h.pipelineMsgq
  unfold turn
  generalize hmain : s.main = main at *
  cases hphase with
  | idle => exact hsame
  | @threadSend call req hasks =>
    dsimp only
    split_ifs with hroom
    · apply h.simulates_ask _ hpipeline (.threadAsked hasks) rfl rfl
      · rw [hmain]
        rfl
      · rw [hmain]
        rfl
      · rw [hthread]
        exact ask_silent _ _
    · exact hsame
  | @threadAsked call req hasks =>
    have hempty : (s.threadMsgq call.threadId).rsp = [] := by simp [hthread, Talk.box]
    simp only [hempty]
    exact hsame
  | @threadTaken call status =>
    have hempty : (s.threadMsgq call.threadId).rsp = [] := by simp [hthread, Talk.box]
    simp only [hempty]
    exact hsame
  | @threadAnswered call status =>
    have hrsp : (s.threadMsgq call.threadId).rsp = [status] := by simp [hthread, Talk.box]
    simp only [hrsp]
    apply h.simulates_receive _ hpipeline (h.registered.threadResponse call status) rfl rfl
    · rw [hmain]
      rfl
    · rw [hmain]
      rfl
    · rw [hthread]
      exact receive_answered _ _
  | @pipelineSend name c msgq q p hasks =>
    dsimp only
    split_ifs with hroom
    · apply h.simulates_ask hthread _ (.pipelineAsked hasks) rfl rfl
      · rw [hmain]
        rfl
      · rw [hmain]
        rfl
      · rw [hpipeline]
        exact ask_silent _ _
    · exact hsame
  | @pipelineAsked name c msgq q p hasks =>
    have hempty : (s.pipelineMsgq msgq).rsp = [] := by simp [hpipeline, Talk.box]
    simp only [hempty]
    exact hsame
  | @pipelineTaken name c msgq r =>
    have hempty : (s.pipelineMsgq msgq).rsp = [] := by simp [hpipeline, Talk.box]
    simp only [hempty]
    exact hsame
  | @pipelineAnswered name c msgq r =>
    have hrsp : (s.pipelineMsgq msgq).rsp = [r] := by simp [hpipeline, Talk.box]
    simp only [hrsp]
    apply h.simulates_receive hthread _ (h.registered.pipelineResponse c r) rfl rfl
    · rw [hmain]
      rfl
    · rw [hmain]
      rfl
    · rw [hpipeline]
      exact receive_answered _ _

/-! ### Creation and launch -/

/-- The event creates no table on a pipeline that is enabled. -/
def System.Spares (s : System L T Q R C) : Event L T C → Prop
  | .create (.table name _) _ => ∀ p, pipelineFind s.pipelines name = some p → p.enabled = false
  | _ => True

/-- What a creation does: nothing, or a new pipeline, or a write to a pipeline that leaves it where
it is and may add a table. -/
theorem Create.apply_cases (c : Create T) (ps : List (Pipeline T)) :
    c.apply ps = ps ∨
    (∃ p, pipelineFind ps p.name = none ∧ p.p = ps.length ∧ p.msgq = ps.length ∧
      p.enabled = false ∧ p.table = [] ∧ c.apply ps = ps ++ [p]) ∨
    ∃ p p', pipelineFind ps p'.name = some p ∧ p'.p = p.p ∧ p'.msgq = p.msgq ∧
      (∀ tid, p'.isOn tid = p.isOn tid) ∧
      (p'.table = p.table ∨ ∃ t, c = .table p'.name t ∧ p'.table = p.table ++ [t]) ∧
      c.apply ps = KeyedList.put Pipeline.name p' ps := by
  cases c with
  | pipeline name timerPeriodMs =>
    simp only [Create.apply]
    split_ifs with hno
    · exact .inl rfl
    · rw [not_or, Option.not_isSome_iff_eq_none] at hno
      exact .inr (.inl ⟨_, hno.1, rfl, rfl, rfl, rfl, rfl⟩)
  | portIn name =>
    simp only [Create.apply]
    cases hfind : pipelineFind ps name with
    | none => exact .inl rfl
    | some p =>
      obtain rfl : p.name = name := KeyedList.key_of_find hfind
      exact .inr (.inr ⟨p, { p with nPortsIn := p.nPortsIn + 1 }, hfind, rfl, rfl, fun _ => rfl,
        .inl rfl, rfl⟩)
  | portOut name =>
    simp only [Create.apply]
    cases hfind : pipelineFind ps name with
    | none => exact .inl rfl
    | some p =>
      obtain rfl : p.name = name := KeyedList.key_of_find hfind
      exact .inr (.inr ⟨p, { p with nPortsOut := p.nPortsOut + 1 }, hfind, rfl, rfl, fun _ => rfl,
        .inl rfl, rfl⟩)
  | table name t =>
    simp only [Create.apply]
    cases hfind : pipelineFind ps name with
    | none => exact .inl rfl
    | some p =>
      obtain rfl : p.name = name := KeyedList.key_of_find hfind
      dsimp only
      split_ifs with hfull
      · exact .inl rfl
      · exact .inr (.inr ⟨p, { p with table := p.table ++ [t] }, hfind, rfl, rfl, fun _ => rfl,
          .inr ⟨t, rfl, rfl⟩, rfl⟩)

/-- A creation keeps the registration. -/
theorem Registered.create {ps : List (Pipeline T)} (hps : Registered ps) (c : Create T) :
    Registered (c.apply ps) := by
  rcases c.apply_cases ps with hc | ⟨p, hfind, hp, hmsgq, -, -, hc⟩ |
    ⟨p, p', hfind, hp, hmsgq, -, -, hc⟩
  · rwa [hc]
  · rw [hc]
    exact hps.append hfind hp hmsgq
  · rw [hc]
    exact hps.put hfind hp hmsgq

/-- A creation leaves what is mapped; an entry does not know a table that is created on its
pipeline. -/
theorem Mapped.create {data : ℕ → ThreadData} {ps : List (Pipeline T)} (h : Mapped all data ps)
    (hps : Registered ps) (c : Create T)
    (hspares : all → ∀ name t, c = .table name t → ∀ p, pipelineFind ps name = some p →
      p.enabled = false) : Mapped all data (c.apply ps) := by
  rcases c.apply_cases ps with hc | ⟨p, -, hp, -, hoff, -, hc⟩ |
    ⟨p, p', hfind, hp, hmsgq, hon, htable, hc⟩
  · rwa [hc]
  · rw [hc]
    apply h.append _ hoff
    intro q hq
    rw [hp]
    exact Nat.ne_of_lt (hps.p_lt hq)
  · rw [hc]
    apply h.put hps hfind hp hon
    intro tid hpon conf hserves
    rcases htable with htable | ⟨t, rfl, htable⟩
    · refine ⟨hserves.msgq.trans hmsgq.symm, ?_, ?_, ?_⟩
      · rw [htable]
        exact hserves.nTables_le
      · rw [htable]
        exact hserves.tableAction
      · rw [htable]
        exact hserves.knows
    · refine ⟨hserves.msgq.trans hmsgq.symm, ?_, ?_, ?_⟩
      · have hle := hserves.nTables_le
        rw [htable, List.length_append]
        omega
      · intro i hi
        rw [hserves.tableAction i hi, htable,
          List.getElem?_append_left (Nat.lt_of_lt_of_le hi hserves.nTables_le)]
      · intro hall
        have hoff := hspares hall p'.name t rfl p hfind
        rw [isOn_iff, hoff] at hpon
        cases hpon.1

/-- **A step.** Any step of any thread keeps the invariant, and the system without messages can
follow it; it creates and launches what the step does. -/
theorem Inv.simulates_stepOut (h : Inv api all s tt pt) (e : Event L T C)
    (hspares : all → s.Spares e) :
    ∃ setups, setups.Sublist e.setup.toList ∧
      Simulates api all view setups s tt pt (stepOut api s e) := by
  have hquiet {s' : System L T Q R C × Option (Call C × Outcome V)}
      (hsim : Simulates api all view [] s tt pt s') :
      ∃ setups, setups.Sublist e.setup.toList ∧ Simulates api all view setups s tt pt s' :=
    ⟨[], List.nil_sublist _, hsim⟩
  have hsame : ∃ setups, setups.Sublist e.setup.toList ∧
      Simulates api all view setups s tt pt (s, none) :=
    hquiet ⟨tt, pt, h, fun _ _ => ⟨[], AtomicRun.refl _, by simp⟩⟩
  cases e with
  | call now call =>
    unfold stepOut
    cases hmain : s.main with
    | idle =>
      obtain ⟨rfl, rfl⟩ := h.silent hmain
      exact hquiet (h.simulates_begin hmain now call)
    | threadSend call req => exact hsame
    | threadRecv call => exact hsame
    | pipelineSend name c msgq req => exact hsame
    | pipelineRecv name c msgq => exact hsame
  | main => exact hquiet h.simulates_turn
  | create c lib =>
    unfold stepOut
    cases hmain : s.main with
    | idle =>
      obtain ⟨rfl, rfl⟩ := h.silent hmain
      have hmapped := (h.mapped_pipelines hmain).create h.registered c (by
        rintro hall name t rfl
        exact hspares hall)
      refine ⟨[.create c lib], List.Sublist.refl _, .silent, .silent,
        ⟨h.threadMsgq, h.pipelineMsgq, h.registered.create c, ?_, ?_, h.held⟩,
        fun _ _ => ⟨_, AtomicRun.step (.create c lib) (Prod.ext ?_ rfl), ?_⟩⟩
      · simpa only [hmain, settled] using hmapped
      · exact .idle
      · simp only [atomicStep, atomicOf, hmain, settled]
      · simp [atomicStep, pending, hmain]
    | threadSend call req => exact hsame
    | threadRecv call => exact hsame
    | pipelineSend name c msgq req => exact hsame
    | pipelineRecv name c msgq => exact hsame
  | launch tid =>
    unfold stepOut
    cases hmain : s.main with
    | idle =>
      obtain ⟨rfl, rfl⟩ := h.silent hmain
      dsimp only
      split_ifs with hworker
      · refine ⟨[.launch tid], List.Sublist.refl _, .silent, .silent,
          ⟨h.threadMsgq, h.pipelineMsgq, h.registered, ?_, ?_, ?_⟩,
          fun _ _ => ⟨_, AtomicRun.step (.launch tid) (Prod.ext ?_ rfl), ?_⟩⟩
        · simpa only [hmain, settled] using h.mapped_pipelines hmain
        · exact .idle
        · refine ⟨?_, h.held.status, h.held.of_response, h.held.of_other⟩
          intro k hk
          apply h.held.still k
          by_cases hkt : k = tid
          · subst hkt
            simp at hk
          · simpa [hkt] using hk
        · simp only [atomicStep, atomicOf, hmain, settled, if_pos hworker]
        · simp [atomicStep, pending, hmain]
      · exact hsame
    | threadSend call req => exact hsame
    | threadRecv call => exact hsame
    | pipelineSend name c msgq req => exact hsame
    | pipelineRecv name c msgq => exact hsame
  | thread tid now =>
    unfold stepOut
    dsimp only
    split_ifs with hrun
    · unfold dispatch
      cases hpc : (s.threads tid).pc with
      | run j => exact hquiet (h.simulates_dispatchRun hrun hpc now)
      | pipelineMsgs j time timeNextMin rsp =>
        exact hquiet (h.simulates_dispatchPipelineMsgs hrun hpc)
      | threadMsgs time timeNextMin rsp =>
        exact hquiet (h.simulates_dispatchThreadMsgs hrun hpc now)
    · exact hsame

end Rids.Threads
