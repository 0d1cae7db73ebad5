import Rids.Lib.Ranking
import Rids.Threads.Walk

/-!
# Every request is answered

The main thread polls for a response without a limit. It gets one: a data plane thread whose clock
has passed its timers finds the request, and answers it, after a bounded number of its own steps,
whatever the other threads do in between.

* `Inv.finds_only` — the ring with the request is the only one that a thread finds a request in.
* `Waits.own_step`, `Waits.other_step` — what the steps do while the main thread waits.
* `threadCall_served`, `pipelineCall_served` — the request to a thread, and that to the thread of a
  pipeline, is answered within `18 * (n + 2)` steps of the thread, where `n` is the number of its
  pipelines.
-/

namespace Rids.Threads

open Rids.Lib Rids.Lib.Mailbox Rids.Lib.SlotMachine

variable {L T Q R C V : Type} {api : Api L T Q R C V} {all : Prop} {s : System L T Q R C}
  {tt : Talk ℕ ThreadReq Int} {pt : Talk ℕ Q R} {tid : ℕ} {target : Target}

/-! ### Where the message is -/

/-- A thread holds the response of the target. -/
def Thread.Holds (th : Thread R) : Target → Prop
  | .own => th.status ≠ none
  | .slot k => ∃ r, th.response = some (k, r)

/-- The request in a ring is the one of the main thread. -/
theorem Inv.asked_of_finds (h : Inv api all s tt pt) (hfinds : s.Finds tid target) :
    match target with
    | .own => (∃ req, tt = .asked tid req) ∧ pt = .silent
    | .slot k => tt = .silent ∧ ∃ q, pt = .asked ((s.threads tid).data.pipelineData k).msgq q := by
  cases target with
  | own =>
    obtain ⟨req, reqs, hreq⟩ := List.ne_nil_iff_exists_cons.mp hfinds
    rw [h.threadMsgq, req_box_eq_cons_iff] at hreq
    refine ⟨⟨req, hreq.1⟩, ?_⟩
    rcases h.phase.silent_or with rfl | rfl
    · cases hreq.1
    · rfl
  | slot k =>
    obtain ⟨q, qs, hreq⟩ := List.ne_nil_iff_exists_cons.mp hfinds
    rw [h.pipelineMsgq, req_box_eq_cons_iff] at hreq
    refine ⟨?_, q, hreq.1⟩
    rcases h.phase.silent_or with rfl | rfl
    · rfl
    · cases hreq.1

/-- A thread that looks into a ring with a request looks into the ring that the main thread has
chosen. -/
theorem Inv.finds_only (h : Inv api all s tt pt) (hfinds : s.Finds tid target)
    (hslot : ∀ k, target = .slot k → k < (s.threads tid).data.nPipelines) {tid' : ℕ}
    {target' : Target} (hat : (s.threads tid').At target') (hfinds' : s.Finds tid' target') :
    tid' = tid ∧ target' = target := by
  have hps : Registered (settled api s.pipelines s.main tt pt) := h.registered.settled _ _ _
  have hasked := h.asked_of_finds hfinds
  have hasked' := h.asked_of_finds hfinds'
  cases target with
  | own =>
    obtain ⟨⟨req, rfl⟩, rfl⟩ := hasked
    cases target' with
    | own =>
      obtain ⟨⟨req', hreq'⟩, -⟩ := hasked'
      cases hreq'
      exact ⟨rfl, rfl⟩
    | slot k' => cases hasked'.1
  | slot k =>
    obtain ⟨rfl, q, rfl⟩ := hasked
    cases target' with
    | own =>
      obtain ⟨⟨req', hreq'⟩, -⟩ := hasked'
      cases hreq'
    | slot k' =>
      obtain ⟨-, q', hq'⟩ := hasked'
      obtain ⟨time, timeNextMin, -, hk', -⟩ := hat
      have hring := (Talk.asked.inj hq').1
      obtain ⟨rfl, rfl⟩ := h.mapped.eq_of_msgq_eq hps hk' (hslot k rfl) hring.symm
      exact ⟨rfl, rfl⟩

/-- The response that a thread holds is the one that the main thread waits for. -/
theorem Inv.taken_of_holds (h : Inv api all s tt pt) (hholds : (s.threads tid).Holds target) :
    match target with
    | .own => (∃ status, tt = .taken tid status) ∧ pt = .silent
    | .slot k => tt = .silent ∧ k < (s.threads tid).data.nPipelines ∧
        ∃ r, pt = .taken ((s.threads tid).data.pipelineData k).msgq r := by
  cases target with
  | own =>
    obtain ⟨status, hstatus⟩ := Option.ne_none_iff_exists'.mp hholds
    have htt := inHand_eq_some_iff.mp ((h.held.status tid status).mp hstatus)
    refine ⟨⟨status, htt⟩, ?_⟩
    rcases h.phase.silent_or with rfl | rfl
    · cases htt
    · rfl
  | slot k =>
    obtain ⟨r, hr⟩ := hholds
    obtain ⟨hk, hother⟩ := h.held.of_response tid k r hr
    have hpt := inHand_eq_some_iff.mp hother
    refine ⟨?_, hk, r, hpt⟩
    rcases h.phase.silent_or with rfl | rfl
    · rfl
    · cases hpt

/-- While a thread holds a response, no thread finds a request. -/
theorem Inv.not_finds_of_holds (h : Inv api all s tt pt) (hholds : (s.threads tid).Holds target)
    (tid' : ℕ) (target' : Target) : ¬s.Finds tid' target' := by
  intro hfinds
  have htaken := h.taken_of_holds hholds
  have hasked := h.asked_of_finds hfinds
  cases target with
  | own =>
    obtain ⟨⟨status, rfl⟩, rfl⟩ := htaken
    cases target' with
    | own =>
      obtain ⟨⟨req, hreq⟩, -⟩ := hasked
      cases hreq
    | slot k =>
      obtain ⟨hsilent, -⟩ := hasked
      cases hsilent
  | slot k =>
    obtain ⟨rfl, -, r, rfl⟩ := htaken
    cases target' with
    | own =>
      obtain ⟨⟨req, hreq⟩, -⟩ := hasked
      cases hreq
    | slot k' =>
      obtain ⟨-, q, hq⟩ := hasked
      cases hq

/-! ### Steps while the main thread waits -/

/-- A thread that holds nothing and finds nothing walks, and the invariant stays. -/
theorem Inv.walks (h : Inv api all s tt pt) (now : ℕ) (hrun : s.running tid = true)
    (hstatus : (s.threads tid).status = none) (hresponse : (s.threads tid).response = none)
    (hno : ∀ target, (s.threads tid).At target → ¬s.Finds tid target) :
    ∃ lib, (system api).step s (.thread tid now) =
        { s with threads := Function.update s.threads tid ((s.threads tid).walk now), lib := lib } ∧
      Inv api all
        { s with threads := Function.update s.threads tid ((s.threads tid).walk now), lib := lib }
        tt pt := by
  have hwalk : ∃ lib, dispatch api s.toDataPlane tid now =
      { s.toDataPlane with
        threads := Function.update s.threads tid ((s.threads tid).walk now)
        lib := lib } :=
    dispatch_of_not_finds now hstatus hresponse hno
  obtain ⟨lib, hdispatch⟩ := hwalk
  obtain ⟨hstatus', hresponse', hslots, haligned⟩ :=
    walk_frame (s.threads tid) now (h.mapped.aligned tid)
  refine ⟨lib, ?_, h.frame lib hrun hresponse hresponse' hstatus hstatus' hslots haligned⟩
  change (stepOut api s (.thread tid now)).1 = _
  rw [stepOut, if_pos hrun, hdispatch]

/-- The main thread waits for an answer out of the ring of the target: a request is in the ring and
the thread on its way to it, or the thread holds the response. -/
inductive Waits (api : Api L T Q R C V) (main : Main Q C) (tid : ℕ) (target : Target) (bound : ℕ)
    (s : System L T Q R C) : Prop
  | asked {tt : Talk ℕ ThreadReq Int} {pt : Talk ℕ Q R} (h : Inv api False s tt pt)
      (hmain : s.main = main) (hrun : s.running tid = true)
      (hnear : (s.threads tid).Near target bound) (hfinds : s.Finds tid target)
  | taken {tt : Talk ℕ ThreadReq Int} {pt : Talk ℕ Q R} (h : Inv api False s tt pt)
      (hmain : s.main = main) (hrun : s.running tid = true) (hholds : (s.threads tid).Holds target)

/-- The next turn of the main thread ends its call. -/
def Answered (api : Api L T Q R C V) (main : Main Q C) (s : System L T Q R C) : Prop :=
  s.main = main ∧ (turn api s).2 ≠ none

/-- The steps that the thread has to make at most. -/
def System.left (target : Target) (tid : ℕ) (s : System L T Q R C) : ℕ :=
  if (s.threads tid).status.isNone && (s.threads tid).response.isNone then
    (s.threads tid).rank target
  else 1

/-- While its reply is missing a call on a thread waits. -/
theorem turn_threadRecv {call : ThreadCall} (hmain : s.main = .threadRecv call)
    (hrsp : (s.threadMsgq call.threadId).rsp = []) : turn api s = (s, none) := by
  simp only [turn, hmain, hrsp]

/-- While its reply is missing a request on a pipeline waits. -/
theorem turn_pipelineRecv {name : String} {c : C} {msgq : ℕ}
    (hmain : s.main = .pipelineRecv name c msgq) (hrsp : (s.pipelineMsgq msgq).rsp = []) :
    turn api s = (s, none) := by
  simp only [turn, hmain, hrsp]

/-- A call on a thread ends with a status. -/
theorem out_threadRecv {call : ThreadCall} (hmain : s.main = .threadRecv call)
    (hends : (turn api s).2 ≠ none) :
    ∃ status, (turn api s).2 = some (.thread call, .status status) := by
  cases hrsp : (s.threadMsgq call.threadId).rsp with
  | nil =>
    rw [turn_threadRecv hmain hrsp] at hends
    exact absurd rfl hends
  | cons status rest =>
    simp only [turn, hmain, hrsp]
    exact ⟨_, rfl⟩

/-- A request on a pipeline ends with a value. -/
theorem out_pipelineRecv {name : String} {c : C} {msgq : ℕ}
    (hmain : s.main = .pipelineRecv name c msgq) (hends : (turn api s).2 ≠ none) :
    ∃ v, (turn api s).2 = some (.pipeline name c, .value v) := by
  cases hrsp : (s.pipelineMsgq msgq).rsp with
  | nil =>
    rw [turn_pipelineRecv hmain hrsp] at hends
    exact absurd rfl hends
  | cons r rest =>
    simp only [turn, hmain, hrsp]
    exact ⟨_, rfl⟩

/-- While a request is in a ring, the main thread turns round. -/
theorem Inv.turn_of_finds (h : Inv api all s tt pt) (hfinds : s.Finds tid target) :
    s.main ≠ .idle ∧ turn api s = (s, none) := by
  have hasked := h.asked_of_finds hfinds
  cases target with
  | own =>
    obtain ⟨⟨req, rfl⟩, rfl⟩ := hasked
    obtain ⟨call, hmain, -, -, -⟩ := h.phase.of_threadAsked
    refine ⟨by simp [hmain], turn_threadRecv hmain ?_⟩
    rw [h.threadMsgq]
    simp only [Talk.box]
    split_ifs <;> rfl
  | slot k =>
    obtain ⟨rfl, q, rfl⟩ := hasked
    obtain ⟨name, c, p, hmain, -, -⟩ := h.phase.of_pipelineAsked
    refine ⟨by simp [hmain], turn_pipelineRecv hmain ?_⟩
    rw [h.pipelineMsgq]
    simp only [Talk.box]
    split_ifs <;> rfl

/-- While a response is in the hand of a thread, the main thread turns round. -/
theorem Inv.turn_of_holds (h : Inv api all s tt pt) (hholds : (s.threads tid).Holds target) :
    s.main ≠ .idle ∧ turn api s = (s, none) := by
  have htaken := h.taken_of_holds hholds
  cases target with
  | own =>
    obtain ⟨⟨status, rfl⟩, rfl⟩ := htaken
    obtain ⟨call, hmain, -, -⟩ := h.phase.of_threadTaken
    refine ⟨by simp [hmain], turn_threadRecv hmain ?_⟩
    rw [h.threadMsgq]
    rfl
  | slot k =>
    obtain ⟨rfl, -, r, rfl⟩ := htaken
    obtain ⟨name, c, hmain, -, -⟩ := h.phase.of_pipelineTaken
    refine ⟨by simp [hmain], turn_pipelineRecv hmain ?_⟩
    rw [h.pipelineMsgq]
    rfl

/-- While the main thread waits, it begins nothing else. -/
theorem step_of_turn (hbusy : s.main ≠ .idle ∧ turn api s = (s, none)) {e : Event L T C}
    (he : ∀ k now, e = .thread k now → s.running k = false) : (system api).step s e = s := by
  obtain ⟨hmain, hturn⟩ := hbusy
  change (stepOut api s e).1 = s
  cases e with
  | call now call =>
    unfold stepOut
    cases hidle : s.main with
    | idle => exact absurd hidle hmain
    | threadSend call req => rfl
    | threadRecv call => rfl
    | pipelineSend name c msgq req => rfl
    | pipelineRecv name c msgq => rfl
  | main => exact congrArg Prod.fst hturn
  | create c lib =>
    unfold stepOut
    cases hidle : s.main with
    | idle => exact absurd hidle hmain
    | threadSend call req => rfl
    | threadRecv call => rfl
    | pipelineSend name c msgq req => rfl
    | pipelineRecv name c msgq => rfl
  | launch tid =>
    unfold stepOut
    cases hidle : s.main with
    | idle => exact absurd hidle hmain
    | threadSend call req => rfl
    | threadRecv call => rfl
    | pipelineSend name c msgq req => rfl
    | pipelineRecv name c msgq => rfl
  | thread k now =>
    rw [stepOut, he k now rfl]
    rfl

/-- While one thread holds the talk no other has a status or a response. -/
theorem Inv.status_of_taken (h : Inv api all s tt pt) {tid' : ℕ} (hne : tid' ≠ tid)
    (hholds : (s.threads tid).Holds target) :
    (s.threads tid').status = none ∧ (s.threads tid').response = none := by
  have hps : Registered (settled api s.pipelines s.main tt pt) := h.registered.settled _ _ _
  have htaken := h.taken_of_holds hholds
  cases target with
  | own =>
    obtain ⟨⟨status, rfl⟩, rfl⟩ := htaken
    refine ⟨?_, h.held.response_eq_none tid'⟩
    cases hstatus : (s.threads tid').status with
    | none => rfl
    | some status' =>
      have hsame := inHand_eq_some_iff.mp ((h.held.status tid' status').mp hstatus)
      cases hsame
      exact absurd rfl hne
  | slot k =>
    obtain ⟨rfl, hk, r, rfl⟩ := htaken
    refine ⟨h.held.status_eq_none tid', ?_⟩
    cases hresponse : (s.threads tid').response with
    | none => rfl
    | some rsp =>
      obtain ⟨hj, hother⟩ := h.held.of_response tid' rsp.1 rsp.2 hresponse
      have hring := (Talk.taken.inj (inHand_eq_some_iff.mp hother)).1
      have hsame : tid' = tid ∧ rsp.1 = k := h.mapped.eq_of_msgq_eq hps hj hk hring.symm
      exact absurd hsame.1 hne

/-- While the talk is in a ring no thread has a status or a response. -/
theorem Inv.status_of_finds (h : Inv api all s tt pt) (hfinds : s.Finds tid target) (tid' : ℕ) :
    (s.threads tid').status = none ∧ (s.threads tid').response = none := by
  have hasked := h.asked_of_finds hfinds
  cases target with
  | own =>
    obtain ⟨⟨req, rfl⟩, rfl⟩ := hasked
    exact ⟨h.held.status_eq_none tid', h.held.response_eq_none tid'⟩
  | slot k =>
    obtain ⟨rfl, q, rfl⟩ := hasked
    exact ⟨h.held.status_eq_none tid', h.held.response_eq_none tid'⟩

/-- A step of any other thread. -/
theorem Waits.other_step {main : Main Q C} {bound : ℕ} (h : Waits api main tid target bound s)
    {e : Event L T C} (he : ∀ now, e ≠ .thread tid now) :
    Waits api main tid target bound ((system api).step s e) ∧
      ((system api).step s e).left target tid ≤ s.left target tid := by
  -- Only a running data plane thread other than `tid` can change anything.
  have hcases : (∀ k now, e = .thread k now → s.running k = false) ∨
      ∃ k now, e = .thread k now ∧ k ≠ tid ∧ s.running k = true := by
    cases e with
    | thread k now =>
      have hk : k ≠ tid := by
        rintro rfl
        exact he now rfl
      cases hrunning : s.running k with
      | false =>
        left
        rintro k' now' ⟨⟩
        exact hrunning
      | true => exact .inr ⟨k, now, rfl, hk, hrunning⟩
    | call now call => exact .inl nofun
    | main => exact .inl nofun
    | create c lib => exact .inl nofun
    | launch k => exact .inl nofun
  cases h with
  | @asked tt pt hinv hmain hrun hnear hfinds =>
    rcases hcases with hquiet | ⟨k, now, rfl, hk, hrunning⟩
    · rw [step_of_turn (hinv.turn_of_finds hfinds) hquiet]
      exact ⟨.asked hinv hmain hrun hnear hfinds, Nat.le_refl _⟩
    · obtain ⟨hstatus, hresponse⟩ := hinv.status_of_finds hfinds k
      have hno : ∀ target', (s.threads k).At target' → ¬s.Finds k target' := by
        intro target' hat hfinds'
        exact hk (hinv.finds_only hfinds hnear.slot hat hfinds').1
      obtain ⟨lib, hstep, hinv'⟩ := hinv.walks now hrunning hstatus hresponse hno
      have hsame : Function.update s.threads k ((s.threads k).walk now) tid = s.threads tid :=
        Function.update_of_ne (Ne.symm hk) _ _
      rw [hstep]
      refine ⟨.asked hinv' hmain hrun ?_ ?_, ?_⟩
      · simpa only [hsame] using hnear
      · cases target with
        | own => exact hfinds
        | slot j =>
          simp only [DataPlane.Finds, hsame]
          exact hfinds
      · simp only [System.left, hsame, Nat.le_refl]
  | @taken tt pt hinv hmain hrun hholds =>
    rcases hcases with hquiet | ⟨k, now, rfl, hk, hrunning⟩
    · rw [step_of_turn (hinv.turn_of_holds hholds) hquiet]
      exact ⟨.taken hinv hmain hrun hholds, Nat.le_refl _⟩
    · obtain ⟨hstatus, hresponse⟩ := hinv.status_of_taken hk hholds
      have hno : ∀ target', (s.threads k).At target' → ¬s.Finds k target' :=
        fun target' _ => hinv.not_finds_of_holds hholds k target'
      obtain ⟨lib, hstep, hinv'⟩ := hinv.walks now hrunning hstatus hresponse hno
      have hsame : Function.update s.threads k ((s.threads k).walk now) tid = s.threads tid :=
        Function.update_of_ne (Ne.symm hk) _ _
      rw [hstep]
      refine ⟨.taken hinv' hmain hrun ?_, ?_⟩
      · simpa only [hsame] using hholds
      · simp only [System.left, hsame, Nat.le_refl]

/-- The thread takes the request. -/
theorem Waits.take_step {main : Main Q C} {bound : ℕ} (hinv : Inv api False s tt pt)
    (hmain : s.main = main) (hrun : s.running tid = true) (hat : (s.threads tid).At target)
    (hfinds : s.Finds tid target) (now : ℕ) :
    Waits api main tid target bound ((system api).step s (.thread tid now)) ∧
      ((system api).step s (.thread tid now)).left target tid = 1 := by
  obtain ⟨setups, -, tt', pt', hinv', -⟩ : ∃ setups,
      setups.Sublist (Event.thread tid now : Event L T C).setup.toList ∧
        Simulates api False (id : V → V) setups s tt pt (stepOut api s (.thread tid now)) :=
    hinv.simulates_stepOut _ nofun
  cases target with
  | own =>
    obtain ⟨time, timeNextMin, hpc, htimer⟩ := hat
    obtain ⟨req, reqs, hreq⟩ := List.ne_nil_iff_exists_cons.mp hfinds
    have hstep : ∃ s' : System L T Q R C, (stepOut api s (.thread tid now)).1 = s' ∧
        s'.main = main ∧ s'.running tid = true ∧ (s'.threads tid).status ≠ none := by
      refine ⟨_, rfl, ?_⟩
      simp only [stepOut, if_pos hrun, dispatch, hpc, dispatchThreadMsgs, htimer, if_true, hreq]
      refine ⟨hmain, hrun, ?_⟩
      simp [DataPlane.setThread, Thread.goto, Thread.status]
    obtain ⟨s', hs', hmain', hrun', hholds⟩ := hstep
    rw [show (system api).step s (.thread tid now) = s' from hs']
    rw [hs'] at hinv'
    refine ⟨.taken hinv' hmain' hrun' hholds, ?_⟩
    obtain ⟨status, hstatus⟩ := Option.ne_none_iff_exists'.mp hholds
    simp [System.left, hstatus]
  | slot k =>
    obtain ⟨time, timeNextMin, hpc, hk, htimer⟩ := hat
    obtain ⟨q, qs, hreq⟩ := List.ne_nil_iff_exists_cons.mp hfinds
    have hstep : ∃ s' : System L T Q R C, (stepOut api s (.thread tid now)).1 = s' ∧
        s'.main = main ∧ s'.running tid = true ∧ ∃ r, (s'.threads tid).response = some (k, r) := by
      refine ⟨_, rfl, ?_⟩
      simp only [stepOut, if_pos hrun, dispatch, hpc, dispatchPipelineMsgs, hk, htimer, if_true,
        hreq]
      refine ⟨hmain, hrun, ?_⟩
      simp [DataPlane.setThread, Thread.goto, Thread.response]
    obtain ⟨s', hs', hmain', hrun', hholds⟩ := hstep
    rw [show (system api).step s (.thread tid now) = s' from hs']
    rw [hs'] at hinv'
    refine ⟨.taken hinv' hmain' hrun' hholds, ?_⟩
    obtain ⟨r, hr⟩ := hholds
    simp [System.left, hr]

/-- The thread answers. -/
theorem Waits.answer_step {main : Main Q C} (hinv : Inv api False s tt pt)
    (hmain : s.main = main) (hrun : s.running tid = true) (hholds : (s.threads tid).Holds target)
    (now : ℕ) : Answered api main ((system api).step s (.thread tid now)) := by
  have htaken := hinv.taken_of_holds hholds
  cases target with
  | own =>
    obtain ⟨⟨status, rfl⟩, rfl⟩ := htaken
    obtain ⟨call, hrecv, rfl, -⟩ := hinv.phase.of_threadTaken
    have hstatus := (hinv.held.status call.threadId status).mpr rfl
    have hroom : (s.threadMsgq call.threadId).rsp = [] := by
      rw [hinv.threadMsgq]
      rfl
    have hpc : ∃ time timeNextMin,
        (s.threads call.threadId).pc = .threadMsgs time timeNextMin (some status) := by
      unfold Thread.status at hstatus
      cases hpc : (s.threads call.threadId).pc with
      | run j => simp [hpc] at hstatus
      | pipelineMsgs j time timeNextMin rsp => simp [hpc] at hstatus
      | threadMsgs time timeNextMin rsp =>
        simp only [hpc] at hstatus
        exact ⟨time, timeNextMin, by rw [hstatus]⟩
    obtain ⟨time, timeNextMin, hpc⟩ := hpc
    have hstep : (system api).step s (.thread call.threadId now) = (stepOut api s
        (.thread call.threadId now)).1 := rfl
    rw [hstep]
    simp only [stepOut, if_pos hrun, dispatch, hpc, dispatchThreadMsgs, hroom, List.length_nil,
      ringCapacity]
    refine ⟨hmain, ?_⟩
    simp [turn, hrecv, answer, hroom]
  | slot k =>
    obtain ⟨rfl, hk, r, rfl⟩ := htaken
    obtain ⟨name, c, hrecv, -, -⟩ := hinv.phase.of_pipelineTaken
    obtain ⟨r', hr'⟩ := hholds
    have hroom : (s.pipelineMsgq ((s.threads tid).data.pipelineData k).msgq).rsp = [] := by
      rw [hinv.pipelineMsgq]
      rfl
    have hpc : ∃ time timeNextMin,
        (s.threads tid).pc = .pipelineMsgs k time timeNextMin (some r') := by
      unfold Thread.response at hr'
      cases hpc : (s.threads tid).pc with
      | run j => simp [hpc] at hr'
      | threadMsgs time timeNextMin rsp => simp [hpc] at hr'
      | pipelineMsgs j time timeNextMin rsp =>
        simp only [hpc, Option.map_eq_some_iff, Prod.mk.injEq] at hr'
        obtain ⟨r'', hrsp, rfl, rfl⟩ := hr'
        exact ⟨time, timeNextMin, by rw [hrsp]⟩
    obtain ⟨time, timeNextMin, hpc⟩ := hpc
    have hstep : (system api).step s (.thread tid now) = (stepOut api s (.thread tid now)).1 := rfl
    rw [hstep]
    simp only [stepOut, if_pos hrun, dispatch, hpc, dispatchPipelineMsgs, hk, if_true, hroom,
      List.length_nil, ringCapacity]
    refine ⟨hmain, ?_⟩
    simp [turn, hrecv, answer, hroom]

/-- A step of the thread that the main thread waits for. -/
theorem Waits.own_step {main : Main Q C} {bound : ℕ} (h : Waits api main tid target bound s)
    {now : ℕ} (hnow : bound ≤ now) :
    Answered api main ((system api).step s (.thread tid now)) ∨
      Waits api main tid target bound ((system api).step s (.thread tid now)) ∧
        ((system api).step s (.thread tid now)).left target tid < s.left target tid := by
  cases h with
  | @asked tt pt hinv hmain hrun hnear hfinds =>
    right
    obtain ⟨hstatus, hresponse⟩ := hinv.status_of_finds hfinds tid
    have hleft : s.left target tid = (s.threads tid).rank target := by
      simp [System.left, hstatus, hresponse]
    by_cases hat : (s.threads tid).At target
    · have htake : Waits api main tid target bound ((system api).step s (.thread tid now)) ∧
          ((system api).step s (.thread tid now)).left target tid = 1 :=
        Waits.take_step hinv hmain hrun hat hfinds now
      obtain ⟨hwaits, hone⟩ := htake
      refine ⟨hwaits, ?_⟩
      rw [hone, hleft, rank_of_at hat]
      exact Nat.one_lt_two
    · have hno : ∀ target', (s.threads tid).At target' → ¬s.Finds tid target' := by
        intro target' hat' hfinds'
        obtain ⟨-, rfl⟩ := hinv.finds_only hfinds hnear.slot hat' hfinds'
        exact hat hat'
      obtain ⟨lib, hstep, hinv'⟩ := hinv.walks now hrun hstatus hresponse hno
      obtain ⟨hnear', hlower⟩ := hnear.walk hnow hat hstatus hresponse
      obtain ⟨hstatus', hresponse', hslots, -⟩ :=
        walk_frame (s.threads tid) now (hinv.mapped.aligned tid)
      rw [hstep, hleft]
      refine ⟨.asked hinv' hmain hrun ?_ ?_, ?_⟩
      · simpa only [Function.update_self] using hnear'
      · cases target with
        | own => exact hfinds
        | slot k =>
          have hsame : (((s.threads tid).walk now).data.pipelineData k).msgq =
              ((s.threads tid).data.pipelineData k).msgq :=
            congrArg PipelineConf.msgq (conf_eq_of_slots_eq hslots (hnear.slot k rfl))
          simp only [DataPlane.Finds, Function.update_self, hsame]
          exact hfinds
      · simpa [System.left, hstatus', hresponse'] using hlower
  | @taken tt pt hinv hmain hrun hholds =>
    exact .inl (Waits.answer_step hinv hmain hrun hholds now)

/-! ### Answers -/

/-- The event is a step of the thread. -/
def Event.isStep (tid : ℕ) : Event L T C → Bool
  | .thread k _ => k = tid
  | _ => false

/-- While the main thread waits, enough steps of the thread end the waiting. -/
theorem Waits.served {main : Main Q C} {bound : ℕ} (h : Waits api main tid target bound s)
    {xs : List (Event L T C)} (hclock : ∀ now, Event.thread tid now ∈ xs → bound ≤ now)
    (hcount : 18 * ((s.threads tid).data.nPipelines + 2) ≤ xs.countP (Event.isStep tid)) :
    ∃ pre, pre <+: xs ∧ Answered api main ((system api).run s pre) := by
  have hallowed : ∀ e ∈ xs, ∀ now, e = .thread tid now → bound ≤ now := by
    rintro e he now rfl
    exact hclock now he
  have hleft : s.left target tid < 18 * ((s.threads tid).data.nPipelines + 2) := by
    cases h with
    | @asked tt pt hinv hmain hrun hnear hfinds =>
      obtain ⟨hstatus, hresponse⟩ := hinv.status_of_finds hfinds tid
      have hrank := rank_lt hnear.slot
      simpa [System.left, hstatus, hresponse] using hrank
    | @taken tt pt hinv hmain hrun hholds =>
      have hone : s.left target tid = 1 := by
        cases target with
        | own =>
          obtain ⟨status, hstatus⟩ := Option.ne_none_iff_exists'.mp hholds
          simp [System.left, hstatus]
        | slot k =>
          obtain ⟨r, hr⟩ := hholds
          simp [System.left, hr]
      omega
  have hown : ∀ (s : System L T Q R C) (e : Event L T C), Waits api main tid target bound s →
      (∀ now, e = .thread tid now → bound ≤ now) → e.isStep tid = true →
      Answered api main ((system api).step s e) ∨
        Waits api main tid target bound ((system api).step s e) ∧
          ((system api).step s e).left target tid < s.left target tid := by
    intro s e hwaits hallowed he
    cases e with
    | thread k now =>
      obtain rfl : k = tid := by simpa [Event.isStep] using he
      exact hwaits.own_step (hallowed now rfl)
    | call now call => cases he
    | main => cases he
    | create c lib => cases he
    | launch k => cases he
  have hother : ∀ (s : System L T Q R C) (e : Event L T C), Waits api main tid target bound s →
      (∀ now, e = .thread tid now → bound ≤ now) → e.isStep tid = false →
      Answered api main ((system api).step s e) ∨
        Waits api main tid target bound ((system api).step s e) ∧
          ((system api).step s e).left target tid ≤ s.left target tid := by
    intro s e hwaits _ he
    right
    apply hwaits.other_step
    rintro now rfl
    simp [Event.isStep] at he
  exact Ranking.exists_done hown hother h hallowed (Nat.lt_of_lt_of_le hleft hcount)

/-- A thread that holds a status is running. -/
theorem Held.running_of_status {running : ℕ → Bool} {threads : ℕ → Thread R}
    {own : Option (ℕ × Int)} {other : Option (ℕ × R)} (h : Held running threads own other)
    (hholds : (threads tid).Holds target) : running tid = true := by
  by_contra hstopped
  have hpc := h.still tid (by simpa using hstopped)
  cases target with
  | own =>
    apply hholds
    rw [Thread.status, hpc]
  | slot k =>
    obtain ⟨r, hr⟩ := hholds
    rw [Thread.response, hpc] at hr
    cases hr

/-- The system gets into the state. -/
def Reachable (api : Api L T Q R C V) (s : System L T Q R C) : Prop :=
  ∃ now lib, ∃ xs : List (Event L T C), (system api).run (System.init api now lib) xs = s

/-- Reachable states keep the invariant. -/
theorem Reachable.exists_inv (h : Reachable api s) : ∃ tt pt, Inv api False s tt pt := by
  obtain ⟨now, lib, xs, rfl⟩ := h
  exact exists_inv_run api now lib xs

/-- **A request to a thread is answered.** In any reachable state in which the main thread waits for
a data plane thread, let the clock of the thread be past its two timers from now on. Then after
`18 * (n + 2)` steps of the thread, or before, the next turn of the main thread ends the call,
however the other threads move in between. -/
theorem threadCall_served (hs : Reachable api s) {call : ThreadCall}
    (hmain : s.main = .threadRecv call) {bound : ℕ}
    (hmin : (s.threads call.threadId).data.timeNextMin ≤ bound)
    (hdue : (s.threads call.threadId).data.timeNext ≤ bound) {xs : List (Event L T C)}
    (hclock : ∀ now, Event.thread call.threadId now ∈ xs → bound ≤ now)
    (hcount : 18 * ((s.threads call.threadId).data.nPipelines + 2) ≤
      xs.countP (Event.isStep call.threadId)) :
    ∃ pre status, pre <+: xs ∧ (system api).out ((system api).run s pre) .main =
      some (.thread call, .status status) := by
  obtain ⟨tt, pt, h⟩ := hs.exists_inv
  have hend : ∀ pre, pre <+: xs → Answered api (.threadRecv call) ((system api).run s pre) →
      ∃ pre status, pre <+: xs ∧ (system api).out ((system api).run s pre) .main =
        some (.thread call, .status status) := by
    rintro pre hpre ⟨hrecv, hturn⟩
    obtain ⟨status, hout⟩ := out_threadRecv hrecv hturn
    exact ⟨pre, status, hpre, hout⟩
  have hserved : Waits api (.threadRecv call) call.threadId .own bound s →
      ∃ pre status, pre <+: xs ∧ (system api).out ((system api).run s pre) .main =
        some (.thread call, .status status) := by
    intro hwaits
    obtain ⟨pre, hpre, hanswered⟩ := hwaits.served hclock hcount
    exact hend pre hpre hanswered
  have hphase := h.phase
  rw [hmain] at hphase
  cases hphase with
  | threadAsked hasks =>
    have hrun : s.running call.threadId = true := by
      cases hasks with
      | enable hfind hchecks hworker hrun => exact hrun
      | disable hfind hlcore hworker hon hrun => exact hrun
    apply hserved (.asked h hmain hrun ⟨nofun, hdue, hmin, nofun⟩ _)
    simp [DataPlane.Finds, h.threadMsgq, Talk.box]
  | @threadTaken _ status =>
    have hstatus := (h.held.status call.threadId status).mpr rfl
    have hholds : (s.threads call.threadId).Holds .own := by
      simp [Thread.Holds, hstatus]
    exact hserved (.taken h hmain (h.held.running_of_status hholds) hholds)
  | threadAnswered =>
    apply hend [] List.nil_prefix
    refine ⟨hmain, ?_⟩
    simp [turn, hmain, h.threadMsgq, Talk.box]

/-- A library without state, and one call on a pipeline. -/
def unitApi : Api Unit Unit Unit Unit Unit Unit where
  tscHz := 1000
  worker _ := true
  run _ l := l
  flush _ l := l
  prepare _ _ := .ok ()
  direct _ _ l := (l, ())
  handle _ _ l := (l, ())
  completeDirect _ _ _ := (none, ())
  complete _ _ _ := (none, ())
  notFound _ := ()

/-- A pipeline that can be enabled. -/
def unitCreation : List (Event Unit Unit Unit) :=
  [.create (.pipeline "PIPELINE0" 1) id, .create (.portIn "PIPELINE0") id,
    .create (.portOut "PIPELINE0") id, .create (.table "PIPELINE0" ⟨none, ()⟩) id]

/-- The main thread has sent the request to enable the pipeline. -/
def unitEnabling : System Unit Unit Unit Unit Unit :=
  (system unitApi).run (System.init unitApi (fun _ => 0) ())
    (unitCreation ++ [.launch 1, .call 0 (.thread (.enable 1 "PIPELINE0")), .main])

/-- A thread answers an enable. -/
theorem threadCall_served_enabling :
    ∃ pre status, pre <+: List.replicate 36 (Event.thread 1 100) ∧
      (system unitApi).out ((system unitApi).run unitEnabling pre) .main =
        some (.thread (.enable 1 "PIPELINE0"), .status status) := by
  have hclock : ∀ now, Event.thread 1 now ∈
      List.replicate 36 (Event.thread 1 100 : Event Unit Unit Unit) → 100 ≤ now := by
    intro now hnow
    cases List.eq_of_mem_replicate hnow
    exact Nat.le_refl 100
  have hreachable : Reachable unitApi unitEnabling := ⟨_, _, _, rfl⟩
  exact threadCall_served hreachable rfl (by decide) (by decide) hclock (by decide)

/-- **A request to the thread of a pipeline is answered.** In any reachable state in which the main
thread waits for the thread of a pipeline, let entry `k` of a thread be that of the pipeline, and let
the clock of the thread be past the timer of the entry, past the earliest timer that the thread
waits for, and past those that it has met in a pass that has left the entry behind. Then after
`18 * (n + 2)` steps of the thread, or before, the next turn of the main thread ends the call. -/
theorem pipelineCall_served (hs : Reachable api s) {name : String} {c : C} {msgq : ℕ}
    (hmain : s.main = .pipelineRecv name c msgq) {tid k : ℕ}
    (hk : k < (s.threads tid).data.nPipelines)
    (hmsgq : ((s.threads tid).data.pipelineData k).msgq = msgq) {bound : ℕ}
    (hmin : (s.threads tid).data.timeNextMin ≤ bound)
    (hdue : ((s.threads tid).data.pipelineData k).timeNext ≤ bound)
    (hpassed : ∀ m, (s.threads tid).pc.Passed k m → m ≤ bound) {xs : List (Event L T C)}
    (hclock : ∀ now, Event.thread tid now ∈ xs → bound ≤ now)
    (hcount : 18 * ((s.threads tid).data.nPipelines + 2) ≤ xs.countP (Event.isStep tid)) :
    ∃ pre v, pre <+: xs ∧ (system api).out ((system api).run s pre) .main =
      some (.pipeline name c, .value v) := by
  obtain ⟨tt, pt, h⟩ := hs.exists_inv
  have hps : Registered (settled api s.pipelines s.main tt pt) := h.registered.settled _ _ _
  have hend : ∀ pre, pre <+: xs →
      Answered api (.pipelineRecv name c msgq) ((system api).run s pre) →
      ∃ pre v, pre <+: xs ∧ (system api).out ((system api).run s pre) .main =
        some (.pipeline name c, .value v) := by
    rintro pre hpre ⟨hrecv, hturn⟩
    obtain ⟨v, hout⟩ := out_pipelineRecv hrecv hturn
    exact ⟨pre, v, hpre, hout⟩
  have hserved : Waits api (.pipelineRecv name c msgq) tid (.slot k) bound s →
      ∃ pre v, pre <+: xs ∧ (system api).out ((system api).run s pre) .main =
        some (.pipeline name c, .value v) := by
    intro hwaits
    obtain ⟨pre, hpre, hanswered⟩ := hwaits.served hclock hcount
    exact hend pre hpre hanswered
  have hphase := h.phase
  rw [hmain] at hphase
  cases hphase with
  | @pipelineAsked _ _ _ q p hasks =>
    have hrun : s.running tid = true := by
      have hmapped := h.mapped
      rw [hmain] at hmapped
      obtain ⟨p', hp', hon, -, hserves⟩ :=
        hmapped.exists_pipeline (slot_mem (t := dataOf s.threads tid) hk)
      have hring : p'.msgq = p.msgq := by
        rw [← hserves.msgq, ← hasks.msgq]
        exact hmsgq
      obtain rfl := h.registered.msgq_inj hp' (KeyedList.mem_of_find hasks.find) hring
      exact (isOn_iff.mp hon).2 ▸ hasks.running
    apply hserved (.asked h hmain hrun ⟨?_, hdue, hmin, ?_⟩ _)
    · rintro k' ⟨⟩
      exact hk
    · rintro k' ⟨⟩
      exact hpassed
    · simp [DataPlane.Finds, h.pipelineMsgq, Talk.box, hmsgq]
  | @pipelineTaken _ _ _ r =>
    obtain ⟨tid', j, hresponse, hring⟩ := h.held.of_other msgq r rfl
    obtain ⟨hj, -⟩ := h.held.of_response tid' j r hresponse
    obtain ⟨rfl, rfl⟩ := h.mapped.eq_of_msgq_eq hps hj hk (hring.trans hmsgq.symm)
    have hholds : (s.threads tid').Holds (.slot j) := ⟨r, hresponse⟩
    exact hserved (.taken h hmain (h.held.running_of_status hholds) hholds)
  | pipelineAnswered =>
    apply hend [] List.nil_prefix
    refine ⟨hmain, ?_⟩
    simp [turn, hmain, h.pipelineMsgq, Talk.box]

/-- The main thread has sent a request on the pipeline, which was enabled before the launch. -/
def unitCalling : System Unit Unit Unit Unit Unit :=
  (system unitApi).run (System.init unitApi (fun _ => 0) ())
    (unitCreation ++
      [.call 0 (.thread (.enable 1 "PIPELINE0")), .launch 1, .call 0 (.pipeline "PIPELINE0" ()),
        .main])

/-- A thread answers a request on its pipeline. -/
theorem pipelineCall_served_calling :
    ∃ pre v, pre <+: List.replicate 54 (Event.thread 1 100) ∧
      (system unitApi).out ((system unitApi).run unitCalling pre) .main =
        some (.pipeline "PIPELINE0" (), .value v) := by
  have hclock : ∀ now, Event.thread 1 now ∈
      List.replicate 54 (Event.thread 1 100 : Event Unit Unit Unit) → 100 ≤ now := by
    intro now hnow
    cases List.eq_of_mem_replicate hnow
    exact Nat.le_refl 100
  have hreachable : Reachable unitApi unitCalling := ⟨_, _, _, rfl⟩
  have hpassed : ∀ m, (unitCalling.threads 1).pc.Passed 0 m → m ≤ 100 := by
    intro m hm
    cases hm
  have hone : 0 < (unitCalling.threads 1).data.nPipelines := by decide
  exact pipelineCall_served hreachable rfl hone rfl (by decide) (by decide) hpassed hclock
    (by decide)

end Rids.Threads
