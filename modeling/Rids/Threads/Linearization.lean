import Rids.Lib.Runs
import Rids.Threads.CallSteps

/-!
# Runs of the system

Whatever the order in which the main thread and the data plane threads move:

* `wellMapped_run` — no pipeline is run by two threads or twice by one, and what the threads run is
  what the main thread believes.
* `oneMessage_run` — all rings together hold one message at most, and none between two calls.
* `linearizable` — every call takes effect at one moment, as a call into the library of a pipeline
  that is not running; the data plane threads run and flush mapped pipelines only. The run without
  messages is one, and follows the system in every state.
-/

namespace Rids.Threads

open Rids.Lib Rids.Lib.Mailbox Rids.Lib.SlotMachine Rids.Lib.Runs

variable {L T Q R C V W : Type} {api : Api L T Q R C V} {all : Prop} {view : V → W}
  {s : System L T Q R C} {tt : Talk ℕ ThreadReq Int} {pt : Talk ℕ Q R}

/-! ### The invariant in every run -/

/-- The invariant holds at the start. -/
theorem Inv.init (now : ℕ → ℕ) (lib : L) :
    Inv api all (System.init api now lib : System L T Q R C) .silent .silent := by
  refine ⟨rfl, rfl, ⟨List.nodup_nil, rfl, rfl⟩, ⟨?_, ?_, ?_, ?_⟩, .idle, ⟨?_, ?_, ?_, ?_⟩⟩
  · intro tid i hi
    cases hi
  · intro tid
    exact Nat.zero_le _
  · intro tid
    exact List.Perm.refl _
  · intro tid c hc
    cases hc
  · intro tid _
    rfl
  · intro tid status
    exact ⟨nofun, nofun⟩
  · intro tid j r hresponse
    cases hresponse
  · intro msgq r hother
    cases hother

/-- The calls that end in a run, from its first event on. -/
theorem ended_hist_cons {S I : Type} (M : Machine S I (Option (Call C × Outcome V))) (s : S) (x : I)
    (xs : List I) :
    ended (M.hist s (x :: xs)) = (M.out s x).toList ++ ended (M.hist (M.step s x) xs) := by
  rw [Machine.hist_cons, ended, List.filterMap_cons]
  cases M.out s x with
  | none => rfl
  | some o => rfl

/-- **A run.** The invariant holds in every state; with `all`, if no table is created on an enabled
pipeline. -/
theorem Inv.run (h : Inv api all s tt pt) (xs : List (Event L T C))
    (hspares : all → AllSafe (system api).step System.Spares s xs) :
    ∃ tt' pt', Inv api all ((system api).run s xs) tt' pt' := by
  induction xs generalizing s tt pt with
  | nil => exact ⟨tt, pt, h⟩
  | cons x xs ih =>
    have hfirst : all → s.Spares x := fun hall => ((allSafe_cons s x xs).mp (hspares hall)).1
    obtain ⟨setups, -, tt₁, pt₁, h₁, -⟩ :
        ∃ setups, setups.Sublist x.setup.toList ∧
          Simulates api all (id : V → V) setups s tt pt (stepOut api s x) :=
      h.simulates_stepOut x hfirst
    exact ih h₁ fun hall => ((allSafe_cons s x xs).mp (hspares hall)).2

/-- The steps `es` without messages have come as far as the steps `xs` of the system: to the state
that the system is without messages, with the outcomes of the calls that have ended and of the one
that has taken effect. -/
def Follows (api : Api L T Q R C V) (view : V → W) (s : System L T Q R C)
    (tt : Talk ℕ ThreadReq Int) (pt : Talk ℕ Q R) (es : List (AtomicEvent L T C))
    (xs : List (Event L T C)) : Prop :=
  ∃ tt' pt', Inv api True ((system api).run s xs) tt' pt' ∧
    (atomic api).run (atomicOf api s tt pt) es = atomicOf api ((system api).run s xs) tt' pt' ∧
    seen view (pending api s.pipelines s.main tt pt) ++
        seen view (ended ((atomic api).hist (atomicOf api s tt pt) es)) =
      seen view (ended ((system api).hist s xs)) ++
        seen view (pending api ((system api).run s xs).pipelines ((system api).run s xs).main
          tt' pt') ∧
    (es.filterMap AtomicEvent.setup).Sublist (xs.filterMap Event.setup)

/-- A run without events is followed by none. -/
theorem Inv.follows_nil (h : Inv api True s tt pt) : Follows api view s tt pt [] [] :=
  ⟨tt, pt, h, rfl, by simp [ended], List.Sublist.refl _⟩

/-- A step before a run that is followed. -/
theorem Follows.cons {x : Event L T C} {xs : List (Event L T C)} {es₁ es : List (AtomicEvent L T C)}
    {tt₁ : Talk ℕ ThreadReq Int} {pt₁ : Talk ℕ Q R}
    (hrun : (atomic api).run (atomicOf api s tt pt) es₁ = atomicOf api (stepOut api s x).1 tt₁ pt₁)
    (hseen : seen view (pending api s.pipelines s.main tt pt) ++
        seen view (ended ((atomic api).hist (atomicOf api s tt pt) es₁)) =
      seen view (stepOut api s x).2.toList ++
        seen view (pending api (stepOut api s x).1.pipelines (stepOut api s x).1.main tt₁ pt₁))
    (hsetup : (es₁.filterMap AtomicEvent.setup).Sublist x.setup.toList)
    (h : Follows api view (stepOut api s x).1 tt₁ pt₁ es xs) :
    Follows api view s tt pt (es₁ ++ es) (x :: xs) := by
  obtain ⟨tt', pt', hinv, hrest, hseens, hsetups⟩ := h
  refine ⟨tt', pt', hinv, ?_, ?_, ?_⟩
  · rw [Machine.run_append, hrun, hrest]
    rfl
  · have hhist : seen view (ended ((system api).hist s (x :: xs))) =
        seen view (stepOut api s x).2.toList ++
          seen view (ended ((system api).hist (stepOut api s x).1 xs)) := by
      rw [← seen_append, ended_hist_cons]
      rfl
    have hatomic : seen view (ended ((atomic api).hist (atomicOf api s tt pt) (es₁ ++ es))) =
        seen view (ended ((atomic api).hist (atomicOf api s tt pt) es₁)) ++
          seen view (ended ((atomic api).hist (atomicOf api (stepOut api s x).1 tt₁ pt₁) es)) := by
      rw [Machine.hist_append, hrun, ended, List.filterMap_append, seen_append]
      rfl
    rw [hatomic, ← List.append_assoc, hseen, List.append_assoc, hseens, hhist, List.append_assoc]
    rfl
  · have hcons : (x :: xs).filterMap Event.setup =
        x.setup.toList ++ xs.filterMap Event.setup := by
      rw [List.filterMap_cons]
      cases x.setup <;> rfl
    rw [hcons, List.filterMap_append]
    exact hsetup.append hsetups

/-- **Every state of a run.** The steps without messages are chosen step by step, so that those for
the first `k` steps of the system are the beginning of those for all of them. -/
theorem Inv.follows_run (hagrees : api.Agrees view) (h : Inv api True s tt pt)
    (xs : List (Event L T C)) (hspares : AllSafe (system api).step System.Spares s xs) :
    ∃ ess : List (List (AtomicEvent L T C)), ess.length = xs.length ∧
      ∀ k, Follows api view s tt pt (ess.take k).flatten (xs.take k) := by
  induction xs generalizing s tt pt with
  | nil => exact ⟨[], rfl, fun k => by simpa using h.follows_nil⟩
  | cons x xs ih =>
    obtain ⟨hfirst, hrest⟩ := (allSafe_cons s x xs).mp hspares
    obtain ⟨setups, hsub, tt₁, pt₁, h₁, hstep⟩ :
        ∃ setups, setups.Sublist x.setup.toList ∧
          Simulates api True view setups s tt pt (stepOut api s x) :=
      h.simulates_stepOut x fun _ => hfirst
    obtain ⟨os, ⟨es₁, hrun, rfl, rfl⟩, hseen⟩ := hstep trivial hagrees
    obtain ⟨ess, hlen, hfollows⟩ := ih h₁ hrest
    refine ⟨es₁ :: ess, congrArg Nat.succ hlen, fun k => ?_⟩
    rcases k with _ | k
    · exact h.follows_nil
    · exact .cons hrun hseen hsub (hfollows k)

/-- Every run keeps the invariant, for some state of the two talks. -/
theorem exists_inv_run (api : Api L T Q R C V) (now : ℕ → ℕ) (lib : L) (xs : List (Event L T C)) :
    ∃ tt pt, Inv api False ((system api).run (System.init api now lib) xs) tt pt := by
  have hinit : Inv api False (System.init api now lib : System L T Q R C) .silent .silent :=
    Inv.init now lib
  exact hinit.run xs nofun

/-! ### Mapping -/

/-- The threads run what the main thread believes. -/
structure System.WellMapped (s : System L T Q R C) : Prop where
  aligned : ∀ tid, (s.threads tid).data.Aligned
  room : ∀ tid, (s.threads tid).data.nPipelines ≤ threadPipelinesMax
  once : ∀ tid tid' i i', i < (s.threads tid).data.nPipelines →
    i' < (s.threads tid').data.nPipelines →
    ((s.threads tid).data.pipelineData i).p = ((s.threads tid').data.pipelineData i').p →
    tid = tid' ∧ i = i'
  agree : s.main = .idle → ∀ p ∈ s.pipelines, ∀ tid, (p.enabled = true ∧ p.threadId = tid) ↔
    ∃ i < (s.threads tid).data.nPipelines, ((s.threads tid).data.pipelineData i).p = p.p
  exclusive : s.main = .idle → ∀ p ∈ s.pipelines, s.pipelineIsRunning p = false →
    ∀ tid, s.running tid = true → ∀ i < (s.threads tid).data.nPipelines,
      ((s.threads tid).data.pipelineData i).p ≠ p.p

/-- The registry stays one when the talk in progress is settled. -/
theorem Registered.settled {ps : List (Pipeline T)} (hps : Registered ps) (main : Main Q C)
    (tt : Talk ℕ ThreadReq Int) (pt : Talk ℕ Q R) : Registered (settled api ps main tt pt) := by
  cases main with
  | idle => exact hps
  | threadSend call req => exact hps
  | pipelineSend name c msgq req => exact hps
  | threadRecv call =>
    simp only [Threads.settled]
    cases tt.response with
    | none => exact hps
    | some status => exact hps.threadResponse call status
  | pipelineRecv name c msgq =>
    simp only [Threads.settled]
    cases pt.response with
    | none => exact hps
    | some r => exact hps.pipelineResponse c r

/-- The invariant says that the threads hold what the registry maps to them. -/
theorem Inv.wellMapped (h : Inv api all s tt pt) : s.WellMapped := by
  have hagree : s.main = .idle → ∀ p ∈ s.pipelines, ∀ tid,
      (p.enabled = true ∧ p.threadId = tid) ↔ ∃ i < (s.threads tid).data.nPipelines,
        ((s.threads tid).data.pipelineData i).p = p.p := by
    intro hmain p hp tid
    obtain ⟨rfl, rfl⟩ := h.silent hmain
    have hmapped := h.mapped_pipelines hmain
    constructor
    · intro hon
      obtain ⟨c, hc, hcp⟩ := hmapped.exists_slot hp (isOn_iff.mpr hon)
      obtain ⟨i, hi, rfl⟩ := mem_slots.mp hc
      exact ⟨i, hi, hcp⟩
    · rintro ⟨i, hi, hip⟩
      obtain ⟨p', hp', hon, hpc, -⟩ :=
        hmapped.exists_pipeline (slot_mem (t := dataOf s.threads tid) hi)
      obtain rfl := h.registered.p_inj hp' hp (hpc.trans hip)
      exact isOn_iff.mp hon
  refine ⟨h.mapped.aligned, h.mapped.room, ?_, hagree, ?_⟩
  · intro tid tid' i i' hi hi' heq
    have hps : Registered (settled api s.pipelines s.main tt pt) := h.registered.settled _ _ _
    obtain ⟨p, hp, -, hpc, hserves⟩ :=
      h.mapped.exists_pipeline (slot_mem (t := dataOf s.threads tid) hi)
    obtain ⟨p', hp', -, hpc', hserves'⟩ :=
      h.mapped.exists_pipeline (slot_mem (t := dataOf s.threads tid') hi')
    obtain rfl := hps.p_inj hp hp' (hpc.trans (heq.trans hpc'.symm))
    exact h.mapped.eq_of_msgq_eq hps hi hi' (hserves.msgq.trans hserves'.msgq.symm)
  · intro hmain p hp hidle tid hrun i hi hip
    obtain ⟨hen, rfl⟩ := (hagree hmain p hp tid).mpr ⟨i, hi, hip⟩
    rw [System.pipelineIsRunning, hen, hrun] at hidle
    cases hidle

/-- **Mapping.** After any interleaving of the threads, the used entries of all threads are of
distinct pipelines, and between two calls they are those of the pipelines that are enabled. A
pipeline into whose library the main thread calls is then run by no thread. -/
theorem wellMapped_run (api : Api L T Q R C V) (now : ℕ → ℕ) (lib : L) (xs : List (Event L T C)) :
    ((system api).run (System.init api now lib) xs).WellMapped := by
  obtain ⟨tt, pt, h⟩ := exists_inv_run api now lib xs
  exact h.wellMapped

/-! ### Messages -/

/-- The number of messages in the rings of a thread, or of a pipeline. -/
def System.ringSize (s : System L T Q R C) : ℕ ⊕ ℕ → ℕ
  | .inl tid => (s.threadMsgq tid).size
  | .inr msgq => (s.pipelineMsgq msgq).size

/-- All rings together hold one message at most, and none between two calls. -/
structure System.OneMessage (s : System L T Q R C) : Prop where
  le_one : ∀ i, s.ringSize i ≤ 1
  only : ∀ i j, s.ringSize i ≠ 0 → s.ringSize j ≠ 0 → i = j
  idle : s.main = .idle → (∀ i, s.ringSize i = 0) ∧
    ∀ tid, (s.threads tid).status = none ∧ (s.threads tid).response = none

/-- At most one of the two talks is going on. -/
theorem Phase.silent_or {ps : List (Pipeline T)} {running : ℕ → Bool} {main : Main Q C}
    (h : Phase api ps running main tt pt) : tt = .silent ∨ pt = .silent := by
  cases h with
  | idle => exact .inl rfl
  | threadSend h => exact .inl rfl
  | threadAsked h => exact .inr rfl
  | threadTaken => exact .inr rfl
  | threadAnswered => exact .inr rfl
  | pipelineSend h => exact .inl rfl
  | pipelineAsked h => exact .inl rfl
  | pipelineTaken => exact .inl rfl
  | pipelineAnswered => exact .inl rfl

/-- The invariant says that at most one message is under way. -/
theorem Inv.oneMessage (h : Inv api all s tt pt) : s.OneMessage := by
  refine ⟨?_, ?_, ?_⟩
  · intro i
    cases i with
    | inl tid =>
      rw [System.ringSize, h.threadMsgq]
      exact size_box_le tt tid
    | inr msgq =>
      rw [System.ringSize, h.pipelineMsgq]
      exact size_box_le pt msgq
  · intro i j hi hj
    cases i with
    | inl tid =>
      rw [System.ringSize, h.threadMsgq] at hi
      cases j with
      | inl tid' =>
        rw [System.ringSize, h.threadMsgq] at hj
        rw [eq_of_holds hi hj]
      | inr msgq =>
        rw [System.ringSize, h.pipelineMsgq] at hj
        rcases h.phase.silent_or with rfl | rfl
        · exact absurd rfl hi
        · exact absurd rfl hj
    | inr msgq =>
      rw [System.ringSize, h.pipelineMsgq] at hi
      cases j with
      | inl tid =>
        rw [System.ringSize, h.threadMsgq] at hj
        rcases h.phase.silent_or with rfl | rfl
        · exact absurd rfl hj
        · exact absurd rfl hi
      | inr msgq' =>
        rw [System.ringSize, h.pipelineMsgq] at hj
        rw [eq_of_holds hi hj]
  · intro hmain
    obtain ⟨rfl, rfl⟩ := h.silent hmain
    refine ⟨?_, ?_⟩
    · intro i
      cases i with
      | inl tid =>
        rw [System.ringSize, h.threadMsgq]
        rfl
      | inr msgq =>
        rw [System.ringSize, h.pipelineMsgq]
        rfl
    · intro tid
      exact ⟨h.held.status_eq_none tid, h.held.response_eq_none tid⟩

/-- **Messages.** After any interleaving of the threads one message at most is in all rings, so that
no thread ever finds a ring full. No request and no response is left over when a call has ended. -/
theorem oneMessage_run (api : Api L T Q R C V) (now : ℕ → ℕ) (lib : L) (xs : List (Event L T C)) :
    ((system api).run (System.init api now lib) xs).OneMessage := by
  obtain ⟨tt, pt, h⟩ := exists_inv_run api now lib xs
  exact h.oneMessage

/-! ### Linearization -/

/-- The calls that have ended, and a call that has taken effect and not ended. -/
theorem length_pending_le (ps : List (Pipeline T)) (main : Main Q C) :
    (pending api ps main tt pt).length ≤ 1 := by
  cases main with
  | idle => exact Nat.zero_le 1
  | threadSend call req => exact Nat.zero_le 1
  | pipelineSend name c msgq req => exact Nat.zero_le 1
  | threadRecv call => cases hresponse : tt.response <;> simp [pending, hresponse]
  | pipelineRecv name c msgq => cases hresponse : pt.response <;> simp [pending, hresponse]

/-- The steps `es` without messages match the steps `xs` of the system. The calls have the outcomes
that they have in the system, in the order in which they end there; one call at most has taken
effect and not ended. Nothing is created or launched that is not in the system, and in no other
order. The library is the same, and between two calls so are the pipelines. -/
structure Matches (api : Api L T Q R C V) (view : V → W) (now : ℕ → ℕ) (l : L)
    (es : List (AtomicEvent L T C)) (xs : List (Event L T C)) : Prop where
  outcomes : ∃ rest, rest.length ≤ 1 ∧
    seen view (ended ((atomic api).hist ⟨[], fun _ => false, l⟩ es)) =
      seen view (ended ((system api).hist (System.init api now l) xs)) ++ rest ∧
    (((system api).run (System.init api now l) xs).main = .idle → rest = [])
  setups : (es.filterMap AtomicEvent.setup).Sublist (xs.filterMap Event.setup)
  lib : ((atomic api).run ⟨[], fun _ => false, l⟩ es).lib =
    ((system api).run (System.init api now l) xs).lib
  running : ((atomic api).run ⟨[], fun _ => false, l⟩ es).running =
    ((system api).run (System.init api now l) xs).running
  pipelines : ((system api).run (System.init api now l) xs).main = .idle →
    ((atomic api).run ⟨[], fun _ => false, l⟩ es).pipelines =
      ((system api).run (System.init api now l) xs).pipelines

/-- An atomic run that follows from the start matches in every state. -/
theorem Follows.matches {now : ℕ → ℕ} {lib : L} {es : List (AtomicEvent L T C)}
    {xs : List (Event L T C)}
    (h : Follows api view (System.init api now lib) .silent .silent es xs) :
    Matches api view now lib es xs := by
  obtain ⟨tt, pt, -, hrun, hseen, hsetups⟩ := h
  have hstart : atomicOf api (System.init api now lib : System L T Q R C) .silent .silent =
      ⟨[], fun _ => false, lib⟩ := rfl
  rw [hstart] at hrun hseen
  refine ⟨⟨_, ?_, hseen, fun hmain => ?_⟩, hsetups, ?_, ?_, fun hmain => ?_⟩
  · rw [seen, List.length_map]
    exact length_pending_le _ _
  · rw [hmain]
    rfl
  · rw [hrun]
    rfl
  · rw [hrun]
    rfl
  · rw [hrun, atomicOf, hmain]
    rfl

/-- **Linearization.** For a run of the system in which no table is created on an enabled pipeline
there is one run of the system without messages, some steps for each step of the system, that
matches it in every state. -/
theorem linearizable (hagrees : api.Agrees view) (now : ℕ → ℕ) (lib : L) (xs : List (Event L T C))
    (hspares : AllSafe (system api).step System.Spares (System.init api now lib) xs) :
    ∃ ess : List (List (AtomicEvent L T C)), ess.length = xs.length ∧
      ∀ k, Matches api view now lib (ess.take k).flatten (xs.take k) := by
  have hinit : Inv api True (System.init api now lib : System L T Q R C) .silent .silent :=
    Inv.init now lib
  obtain ⟨ess, hlen, hfollows⟩ := hinit.follows_run hagrees xs hspares
  exact ⟨ess, hlen, fun k => (hfollows k).matches⟩

end Rids.Threads
