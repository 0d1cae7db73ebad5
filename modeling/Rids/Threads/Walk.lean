import Rids.Threads.Linearization

/-!
# The way of a thread round its dispatch loop

Between two messages a data plane thread goes round its loop: sixteen turns over its pipelines, then
a pass over the rings whose timers have expired, and so on. `Thread.walk` is a step of this way; it
depends on the clock and the timers alone.

* `dispatch_of_not_finds` — a thread that holds no response and finds no request walks.
* `Thread.Near`, `Thread.rank` — that a thread is on its way to a ring, and how many steps it needs
  at most.
* `Thread.Near.walk` — the way gets shorter with every step, once the clock has passed the timers.
-/

namespace Rids.Threads

open Rids.Lib Rids.Lib.Mailbox Rids.Lib.SlotMachine

variable {L T Q R C V : Type} {api : Api L T Q R C V}

/-- A step of a thread that moves no message. -/
def Thread.walk (th : Thread R) (now : ℕ) : Thread R :=
  match th.pc with
  | .run j =>
    if j < th.data.nPipelines then th.goto (.run (j + 1))
    else if th.iter % 16 ≠ 0 then th.next
    else if now < th.data.timeNextMin then th.next
    else th.goto (.pipelineMsgs 0 now (2 ^ 64 - 1) none)
  | .pipelineMsgs j time timeNextMin _ =>
    let p := th.data.pipelineData j
    if j < th.data.nPipelines then
      if p.timeNext ≤ time then
        (th.setData (th.data.setPipelineTime j (add64 time p.timerPeriod))).goto
          (.pipelineMsgs (j + 1) time (min (add64 time p.timerPeriod) timeNextMin) none)
      else th.goto (.pipelineMsgs (j + 1) time (min p.timeNext timeNextMin) none)
    else th.goto (.threadMsgs time timeNextMin none)
  | .threadMsgs time timeNextMin _ =>
    let t := th.data
    if t.timeNext ≤ time then
      (th.setData { t with
        timeNext := add64 time t.timerPeriod
        timeNextMin := min (add64 time t.timerPeriod) timeNextMin }).next
    else (th.setData { t with timeNextMin := min t.timeNext timeNextMin }).next

/-- What a thread waits for, or is waited for at: its own ring, or that of an entry. -/
inductive Target
  | own
  | slot (k : ℕ)

/-- The timer of a target. -/
def Target.due (t : ThreadData) : Target → ℕ
  | own => t.timeNext
  | slot k => (t.pipelineData k).timeNext

/-- The thread looks into the ring of the target. -/
def Thread.At (th : Thread R) : Target → Prop
  | .own => ∃ time timeNextMin, th.pc = .threadMsgs time timeNextMin none ∧
      th.data.timeNext ≤ time
  | .slot k => ∃ time timeNextMin, th.pc = .pipelineMsgs k time timeNextMin none ∧
      k < th.data.nPipelines ∧ (th.data.pipelineData k).timeNext ≤ time

/-- The requests in the ring of the target. -/
def DataPlane.Finds (d : DataPlane L Q R) (tid : ℕ) : Target → Prop
  | .own => (d.threadMsgq tid).req ≠ []
  | .slot k => (d.pipelineMsgq ((d.threads tid).data.pipelineData k).msgq).req ≠ []

/-- A thread that holds no response and finds no request walks. -/
theorem dispatch_of_not_finds {d : DataPlane L Q R} {tid : ℕ} (now : ℕ)
    (hstatus : (d.threads tid).status = none) (hresponse : (d.threads tid).response = none)
    (hno : ∀ target, (d.threads tid).At target → ¬d.Finds tid target) :
    ∃ lib, dispatch api d tid now =
      { d with
        threads := Function.update d.threads tid ((d.threads tid).walk now)
        lib := lib } := by
  unfold dispatch Thread.walk
  cases hpc : (d.threads tid).pc with
  | run j =>
    dsimp only [dispatchRun]
    split_ifs with hj hiter hmin
    · exact ⟨_, rfl⟩
    · exact ⟨_, rfl⟩
    · exact ⟨_, rfl⟩
    · exact ⟨_, rfl⟩
  | pipelineMsgs j time timeNextMin rsp =>
    have hrsp : rsp = none := by
      cases rsp with
      | none => rfl
      | some r => simp [Thread.response, hpc] at hresponse
    subst hrsp
    dsimp only [dispatchPipelineMsgs]
    split_ifs with hj htimer
    · have hempty : (d.pipelineMsgq ((d.threads tid).data.pipelineData j).msgq).req = [] := by
        by_contra hfinds
        exact hno (.slot j) ⟨time, timeNextMin, hpc, hj, htimer⟩ hfinds
      rw [hempty]
      exact ⟨_, rfl⟩
    · exact ⟨_, rfl⟩
    · exact ⟨_, rfl⟩
  | threadMsgs time timeNextMin rsp =>
    have hrsp : rsp = none := by
      simpa [Thread.status, hpc] using hstatus
    subst hrsp
    dsimp only [dispatchThreadMsgs]
    split_ifs with htimer
    · have hempty : (d.threadMsgq tid).req = [] := by
        by_contra hfinds
        exact hno .own ⟨time, timeNextMin, hpc, htimer⟩ hfinds
      rw [hempty]
      exact ⟨_, rfl⟩
    · exact ⟨_, rfl⟩

/-! ### What a walk leaves -/

variable (th : Thread R) (now : ℕ)

/-- A thread that finds nothing only moves on and sets timers. -/
theorem walk_frame (haligned : th.data.Aligned) :
    (th.walk now).status = none ∧ (th.walk now).response = none ∧
      (th.walk now).data.slots = th.data.slots ∧ (th.walk now).data.Aligned := by
  unfold Thread.walk
  cases hpc : th.pc with
  | run j =>
    dsimp only
    split_ifs with hj hiter hmin
    · exact ⟨rfl, rfl, rfl, haligned⟩
    · exact ⟨rfl, rfl, rfl, haligned⟩
    · exact ⟨rfl, rfl, rfl, haligned⟩
    · exact ⟨rfl, rfl, rfl, haligned⟩
  | pipelineMsgs j time timeNextMin rsp =>
    dsimp only
    split_ifs with hj htimer
    · exact ⟨rfl, rfl, slots_setPipelineTime _ _ _, aligned_setPipelineTime haligned _ _⟩
    · exact ⟨rfl, rfl, rfl, haligned⟩
    · exact ⟨rfl, rfl, rfl, haligned⟩
  | threadMsgs time timeNextMin rsp =>
    dsimp only
    split_ifs with htimer
    · exact ⟨rfl, rfl, rfl, haligned⟩
    · exact ⟨rfl, rfl, rfl, haligned⟩

/-! ### The way to a target -/

/-- The pass over the rings that the thread is in has left entry `k` behind; `m` is the earliest
timer that it has met. -/
def DispatchPc.Passed (k m : ℕ) : DispatchPc R → Prop
  | .run _ => False
  | .pipelineMsgs j _ timeNextMin _ => k < j ∧ timeNextMin = m
  | .threadMsgs _ timeNextMin _ => timeNextMin = m

/-- The target is there, and `bound` is past the timers between the thread and the target. -/
structure Thread.Near (th : Thread R) (target : Target) (bound : ℕ) : Prop where
  slot : ∀ k, target = .slot k → k < th.data.nPipelines
  due : target.due th.data ≤ bound
  min : th.data.timeNextMin ≤ bound
  passed : ∀ k, target = .slot k → ∀ m, th.pc.Passed k m → m ≤ bound

/-- The turns before the next that may look into the rings. -/
def turnsLeft (iter : ℕ) : ℕ := (16 - iter % 16) % 16

/-- The number of steps to the target at most. A pass that has been begun before the timer of the
target has expired, or has left the target behind, must be followed by another one. -/
def Thread.rank (th : Thread R) (target : Target) : ℕ :=
  let n := th.data.nPipelines
  match th.pc with
  | .run j => n + 3 + (n - j + 1 + turnsLeft th.iter * (n + 1))
  | .pipelineMsgs j time _ _ =>
    match target with
    | .own => if th.data.timeNext ≤ time then n - j + 3 else 17 * n + 19 + (n - j + 2)
    | .slot k =>
      if (th.data.pipelineData k).timeNext ≤ time ∧ j ≤ k then k - j + 2
      else 17 * n + 19 + (n - j + 2)
  | .threadMsgs time _ _ =>
    match target with
    | .own => if th.data.timeNext ≤ time then 2 else 17 * n + 20
    | .slot _ => 17 * n + 20

section Rank

variable {th} {j k time timeNextMin : ℕ} {rsp : Option R} {rsp' : Option Int}

/-- The rank while the thread runs its pipelines. -/
theorem rank_run (hpc : th.pc = .run j) (target : Target) :
    th.rank target = th.data.nPipelines + 3 +
      (th.data.nPipelines - j + 1 + turnsLeft th.iter * (th.data.nPipelines + 1)) := by
  rw [Thread.rank, hpc]

/-- The rank of its own ring, in a pass that will read it. -/
theorem rank_own_fresh (hpc : th.pc = .pipelineMsgs j time timeNextMin rsp)
    (htimer : th.data.timeNext ≤ time) : th.rank .own = th.data.nPipelines - j + 3 := by
  simp only [Thread.rank, hpc, htimer, if_true]

/-- The rank of its own ring, in a pass that came before the timer. -/
theorem rank_own_stale (hpc : th.pc = .pipelineMsgs j time timeNextMin rsp)
    (htimer : ¬th.data.timeNext ≤ time) :
    th.rank .own = 17 * th.data.nPipelines + 19 + (th.data.nPipelines - j + 2) := by
  simp only [Thread.rank, hpc, htimer, if_false]

/-- The rank of the ring of a pipeline, in a pass that will read it. -/
theorem rank_slot_fresh (hpc : th.pc = .pipelineMsgs j time timeNextMin rsp)
    (htimer : (th.data.pipelineData k).timeNext ≤ time) (hj : j ≤ k) :
    th.rank (.slot k) = k - j + 2 := by
  simp only [Thread.rank, hpc, htimer, hj, and_self, if_true]

/-- The rank of the ring of a pipeline, in a pass that will not. -/
theorem rank_slot_stale (hpc : th.pc = .pipelineMsgs j time timeNextMin rsp)
    (hstale : ¬((th.data.pipelineData k).timeNext ≤ time ∧ j ≤ k)) :
    th.rank (.slot k) = 17 * th.data.nPipelines + 19 + (th.data.nPipelines - j + 2) := by
  simp only [Thread.rank, hpc, hstale, if_false]

/-- The rank of its own ring, behind the pipelines and with the timer over. -/
theorem rank_threadMsgs_fresh (hpc : th.pc = .threadMsgs time timeNextMin rsp')
    (htimer : th.data.timeNext ≤ time) : th.rank .own = 2 := by
  simp only [Thread.rank, hpc, htimer, if_true]

/-- The rank of its own ring, behind the pipelines and before the timer. -/
theorem rank_threadMsgs_stale (hpc : th.pc = .threadMsgs time timeNextMin rsp')
    (htimer : ¬th.data.timeNext ≤ time) : th.rank .own = 17 * th.data.nPipelines + 20 := by
  simp only [Thread.rank, hpc, htimer, if_false]

/-- The rank of the ring of a pipeline, behind the pipelines. -/
theorem rank_threadMsgs_slot (hpc : th.pc = .threadMsgs time timeNextMin rsp') :
    th.rank (.slot k) = 17 * th.data.nPipelines + 20 := by
  simp only [Thread.rank, hpc]

/-- The rank of the ring the thread is at. -/
theorem rank_of_at {target : Target} (hat : th.At target) : th.rank target = 2 := by
  cases target with
  | own =>
    obtain ⟨time, timeNextMin, hpc, htimer⟩ := hat
    exact rank_threadMsgs_fresh hpc htimer
  | slot k =>
    obtain ⟨time, timeNextMin, hpc, -, htimer⟩ := hat
    rw [rank_slot_fresh hpc htimer (Nat.le_refl k)]
    omega

/-- A turn that reads no rings leaves one turn less. -/
theorem turnsLeft_succ {iter : ℕ} (h : iter % 16 ≠ 0) :
    turnsLeft iter = turnsLeft ((iter + 1) % 2 ^ 32) + 1 := by
  unfold turnsLeft
  omega

/-- While the thread runs its pipelines the rank is bounded. -/
theorem rank_run_le (hpc : th.pc = .run j) (target : Target) :
    th.rank target ≤ 17 * th.data.nPipelines + 19 := by
  have hturns : turnsLeft th.iter ≤ 15 := by
    unfold turnsLeft
    omega
  have hmul : turnsLeft th.iter * (th.data.nPipelines + 1) ≤ 15 * (th.data.nPipelines + 1) :=
    Nat.mul_le_mul_right _ hturns
  rw [rank_run hpc]
  omega

/-- The bound on the number of steps, wherever the thread is. -/
theorem rank_lt {target : Target} (hslot : ∀ k, target = .slot k → k < th.data.nPipelines) :
    th.rank target < 18 * (th.data.nPipelines + 2) := by
  cases hpc : th.pc with
  | run j =>
    have hrun := rank_run_le hpc target
    omega
  | pipelineMsgs j time timeNextMin rsp =>
    cases target with
    | own =>
      by_cases htimer : th.data.timeNext ≤ time
      · rw [rank_own_fresh hpc htimer]
        omega
      · rw [rank_own_stale hpc htimer]
        omega
    | slot k =>
      have hk := hslot k rfl
      by_cases hfresh : (th.data.pipelineData k).timeNext ≤ time ∧ j ≤ k
      · rw [rank_slot_fresh hpc hfresh.1 hfresh.2]
        omega
      · rw [rank_slot_stale hpc hfresh]
        omega
  | threadMsgs time timeNextMin rsp =>
    cases target with
    | own =>
      by_cases htimer : th.data.timeNext ≤ time
      · rw [rank_threadMsgs_fresh hpc htimer]
        omega
      · rw [rank_threadMsgs_stale hpc htimer]
        omega
    | slot k =>
      rw [rank_threadMsgs_slot hpc]
      omega

end Rank

variable {th now} {target : Target} {bound : ℕ}

/-- The way in one of the turns over the pipelines. -/
theorem Thread.Near.walk_run (h : th.Near target bound) (hnow : bound ≤ now) {j : ℕ}
    (hpc : th.pc = .run j) :
    (th.walk now).Near target bound ∧ (th.walk now).rank target < th.rank target := by
  have hmin := h.min
  rw [rank_run hpc target]
  unfold Thread.walk
  rw [hpc]
  dsimp only
  split_ifs with hj hiter hlater
  · refine ⟨⟨h.slot, h.due, h.min, nofun⟩, ?_⟩
    rw [rank_run rfl]
    simp only [Thread.goto]
    omega
  · refine ⟨⟨h.slot, h.due, h.min, nofun⟩, ?_⟩
    rw [rank_run rfl, turnsLeft_succ hiter, Nat.succ_mul]
    simp only [Thread.next]
    omega
  · omega
  · refine ⟨⟨h.slot, h.due, h.min, ?_⟩, ?_⟩
    · rintro k - m ⟨hk, -⟩
      exact absurd hk (Nat.not_lt_zero k)
    · have htimer : target.due th.data ≤ now := Nat.le_trans h.due hnow
      cases target with
      | own =>
        have hrank : (th.goto (.pipelineMsgs 0 now (2 ^ 64 - 1) none)).rank .own =
            th.data.nPipelines - 0 + 3 := rank_own_fresh rfl htimer
        omega
      | slot k =>
        have hk := h.slot k rfl
        have hrank : (th.goto (.pipelineMsgs 0 now (2 ^ 64 - 1) none)).rank (.slot k) = k - 0 + 2 :=
          rank_slot_fresh rfl htimer (Nat.zero_le k)
        omega

/-- The way past the rings of the pipelines, to the ring of the thread. -/
theorem Thread.Near.walk_pipelineMsgs_own (h : th.Near .own bound) {j time timeNextMin : ℕ}
    (hpc : th.pc = .pipelineMsgs j time timeNextMin none) :
    (th.walk now).Near .own bound ∧ (th.walk now).rank .own < th.rank .own := by
  -- Whatever the thread does with entry `j`, its own timer stays and the pass goes on.
  have hstep : ∀ th' : Thread R, th'.data.nPipelines = th.data.nPipelines →
      th'.data.timeNext = th.data.timeNext → th'.data.timeNextMin = th.data.timeNextMin →
      (j < th.data.nPipelines ∧ (∃ m, th'.pc = .pipelineMsgs (j + 1) time m none) ∨
        th'.pc = .threadMsgs time timeNextMin none) →
      th'.Near .own bound ∧ th'.rank .own < th.rank .own := by
    intro th' hn hdue hmin hpc'
    refine ⟨⟨nofun, ?_, ?_, nofun⟩, ?_⟩
    · exact Nat.le_trans (Nat.le_of_eq hdue) h.due
    · exact Nat.le_trans (Nat.le_of_eq hmin) h.min
    · by_cases htimer : th.data.timeNext ≤ time
      · rw [rank_own_fresh hpc htimer]
        rw [← hdue] at htimer
        rcases hpc' with ⟨hj, m, hpc'⟩ | hpc'
        · rw [rank_own_fresh hpc' htimer, hn]
          omega
        · rw [rank_threadMsgs_fresh hpc' htimer]
          omega
      · rw [rank_own_stale hpc htimer]
        rw [← hdue] at htimer
        rcases hpc' with ⟨hj, m, hpc'⟩ | hpc'
        · rw [rank_own_stale hpc' htimer, hn]
          omega
        · rw [rank_threadMsgs_stale hpc' htimer, hn]
          omega
  unfold Thread.walk
  rw [hpc]
  dsimp only
  split_ifs with hj htimer
  · exact hstep _ rfl rfl rfl (.inl ⟨hj, _, rfl⟩)
  · exact hstep _ rfl rfl rfl (.inl ⟨hj, _, rfl⟩)
  · exact hstep _ rfl rfl rfl (.inr rfl)

/-- The way past the rings of the pipelines, to that of entry `k`. -/
theorem Thread.Near.walk_pipelineMsgs_slot {k : ℕ} (h : th.Near (.slot k) bound)
    (hat : ¬th.At (.slot k)) {j time timeNextMin : ℕ}
    (hpc : th.pc = .pipelineMsgs j time timeNextMin none) :
    (th.walk now).Near (.slot k) bound ∧ (th.walk now).rank (.slot k) < th.rank (.slot k) := by
  have hk := h.slot k rfl
  have hdue : (th.data.pipelineData k).timeNext ≤ bound := h.due
  have hpassed : k < j → timeNextMin ≤ bound := by
    intro hkj
    apply h.passed k rfl
    rw [hpc]
    exact ⟨hkj, rfl⟩
  -- At entry `k` the pass is one that began too early: the thread looks at the timer and goes on.
  have hearly : j = k → ¬(th.data.pipelineData k).timeNext ≤ time := by
    rintro rfl htimer
    exact hat ⟨time, timeNextMin, hpc, hk, htimer⟩
  have hstep : ∀ th' : Thread R, th'.data.nPipelines = th.data.nPipelines →
      (th'.data.pipelineData k).timeNext = (th.data.pipelineData k).timeNext →
      th'.data.timeNextMin = th.data.timeNextMin →
      (j < th.data.nPipelines ∧ (∃ m, th'.pc = .pipelineMsgs (j + 1) time m none ∧
          m ≤ timeNextMin ∧ (j = k → m ≤ (th.data.pipelineData k).timeNext)) ∨
        th.data.nPipelines ≤ j ∧ th'.pc = .threadMsgs time timeNextMin none) →
      th'.Near (.slot k) bound ∧ th'.rank (.slot k) < th.rank (.slot k) := by
    intro th' hn hsame hmin hpc'
    refine ⟨⟨?_, ?_, ?_, ?_⟩, ?_⟩
    · rintro k' ⟨⟩
      rwa [hn]
    · exact Nat.le_trans (Nat.le_of_eq hsame) h.due
    · exact Nat.le_trans (Nat.le_of_eq hmin) h.min
    · rintro k' ⟨⟩ m' hpassed'
      rcases hpc' with ⟨hj, m, hpc', hm, hmk⟩ | ⟨hj, hpc'⟩
      · rw [hpc'] at hpassed'
        obtain ⟨hkj, rfl⟩ := hpassed'
        by_cases hjk : j = k
        · exact Nat.le_trans (hmk hjk) hdue
        · exact Nat.le_trans hm (hpassed (by omega))
      · rw [hpc'] at hpassed'
        obtain rfl : timeNextMin = m' := hpassed'
        exact hpassed (by omega)
    · rcases hpc' with ⟨hj, m, hpc', -, -⟩ | ⟨hj, hpc'⟩
      · by_cases hfresh : (th.data.pipelineData k).timeNext ≤ time ∧ j ≤ k
        · have hjk : j ≠ k := fun hjk => hearly hjk hfresh.1
          have hfresh' : (th'.data.pipelineData k).timeNext ≤ time := hsame ▸ hfresh.1
          rw [rank_slot_fresh hpc hfresh.1 hfresh.2, rank_slot_fresh hpc' hfresh' (by omega)]
          omega
        · rw [rank_slot_stale hpc hfresh, rank_slot_stale hpc', hn]
          · omega
          · rw [hsame]
            omega
      · rw [rank_slot_stale hpc (by omega), rank_threadMsgs_slot hpc', hn]
        omega
  unfold Thread.walk
  rw [hpc]
  dsimp only
  split_ifs with hj htimer
  · have hjk : j ≠ k := by
      rintro rfl
      exact hearly rfl htimer
    refine hstep _ rfl ?_ rfl
      (.inl ⟨hj, _, rfl, Nat.min_le_right _ _, fun hjk' => absurd hjk' hjk⟩)
    simp [Thread.goto, Thread.setData, ThreadData.setPipelineTime, Ne.symm hjk]
  · refine hstep _ rfl rfl rfl (.inl ⟨hj, _, rfl, Nat.min_le_right _ _, ?_⟩)
    rintro rfl
    exact Nat.min_le_left _ _
  · exact hstep _ rfl rfl rfl (.inr ⟨Nat.le_of_not_lt hj, rfl⟩)

/-- The way past the ring of the thread. -/
theorem Thread.Near.walk_threadMsgs (h : th.Near target bound) (hat : ¬th.At target)
    {time timeNextMin : ℕ} (hpc : th.pc = .threadMsgs time timeNextMin none) :
    (th.walk now).Near target bound ∧ (th.walk now).rank target < th.rank target := by
  cases target with
  | own =>
    have hdue : th.data.timeNext ≤ bound := h.due
    have htimer : ¬th.data.timeNext ≤ time := fun htimer =>
      hat ⟨time, timeNextMin, hpc, htimer⟩
    unfold Thread.walk
    rw [rank_threadMsgs_stale hpc htimer, hpc]
    simp only [htimer, if_false]
    refine ⟨⟨nofun, hdue, ?_, nofun⟩, ?_⟩
    · exact Nat.le_trans (Nat.min_le_left _ _) hdue
    · exact Nat.lt_of_le_of_lt (rank_run_le rfl .own) (Nat.lt_succ_self _)
  | slot k =>
    have hpassed : timeNextMin ≤ bound := by
      apply h.passed k rfl
      rw [hpc]
      rfl
    unfold Thread.walk
    rw [rank_threadMsgs_slot hpc, hpc]
    dsimp only
    split_ifs with htimer
    · refine ⟨⟨h.slot, h.due, ?_, nofun⟩, ?_⟩
      · exact Nat.le_trans (Nat.min_le_right _ _) hpassed
      · exact Nat.lt_of_le_of_lt (rank_run_le rfl (.slot k)) (Nat.lt_succ_self _)
    · refine ⟨⟨h.slot, h.due, ?_, nofun⟩, ?_⟩
      · exact Nat.le_trans (Nat.min_le_right _ _) hpassed
      · exact Nat.lt_of_le_of_lt (rank_run_le rfl (.slot k)) (Nat.lt_succ_self _)

/-- **The way to a target gets shorter** with every step, once the clock has passed the timers. -/
theorem Thread.Near.walk (h : th.Near target bound) (hnow : bound ≤ now) (hat : ¬th.At target)
    (hstatus : th.status = none) (hresponse : th.response = none) :
    (th.walk now).Near target bound ∧ (th.walk now).rank target < th.rank target := by
  cases hpc : th.pc with
  | run j => exact h.walk_run hnow hpc
  | pipelineMsgs j time timeNextMin rsp =>
    have hrsp : rsp = none := by
      cases rsp with
      | none => rfl
      | some r => simp [Thread.response, hpc] at hresponse
    subst hrsp
    cases target with
    | own => exact h.walk_pipelineMsgs_own hpc
    | slot k => exact h.walk_pipelineMsgs_slot hat hpc
  | threadMsgs time timeNextMin rsp =>
    have hrsp : rsp = none := by simpa [Thread.status, hpc] using hstatus
    subst hrsp
    exact h.walk_threadMsgs hat hpc

end Rids.Threads
