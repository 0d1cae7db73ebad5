import Mathlib.Algebra.Group.Nat.Defs
import Mathlib.Data.List.Basic
import Mathlib.Data.List.Nodup
import Mathlib.Data.List.Perm.Basic
import Mathlib.Logic.Function.Basic

/-!
# The pipelines of a data plane thread (`thread.c`)

A data plane thread runs the pipelines in the first `n_pipelines` entries of two arrays, `p` and
`pipeline_data`. A pipeline is enabled behind the last entry; the last entry is moved to the place
of a pipeline that is disabled. Entries behind the last keep what they held.

* `slots_install`, `slots_uninstall` — the two operations on the list of used entries.
* `aligned_install`, `aligned_uninstall` — the two arrays name the same pipelines.
* `nPipelines_install_le` — the arrays have room.

A pipeline, an action object and the two rings of a pipeline are numbers here: the pointers that
the library has returned.
-/

namespace Rids.Threads

/-- Source: `thread.c` `THREAD_PIPELINES_MAX`. Kind: D -/
def threadPipelinesMax : ℕ := 256

/-- The part of an entry that says which pipeline it is and where its action objects and rings
are; entry `i` of `tableAction` counts for `i < nTables`.
Source: `thread.c` `struct pipeline_data`, without the timer and the buffer
Kind: D -/
structure PipelineConf where
  p : ℕ
  tableAction : ℕ → Option ℕ
  nTables : ℕ
  msgq : ℕ

/-- Source: `thread.c` `struct pipeline_data`. Kind: D -/
structure PipelineData extends PipelineConf where
  timerPeriod : ℕ
  timeNext : ℕ

/-- Source: `thread.c` `struct thread_data`, without its rings. Kind: D -/
structure ThreadData where
  p : ℕ → ℕ
  nPipelines : ℕ
  pipelineData : ℕ → PipelineData
  timerPeriod : ℕ
  timeNext : ℕ
  timeNextMin : ℕ

/-- Source: `thread.c` `struct thread_msg_req`, `pipeline_enable`. Kind: D -/
structure EnableReq where
  p : ℕ
  tableAction : ℕ → Option ℕ
  msgq : ℕ
  timerPeriodMs : ℕ
  nTables : ℕ

/-- `a + b` in 64 bits. -/
def add64 (a b : ℕ) : ℕ := (a + b) % 2 ^ 64

/-- `(rte_get_tsc_hz() * timer_period_ms) / 1000` in 64 bits. -/
def timerCycles (tscHz timerPeriodMs : ℕ) : ℕ := tscHz * timerPeriodMs % 2 ^ 64 / 1000

/-! ### The two operations -/

/-- What the request writes to an entry that held `old`.
Source: `thread.c` `thread_msg_handle_pipeline_enable`, `thread_pipeline_enable`
Kind: D -/
def EnableReq.data (req : EnableReq) (tscHz now : ℕ) (old : PipelineData) : PipelineData where
  p := req.p
  tableAction i := if i < req.nTables then req.tableAction i else old.tableAction i
  nTables := req.nTables
  msgq := req.msgq
  timerPeriod := timerCycles tscHz req.timerPeriodMs
  timeNext := add64 now (timerCycles tscHz req.timerPeriodMs)

/-- The assignments of an enable, when there is room.
Source: `thread.c` `thread_msg_handle_pipeline_enable`, `thread_pipeline_enable`
Kind: D -/
def ThreadData.install (t : ThreadData) (tscHz now : ℕ) (req : EnableReq) : ThreadData :=
  { t with
    p := Function.update t.p t.nPipelines req.p
    pipelineData := Function.update t.pipelineData t.nPipelines
      (req.data tscHz now (t.pipelineData t.nPipelines))
    nPipelines := t.nPipelines + 1 }

/-- The assignments of a disable at entry `i`: the last entry takes its place.
Source: `thread.c` `thread_msg_handle_pipeline_disable`, `thread_pipeline_disable`
Kind: D -/
def ThreadData.uninstall (t : ThreadData) (i : ℕ) : ThreadData :=
  let last := t.nPipelines - 1
  if i < last then
    { t with
      p := Function.update t.p i (t.p last)
      pipelineData := Function.update t.pipelineData i (t.pipelineData last)
      nPipelines := last }
  else { t with nPipelines := last }

/-- The entry of a pipeline: the loops of the two disable functions.
Source: `thread.c` `thread_msg_handle_pipeline_disable`, `thread_pipeline_disable`
Kind: D -/
def ThreadData.findPipeline (t : ThreadData) (p : ℕ) : Option ℕ :=
  (List.range t.nPipelines).find? fun i => (t.pipelineData i).p = p

/-- Status and thread data.
Source: `thread.c` `thread_msg_handle_pipeline_enable`
Kind: D -/
def threadMsgHandlePipelineEnable (tscHz now : ℕ) (t : ThreadData) (req : EnableReq) :
    Int × ThreadData :=
  if threadPipelinesMax ≤ t.nPipelines then (-1, t) else (0, t.install tscHz now req)

/-- Status and thread data.
Source: `thread.c` `thread_msg_handle_pipeline_disable`
Kind: D -/
def threadMsgHandlePipelineDisable (t : ThreadData) (p : ℕ) : Int × ThreadData :=
  match t.findPipeline p with
  | some i => (0, t.uninstall i)
  | none => (0, t)

/-- A request to a data plane thread.
Source: `thread.c` `struct thread_msg_req`
Kind: D -/
inductive ThreadReq
  | enable (req : EnableReq)
  | disable (p : ℕ)

/-- The `switch` over the type of a request.
Source: `thread.c` `thread_msg_handle`
Kind: D -/
def threadMsgHandle (tscHz now : ℕ) (t : ThreadData) : ThreadReq → Int × ThreadData
  | .enable req => threadMsgHandlePipelineEnable tscHz now t req
  | .disable p => threadMsgHandlePipelineDisable t p

/-! ### The used entries -/

/-- The used entries of `pipeline_data`, without their timers. -/
def ThreadData.slots (t : ThreadData) : List PipelineConf :=
  (List.range t.nPipelines).map fun i => (t.pipelineData i).toPipelineConf

/-- The array that is run and the array that is polled name the same pipelines. -/
def ThreadData.Aligned (t : ThreadData) : Prop :=
  ∀ i < t.nPipelines, t.p i = (t.pipelineData i).p

variable {t : ThreadData}

/-- There are as many entries as the thread counts. -/
@[simp] theorem length_slots : t.slots.length = t.nPipelines := by
  simp [ThreadData.slots]

/-- The entries are those below the count. -/
theorem mem_slots {c : PipelineConf} :
    c ∈ t.slots ↔ ∃ i < t.nPipelines, (t.pipelineData i).toPipelineConf = c := by
  simp [ThreadData.slots]

/-- An entry below the count is one. -/
theorem slot_mem {i : ℕ} (hi : i < t.nPipelines) :
    (t.pipelineData i).toPipelineConf ∈ t.slots :=
  mem_slots.mpr ⟨i, hi, rfl⟩

/-- The entry at a place. -/
@[simp] theorem getElem_slots {i : ℕ} (hi : i < t.slots.length) :
    t.slots[i] = (t.pipelineData i).toPipelineConf := by
  simp [ThreadData.slots]

/-- The used entries say what each of them is. -/
theorem conf_eq_of_slots_eq {t' : ThreadData} (h : t'.slots = t.slots) {i : ℕ}
    (hi : i < t.nPipelines) :
    (t'.pipelineData i).toPipelineConf = (t.pipelineData i).toPipelineConf := by
  have hlen : i < t'.slots.length := by rwa [h, length_slots]
  have hget := List.getElem_of_eq h hlen
  simpa using hget

/-- An enable adds its entry to the used ones. -/
theorem slots_install (tscHz now : ℕ) (req : EnableReq) :
    (t.install tscHz now req).slots =
      t.slots ++ [(req.data tscHz now (t.pipelineData t.nPipelines)).toPipelineConf] := by
  have hold : ∀ i ∈ List.range t.nPipelines,
      ((t.install tscHz now req).pipelineData i).toPipelineConf =
        (t.pipelineData i).toPipelineConf := by
    intro i hi
    have hlt : i < t.nPipelines := List.mem_range.mp hi
    simp [ThreadData.install, Nat.ne_of_lt hlt]
  have hnew : ((t.install tscHz now req).pipelineData t.nPipelines).toPipelineConf =
      (req.data tscHz now (t.pipelineData t.nPipelines)).toPipelineConf := by
    simp [ThreadData.install]
  rw [ThreadData.slots, ThreadData.slots, show (t.install tscHz now req).nPipelines =
    t.nPipelines + 1 from rfl, List.range_succ, List.map_append, List.map_congr_left hold,
    List.map_singleton, hnew]

/-- Installing a pipeline keeps the arrays aligned. -/
theorem aligned_install (h : t.Aligned) (tscHz now : ℕ) (req : EnableReq) :
    (t.install tscHz now req).Aligned := by
  intro i hi
  by_cases hlast : i = t.nPipelines
  · subst hlast
    simp [ThreadData.install, EnableReq.data]
  · have hlt : i < t.nPipelines := by
      simp only [ThreadData.install] at hi
      omega
    simpa [ThreadData.install, hlast] using h i hlt

/-- A disable takes its entry out; the others stay, in another order. -/
theorem slots_uninstall {i : ℕ} (hi : i < t.nPipelines) :
    (t.uninstall i).slots.Perm (t.slots.eraseIdx i) := by
  obtain ⟨last, hlast⟩ : ∃ last, t.nPipelines = last + 1 := ⟨t.nPipelines - 1, by omega⟩
  have hsplit : t.slots = (List.range last).map (fun i => (t.pipelineData i).toPipelineConf) ++
      [(t.pipelineData last).toPipelineConf] := by
    rw [ThreadData.slots, hlast, List.range_succ, List.map_append, List.map_singleton]
  by_cases hmoved : i < last
  · have hset : (t.uninstall i).slots =
        ((List.range last).map fun i => (t.pipelineData i).toPipelineConf).set i
          (t.pipelineData last).toPipelineConf := by
      apply List.ext_getElem
      · simp [ThreadData.uninstall, hlast, hmoved]
      · intro j hj hj'
        by_cases hji : i = j
        · subst hji
          simp [ThreadData.slots, ThreadData.uninstall, hlast, hmoved]
        · simp [ThreadData.slots, ThreadData.uninstall, hlast, hmoved, hji, Ne.symm hji]
    rw [hset, hsplit, List.eraseIdx_append_of_lt_length (by simpa using hmoved)]
    exact (List.set_perm_cons_eraseIdx (by simpa using hmoved) _).trans
      (List.perm_append_singleton _ _).symm
  · obtain rfl : i = last := by omega
    have hshort : (t.uninstall i).slots =
        (List.range i).map fun i => (t.pipelineData i).toPipelineConf := by
      simp [ThreadData.slots, ThreadData.uninstall, hlast]
    rw [hshort, hsplit, List.eraseIdx_append_of_length_le (by simp)]
    simp

/-- Removing a pipeline keeps the arrays aligned. -/
theorem aligned_uninstall (h : t.Aligned) {i : ℕ} (hi : i < t.nPipelines) :
    (t.uninstall i).Aligned := by
  intro j hj
  unfold ThreadData.uninstall at hj ⊢
  by_cases hmoved : i < t.nPipelines - 1
  · simp only [hmoved, if_true] at hj ⊢
    by_cases hji : j = i
    · subst hji
      simpa using h (t.nPipelines - 1) (by omega)
    · simpa [hji] using h j (by omega)
  · simp only [hmoved, if_false] at hj ⊢
    exact h j (by omega)

/-- Installing counts one up. -/
@[simp] theorem nPipelines_install (tscHz now : ℕ) (req : EnableReq) :
    (t.install tscHz now req).nPipelines = t.nPipelines + 1 := rfl

/-- Removing counts one down. -/
@[simp] theorem nPipelines_uninstall (i : ℕ) :
    (t.uninstall i).nPipelines = t.nPipelines - 1 := by
  by_cases hmoved : i < t.nPipelines - 1 <;> simp [ThreadData.uninstall, hmoved]

/-- The entry that is found is a used one, and that of the pipeline. -/
theorem findPipeline_eq_some {p i : ℕ} (h : t.findPipeline p = some i) :
    i < t.nPipelines ∧ (t.pipelineData i).p = p := by
  have hp := List.find?_some h
  have hmem := List.mem_of_find?_eq_some h
  exact ⟨List.mem_range.mp hmem, of_decide_eq_true hp⟩

/-- A pipeline that is not found has no entry. -/
theorem findPipeline_eq_none {p : ℕ} (h : t.findPipeline p = none) :
    ∀ c ∈ t.slots, c.p ≠ p := by
  intro c hc hp
  obtain ⟨i, hi, rfl⟩ := mem_slots.mp hc
  have hno := List.find?_eq_none.mp h i (List.mem_range.mpr hi)
  exact hno (decide_eq_true hp)

/-- The used entries, with entry `i` in front. -/
theorem slots_perm {i : ℕ} (hi : i < t.nPipelines) :
    t.slots.Perm ((t.pipelineData i).toPipelineConf :: (t.uninstall i).slots) := by
  have hlen : i < t.slots.length := by simpa using hi
  have hfront := (List.getElem_cons_eraseIdx_perm hlen).symm
  rw [getElem_slots] at hfront
  exact hfront.trans ((slots_uninstall hi).symm.cons _)

end Rids.Threads
