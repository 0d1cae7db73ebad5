import Rids.Threads.MainThread

/-!
# Which thread runs which pipeline

The main thread keeps for every pipeline whether it is enabled and on which thread; each data plane
thread keeps the entries of the pipelines it runs. `Mapped` says that the two agree: the entries of
a thread are those of the pipelines enabled on it, each once.

* `Mapped.install`, `Mapped.uninstall` — an enable and a disable keep the agreement.
* `Mapped.put`, `Mapped.append` — so does what the main thread writes to a pipeline otherwise, and a
  new pipeline.
* `Mapped.eq_of_msgq_eq` — no pipeline has two entries, on one thread or on two.
-/

namespace Rids.Threads

open Rids.Lib

variable {T : Type}

/-! ### The registry -/

/-- `pipeline_list`: the names, and the numbers that the library has given, are distinct. -/
structure Registered (ps : List (Pipeline T)) : Prop where
  names : KeyedList.Distinct Pipeline.name ps
  ids : ps.map (·.p) = List.range ps.length
  msgqs : ps.map (·.msgq) = List.range ps.length

variable {ps : List (Pipeline T)}

/-- Pipelines with one identifier are one pipeline. -/
theorem Registered.p_inj (h : Registered ps) {p p' : Pipeline T} (hp : p ∈ ps) (hp' : p' ∈ ps)
    (heq : p.p = p'.p) : p = p' :=
  List.inj_on_of_nodup_map (h.ids ▸ List.nodup_range) hp hp' heq

/-- Pipelines with one ring are one pipeline. -/
theorem Registered.msgq_inj (h : Registered ps) {p p' : Pipeline T} (hp : p ∈ ps) (hp' : p' ∈ ps)
    (heq : p.msgq = p'.msgq) : p = p' :=
  List.inj_on_of_nodup_map (h.msgqs ▸ List.nodup_range) hp hp' heq

/-- What is written to a pipeline leaves its name and its numbers as they are. -/
theorem Registered.put (h : Registered ps) {p p' : Pipeline T}
    (hfind : pipelineFind ps p'.name = some p) (hp : p'.p = p.p) (hmsgq : p'.msgq = p.msgq) :
    Registered (KeyedList.put Pipeline.name p' ps) := by
  have hname : p'.name = p.name := (KeyedList.key_of_find hfind).symm
  have hlength : (KeyedList.put Pipeline.name p' ps).length = ps.length := by
    have hmap := congrArg List.length (KeyedList.map_put hfind hname)
    simpa using hmap
  refine ⟨?_, ?_, ?_⟩
  · exact h.names.put p'
  · rw [KeyedList.map_put hfind hp, h.ids, hlength]
  · rw [KeyedList.map_put hfind hmsgq, h.msgqs, hlength]

/-- A pipeline with a new name keeps the registration. -/
theorem Registered.append (h : Registered ps) {p : Pipeline T}
    (hfind : pipelineFind ps p.name = none) (hp : p.p = ps.length) (hmsgq : p.msgq = ps.length) :
    Registered (ps ++ [p]) := by
  refine ⟨?_, ?_, ?_⟩
  · have hput := h.names.put p
    rwa [KeyedList.put_eq_append hfind] at hput
  · rw [List.map_append, h.ids, List.map_singleton, hp, List.length_append, List.length_singleton,
      List.range_succ]
  · rw [List.map_append, h.msgqs, List.map_singleton, hmsgq, List.length_append,
      List.length_singleton, List.range_succ]

/-- Identifiers are below the number of pipelines. -/
theorem Registered.p_lt (h : Registered ps) {p : Pipeline T} (hp : p ∈ ps) : p.p < ps.length := by
  have hmem : p.p ∈ ps.map (·.p) := List.mem_map_of_mem hp
  rw [h.ids] at hmem
  exact List.mem_range.mp hmem

/-! ### The pipelines of a thread -/

/-- The pipeline is enabled on the thread. -/
def Pipeline.isOn (p : Pipeline T) (tid : ℕ) : Bool := p.enabled && p.threadId = tid

/-- The pipelines enabled on a thread. -/
def onThread (ps : List (Pipeline T)) (tid : ℕ) : List ℕ :=
  (ps.filter fun p => p.isOn tid).map (·.p)

/-- A pipeline is on a thread when it is enabled there. -/
theorem isOn_iff {p : Pipeline T} {tid : ℕ} :
    p.isOn tid = true ↔ p.enabled = true ∧ p.threadId = tid := by
  simp [Pipeline.isOn]

/-- The members of the list of a thread. -/
theorem mem_onThread {tid k : ℕ} :
    k ∈ onThread ps tid ↔ ∃ p ∈ ps, p.isOn tid = true ∧ p.p = k := by
  simp [onThread, and_assoc]

/-- No pipeline is on a thread twice. -/
theorem nodup_onThread (h : Registered ps) (tid : ℕ) : (onThread ps tid).Nodup := by
  have hnodup : (ps.map (·.p)).Nodup := h.ids ▸ List.nodup_range
  exact hnodup.sublist (List.filter_sublist.map fun p : Pipeline T => p.p)

/-- The list of a thread does not depend on the order of the registry. -/
theorem onThread_perm {ps' : List (Pipeline T)} (h : ps.Perm ps') (tid : ℕ) :
    (onThread ps tid).Perm (onThread ps' tid) :=
  (h.filter _).map _

/-- A pipeline on the thread is in its list. -/
theorem onThread_cons_of_isOn {p : Pipeline T} {tid : ℕ} (h : p.isOn tid = true) :
    onThread (p :: ps) tid = p.p :: onThread ps tid := by
  simp [onThread, h]

/-- A pipeline that is not on the thread is not in its list. -/
theorem onThread_cons_of_not {p : Pipeline T} {tid : ℕ} (h : ¬p.isOn tid = true) :
    onThread (p :: ps) tid = onThread ps tid := by
  simp [onThread, h]

/-- A put replaces the pipeline of the name. -/
theorem put_perm_erase (p : Pipeline T) (ps : List (Pipeline T)) :
    (KeyedList.put Pipeline.name p ps).Perm (p :: KeyedList.erase Pipeline.name ps p.name) :=
  KeyedList.put_perm p ps

/-- Where a pipeline is enabled does not change when the rest of it does. -/
theorem onThread_put {p p' : Pipeline T} (hfind : pipelineFind ps p'.name = some p)
    (hp : p'.p = p.p) (hon : ∀ tid, p'.isOn tid = p.isOn tid) (tid : ℕ) :
    (onThread (KeyedList.put Pipeline.name p' ps) tid).Perm (onThread ps tid) := by
  have hnew := onThread_perm (put_perm_erase p' ps) tid
  have hold := onThread_perm (KeyedList.perm_of_find hfind) tid
  by_cases h : p.isOn tid = true
  · rw [onThread_cons_of_isOn ((hon tid).trans h), hp] at hnew
    rw [onThread_cons_of_isOn h] at hold
    exact hnew.trans hold.symm
  · rw [onThread_cons_of_not (by rwa [hon tid])] at hnew
    rw [onThread_cons_of_not h] at hold
    exact hnew.trans hold.symm

/-! ### The agreement -/

/-- An entry that serves a pipeline: it has its rings, and the action objects of the tables it was
told of. `all` says that it was told of all. -/
structure Serves (all : Prop) (c : PipelineConf) (p : Pipeline T) : Prop where
  msgq : c.msgq = p.msgq
  nTables_le : c.nTables ≤ p.table.length
  tableAction : ∀ i < c.nTables, c.tableAction i = p.table[i]?.bind Table.a
  knows : all → c.nTables = p.table.length

/-- The entries of the threads and the pipelines of the main thread agree. -/
structure Mapped (all : Prop) (data : ℕ → ThreadData) (ps : List (Pipeline T)) : Prop where
  aligned : ∀ tid, (data tid).Aligned
  room : ∀ tid, (data tid).nPipelines ≤ threadPipelinesMax
  perm : ∀ tid, ((data tid).slots.map (·.p)).Perm (onThread ps tid)
  serves : ∀ tid, ∀ c ∈ (data tid).slots, ∀ p ∈ ps, p.p = c.p → Serves all c p

namespace Mapped

variable {all : Prop} {data : ℕ → ThreadData}

/-- The pipeline of an entry. -/
theorem exists_pipeline (h : Mapped all data ps) {tid : ℕ} {c : PipelineConf}
    (hc : c ∈ (data tid).slots) : ∃ p ∈ ps, p.isOn tid = true ∧ p.p = c.p ∧ Serves all c p := by
  have hmem : c.p ∈ onThread ps tid := (h.perm tid).mem_iff.mp (List.mem_map_of_mem hc)
  obtain ⟨p, hp, hon, heq⟩ := mem_onThread.mp hmem
  exact ⟨p, hp, hon, heq, h.serves tid c hc p hp heq⟩

/-- The entry of a pipeline. -/
theorem exists_slot (h : Mapped all data ps) {tid : ℕ} {p : Pipeline T} (hp : p ∈ ps)
    (hon : p.isOn tid = true) : ∃ c ∈ (data tid).slots, c.p = p.p := by
  have hmem : p.p ∈ (data tid).slots.map (·.p) :=
    (h.perm tid).mem_iff.mpr (mem_onThread.mpr ⟨p, hp, hon, rfl⟩)
  exact List.mem_map.mp hmem

/-- The entries of a thread are of different pipelines. -/
theorem nodup (h : Mapped all data ps) (hps : Registered ps) (tid : ℕ) :
    ((data tid).slots.map (·.p)).Nodup :=
  (h.perm tid).nodup_iff.mpr (nodup_onThread hps tid)

/-- Two entries with one ring are one. -/
theorem eq_of_msgq_eq (h : Mapped all data ps) (hps : Registered ps) {tid tid' i i' : ℕ}
    (hi : i < (data tid).nPipelines) (hi' : i' < (data tid').nPipelines)
    (heq : ((data tid).pipelineData i).msgq = ((data tid').pipelineData i').msgq) :
    tid = tid' ∧ i = i' := by
  obtain ⟨p, hp, hon, hpc, hserves⟩ := h.exists_pipeline (slot_mem hi)
  obtain ⟨p', hp', hon', hpc', hserves'⟩ := h.exists_pipeline (slot_mem hi')
  have hmsgq : p.msgq = p'.msgq := by rw [← hserves.msgq, heq, hserves'.msgq]
  obtain rfl := hps.msgq_inj hp hp' hmsgq
  obtain rfl : tid = tid' := by
    rw [← (isOn_iff.mp hon).2, (isOn_iff.mp hon').2]
  refine ⟨rfl, ?_⟩
  have hnodup := h.nodup hps tid
  have hlen : i < ((data tid).slots.map (·.p)).length := by simpa using hi
  have hlen' : i' < ((data tid).slots.map (·.p)).length := by simpa using hi'
  have hsame : ((data tid).slots.map (·.p))[i] = ((data tid).slots.map (·.p))[i'] := by
    simpa using hpc.symm.trans hpc'
  exact hnodup.getElem_inj_iff.mp hsame

/-- What is run and polled stays the same when only timers change. -/
theorem congr (h : Mapped all data ps) {data' : ℕ → ThreadData}
    (hslots : ∀ tid, (data' tid).slots = (data tid).slots)
    (haligned : ∀ tid, (data' tid).Aligned) : Mapped all data' ps := by
  refine ⟨haligned, ?_, ?_, ?_⟩
  · intro tid
    rw [← length_slots, hslots, length_slots]
    exact h.room tid
  · intro tid
    rw [hslots]
    exact h.perm tid
  · intro tid c hc
    rw [hslots] at hc
    exact h.serves tid c hc

/-- A write to a pipeline that leaves it where it is. -/
theorem put (h : Mapped all data ps) (hps : Registered ps) {p p' : Pipeline T}
    (hfind : pipelineFind ps p'.name = some p) (hp : p'.p = p.p)
    (hon : ∀ tid, p'.isOn tid = p.isOn tid)
    (hserves : ∀ tid, p.isOn tid = true → ∀ c, Serves all c p → Serves all c p') :
    Mapped all data (KeyedList.put Pipeline.name p' ps) := by
  refine ⟨h.aligned, h.room, ?_, ?_⟩
  · intro tid
    exact (h.perm tid).trans (onThread_put hfind hp hon tid).symm
  · intro tid c hc q hq hqc
    rcases (KeyedList.mem_put_iff hps.names).mp hq with rfl | ⟨hq, -⟩
    · obtain ⟨p₀, hp₀, hon₀, hp₀c, hserves₀⟩ := h.exists_pipeline hc
      obtain rfl := hps.p_inj hp₀ (KeyedList.mem_of_find hfind) (by rw [hp₀c, ← hqc, hp])
      exact hserves tid hon₀ c hserves₀
    · exact h.serves tid c hc q hq hqc

/-- A new pipeline is on no thread. -/
theorem append (h : Mapped all data ps) {p : Pipeline T} (hp : ∀ q ∈ ps, q.p ≠ p.p)
    (hoff : p.enabled = false) : Mapped all data (ps ++ [p]) := by
  have hsame (tid : ℕ) : onThread (ps ++ [p]) tid = onThread ps tid := by
    simp [onThread, Pipeline.isOn, hoff]
  refine ⟨h.aligned, h.room, ?_, ?_⟩
  · intro tid
    rw [hsame]
    exact h.perm tid
  · intro tid c hc q hq hqc
    rcases List.mem_append.mp hq with hq | hq
    · exact h.serves tid c hc q hq hqc
    · obtain rfl := List.mem_singleton.mp hq
      obtain ⟨p₀, hp₀, -, hp₀c, -⟩ := h.exists_pipeline hc
      exact absurd (hp₀c.trans hqc.symm) (hp p₀ hp₀)

/-- An enable. -/
theorem install (h : Mapped all data ps) (hps : Registered ps) {p : Pipeline T} {name : String}
    (hfind : pipelineFind ps name = some p) (hoff : p.enabled = false) {tid : ℕ}
    (hroom : (data tid).nPipelines < threadPipelinesMax) (tscHz now : ℕ) :
    Mapped all (Function.update data tid ((data tid).install tscHz now p.enableReq))
      (KeyedList.put Pipeline.name (p.enable tid) ps) := by
  obtain rfl : p.name = name := KeyedList.key_of_find hfind
  have hslots := slots_install (t := data tid) tscHz now p.enableReq
  have hold (k : ℕ) :
      (onThread ps k).Perm (onThread (KeyedList.erase Pipeline.name ps p.name) k) := by
    have hperm := onThread_perm (KeyedList.perm_of_find hfind) k
    rwa [onThread_cons_of_not (by simp [isOn_iff, hoff])] at hperm
  have hnew (k : ℕ) := onThread_perm (put_perm_erase (p.enable tid) ps) k
  refine ⟨?_, ?_, ?_, ?_⟩
  · intro k
    by_cases hk : k = tid
    · subst hk
      rw [Function.update_self]
      exact aligned_install (h.aligned k) _ _ _
    · rw [Function.update_of_ne hk]
      exact h.aligned k
  · intro k
    by_cases hk : k = tid
    · subst hk
      rw [Function.update_self, nPipelines_install]
      exact hroom
    · rw [Function.update_of_ne hk]
      exact h.room k
  · intro k
    by_cases hk : k = tid
    · subst hk
      have hput := hnew k
      rw [onThread_cons_of_isOn (by simp [isOn_iff, Pipeline.enable])] at hput
      rw [Function.update_self, hslots, List.map_append, List.map_singleton]
      have hfront := List.perm_append_singleton p.p ((data k).slots.map (·.p))
      exact hfront.trans ((((h.perm k).trans (hold k)).cons p.p).trans hput.symm)
    · have hput := hnew k
      rw [onThread_cons_of_not (by simp [isOn_iff, Pipeline.enable, Ne.symm hk])] at hput
      rw [Function.update_of_ne hk]
      exact (h.perm k).trans ((hold k).trans hput.symm)
  · intro k c hc q hq hqc
    have holds : ∀ j, c ∈ (data j).slots → Serves all c q := by
      intro j hc
      rcases (KeyedList.mem_put_iff hps.names).mp hq with rfl | ⟨hq, -⟩
      · have hserves := h.serves j c hc p (KeyedList.mem_of_find hfind) hqc
        exact ⟨hserves.msgq, hserves.nTables_le, hserves.tableAction, hserves.knows⟩
      · exact h.serves j c hc q hq hqc
    by_cases hk : k = tid
    · subst hk
      rw [Function.update_self, hslots, List.mem_append, List.mem_singleton] at hc
      rcases hc with hc | rfl
      · exact holds k hc
      · rcases (KeyedList.mem_put_iff hps.names).mp hq with rfl | ⟨hq, hne⟩
        · refine ⟨rfl, Nat.le_refl _, ?_, fun _ => rfl⟩
          intro i hi
          exact if_pos hi
        · obtain rfl := hps.p_inj hq (KeyedList.mem_of_find hfind) hqc
          exact absurd rfl hne
    · rw [Function.update_of_ne hk] at hc
      exact holds k hc

/-- A pipeline that is enabled on a thread is found there. -/
theorem exists_findPipeline (h : Mapped all data ps) {p : Pipeline T} (hp : p ∈ ps) {tid : ℕ}
    (hon : p.isOn tid = true) : ∃ i, (data tid).findPipeline p.p = some i := by
  cases hfind : (data tid).findPipeline p.p with
  | some i => exact ⟨i, rfl⟩
  | none =>
    obtain ⟨c, hc, hcp⟩ := h.exists_slot hp hon
    exact absurd hcp (findPipeline_eq_none hfind c hc)

/-- A disable. -/
theorem uninstall (h : Mapped all data ps) (hps : Registered ps) {p : Pipeline T} {name : String}
    (hfind : pipelineFind ps name = some p) {tid i : ℕ} (hon : p.isOn tid = true)
    (hi : (data tid).findPipeline p.p = some i) :
    Mapped all (Function.update data tid ((data tid).uninstall i))
      (KeyedList.put Pipeline.name p.disable ps) := by
  obtain rfl : p.name = name := KeyedList.key_of_find hfind
  obtain ⟨hlt, hip⟩ := findPipeline_eq_some hi
  have hslots := slots_perm hlt
  have hold (k : ℕ) := onThread_perm (KeyedList.perm_of_find hfind) k
  have hnew (k : ℕ) : (onThread (KeyedList.put Pipeline.name p.disable ps) k).Perm
      (onThread (KeyedList.erase Pipeline.name ps p.name) k) := by
    have hperm := onThread_perm (put_perm_erase p.disable ps) k
    rwa [onThread_cons_of_not (by simp [isOn_iff, Pipeline.disable])] at hperm
  refine ⟨?_, ?_, ?_, ?_⟩
  · intro k
    by_cases hk : k = tid
    · subst hk
      rw [Function.update_self]
      exact aligned_uninstall (h.aligned k) hlt
    · rw [Function.update_of_ne hk]
      exact h.aligned k
  · intro k
    by_cases hk : k = tid
    · subst hk
      rw [Function.update_self, nPipelines_uninstall]
      exact Nat.le_trans (Nat.sub_le _ _) (h.room k)
    · rw [Function.update_of_ne hk]
      exact h.room k
  · intro k
    by_cases hk : k = tid
    · subst hk
      have hfront := (hslots.map (·.p)).symm.trans ((h.perm k).trans (hold k))
      rw [onThread_cons_of_isOn hon, List.map_cons, hip] at hfront
      rw [Function.update_self]
      exact (List.perm_cons p.p).mp hfront |>.trans (hnew k).symm
    · have hoff : ¬p.isOn k = true := by
        rw [isOn_iff] at hon ⊢
        rintro ⟨-, rfl⟩
        exact hk hon.2
      have hrest := hold k
      rw [onThread_cons_of_not hoff] at hrest
      rw [Function.update_of_ne hk]
      exact (h.perm k).trans (hrest.trans (hnew k).symm)
  · intro k c hc q hq hqc
    have hold : c ∈ (data k).slots := by
      by_cases hk : k = tid
      · subst hk
        rw [Function.update_self] at hc
        exact hslots.mem_iff.mpr (List.mem_cons_of_mem _ hc)
      · rwa [Function.update_of_ne hk] at hc
    rcases (KeyedList.mem_put_iff hps.names).mp hq with rfl | ⟨hq, -⟩
    · have hserves := h.serves k c hold p (KeyedList.mem_of_find hfind) hqc
      exact ⟨hserves.msgq, hserves.nTables_le, hserves.tableAction, hserves.knows⟩
    · exact h.serves k c hold q hq hqc

end Mapped

end Rids.Threads
