import Rids.Threads.MirroredTables

/-!
# The pipelines that the creations make

The calls write the rules of a table and where a pipeline is enabled. Names, ports and the
parameters of tables are what the creations make of them.

* `bare_run` — after any interleaving the pipelines are, besides rules and threads, those that the
  creations that took place make one after the other.
-/

namespace Rids.Threads

open Rids.Lib Rids.Lib.SlotMachine

variable {τ : LibraryTypes} {lib : Library τ} {tscHz : ℕ} {worker : ℕ → Bool}
  {ps ps' : List (Pipeline (TableInfo τ))}

/-! ### Without rules and threads -/

def Table.bare (t : Table (TableInfo τ)) : Table (TableInfo τ) := { t with rest := t.rest.bare }

/-- A pipeline as it was created: without rules, and on no thread. -/
def Pipeline.bare (p : Pipeline (TableInfo τ)) : Pipeline (TableInfo τ) :=
  { p with table := p.table.map Table.bare, enabled := false, threadId := 0 }

/-- The creations, one after the other. -/
def createAll {T : Type} (ks : List (Create T)) (ps : List (Pipeline T)) : List (Pipeline T) :=
  ks.foldl (fun ps k => k.apply ps) ps

/-- Creations in two groups. -/
theorem createAll_append {T : Type} (ks ks' : List (Create T)) (ps : List (Pipeline T)) :
    createAll (ks ++ ks') ps = createAll ks' (createAll ks ps) := List.foldl_append

/-! ### A write -/

/-- A write that keeps what a creation decides keeps it for the whole list. -/
theorem map_bare_modify {l : List (Table (TableInfo τ))} {id : ℕ} {rest : TableInfo τ}
    (h : ∀ t, l[id]? = some t → rest.bare = t.rest.bare) :
    (l.modify id fun t => { t with rest := rest }).map Table.bare = l.map Table.bare := by
  apply List.ext_getElem?
  intro i
  rw [List.getElem?_map, List.getElem?_map, List.getElem?_modify]
  rcases ht : l[i]? with - | t
  · rfl
  · by_cases hid : id = i
    · subst hid
      simp [Table.bare, h t ht]
    · simp [hid]

/-- What a request writes keeps what a creation decides. -/
theorem Pipeline.Written.bare_eq {p p' : Pipeline (TableInfo τ)}
    (h : p.Written (requestApi lib tscHz worker) p') : p'.bare = p.bare := by
  have hwrite (counters : PipelineMsgRsp τ → Threads.Written τ.N) (c : Request τ)
      (r : PipelineMsgRsp τ) :
      (p.writeTable (completeWith counters p c r).1).bare = p.bare := by
    rcases hcomplete : (completeWith counters p c r).1 with - | ⟨id, rest⟩
    · rfl
    · simp only [Pipeline.writeTable, Pipeline.bare]
      rw [map_bare_modify]
      intro t ht
      obtain ⟨t', ht', hbare⟩ := completeWith_bare hcomplete
      obtain rfl : t' = t := Option.some.inj (ht'.symm.trans ht)
      exact hbare
  rcases h with threadId | - | ⟨l, hprepare⟩ | ⟨conf, l, hprepare⟩
  · rfl
  · rfl
  · exact hwrite _ _ _
  · exact hwrite _ _ _

/-- What a request writes keeps the name. -/
theorem Pipeline.Written.name_eq {L T Q R C V : Type} {api : Api L T Q R C V} {p p' : Pipeline T}
    (h : p.Written api p') : p'.name = p.name := by
  rcases h with threadId | - | ⟨l, hprepare⟩ | ⟨conf, l, hprepare⟩
  · rfl
  · rfl
  · exact p.writeTable_name _
  · exact p.writeTable_name _

/-- The writes of a step keep what the creations decide. -/
theorem Writes.map_bare (h : Writes (requestApi lib tscHz worker) ps ps') :
    ps'.map Pipeline.bare = ps.map Pipeline.bare := by
  rcases h with - | @⟨name, p, p', hfind, hwritten⟩
  · rfl
  · apply KeyedList.map_put _ hwritten.bare_eq
    rw [hwritten.name_eq, show p.name = name from KeyedList.key_of_find hfind]
    exact hfind

/-! ### A creation -/

/-- Pipelines that differ in rules and threads only. -/
def SameBare (p p' : Pipeline (TableInfo τ)) : Prop := p'.bare = p.bare

/-- Pipelines that agree in what a creation decides have one name. -/
theorem SameBare.name {p p' : Pipeline (TableInfo τ)} (h : SameBare p p') : p'.name = p.name := by
  have hname : p'.bare.name = p.bare.name := congrArg Pipeline.name h
  exact hname

/-- Agreement of two lists, member by member. -/
theorem forall₂_sameBare_iff :
    List.Forall₂ SameBare ps ps' ↔ ps'.map Pipeline.bare = ps.map Pipeline.bare := by
  rw [← List.forall₂_eq_eq_eq, List.forall₂_map_left_iff, List.forall₂_map_right_iff]
  exact ⟨List.Forall₂.flip, List.Forall₂.flip⟩

/-- Putting pipelines that agree into lists that agree. -/
theorem put_sameBare (h : List.Forall₂ SameBare ps ps') {p p' : Pipeline (TableInfo τ)}
    (hsame : SameBare p p') :
    List.Forall₂ SameBare (KeyedList.put Pipeline.name p ps)
      (KeyedList.put Pipeline.name p' ps') :=
  KeyedList.put_related (fun _ _ hpq => hpq.name) hsame h

/-- A creation makes the same of both. -/
theorem sameBare_apply (h : List.Forall₂ SameBare ps ps') (k : Create (TableInfo τ)) :
    List.Forall₂ SameBare (k.apply ps) (k.apply ps') := by
  have hfinds (name : String) := KeyedList.find_related (fun _ _ hpq => hpq.name) h name
  rcases k with ⟨name, timerPeriodMs⟩ | name | name | ⟨name, t⟩
  · have hsome : (pipelineFind ps' name).isSome = (pipelineFind ps name).isSome := by
      rcases hfinds name with ⟨hp, hp'⟩ | ⟨p, p', hp, hp', -⟩
      · rw [pipelineFind, pipelineFind, hp, hp']
      · rw [pipelineFind, pipelineFind, hp, hp', Option.isSome_some, Option.isSome_some]
    simp only [Create.apply, hsome, ← h.length_eq]
    split_ifs
    · exact h
    · exact List.rel_append h (.cons rfl .nil)
  · rcases hfinds name with ⟨hp, hp'⟩ | ⟨p, p', hp, hp', hsame⟩
    · simp only [Create.apply, pipelineFind, hp, hp']
      exact h
    · simp only [Create.apply, pipelineFind, hp, hp']
      apply put_sameBare h
      simp only [SameBare, Pipeline.bare, Pipeline.mk.injEq] at hsame ⊢
      simp [hsame]
  · rcases hfinds name with ⟨hp, hp'⟩ | ⟨p, p', hp, hp', hsame⟩
    · simp only [Create.apply, pipelineFind, hp, hp']
      exact h
    · simp only [Create.apply, pipelineFind, hp, hp']
      apply put_sameBare h
      simp only [SameBare, Pipeline.bare, Pipeline.mk.injEq] at hsame ⊢
      simp [hsame]
  · rcases hfinds name with ⟨hp, hp'⟩ | ⟨p, p', hp, hp', hsame⟩
    · simp only [Create.apply, pipelineFind, hp, hp']
      exact h
    · have htables : p'.table.length = p.table.length := by
        simpa [Pipeline.bare] using congrArg (List.length ∘ Pipeline.table) hsame
      simp only [Create.apply, pipelineFind, hp, hp', htables]
      split_ifs
      · exact h
      · apply put_sameBare h
        simp only [SameBare, Pipeline.bare, Pipeline.mk.injEq] at hsame ⊢
        simp [hsame]

/-! ### Runs -/

/-- **The pipelines of a run.** -/
theorem bare_run (lib : Library τ) (tscHz : ℕ) (worker : ℕ → Bool) (now : ℕ → ℕ) (l : τ.L)
    (xs : List (Event τ.L (TableInfo τ) (Request τ))) :
    List.Forall₂ SameBare
      (createAll (placed (requestApi lib tscHz worker)
        (System.init (requestApi lib tscHz worker) now l) xs) [])
      ((system (requestApi lib tscHz worker)).run
        (System.init (requestApi lib tscHz worker) now l) xs).pipelines := by
  induction xs using List.reverseRecOn with
  | nil => exact .nil
  | append_singleton xs e ih =>
    obtain ⟨tt, pt, hinv⟩ := exists_inv_run (requestApi lib tscHz worker) now l xs
    rw [placed_concat, createAll_append, Machine.run_append]
    rcases stepOut_pipelines hinv e with ⟨k, hplaced, hpipelines⟩ | ⟨hplaced, hwrites⟩
    · rw [hplaced]
      have hstep := sameBare_apply ih k
      rw [← hpipelines] at hstep
      exact hstep
    · rw [hplaced]
      rw [forall₂_sameBare_iff] at ih ⊢
      exact hwrites.map_bare.trans ih

end Rids.Threads
