import Rids.Cli.ConfigurationRun
import Rids.Threads.Creations

/-!
# The configured system (`pipeline.c`, `thread.c`)

What a command creates is used by the calls of the main thread and by the data plane threads, which
know of a pipeline how many ports it has, and its tables.

* `matches_exec` — a command and its creation make the same pipelines.
* `configuredSystem_run` — in every interleaving of the creations of a run of commands with calls
  and steps of the threads, the pipelines are those that the commands make, and all stored rules
  fit.
-/

namespace Rids.Cli

open Rids.Lib Rids.Lib.SlotMachine
open Rids.Threads (TableInfo Create Event System LibraryTypes SameBare createAll createAll_append
  placed requestApi system)

section Creations

variable {τ : LibraryTypes} (noProfile : TableActionProfileParams)

/-- A new table. The checks of an action read the profile of its table without a test for one;
`noProfile` stands for what they read where there is none.
Source: `pipeline.h` `struct table`
Kind: D -/
def TableObject.created (t : TableObject) : Threads.Table (TableInfo τ) where
  a := t.a
  rest :=
    let ap := t.ap.elim noProfile TableActionProfile.params
    { params := t.tableMatch.params
      ap := ap.profile
      ttlCounts := ap.ttl.any TtlConfig.nPacketsEnabled
      rules := []
      ruleDefault := none }

/-- What a command creates for the threads.
Source: `cli.c` `cmd_pipeline` to `cmd_pipeline_table`
Kind: D -/
def creation (lib : Library) (c : Configuration) : ConfigCommand → Option (Create (TableInfo τ))
  | .pipeline name params =>
    (pipelineCreate lib c name params).map fun _ => .pipeline name params.timerPeriodMs
  | .portIn name params _ => (pipelinePortInCreate lib c name params).map fun _ => .portIn name
  | .portOut name params => (pipelinePortOutCreate lib c name params).map fun _ => .portOut name
  | .table name params =>
    (pipelineTableCreate lib c name params).bind fun p =>
      p.table.getLast?.map fun t => .table name (t.created noProfile)
  | _ => none

/-- What a run of commands creates. -/
def creations : Configuration → List (Library × ConfigCommand) → List (Create (TableInfo τ))
  | _, [] => []
  | c, (lib, cmd) :: steps =>
    (creation noProfile lib c cmd).toList ++ creations (exec lib c cmd) steps

/-- What a pipeline has in both models; the rules and the thread are those of the second. -/
structure PipelineObject.Matches (p : PipelineObject) (q : Threads.Pipeline (TableInfo τ)) :
    Prop where
  name : q.name = p.name
  nPortsIn : q.nPortsIn = p.portIn.length
  nPortsOut : q.nPortsOut = p.portOut.length
  table : q.table.map Threads.Table.bare = p.table.map (TableObject.created noProfile)
  timerPeriodMs : q.timerPeriodMs = p.timerPeriodMs

end Creations

/-! ### One command -/

section Step

variable {τ : LibraryTypes} {noProfile : TableActionProfileParams} {lib : Library}
  {c : Configuration} {ps : List (Threads.Pipeline (TableInfo τ))} {name : String}

/-- The pipeline that a command finds is found by the creation. -/
theorem find_matches (h : List.Forall₂ (PipelineObject.Matches noProfile) c.pipelines ps)
    {p : PipelineObject} (hfind : pipelineFind c name = some p) :
    ∃ q, Threads.pipelineFind ps name = some q ∧ p.Matches noProfile q := by
  rcases KeyedList.find_related (fun _ _ hpq => hpq.name) h name with
    ⟨hnone, -⟩ | ⟨p', q, hp', hq, hpq⟩
  · cases hnone.symm.trans hfind
  · obtain rfl : p' = p := Option.some.inj (hp'.symm.trans hfind)
    exact ⟨q, hq, hpq⟩

/-- A pipeline that is not in the configuration is not in the registry. -/
theorem find_matches_none (h : List.Forall₂ (PipelineObject.Matches noProfile) c.pipelines ps)
    (hfind : pipelineFind c name = none) : Threads.pipelineFind ps name = none := by
  rcases KeyedList.find_related (fun _ _ hpq => hpq.name) h name with ⟨-, hq⟩ | ⟨p, q, hp, -⟩
  · exact hq
  · cases hfind.symm.trans hp

/-- Matching pipelines put into matching lists. -/
theorem put_matches (h : List.Forall₂ (PipelineObject.Matches noProfile) c.pipelines ps)
    {p : PipelineObject} {q : Threads.Pipeline (TableInfo τ)} (hpq : p.Matches noProfile q) :
    List.Forall₂ (PipelineObject.Matches noProfile) (c.setPipeline p).pipelines
      (KeyedList.put Threads.Pipeline.name q ps) :=
  KeyedList.put_related (fun _ _ hpq => hpq.name) hpq h

/-- A command and its creation make the same of related pipelines. -/
theorem matches_exec (h : List.Forall₂ (PipelineObject.Matches noProfile) c.pipelines ps)
    (cmd : ConfigCommand) (hname : ∀ name ∈ cmd.newName, name.length < nameSize) :
    List.Forall₂ (PipelineObject.Matches noProfile) (exec lib c cmd).pipelines
      (createAll (creation noProfile lib c cmd).toList ps) := by
  rcases cmd with - | - | - | - | - | - | - | - | - | - | - | - | - | ⟨name, params⟩ |
    ⟨name, params, enabled⟩ | ⟨name, params⟩ | ⟨name, params⟩ | ⟨name, portId, tableId⟩
  iterate 13 exact h
  · rcases hcreate : pipelineCreate lib c name params with - | p
    · simp only [exec, creation, hcreate, Option.toList_none, List.append_nil]
      exact h
    · obtain ⟨hfind, htimer, handle, rfl⟩ := pipelineCreate_eq hcreate
      have hnone : Threads.pipelineFind ps name = none := find_matches_none h hfind
      have hno : ¬((Threads.pipelineFind ps name).isSome ∨ params.timerPeriodMs = 0) := by
        simp [hnone, htimer]
      simp only [exec, creation, hcreate, Option.map_some, Option.toList_some, createAll,
        List.foldl_cons, List.foldl_nil, Create.apply, if_neg hno]
      refine List.rel_append h (.cons ?_ .nil)
      exact ⟨(strlcpy_eq (hname name rfl)).symm, rfl, rfl, rfl, rfl⟩
  · rcases hcreate : pipelinePortInCreate lib c name params with - | p'
    · simp only [exec, creation, hcreate]
      exact h
    · obtain ⟨p, ap, reader, a, hfind, -, -, rfl⟩ := pipelinePortInCreate_eq hcreate
      obtain ⟨q, hq, hpq⟩ := find_matches h hfind
      simp only [exec, creation, hcreate, Option.map_some, Option.toList_some, createAll,
        List.foldl_cons, List.foldl_nil, Create.apply, hq]
      refine put_matches h { hpq with nPortsIn := ?_ }
      rw [List.length_append, List.length_singleton, hpq.nPortsIn]
  · rcases hcreate : pipelinePortOutCreate lib c name params with - | p'
    · simp only [exec, creation, hcreate]
      exact h
    · obtain ⟨p, writer, hfind, -, rfl⟩ := pipelinePortOutCreate_eq hcreate
      obtain ⟨q, hq, hpq⟩ := find_matches h hfind
      simp only [exec, creation, hcreate, Option.map_some, Option.toList_some, createAll,
        List.foldl_cons, List.foldl_nil, Create.apply, hq]
      refine put_matches h { hpq with nPortsOut := ?_ }
      rw [List.length_append, List.length_singleton, hpq.nPortsOut]
  · rcases hcreate : pipelineTableCreate lib c name params with - | p'
    · simp only [exec, creation, hcreate]
      exact h
    · obtain ⟨p, ap, a, hfind, hmax, -, -, rfl⟩ := pipelineTableCreate_eq hcreate
      obtain ⟨q, hq, hpq⟩ := find_matches h hfind
      have hlen : q.table.length = p.table.length := by
        simpa using congrArg List.length hpq.table
      have hnot : ¬Threads.rtePipelineTableMax ≤ q.table.length := by
        rw [hlen]
        exact Nat.not_le.mpr hmax
      simp only [exec, creation, hcreate, Option.bind_some, List.getLast?_concat, Option.map_some,
        Option.toList_some, createAll, List.foldl_cons, List.foldl_nil, Create.apply, hq,
        if_neg hnot]
      refine put_matches h { hpq with table := ?_ }
      rw [List.map_append, List.map_append, hpq.table]
      rfl
  · rcases hcreate : pipelinePortInConnectToTable lib c name portId tableId with - | p'
    · simp only [exec, hcreate]
      exact h
    · obtain ⟨p, hfind, -, rfl⟩ := pipelinePortInConnectToTable_eq hcreate
      obtain ⟨q, hq, hpq⟩ := find_matches h hfind
      have hself : KeyedList.put Threads.Pipeline.name q ps = ps := by
        apply KeyedList.put_of_find
        rwa [show q.name = name from KeyedList.key_of_find hq]
      have hput := put_matches h { hpq with : PipelineObject.Matches noProfile
        { p with connected := p.connected ++ [(portId, tableId)] } q }
      rw [hself] at hput
      simp only [exec, hcreate]
      exact hput

end Step

/-! ### Runs -/

section Runs

variable {τ : LibraryTypes} {noProfile : TableActionProfileParams}

/-- The commands of a run and the creations they make keep the lists matching. -/
theorem matches_run {c : Configuration} {ps : List (Threads.Pipeline (TableInfo τ))}
    (h : List.Forall₂ (PipelineObject.Matches noProfile) c.pipelines ps)
    {steps : List (Library × ConfigCommand)}
    (hnames : ∀ step ∈ steps, ∀ name ∈ step.2.newName, name.length < nameSize) :
    List.Forall₂ (PipelineObject.Matches noProfile)
      (steps.foldl (fun c step => exec step.1 c step.2) c).pipelines
      (createAll (creations noProfile c steps) ps) := by
  induction steps generalizing c ps with
  | nil => exact h
  | cons step steps ih =>
    rw [creations, createAll_append, List.foldl_cons]
    apply ih
    · exact matches_exec h step.2 (hnames step List.mem_cons_self)
    · exact fun x hx => hnames x (List.mem_cons_of_mem _ hx)

/-- A new table has no rules. -/
theorem creation_empty {lib : Library} {c : Configuration} {cmd : ConfigCommand} {name : String}
    {t : Threads.Table (TableInfo τ)} (h : creation noProfile lib c cmd = some (.table name t)) :
    t.rest.rules = [] ∧ t.rest.ruleDefault = none := by
  rcases cmd with _ | _ | _ | _ | _ | _ | _ | _ | _ | _ | _ | _ | _ | _ | _ | _ | ⟨name', params⟩ |
    _
  all_goals
    simp only [creation, Option.map_eq_some_iff, Option.bind_eq_some_iff, reduceCtorEq, and_false,
      exists_false, Create.table.injEq] at h
  obtain ⟨p, -, o, -, -, rfl⟩ := h
  exact ⟨rfl, rfl⟩

/-- A table is created without rules. -/
theorem creations_empty {c : Configuration} {steps : List (Library × ConfigCommand)}
    {name : String} {t : Threads.Table (TableInfo τ)}
    (h : .table name t ∈ creations noProfile c steps) :
    t.rest.rules = [] ∧ t.rest.ruleDefault = none := by
  induction steps generalizing c with
  | nil => cases h
  | cons step steps ih =>
    rw [creations] at h
    rcases List.mem_append.mp h with h | h
    · exact creation_empty (Option.mem_toList.mp h)
    · exact ih h

/-- A match is about what a creation decides. -/
theorem PipelineObject.Matches.of_sameBare {p : PipelineObject}
    {q q' : Threads.Pipeline (TableInfo τ)} (h : p.Matches noProfile q) (hsame : SameBare q q') :
    p.Matches noProfile q' := by
  simp only [SameBare, Threads.Pipeline.bare, Threads.Pipeline.mk.injEq] at hsame
  obtain ⟨hname, -, hin, hout, htable, -, htimer, -⟩ := hsame
  exact ⟨hname.trans h.name, hin.trans h.nPortsIn, hout.trans h.nPortsOut,
    htable.trans h.table, htimer.trans h.timerPeriodMs⟩

/-- The same for the whole list. -/
theorem matches_sameBare {cps : List PipelineObject}
    {qs qs' : List (Threads.Pipeline (TableInfo τ))}
    (h : List.Forall₂ (PipelineObject.Matches noProfile) cps qs)
    (hsame : List.Forall₂ SameBare qs qs') :
    List.Forall₂ (PipelineObject.Matches noProfile) cps qs' := by
  induction h generalizing qs' with
  | nil =>
    rcases hsame with - | -
    exact .nil
  | cons hpq _ ih =>
    rcases hsame with - | ⟨hq, htail⟩
    exact .cons (hpq.of_sameBare hq) (ih htail)

/-- **The configured system.** The creations that take place are those of the commands, of which
none gives a name that has to be cut; calls and steps of the threads come in between. Then the
pipelines are those of the configuration, with its ports and tables, and every stored rule fits
its table and has a destination that is there. -/
theorem configuredSystem_run (noProfile : TableActionProfileParams)
    (steps : List (Library × ConfigCommand)) (lib : Threads.Library τ) (tscHz : ℕ)
    (worker : ℕ → Bool) (now : ℕ → ℕ) (l : τ.L)
    (xs : List (Event τ.L (TableInfo τ) (Threads.Request τ)))
    (hnames : ∀ step ∈ steps, ∀ name ∈ step.2.newName, name.length < nameSize)
    (hplaced : placed (requestApi lib tscHz worker)
      (System.init (requestApi lib tscHz worker) now l) xs = creations noProfile .init steps) :
    List.Forall₂ (PipelineObject.Matches noProfile) (configure steps).pipelines
        ((system (requestApi lib tscHz worker)).run
          (System.init (requestApi lib tscHz worker) now l) xs).pipelines ∧
      ((system (requestApi lib tscHz worker)).run
        (System.init (requestApi lib tscHz worker) now l) xs).Sound := by
  refine ⟨?_, ?_⟩
  · have hbare := Threads.bare_run lib tscHz worker now l xs
    rw [hplaced] at hbare
    exact matches_sameBare (matches_run .nil hnames) hbare
  · apply Threads.forall_pipelines_run (Threads.keeps_rulesSound lib tscHz worker)
    intro k hk
    rw [hplaced] at hk
    apply Create.keeps_rulesSound
    rintro name t rfl
    exact creations_empty hk

end Runs

/-- A profile without any part. -/
def emptyProfile : TableActionProfileParams where
  ipv4 := true
  ipOffset := 0
  lb := none
  mtr := none
  tm := none
  encap := none
  nat := none
  ttl := none
  stats := none
  time := false
  symCrypto := none
  tag := false
  decap := false

/-- The commands of `linkSteps`, then an output port and a table. -/
def tableSteps : List (Library × ConfigCommand) :=
  linkSteps ++ [(unitLibrary, .portOut "P" ⟨.sink none, 32⟩),
    (unitLibrary, .tableActionProfile "A" emptyProfile),
    (unitLibrary, .table "P" ⟨.array 16 0, some "A"⟩)]

/-- The creations of `tableSteps`, and calls that enable the pipeline: the first before it has
ports. -/
def tableRun : List (Event Unit (TableInfo ⟨Unit, Unit, Unit, Unit, Unit, Unit, Unit⟩)
    (Threads.Request ⟨Unit, Unit, Unit, Unit, Unit, Unit, Unit⟩)) :=
  [.launch 1, .create (.pipeline "P" 10) id, .call 5 (.thread (.enable 1 "P")),
    .create (.portIn "P") id, .create (.portOut "P") id,
    .create (.table "P" (TableObject.created emptyProfile
      ⟨.array 16 0, some ⟨"A", emptyProfile, 0⟩, some 0⟩)) id,
    .call 6 (.thread (.enable 1 "P")), .main]

/-- A pipeline with a table, and a request on it. -/
theorem configuredSystem_run_tableRun :
    List.Forall₂ (PipelineObject.Matches emptyProfile) (configure tableSteps).pipelines
        ((system (requestApi Threads.unitLibrary 1000 fun _ => true)).run
          (System.init (requestApi Threads.unitLibrary 1000 fun _ => true) (fun _ => 0) ())
          tableRun).pipelines ∧
      ((system (requestApi Threads.unitLibrary 1000 fun _ => true)).run
        (System.init (requestApi Threads.unitLibrary 1000 fun _ => true) (fun _ => 0) ())
        tableRun).Sound :=
  configuredSystem_run emptyProfile tableSteps Threads.unitLibrary 1000 (fun _ => true)
    (fun _ => 0) () tableRun (by decide) rfl

end Rids.Cli
