import Rids.Threads.Mapping

/-!
# The system without messages

What the message passing of the main thread and the data plane threads is for: every call takes
effect at one moment, as if no data plane thread were running beside it, and a data plane thread
runs and flushes the pipelines that are enabled on it and no others.

* `atomicStep`, `atomic` — this system as a machine; it has no rings and no entries of threads.
* `Atomic.onMapped` — a move of a data plane thread on a pipeline that is not mapped to a running
  thread has no effect.

Results of calls are compared through a `view`: a caller tests a status for zero only.
-/

namespace Rids.Threads

open Rids.Lib Rids.Lib.SlotMachine

variable {L T Q R C V W : Type}

/-- The state without messages. -/
@[ext] structure Atomic (L T : Type) where
  pipelines : List (Pipeline T)
  running : ℕ → Bool
  lib : L

/-- A call, a creation, a launch, or a move of a data plane thread on a pipeline. -/
inductive AtomicEvent (L T C : Type)
  | call (call : Call C)
  | create (c : Create T) (lib : L → L)
  | launch (tid : ℕ)
  | run (p : ℕ)
  | flush (p : ℕ)

/-- The outcome, as far as a caller looks at it. -/
def Outcome.through (view : V → W) : Outcome V → Outcome W
  | status s => .status s
  | value v => .value (view v)

/-- The pipeline is mapped to a data plane thread that is running. -/
def Atomic.isMapped (a : Atomic L T) (p : ℕ) : Bool :=
  a.pipelines.any fun q => q.p = p && (q.enabled && a.running q.threadId)

def Atomic.put (a : Atomic L T) (p : Pipeline T) : Atomic L T :=
  { a with pipelines := KeyedList.put Pipeline.name p a.pipelines }

variable (api : Api L T Q R C V)

/-- A pipeline goes to a thread that has room. -/
def atomicEnable (a : Atomic L T) (threadId : ℕ) (name : String) : Atomic L T × Int :=
  match pipelineFind a.pipelines name with
  | none => (a, -1)
  | some p =>
    if rteMaxLcore ≤ threadId ∨ p.nPortsIn = 0 ∨ p.nPortsOut = 0 ∨ p.table.length = 0 then (a, -1)
    else if !api.worker threadId || p.enabled then (a, -1)
    else if threadPipelinesMax ≤ (onThread a.pipelines threadId).length then (a, -1)
    else (a.put (p.enable threadId), 0)

/-- A pipeline is taken off its thread. -/
def atomicDisable (a : Atomic L T) (threadId : ℕ) (name : String) : Atomic L T × Int :=
  match pipelineFind a.pipelines name with
  | none => (a, -1)
  | some p =>
    if rteMaxLcore ≤ threadId then (a, -1)
    else if !api.worker threadId then (a, -1)
    else if !p.enabled then (a, 0)
    else if p.threadId ≠ threadId then (a, -1)
    else (a.put p.disable, 0)

/-- A call on a pipeline goes into the library at once. -/
def atomicPipelineCall (a : Atomic L T) (name : String) (c : C) : Atomic L T × V :=
  match pipelineFind a.pipelines name with
  | none => (a, api.notFound c)
  | some p =>
    match api.prepare p c with
    | .error v => (a, v)
    | .ok q =>
      let (lib, r) := api.direct p q a.lib
      let (write, v) := api.completeDirect p c r
      ({ a.put (p.writeTable write) with lib := lib }, v)

def atomicCall (a : Atomic L T) : Call C → Atomic L T × Outcome V
  | .thread (.enable threadId name) =>
    let (a, status) := atomicEnable api a threadId name
    (a, .status status)
  | .thread (.disable threadId name) =>
    let (a, status) := atomicDisable api a threadId name
    (a, .status status)
  | .pipeline name c =>
    let (a, v) := atomicPipelineCall api a name c
    (a, .value v)

/-- A move on a pipeline that is mapped. -/
def Atomic.onMapped (a : Atomic L T) (p : ℕ) (f : L → L) : Atomic L T :=
  if a.isMapped p then { a with lib := f a.lib } else a

/-- The next state, and the call with its outcome. -/
def atomicStep (a : Atomic L T) : AtomicEvent L T C → Atomic L T × Option (Call C × Outcome V)
  | .call call =>
    let (a, outcome) := atomicCall api a call
    (a, some (call, outcome))
  | .create c lib => ({ a with pipelines := c.apply a.pipelines, lib := lib a.lib }, none)
  | .launch tid =>
    (if api.worker tid then { a with running := Function.update a.running tid true } else a, none)
  | .run p => (a.onMapped p (api.run p), none)
  | .flush p => (a.onMapped p (api.flush p), none)

/-- The system without messages as a machine. -/
def atomic : Machine (Atomic L T) (AtomicEvent L T C) (Option (Call C × Outcome V)) where
  step a e := (atomicStep api a e).1
  out a e := (atomicStep api a e).2

/-! ### What a step does -/

variable (a : Atomic L T)

/-- A pipeline is written that keeps its place and its tables. -/
def Atomic.Remaps (a' : Atomic L T) : Prop :=
  ∃ p p', pipelineFind a.pipelines p'.name = some p ∧ p'.p = p.p ∧ p'.msgq = p.msgq ∧
    p'.table = p.table ∧ a' = a.put p'

/-- An atomic enable leaves everything as it is or maps the pipeline to the thread. -/
theorem atomicEnable_cases (threadId : ℕ) (name : String) :
    (atomicEnable api a threadId name).1 = a ∨ a.Remaps (atomicEnable api a threadId name).1 := by
  unfold atomicEnable
  cases hfind : pipelineFind a.pipelines name with
  | none => exact .inl rfl
  | some p =>
    dsimp only
    split_ifs
    · exact .inl rfl
    · exact .inl rfl
    · exact .inl rfl
    · have hname : p.name = name := KeyedList.key_of_find hfind
      exact .inr ⟨p, p.enable threadId, hname ▸ hfind, rfl, rfl, rfl, rfl⟩

/-- An atomic disable leaves everything as it is or takes the pipeline from the thread. -/
theorem atomicDisable_cases (threadId : ℕ) (name : String) :
    (atomicDisable api a threadId name).1 = a ∨
      a.Remaps (atomicDisable api a threadId name).1 := by
  unfold atomicDisable
  cases hfind : pipelineFind a.pipelines name with
  | none => exact .inl rfl
  | some p =>
    dsimp only
    split_ifs
    · exact .inl rfl
    · exact .inl rfl
    · exact .inl rfl
    · exact .inl rfl
    · have hname : p.name = name := KeyedList.key_of_find hfind
      exact .inr ⟨p, p.disable, hname ▸ hfind, rfl, rfl, rfl, rfl⟩

/-- The pipelines stay, and the library too or a thread has run or flushed a pipeline. -/
def Atomic.Moves (a' : Atomic L T) : Prop :=
  a'.pipelines = a.pipelines ∧
    (a'.lib = a.lib ∨ ∃ p, a'.lib = api.run p a.lib ∨ a'.lib = api.flush p a.lib)

/-- An atomic request moves the tables as the direct way does, or only the library. -/
theorem atomicPipelineCall_moves_or (name : String) (c : C) :
    a.Moves api (atomicPipelineCall api a name c).1 ∨
      ∃ p q, pipelineFind a.pipelines name = some p ∧ api.prepare p c = .ok q ∧
        (atomicPipelineCall api a name c).1 =
          { a.put (p.writeTable (api.completeDirect p c (api.direct p q a.lib).2).1) with
            lib := (api.direct p q a.lib).1 } := by
  unfold atomicPipelineCall
  cases hfind : pipelineFind a.pipelines name with
  | none => exact .inl ⟨rfl, .inl rfl⟩
  | some p =>
    dsimp only
    cases hprepare : api.prepare p c with
    | error v => exact .inl ⟨rfl, .inl rfl⟩
    | ok q => exact .inr ⟨p, q, rfl, hprepare, rfl⟩

/-- What a step without messages does to the pipelines and to the library. -/
theorem atomicStep_cases (e : AtomicEvent L T C) :
    a.Moves api (atomicStep api a e).1 ∨
    a.Remaps (atomicStep api a e).1 ∨
    (∃ name c p q, e = .call (.pipeline name c) ∧ pipelineFind a.pipelines name = some p ∧
      api.prepare p c = .ok q ∧ (atomicStep api a e).1 =
        { a.put (p.writeTable (api.completeDirect p c (api.direct p q a.lib).2).1) with
          lib := (api.direct p q a.lib).1 }) ∨
    ∃ c f, e = .create c f ∧
      (atomicStep api a e).1 = { a with pipelines := c.apply a.pipelines, lib := f a.lib } := by
  have hsame {a' : Atomic L T} (h : a' = a) : a.Moves api a' := by
    rw [h]
    exact ⟨rfl, .inl rfl⟩
  have hmapped (p : ℕ) (f : L → L) (hf : f = api.run p ∨ f = api.flush p) :
      a.Moves api (a.onMapped p f) := by
    unfold Atomic.onMapped
    split_ifs
    · exact ⟨rfl, .inr ⟨p, hf.imp (congrFun · a.lib) (congrFun · a.lib)⟩⟩
    · exact hsame rfl
  cases e with
  | call call =>
    cases call with
    | thread call =>
      cases call with
      | enable threadId name =>
        exact (atomicEnable_cases api a threadId name).imp hsame .inl
      | disable threadId name =>
        exact (atomicDisable_cases api a threadId name).imp hsame .inl
    | pipeline name c =>
      rcases atomicPipelineCall_moves_or api a name c with h | ⟨p, q, hfind, hprepare, h⟩
      · exact .inl h
      · exact .inr (.inr (.inl ⟨name, c, p, q, rfl, hfind, hprepare, h⟩))
  | create c f => exact .inr (.inr (.inr ⟨c, f, rfl, rfl⟩))
  | launch tid =>
    left
    simp only [atomicStep]
    split_ifs
    · exact ⟨rfl, .inl rfl⟩
    · exact hsame rfl
  | run p => exact .inl (hmapped p _ (.inl rfl))
  | flush p => exact .inl (hmapped p _ (.inr rfl))

/-! ### What is compared -/

/-- The creations and launches among the steps of the system. -/
def Event.setup : Event L T C → Option (Event L T C)
  | .create c lib => some (.create c lib)
  | .launch tid => some (.launch tid)
  | _ => none

/-- The creations and launches among the steps without messages. -/
def AtomicEvent.setup : AtomicEvent L T C → Option (Event L T C)
  | .create c lib => some (.create c lib)
  | .launch tid => some (.launch tid)
  | _ => none

/-- The outcomes, as far as a caller looks at them. -/
def seen (view : V → W) (os : List (Call C × Outcome V)) : List (Call C × Outcome W) :=
  os.map fun o => (o.1, o.2.through view)

/-- The calls of a history that end, with their outcomes. -/
def ended {I : Type} (hist : List (I × Option (Call C × Outcome V))) :
    List (Call C × Outcome V) :=
  hist.filterMap (·.2)

end Rids.Threads
