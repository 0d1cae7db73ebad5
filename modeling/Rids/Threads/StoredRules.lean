import Rids.Pipeline.Mirror
import Rids.Threads.Requests

/-!
# The stored rules of all pipelines (`thread.c`, `pipeline.c`)

A rule is checked when it is added and stored when the response has come; ports and tables are
created later, and all the while the data plane threads move.

* `stepOut_pipelines` — a step writes at most one pipeline, or creates something.
* `forall_pipelines_run` — what every operation keeps of a pipeline holds of all pipelines after any
  interleaving.
* `storedRules_run` — so every stored rule fits its table and has a destination that is there, and
  no two rules of a table have one match.
-/

namespace Rids.Threads

open Rids.Lib Rids.Lib.Mailbox Rids.Lib.SlotMachine

/-! ### What holds of all pipelines -/

section Keeps

variable {L T Q R C V : Type} {api : Api L T Q R C V} {P : Pipeline T → Prop}
  {s : System L T Q R C} {ps : List (Pipeline T)}

/-- What the operations on one pipeline keep of it. -/
structure Keeps (api : Api L T Q R C V) (P : Pipeline T → Prop) : Prop where
  enable : ∀ p threadId, P p → P (p.enable threadId)
  disable : ∀ p, P p → P p.disable
  direct : ∀ p c q l, P p → api.prepare p c = .ok q →
    P (p.writeTable (api.completeDirect p c (api.direct p q l).2).1)
  handle : ∀ p c q conf l, P p → api.prepare p c = .ok q →
    P (p.writeTable (api.complete p c (api.handle conf q l).2).1)

/-- A creation keeps it of all pipelines. -/
def Create.Keeps (P : Pipeline T → Prop) (c : Create T) : Prop :=
  ∀ ps, (∀ p ∈ ps, P p) → ∀ p ∈ c.apply ps, P p

/-- What an operation on a pipeline makes of it. -/
inductive Pipeline.Written (api : Api L T Q R C V) (p : Pipeline T) : Pipeline T → Prop
  | enable (threadId : ℕ) : Written api p (p.enable threadId)
  | disable : Written api p p.disable
  | direct {c : C} {q : Q} (l : L) (hprepare : api.prepare p c = .ok q) :
    Written api p (p.writeTable (api.completeDirect p c (api.direct p q l).2).1)
  | handle {c : C} {q : Q} (conf : PipelineConf) (l : L) (hprepare : api.prepare p c = .ok q) :
    Written api p (p.writeTable (api.complete p c (api.handle conf q l).2).1)

/-- The pipelines after an operation on at most one of them. -/
inductive Writes (api : Api L T Q R C V) (ps : List (Pipeline T)) : List (Pipeline T) → Prop
  | none : Writes api ps ps
  | one {name : String} {p p' : Pipeline T} (hfind : pipelineFind ps name = some p)
    (hwritten : p.Written api p') : Writes api ps (KeyedList.put Pipeline.name p' ps)

/-- The creation that takes place: a creation in the middle of a call does nothing. -/
def System.placed (s : System L T Q R C) : Event L T C → Option (Create T)
  | .create c _ =>
    match s.main with
    | .idle => some c
    | _ => none
  | _ => none

/-- Only a creation places a pipeline. -/
theorem placed_eq_some {e : Event L T C} {c : Create T} (h : s.placed e = some c) :
    ∃ lib, e = .create c lib := by
  unfold System.placed at h
  split at h
  · split at h
    · cases h
      exact ⟨_, rfl⟩
    · cases h
  · cases h

/-- A put keeps a property of all pipelines. -/
theorem forall_put (h : ∀ p ∈ ps, P p) {p : Pipeline T} (hp : P p) :
    ∀ p' ∈ KeyedList.put Pipeline.name p ps, P p' := by
  intro p' hp'
  have hperm : (KeyedList.put Pipeline.name p ps).Perm
      (p :: KeyedList.erase Pipeline.name ps p.name) :=
    KeyedList.put_perm p ps
  rcases List.mem_cons.mp (hperm.mem_iff.mp hp') with rfl | hold
  · exact hp
  · exact h p' (List.mem_of_mem_eraseP hold)

/-- The answer of a thread writes no table. -/
theorem threadResponse_writes (call : ThreadCall) (status : Int) :
    Writes api ps (threadResponse ps call status).1 := by
  unfold Threads.threadResponse
  split_ifs with hstatus
  · exact .none
  · cases hfind : pipelineFind ps call.pipelineName with
    | none => exact .none
    | some p =>
      cases call with
      | enable threadId name => exact .one hfind (.enable threadId)
      | disable threadId name => exact .one hfind .disable

/-- The answer of a pipeline writes what its request may write. -/
theorem pipelineResponse_writes {name : String} {c : C} {r : R}
    (hanswers : PipelineAnswers api ps name c r) :
    Writes api ps (pipelineResponse api ps name c r).1 := by
  obtain ⟨p, q, conf, l, hfind, hprepare, rfl⟩ := hanswers
  simp only [Threads.pipelineResponse, hfind]
  exact .one hfind (.handle conf l hprepare)

/-- The start of a call writes what its request may write. -/
theorem begin_writes (now : ℕ) (call : Call C) :
    Writes api s.pipelines (begin api s now call).1.pipelines := by
  cases call with
  | thread call =>
    cases call with
    | enable threadId name =>
      simp only [Threads.begin, threadPipelineEnable]
      cases hfind : pipelineFind s.pipelines name with
      | none => exact .none
      | some p =>
        dsimp only
        split_ifs
        · exact .none
        · exact .none
        · exact .none
        · exact .one hfind (.enable threadId)
        · exact .none
    | disable threadId name =>
      simp only [Threads.begin, threadPipelineDisable]
      cases hfind : pipelineFind s.pipelines name with
      | none => exact .none
      | some p =>
        dsimp only
        split_ifs
        · exact .none
        · exact .none
        · exact .none
        · exact .none
        · split
          · exact .one hfind .disable
          · exact .none
        · exact .none
  | pipeline name c =>
    simp only [Threads.begin, pipelineCall]
    cases hfind : pipelineFind s.pipelines name with
    | none => exact .none
    | some p =>
      dsimp only
      cases hprepare : api.prepare p c with
      | error v => exact .none
      | ok q =>
        dsimp only
        split_ifs
        · exact .one hfind (.direct s.lib hprepare)
        · exact .none

/-- A turn of the main thread writes what its request may write. -/
theorem turn_writes {all : Prop} {tt : Talk ℕ ThreadReq Int} {pt : Talk ℕ Q R}
    (hinv : Inv api all s tt pt) : Writes api s.pipelines (turn api s).1.pipelines := by
  unfold Threads.turn
  have hphase := hinv.phase
  cases hmain : s.main with
  | idle => exact .none
  | threadSend call req =>
    dsimp only
    split_ifs
    · exact .none
    · exact .none
  | threadRecv call =>
    dsimp only
    cases hrsp : (s.threadMsgq call.threadId).rsp with
    | nil => exact .none
    | cons status rest => exact threadResponse_writes call status
  | pipelineSend name c msgq q =>
    dsimp only
    split_ifs
    · exact .none
    · exact .none
  | pipelineRecv name c msgq =>
    dsimp only
    cases hrsp : (s.pipelineMsgq msgq).rsp with
    | nil => exact .none
    | cons r rest =>
      rw [hinv.pipelineMsgq, rsp_box_eq_cons_iff] at hrsp
      obtain ⟨rfl, -⟩ := hrsp
      rw [hmain] at hphase
      cases hphase with
      | pipelineAnswered hanswers => exact pipelineResponse_writes hanswers

/-- **A step.** A creation that takes place, or a write to one pipeline at most. -/
theorem stepOut_pipelines {all : Prop} {tt : Talk ℕ ThreadReq Int} {pt : Talk ℕ Q R}
    (hinv : Inv api all s tt pt) (e : Event L T C) :
    (∃ c, s.placed e = some c ∧ (stepOut api s e).1.pipelines = c.apply s.pipelines) ∨
      s.placed e = none ∧ Writes api s.pipelines (stepOut api s e).1.pipelines := by
  cases e with
  | call now call =>
    refine .inr ⟨rfl, ?_⟩
    unfold Threads.stepOut
    cases hmain : s.main with
    | idle => exact begin_writes now call
    | threadSend call' req => exact .none
    | threadRecv call' => exact .none
    | pipelineSend name c msgq q => exact .none
    | pipelineRecv name c msgq => exact .none
  | main => exact .inr ⟨rfl, turn_writes hinv⟩
  | create c lib =>
    unfold Threads.stepOut System.placed
    cases hmain : s.main with
    | idle => exact .inl ⟨c, rfl, rfl⟩
    | threadSend call req => exact .inr ⟨rfl, .none⟩
    | threadRecv call => exact .inr ⟨rfl, .none⟩
    | pipelineSend name c' msgq q => exact .inr ⟨rfl, .none⟩
    | pipelineRecv name c' msgq => exact .inr ⟨rfl, .none⟩
  | launch tid =>
    refine .inr ⟨rfl, ?_⟩
    unfold Threads.stepOut
    cases hmain : s.main with
    | idle =>
      dsimp only
      split_ifs
      · exact .none
      · exact .none
    | threadSend call req => exact .none
    | threadRecv call => exact .none
    | pipelineSend name c msgq q => exact .none
    | pipelineRecv name c msgq => exact .none
  | thread tid now =>
    refine .inr ⟨rfl, ?_⟩
    unfold Threads.stepOut
    dsimp only
    split_ifs
    · exact .none
    · exact .none

/-- A property that the requests keep, after one write. -/
theorem Keeps.written (hkeeps : Keeps api P) {p p' : Pipeline T} (hp : P p)
    (h : p.Written api p') : P p' := by
  rcases h with threadId | - | ⟨l, hprepare⟩ | ⟨conf, l, hprepare⟩
  · exact hkeeps.enable p threadId hp
  · exact hkeeps.disable p hp
  · exact hkeeps.direct p _ _ l hp hprepare
  · exact hkeeps.handle p _ _ conf l hp hprepare

/-- A property that the requests keep, after the writes of a step. -/
theorem Keeps.writes (hkeeps : Keeps api P) (hps : ∀ p ∈ ps, P p) {ps' : List (Pipeline T)}
    (h : Writes api ps ps') : ∀ p ∈ ps', P p := by
  rcases h with - | ⟨hfind, hwritten⟩
  · exact hps
  · exact forall_put hps (hkeeps.written (hps _ (KeyedList.mem_of_find hfind)) hwritten)

/-- A property that the requests and the creations keep, after a step. -/
theorem Keeps.stepOut {all : Prop} {tt : Talk ℕ ThreadReq Int} {pt : Talk ℕ Q R}
    (hkeeps : Keeps api P) (hinv : Inv api all s tt pt) (h : ∀ p ∈ s.pipelines, P p)
    {e : Event L T C} (hcreate : ∀ c, s.placed e = some c → c.Keeps P) :
    ∀ p ∈ (stepOut api s e).1.pipelines, P p := by
  rcases stepOut_pipelines hinv e with ⟨c, hplaced, hpipelines⟩ | ⟨-, hwrites⟩
  · rw [hpipelines]
    exact hcreate c hplaced s.pipelines h
  · exact hkeeps.writes h hwrites

/-- The creations that take place in a run. -/
def placed (api : Api L T Q R C V) (s : System L T Q R C) (xs : List (Event L T C)) :
    List (Create T) :=
  ((system api).trace s xs).filterMap fun x => x.1.placed x.2

/-- What the last event places. -/
theorem placed_concat (s : System L T Q R C) (xs : List (Event L T C)) (e : Event L T C) :
    placed api s (xs ++ [e]) = placed api s xs ++ (((system api).run s xs).placed e).toList := by
  rw [placed, Machine.trace_append, List.filterMap_append]
  rfl

/-- What was placed comes from an event of the run. -/
theorem exists_create_of_placed {xs : List (Event L T C)} {c : Create T}
    (h : c ∈ placed api s xs) : ∃ lib, Event.create c lib ∈ xs := by
  induction xs using List.reverseRecOn with
  | nil => cases h
  | append_singleton xs e ih =>
    rw [placed_concat] at h
    rcases List.mem_append.mp h with h | h
    · obtain ⟨lib, hmem⟩ := ih h
      exact ⟨lib, List.mem_append_left _ hmem⟩
    · obtain ⟨lib, rfl⟩ := placed_eq_some (Option.mem_toList.mp h)
      exact ⟨lib, List.mem_append_right _ (List.mem_singleton_self _)⟩

/-- **A run.** What every operation and every creation that takes place keeps of a pipeline holds of
all pipelines after any interleaving. -/
theorem forall_pipelines_run (hkeeps : Keeps api P) (now : ℕ → ℕ) (lib : L)
    (xs : List (Event L T C)) (hcreate : ∀ c ∈ placed api (System.init api now lib) xs, c.Keeps P) :
    ∀ p ∈ ((system api).run (System.init api now lib) xs).pipelines, P p := by
  induction xs using List.reverseRecOn with
  | nil => exact nofun
  | append_singleton xs e ih =>
    rw [Machine.run_append]
    obtain ⟨tt, pt, hinv⟩ := exists_inv_run api now lib xs
    rw [placed_concat] at hcreate
    have hbefore := ih fun c hmem => hcreate c (List.mem_append_left _ hmem)
    apply hkeeps.stepOut hinv hbefore
    intro c hplaced
    exact hcreate c (List.mem_append_right _ (Option.mem_toList.mpr hplaced))

end Keeps

/-! ### Tables whose rules pass the checks -/

section Rules

open Rids.Pipeline (TableRule TableRuleAction FwdAction ActionProfile TableRuleMatch actionCheck
  fwdCheck matchCheck tableRuleAdd tableRuleDelete tableRuleAdd_eq_put tableRuleDelete_eq_erase
  mem_tableRuleAdd)
open Rids.Pipeline.BulkAdd (Status writeBack tableRuleAddBulkLl)

variable {τ : LibraryTypes} {lib : Library τ} {p : Pipeline (TableInfo τ)} {t : TableInfo τ}
  {nPortsOut nPortsOut' nTables nTables' : ℕ}

/-- The rule passes the checks that a call makes of it. -/
def TableInfo.Fits (t : TableInfo τ) (nPortsOut nTables : ℕ) (r : Rule τ) : Prop :=
  matchCheck r.ruleMatch t.params = true ∧ actionCheck t.ap nPortsOut nTables r.action = true

/-- The rules of a table have matches of their own and pass the checks, and so does the default
rule. -/
structure TableInfo.Sound (t : TableInfo τ) (nPortsOut nTables : ℕ) : Prop where
  distinct : KeyedList.Distinct TableRule.key t.rules
  fits : ∀ r ∈ t.rules, t.Fits nPortsOut nTables r
  ruleDefault : ∀ fwd d, t.ruleDefault = some (fwd, d) → fwdCheck nPortsOut nTables fwd = true

/-- The tables of the pipeline are sound for the ports and tables that it has. -/
def RulesSound (p : Pipeline (TableInfo τ)) : Prop :=
  ∀ t ∈ p.table, t.rest.Sound p.nPortsOut p.table.length

/-- More ports and tables do not hurt a forward action. -/
theorem fwdCheck_mono (hports : nPortsOut ≤ nPortsOut') (htables : nTables ≤ nTables')
    {fwd : FwdAction} (h : fwdCheck nPortsOut nTables fwd = true) :
    fwdCheck nPortsOut' nTables' fwd = true := by
  cases fwd with
  | drop => rfl
  | portMeta => rfl
  | port id =>
    have hlt := of_decide_eq_true h
    exact decide_eq_true (lt_of_lt_of_le hlt hports)
  | table id =>
    have hlt := of_decide_eq_true h
    exact decide_eq_true (lt_of_lt_of_le hlt htables)

/-- More ports and tables do not hurt an action. -/
theorem actionCheck_mono {S : Type} {ap : ActionProfile} {a : TableRuleAction S}
    (hports : nPortsOut ≤ nPortsOut') (htables : nTables ≤ nTables')
    (h : actionCheck ap nPortsOut nTables a = true) :
    actionCheck ap nPortsOut' nTables' a = true := by
  unfold actionCheck at h ⊢
  simp only [Bool.and_eq_true] at h ⊢
  obtain ⟨⟨⟨⟨⟨hmask, hfwd⟩, hmtr⟩, htm⟩, hencap⟩, hnat⟩ := h
  refine ⟨⟨⟨⟨⟨hmask, ?_⟩, hmtr⟩, htm⟩, hencap⟩, hnat⟩
  cases hfwd' : a.fwd with
  | none => rfl
  | some fwd =>
    rw [hfwd'] at hfwd
    exact fwdCheck_mono hports htables hfwd

/-- A table stays sound when ports and tables come in. -/
theorem TableInfo.Sound.mono (h : t.Sound nPortsOut nTables) (hports : nPortsOut ≤ nPortsOut')
    (htables : nTables ≤ nTables') : t.Sound nPortsOut' nTables' := by
  refine ⟨h.distinct, ?_, ?_⟩
  · intro r hr
    obtain ⟨hmatch, haction⟩ := h.fits r hr
    exact ⟨hmatch, actionCheck_mono hports htables haction⟩
  · intro fwd d hdefault
    exact fwdCheck_mono hports htables (h.ruleDefault fwd d hdefault)

/-- A table without rules. -/
theorem TableInfo.Sound.of_empty (hrules : t.rules = []) (hdefault : t.ruleDefault = none) :
    t.Sound nPortsOut nTables := by
  refine ⟨?_, ?_, ?_⟩
  · rw [hrules]
    exact List.nodup_nil
  · intro r hr
    rw [hrules] at hr
    cases hr
  · intro fwd d hsome
    rw [hdefault] at hsome
    cases hsome

/-- Adding a rule that fits keeps the table sound. -/
theorem TableInfo.Sound.tableRuleAdd (h : t.Sound nPortsOut nTables) {r : Rule τ}
    (hr : t.Fits nPortsOut nTables r) :
    (t.setRules (tableRuleAdd t.rules r)).Sound nPortsOut nTables := by
  refine ⟨?_, ?_, h.ruleDefault⟩
  · change KeyedList.Distinct TableRule.key (Pipeline.tableRuleAdd t.rules r)
    rw [tableRuleAdd_eq_put]
    exact h.distinct.put r
  · intro r' hr'
    rcases mem_tableRuleAdd hr' with rfl | hold
    · exact hr
    · exact h.fits r' hold

/-- Adding rules that fit keeps the table sound. -/
theorem TableInfo.Sound.foldl_tableRuleAdd (h : t.Sound nPortsOut nTables) {list : List (Rule τ)}
    (hlist : ∀ r ∈ list, t.Fits nPortsOut nTables r) :
    (t.setRules (list.foldl Pipeline.tableRuleAdd t.rules)).Sound nPortsOut nTables := by
  induction list generalizing t with
  | nil => exact h
  | cons r list ih =>
    obtain ⟨hr, hlist⟩ := List.forall_mem_cons.mp hlist
    exact ih (h.tableRuleAdd hr) hlist

/-- Deleting a rule keeps the table sound. -/
theorem TableInfo.Sound.tableRuleDelete (h : t.Sound nPortsOut nTables) (m : TableRuleMatch) :
    (t.setRules (tableRuleDelete t.rules m)).Sound nPortsOut nTables := by
  have hsub : (Pipeline.tableRuleDelete t.rules m).Sublist t.rules := by
    rw [tableRuleDelete_eq_erase]
    exact List.eraseP_sublist
  refine ⟨?_, ?_, h.ruleDefault⟩
  · exact (hsub.map TableRule.key).nodup h.distinct
  · intro r hr
    exact h.fits r (hsub.subset hr)

/-- A table that is written is sound afterwards. -/
theorem RulesSound.writeTable (h : RulesSound p) {write : Option (ℕ × TableInfo τ)}
    (hwrite : ∀ id rest, write = some (id, rest) → rest.Sound p.nPortsOut p.table.length) :
    RulesSound (p.writeTable write) := by
  cases write with
  | none => exact h
  | some w =>
    obtain ⟨id, rest⟩ := w
    intro t ht
    have hlen : (p.writeTable (some (id, rest))).table.length = p.table.length := by
      simp [Pipeline.writeTable]
    rw [hlen]
    obtain ⟨i, hi, rfl⟩ := List.mem_iff_getElem.mp ht
    simp only [Pipeline.writeTable, List.getElem_modify]
    split_ifs with hid
    · exact hwrite id rest rfl
    · exact h _ (List.getElem_mem _)

/-! ### What a call stores -/

/-- The rules of a response are those of the request, with the places of their entries. -/
def PipelineMsgRsp.BulkOf (q : PipelineMsgReq τ) (r : PipelineMsgRsp τ) : Prop :=
  ∀ n list', r.body = .bulk n list' → ∃ id list bulk, q = .tableRuleAddBulk id list bulk ∧
    ∀ x ∈ list', ∃ y ∈ list, x.ruleMatch = y.ruleMatch ∧ x.action = y.action

/-- Writing entries back changes neither match nor action. -/
theorem mem_writeBack {list : List (Rule τ)} {entries : List τ.D} {x : Rule τ}
    (hx : x ∈ writeBack list entries) :
    ∃ y ∈ list, x.ruleMatch = y.ruleMatch ∧ x.action = y.action := by
  induction list generalizing entries with
  | nil => cases entries <;> cases hx
  | cons rule list ih =>
    cases entries with
    | nil => exact ⟨x, hx, rfl, rfl⟩
    | cons data entries =>
      rcases List.mem_cons.mp hx with rfl | hx
      · exact ⟨rule, List.mem_cons_self, rfl, rfl⟩
      · obtain ⟨y, hy, hsame⟩ := ih hx
        exact ⟨y, List.mem_cons_of_mem rule hy, hsame⟩

/-- The bulk of the library hands the same rules back. -/
theorem eq_writeBack_of_bulkAddLl {id : ℕ} {pid : ℕ} {a : Option ℕ} {list list' : List (Rule τ)}
    {bulk : Bool} {l l' : τ.L} {n : ℕ}
    (h : bulkAddLl lib pid id a list bulk l = .ok (n, list', l')) :
    ∃ entries, list' = writeBack list entries := by
  unfold bulkAddLl tableRuleAddBulkLl at h
  obtain ⟨xs, -, h⟩ := bind_eq_ok.mp h
  cases bulk with
  | true =>
    obtain ⟨⟨t', entries⟩, -, ⟨⟩⟩ := bind_eq_ok.mp h
    exact ⟨entries, rfl⟩
  | false =>
    simp only [Bool.false_eq_true, if_false] at h
    split at h
    · cases h
      exact ⟨_, rfl⟩
    · cases h
    · cases h
      exact ⟨_, rfl⟩

/-- Only the bulk has to answer for its rules. -/
theorem bulkOf_of_ne {q : PipelineMsgReq τ} {r : PipelineMsgRsp τ}
    (h : ∀ n list, r.body ≠ .bulk n list) : r.BulkOf q := by
  intro n list hbody
  exact absurd hbody (h n list)

/-- Adding an entry is no bulk. -/
theorem entryAdd_body_ne (pid id : ℕ) (a : Option ℕ) (m : TableRuleMatch)
    (action : TableRuleAction τ.S) (l : τ.L) (n : ℕ) (list : List (Rule τ)) :
    (entryAdd lib pid id a m action l).2.body ≠ .bulk n list := by
  unfold entryAdd fails
  intro h
  split at h
  · cases h
  · split at h
    · cases h
    · split at h <;> cases h

/-- Adding the default entry is no bulk. -/
theorem defaultEntryAdd_body_ne (pid id : ℕ) (fwd : FwdAction) (l : τ.L) (n : ℕ)
    (list : List (Rule τ)) : (defaultEntryAdd lib pid id fwd l).2.body ≠ .bulk n list := by
  unfold defaultEntryAdd fails
  intro h
  split at h <;> cases h

/-- Deleting an entry is no bulk. -/
theorem entryDelete_body_ne (pid id : ℕ) (m : TableRuleMatch) (l : τ.L) (n : ℕ)
    (list : List (Rule τ)) : (entryDelete lib pid id m l).2.body ≠ .bulk n list := by
  unfold entryDelete fails
  intro h
  split at h <;> cases h

/-- The direct way answers a bulk with the rules it was given. -/
theorem bulkOf_direct (q : PipelineMsgReq τ) (l : τ.L) : (direct lib p q l).2.BulkOf q := by
  cases q with
  | tableRuleAddBulk id list bulk =>
    intro n list' hbody
    refine ⟨id, list, bulk, rfl, ?_⟩
    unfold direct at hbody
    dsimp only at hbody
    split at hbody
    · cases hbody
    · rename_i n' list'' l' hok
      cases hbody
      obtain ⟨entries, rfl⟩ := eq_writeBack_of_bulkAddLl hok
      intro x hx
      exact mem_writeBack hx
  | tableRuleAdd id m action => exact bulkOf_of_ne (entryAdd_body_ne _ _ _ _ _ _)
  | tableRuleAddDefault id fwd => exact bulkOf_of_ne (defaultEntryAdd_body_ne _ _ _ _)
  | tableRuleDelete id m => exact bulkOf_of_ne (entryDelete_body_ne _ _ _ _)
  | _ => exact bulkOf_of_ne nofun

/-- The way through the thread answers a bulk with the rules it was given. -/
theorem bulkOf_handle (conf : PipelineConf) (q : PipelineMsgReq τ) (l : τ.L) :
    (pipelineMsgHandle lib conf q l).2.BulkOf q := by
  cases q with
  | tableRuleAddBulk id list bulk =>
    intro n list' hbody
    refine ⟨id, list, bulk, rfl, ?_⟩
    unfold pipelineMsgHandle at hbody
    dsimp only at hbody
    split at hbody
    · cases hbody
      intro x hx
      exact ⟨x, hx, rfl, rfl⟩
    · rename_i n' list'' l' hok
      cases hbody
      obtain ⟨entries, rfl⟩ := eq_writeBack_of_bulkAddLl hok
      intro x hx
      exact mem_writeBack hx
  | tableRuleAdd id m action => exact bulkOf_of_ne (entryAdd_body_ne _ _ _ _ _ _)
  | tableRuleAddDefault id fwd => exact bulkOf_of_ne (defaultEntryAdd_body_ne _ _ _ _)
  | tableRuleDelete id m => exact bulkOf_of_ne (entryDelete_body_ne _ _ _ _)
  | _ => exact bulkOf_of_ne nofun

/-- What a call writes to a table comes from the function that it writes with. -/
theorem writeTable_eq_some {tableId id : ℕ} {r : PipelineMsgRsp τ} {rest : TableInfo τ}
    {write : TableInfo τ → RspBody τ → Option (TableInfo τ)}
    (h : writeTable p tableId r write = some (id, rest)) :
    ∃ t ∈ p.table, p.table[tableId]? = some t ∧ write t.rest r.body = some rest := by
  unfold writeTable at h
  split_ifs at h with hstatus
  cases hget : p.table[tableId]? with
  | none =>
    rw [hget] at h
    cases h
  | some t =>
    simp only [hget, Option.map_eq_some_iff, Prod.mk.injEq] at h
    obtain ⟨rest', hwrite, -, rfl⟩ := h
    exact ⟨t, List.mem_of_getElem? hget, rfl, hwrite⟩

/-- Behind a check its condition holds. -/
theorem check_bind_eq_ok {α : Type} {ok : Bool} {status : Int}
    {f : Unit → Except (Result τ.N) α} {b : α} (h : check ok status >>= f = .ok b) :
    ok = true ∧ f () = .ok b := by
  obtain ⟨u, hcheck, hf⟩ := bind_eq_ok.mp h
  exact ⟨check_eq_ok.mp hcheck, hf⟩

/-- Behind the search the table is there. -/
theorem tableOf_bind_eq_ok {α : Type} {tableId : ℕ} {f : TableInfo τ → Except (Result τ.N) α}
    {b : α} (h : tableOf p tableId >>= f = .ok b) :
    ∃ t, p.table[tableId]? = some t ∧ f t.rest = .ok b := by
  obtain ⟨t, htable, hf⟩ := bind_eq_ok.mp h
  unfold tableOf at htable
  cases hget : p.table[tableId]? with
  | none => simp [hget] at htable
  | some t' =>
    simp only [hget, Except.ok.injEq] at htable
    subst htable
    exact ⟨t', rfl, hf⟩

/-- **A call.** Whoever has given the response, the rules are sound afterwards. -/
theorem RulesSound.complete (h : RulesSound p) {c : Request τ} {q : PipelineMsgReq τ}
    (hprepare : prepare p c = .ok q) {r : PipelineMsgRsp τ} (hbulk : r.BulkOf q) :
    RulesSound (p.writeTable (complete p c r).1) := by
  apply h.writeTable
  intro id rest hwrite
  cases c with
  | ruleAdd tableId m action =>
    obtain ⟨t, htable, hprepare⟩ := tableOf_bind_eq_ok hprepare
    obtain ⟨hmatch, hprepare⟩ := check_bind_eq_ok hprepare
    obtain ⟨haction, -⟩ := check_bind_eq_ok hprepare
    dsimp only [Threads.complete, completeWith] at hwrite
    obtain ⟨t', hmem, hget, hrest⟩ := writeTable_eq_some hwrite
    obtain rfl : t = t' := Option.some.inj (htable.symm.trans hget)
    split at hrest
    · cases hrest
      exact (h t hmem).tableRuleAdd ⟨hmatch, haction⟩
    · cases hrest
  | ruleAddDefault tableId action =>
    dsimp only [Threads.complete, completeWith] at hwrite
    obtain ⟨t', hmem, hget, hrest⟩ := writeTable_eq_some hwrite
    split at hrest
    · rename_i d fwd hbody hfwd
      cases hrest
      refine ⟨(h t' hmem).distinct, (h t' hmem).fits, ?_⟩
      rintro fwd' d' ⟨⟩
      obtain ⟨t, -, hprepare⟩ := tableOf_bind_eq_ok hprepare
      unfold actionDefaultCheck at hprepare
      simp only [hfwd] at hprepare
      split_ifs at hprepare with hcheck
      exact hcheck.2
    · cases hrest
  | ruleAddBulk tableId list =>
    obtain ⟨-, hprepare⟩ := check_bind_eq_ok hprepare
    cases hget : p.table[tableId]? with
    | none =>
      simp only [hget] at hprepare
      cases hprepare
    | some t =>
      simp only [hget] at hprepare
      obtain ⟨hall, hq⟩ := check_bind_eq_ok hprepare
      cases hq
      unfold Threads.complete completeWith at hwrite
      simp only [hget] at hwrite
      split at hwrite
      · rename_i n list' t' hbody htable
        cases htable
        split_ifs at hwrite with hstatus
        · simp only [Pipeline.RuleList.tableRuleAddBulk_eq, Option.some.injEq,
            Prod.mk.injEq] at hwrite
          obtain ⟨-, rfl⟩ := hwrite
          obtain ⟨id', list₀, bulk, ⟨⟩, hsame⟩ := hbulk n list' hbody
          apply (h t (List.mem_of_getElem? hget)).foldl_tableRuleAdd
          intro x hx
          obtain ⟨y, hy, hmatch, haction⟩ := hsame x (List.mem_of_mem_take hx)
          have hchecks := List.all_eq_true.mp hall y hy
          rw [Bool.and_eq_true, ← hmatch, ← haction] at hchecks
          exact hchecks
      · cases hwrite
  | ruleDelete tableId m =>
    dsimp only [Threads.complete, completeWith] at hwrite
    obtain ⟨t, hmem, hget, hrest⟩ := writeTable_eq_some hwrite
    cases hrest
    exact (h t hmem).tableRuleDelete m
  | ruleDeleteDefault tableId =>
    dsimp only [Threads.complete, completeWith] at hwrite
    obtain ⟨t, hmem, hget, hrest⟩ := writeTable_eq_some hwrite
    cases hrest
    refine ⟨(h t hmem).distinct, (h t hmem).fits, ?_⟩
    rintro fwd d ⟨⟩
  | _ => cases hwrite

/-- **The requests keep the rules sound**. -/
theorem keeps_rulesSound (lib : Library τ) (tscHz : ℕ) (worker : ℕ → Bool) :
    Keeps (requestApi lib tscHz worker) RulesSound := by
  refine ⟨?_, ?_, ?_, ?_⟩
  · intro p threadId h
    exact h
  · intro p h
    exact h
  · intro p c q l h hprepare
    have hsound : RulesSound (p.writeTable (Threads.complete p c (direct lib p q l).2).1) :=
      h.complete hprepare (bulkOf_direct q l)
    rwa [← completeDirect_fst] at hsound
  · intro p c q conf l h hprepare
    exact h.complete hprepare (bulkOf_handle conf q l)

/-- A creation keeps the rules sound: ports and tables come in, and a new table has no rules. -/
theorem Create.keeps_rulesSound {c : Create (TableInfo τ)}
    (hempty : ∀ name t, c = .table name t → t.rest.rules = [] ∧ t.rest.ruleDefault = none) :
    c.Keeps RulesSound := by
  intro ps h
  cases c with
  | pipeline name timerPeriodMs =>
    simp only [Create.apply]
    split_ifs
    · exact h
    · intro p hp
      rcases List.mem_append.mp hp with hold | hnew
      · exact h p hold
      · rw [List.mem_singleton.mp hnew]
        intro t ht
        cases ht
  | portIn name =>
    simp only [Create.apply]
    cases hfind : pipelineFind ps name with
    | none => exact h
    | some p => exact forall_put h (h p (KeyedList.mem_of_find hfind))
  | portOut name =>
    simp only [Create.apply]
    cases hfind : pipelineFind ps name with
    | none => exact h
    | some p =>
      apply forall_put h
      intro t ht
      exact (h p (KeyedList.mem_of_find hfind) t ht).mono (Nat.le_succ _) (Nat.le_refl _)
  | table name t =>
    simp only [Create.apply]
    cases hfind : pipelineFind ps name with
    | none => exact h
    | some p =>
      dsimp only
      split_ifs
      · exact h
      · apply forall_put h
        intro t' ht'
        have hmore : p.table.length ≤ (p.table ++ [t]).length := by simp
        rcases List.mem_append.mp ht' with hold | hnew
        · exact (h p (KeyedList.mem_of_find hfind) t' hold).mono (Nat.le_refl _) hmore
        · obtain ⟨hrules, hdefault⟩ := hempty name t rfl
          rw [List.mem_singleton.mp hnew]
          exact .of_empty hrules hdefault

/-- The stored rules of all pipelines are sound. -/
def System.Sound (s : System τ.L (TableInfo τ) (PipelineMsgReq τ) (PipelineMsgRsp τ) (Request τ)) :
    Prop :=
  ∀ p ∈ s.pipelines, RulesSound p

/-- **The stored rules.** After any interleaving of calls, creations and steps of the threads, in
which tables are created without rules, every stored rule passes the checks of its table with the
ports and tables that the pipeline has by then, so its destination is there, and no two rules of a
table have one match. -/
theorem storedRules_run (lib : Library τ) (tscHz : ℕ) (worker : ℕ → Bool) (now : ℕ → ℕ) (l : τ.L)
    (xs : List (Event τ.L (TableInfo τ) (Request τ)))
    (hempty : ∀ name t f, Event.create (.table name t) f ∈ xs →
      t.rest.rules = [] ∧ t.rest.ruleDefault = none) :
    ((system (requestApi lib tscHz worker)).run
      (System.init (requestApi lib tscHz worker) now l) xs).Sound := by
  apply forall_pipelines_run (keeps_rulesSound lib tscHz worker)
  intro c hplaced
  apply Create.keeps_rulesSound
  rintro name t rfl
  obtain ⟨f, hcreate⟩ := exists_create_of_placed hplaced
  exact hempty name t f hcreate

/-- A run with a library that never fails. -/
theorem storedRules_run_unitRun :
    ((system (requestApi unitLibrary 1000 fun _ => true)).run
      (System.init (requestApi unitLibrary 1000 fun _ => true) (fun _ => 0) ()) unitRun).Sound := by
  apply storedRules_run unitLibrary 1000 (fun _ => true) (fun _ => 0) () unitRun
  intro name t f hcreate
  simp only [unitRun, List.mem_cons, reduceCtorEq, Event.create.injEq, Create.table.injEq,
    List.not_mem_nil, or_false, false_or, false_and] at hcreate
  obtain ⟨⟨-, rfl⟩, -⟩ := hcreate
  exact ⟨rfl, rfl⟩

end Rules

end Rids.Threads
