import Rids.Threads.TableView

/-!
# The rules of the main thread and the tables that packets are matched in

A rule call changes the rules of the main thread and the entries of the library at different times,
the entries through another thread when the pipeline is running.

* `Registered.atomicStep` — a step without messages leaves the tables where they are.
* `Mirrors.step` — what such a step does to the stores of all tables.
* `mirroredTables_run` — after any interleaving, between two calls every table of the library has
  exactly the rules that the main thread believes it has, each at the place that the main thread has
  noted, as long as no two matches that the calls name for a table have one key.
-/

namespace Rids.Threads

open Rids.Lib Rids.Lib.SlotMachine Rids.Lib.ListedMap Rids.Lib.Runs
open Rids.Lib.ByteMem (Mem)
open Rids.Pipeline (TableRuleMatch matchConvert)

variable {τ : LibraryTypes} {κ : Type}

section Tables

variable {v : TableView τ κ} {cs : List (Call (Request τ))} {lib : Library τ}
  {p : Pipeline (TableInfo τ)} {l : τ.L} {tableId : ℕ}

/-! ### All pipelines -/

variable {ps ps' : List (Pipeline (TableInfo τ))}

/-- The stores of all pipelines hold the same, and there are no entries for pipelines that are not
there. -/
structure TableView.Mirrors (v : TableView τ κ) (cs : List (Call (Request τ)))
    (ps : List (Pipeline (TableInfo τ))) (l : τ.L) : Prop where
  registered : Registered ps
  holds : ∀ p ∈ ps, v.Holds cs p (v.entries l p.p)
  rest : ∀ n, ps.length ≤ n → ∀ id, v.entries l n id = fun _ => none

/-- One pipeline is written, and the stores of the others stay. -/
theorem TableView.Mirrors.put (h : v.Mirrors cs ps l) {p p' : Pipeline (TableInfo τ)}
    (hfind : pipelineFind ps p'.name = some p) (hp : p'.p = p.p) (hmsgq : p'.msgq = p.msgq)
    {l' : τ.L} (hholds : v.Holds cs p' (v.entries l' p.p))
    (hothers : ∀ n, n ≠ p.p → v.entries l' n = v.entries l n) :
    v.Mirrors cs (KeyedList.put Pipeline.name p' ps) l' := by
  have hmem := KeyedList.mem_of_find hfind
  have hlt : p.p < ps.length := h.registered.p_lt hmem
  have hlength : (KeyedList.put Pipeline.name p' ps).length = ps.length := by
    have hmap := congrArg List.length (KeyedList.map_put hfind (f := Pipeline.p) hp)
    simpa using hmap
  refine ⟨h.registered.put hfind hp hmsgq, ?_, ?_⟩
  · intro p'' hp''
    rcases (KeyedList.mem_put_iff h.registered.names).mp hp'' with rfl | ⟨hold, hne⟩
    · rw [hp]
      exact hholds
    · have hpne : p''.p ≠ p.p := by
        intro heq
        rw [h.registered.p_inj hold hmem heq] at hne
        exact hne (KeyedList.key_of_find hfind)
      rw [hothers p''.p hpne]
      exact h.holds p'' hold
  · intro n hn id
    rw [hlength] at hn
    rw [hothers n (Nat.ne_of_gt (Nat.lt_of_lt_of_le hlt hn))]
    exact h.rest n hn id

/-- A pipeline is written that has the same tables. -/
theorem TableView.Mirrors.put_same (h : v.Mirrors cs ps l) {p p' : Pipeline (TableInfo τ)}
    (hfind : pipelineFind ps p'.name = some p) (hp : p'.p = p.p) (hmsgq : p'.msgq = p.msgq)
    (htable : p'.table = p.table) {l' : τ.L} (hquiet : v.entries l' = v.entries l) :
    v.Mirrors cs (KeyedList.put Pipeline.name p' ps) l' := by
  have hname : p'.name = p.name := (KeyedList.key_of_find hfind).symm
  have hold := h.holds p (KeyedList.mem_of_find hfind)
  apply h.put hfind hp hmsgq
  · rw [hquiet]
    refine ⟨?_, ?_⟩
    · intro id t ht
      rw [hname, hp]
      rw [htable] at ht
      exact hold.tables id t ht
    · rw [htable]
      exact hold.beyond
  · intro n _
    rw [hquiet]

/-- A change of the library that leaves the entries as they are keeps the mirror. -/
theorem TableView.Mirrors.quiet (h : v.Mirrors cs ps l) {l' : τ.L}
    (hquiet : v.entries l' = v.entries l) : v.Mirrors cs ps l' := by
  refine ⟨h.registered, ?_, ?_⟩
  · rw [hquiet]
    exact h.holds
  · rw [hquiet]
    exact h.rest

/-- A creation adds no entries, and a table is created without rules. -/
theorem TableView.Mirrors.create (h : v.Mirrors cs ps l) {c : Create (TableInfo τ)} {l' : τ.L}
    (hempty : ∀ name t, c = .table name t → t.rest.rules = [])
    (hquiet : v.entries l' = v.entries l) : v.Mirrors cs (c.apply ps) l' := by
  rcases c.apply_cases ps with hc | ⟨p, hfind, hp, hmsgq, -, htable, hc⟩ |
    ⟨p, p', hfind, hp, hmsgq, -, htable | ⟨t, rfl, htable⟩, hc⟩
  · rw [hc]
    exact h.quiet hquiet
  · rw [hc]
    have hquiet := h.quiet hquiet
    refine ⟨h.registered.append hfind hp hmsgq, ?_, ?_⟩
    · intro p' hp'
      rcases List.mem_append.mp hp' with hold | hnew
      · exact hquiet.holds p' hold
      · rw [List.mem_singleton.mp hnew, hp]
        refine ⟨?_, fun id _ => hquiet.rest _ le_rfl id⟩
        intro id t ht
        rw [htable] at ht
        cases ht
    · intro n hn id
      rw [List.length_append, List.length_singleton] at hn
      exact hquiet.rest n (by omega) id
  · rw [hc]
    exact h.put_same hfind hp hmsgq htable hquiet
  · rw [hc]
    have hname : p'.name = p.name := (KeyedList.key_of_find hfind).symm
    have hold := (h.quiet hquiet).holds p (KeyedList.mem_of_find hfind)
    apply h.put hfind hp hmsgq
    · refine ⟨?_, ?_⟩
      · intro id t' ht'
        rw [hname, hp]
        rw [htable] at ht'
        by_cases hid : id < p.table.length
        · rw [List.getElem?_append_left hid] at ht'
          exact hold.tables id t' ht'
        · -- the table that is created
          obtain rfl : id = p.table.length := by
            obtain ⟨hlt, -⟩ := List.getElem?_eq_some_iff.mp ht'
            rw [List.length_append, List.length_singleton] at hlt
            omega
          rw [List.getElem?_concat_length] at ht'
          cases ht'
          exact .empty (hempty _ _ rfl) (hold.beyond _ le_rfl)
      · intro id hid
        rw [htable, List.length_append, List.length_singleton] at hid
        exact hold.beyond id (by omega)
    · intro n _
      rw [hquiet]

/-! ### A step without messages -/

/-- Every pipeline is still there, with its tables. -/
def Grows (ps ps' : List (Pipeline (TableInfo τ))) : Prop :=
  ∀ p ∈ ps, ∃ p' ∈ ps', p'.name = p.name ∧ p'.p = p.p ∧
    ∀ (id : ℕ) (t : Table (TableInfo τ)), p.table[id]? = some t →
      ∃ t', p'.table[id]? = some t' ∧ t'.rest.params = t.rest.params

/-- A registry grows from itself. -/
theorem Grows.refl (ps : List (Pipeline (TableInfo τ))) : Grows ps ps :=
  fun p hp => ⟨p, hp, rfl, rfl, fun _ t ht => ⟨t, ht, rfl⟩⟩

/-- Growth composes. -/
theorem Grows.trans {ps'' : List (Pipeline (TableInfo τ))} (h : Grows ps ps')
    (h' : Grows ps' ps'') : Grows ps ps'' := by
  intro p hp
  obtain ⟨p', hp', hname, hpp, htables⟩ := h p hp
  obtain ⟨p'', hp'', hname', hpp', htables'⟩ := h' p' hp'
  refine ⟨p'', hp'', hname'.trans hname, hpp'.trans hpp, ?_⟩
  intro id t ht
  obtain ⟨t', ht', hparams⟩ := htables id t ht
  obtain ⟨t'', ht'', hparams'⟩ := htables' id t' ht'
  exact ⟨t'', ht'', hparams'.trans hparams⟩

/-- One pipeline is written. -/
theorem Registered.grows_put (h : Registered ps) {p p' : Pipeline (TableInfo τ)}
    (hfind : pipelineFind ps p'.name = some p) (hp : p'.p = p.p)
    (htables : ∀ (id : ℕ) (t : Table (TableInfo τ)), p.table[id]? = some t →
      ∃ t', p'.table[id]? = some t' ∧ t'.rest.params = t.rest.params) :
    Grows ps (KeyedList.put Pipeline.name p' ps) := by
  have hname : p.name = p'.name := KeyedList.key_of_find hfind
  intro q hq
  by_cases hqname : q.name = p'.name
  · have hqp : q = p :=
      List.inj_on_of_nodup_map h.names hq (KeyedList.mem_of_find hfind) (hqname.trans hname.symm)
    subst hqp
    exact ⟨p', (KeyedList.mem_put_iff h.names).mpr (.inl rfl), hname.symm, hp, htables⟩
  · refine ⟨q, (KeyedList.mem_put_iff h.names).mpr (.inr ⟨hq, hqname⟩), rfl, rfl, ?_⟩
    intro id t ht
    exact ⟨t, ht, rfl⟩

/-- A table without its rules. -/
def TableInfo.bare (t : TableInfo τ) : TableInfo τ := { t with rules := [], ruleDefault := none }

/-- A call writes the rules of a table and nothing else of it. -/
theorem writeTable_bare {id : ℕ} {r : PipelineMsgRsp τ} {rest : TableInfo τ}
    {write : TableInfo τ → RspBody τ → Option (TableInfo τ)}
    (hwrite : ∀ t body t', write t body = some t' → t'.bare = t.bare)
    (h : writeTable p tableId r write = some (id, rest)) :
    ∃ t, p.table[id]? = some t ∧ rest.bare = t.rest.bare := by
  obtain rfl := writeTable_fst h
  obtain ⟨t, -, htable, hrest⟩ := writeTable_eq_some h
  exact ⟨t, htable, hwrite _ _ _ hrest⟩

/-- Whichever way a call has gone, it keeps what is not a rule. -/
theorem completeWith_bare {counters : PipelineMsgRsp τ → Written τ.N} {c : Request τ}
    {r : PipelineMsgRsp τ} {id : ℕ} {rest : TableInfo τ}
    (h : (completeWith counters p c r).1 = some (id, rest)) :
    ∃ t, p.table[id]? = some t ∧ rest.bare = t.rest.bare := by
  cases c with
  | ruleAdd tableId m action =>
    dsimp only [completeWith] at h
    apply writeTable_bare _ h
    intro t body t' hwrite
    split at hwrite <;> cases hwrite
    rfl
  | ruleAddDefault tableId action =>
    dsimp only [completeWith] at h
    apply writeTable_bare _ h
    intro t body t' hwrite
    split at hwrite <;> cases hwrite
    rfl
  | ruleAddBulk tableId list =>
    unfold completeWith at h
    dsimp only at h
    split at h
    · rename_i n list' t hbody htable
      split_ifs at h
      cases h
      exact ⟨t, htable, rfl⟩
    · cases h
  | ruleDelete tableId m =>
    dsimp only [completeWith] at h
    apply writeTable_bare _ h
    rintro t body t' ⟨⟩
    rfl
  | ruleDeleteDefault tableId =>
    dsimp only [completeWith] at h
    apply writeTable_bare _ h
    rintro t body t' ⟨⟩
    rfl
  | _ => cases h

section Run

variable {tscHz : ℕ} {worker : ℕ → Bool} {a : Atomic τ.L (TableInfo τ)}

/-- A pipeline that is written by a call keeps its tables. -/
theorem extends_writeTable {counters : PipelineMsgRsp τ → Written τ.N} {c : Request τ}
    {r : PipelineMsgRsp τ} (id : ℕ) (t : Table (TableInfo τ)) (ht : p.table[id]? = some t) :
    ∃ t', (p.writeTable (completeWith counters p c r).1).table[id]? = some t' ∧
      t'.rest.params = t.rest.params := by
  cases hwrite : (completeWith counters p c r).1 with
  | none => exact ⟨t, ht, rfl⟩
  | some w =>
    obtain ⟨id', rest⟩ := w
    obtain ⟨t', ht', hbare⟩ := completeWith_bare hwrite
    simp only [Pipeline.writeTable, List.getElem?_modify, ht]
    by_cases hid : id' = id
    · subst hid
      rw [ht] at ht'
      cases ht'
      have hparams : rest.bare.params = t.rest.bare.params := congrArg TableInfo.params hbare
      exact ⟨{ t with rest := rest }, by simp, hparams⟩
    · exact ⟨t, by simp [hid], rfl⟩

/-- A creation lets the registry grow. -/
theorem Registered.grows_create (h : Registered ps) (c : Create (TableInfo τ)) :
    Grows ps (c.apply ps) := by
  rcases c.apply_cases ps with hc | ⟨p, -, -, -, -, -, hc⟩ |
    ⟨p, p', hfind, hp, -, -, htable, hc⟩
  · rw [hc]
    exact .refl ps
  · rw [hc]
    intro q hq
    exact ⟨q, List.mem_append_left _ hq, rfl, rfl, fun _ t ht => ⟨t, ht, rfl⟩⟩
  · rw [hc]
    apply h.grows_put hfind hp
    intro id t ht
    rcases htable with htable | ⟨t', -, htable⟩
    · rw [htable]
      exact ⟨t, ht, rfl⟩
    · rw [htable, List.getElem?_append_left (List.getElem?_eq_some_iff.mp ht).1]
      exact ⟨t, ht, rfl⟩

/-- **Growth.** A step without messages leaves every pipeline in its place and every table with its
parameters. -/
theorem Registered.atomicStep (h : Registered a.pipelines)
    (e : AtomicEvent τ.L (TableInfo τ) (Request τ)) :
    Registered (atomicStep (requestApi lib tscHz worker) a e).1.pipelines ∧
      Grows a.pipelines (atomicStep (requestApi lib tscHz worker) a e).1.pipelines := by
  rcases atomicStep_cases (requestApi lib tscHz worker) a e with
    ⟨hps, -⟩ | ⟨p, p', hfind, hp, hmsgq, htable, ha⟩ | ⟨name, c, p, q, -, hfind, -, ha⟩ |
    ⟨c, f, -, ha⟩
  · rw [hps]
    exact ⟨h, .refl _⟩
  · rw [ha]
    refine ⟨h.put hfind hp hmsgq, h.grows_put hfind hp ?_⟩
    intro id t ht
    rw [htable]
    exact ⟨t, ht, rfl⟩
  · rw [ha]
    refine ⟨h.put_writeTable hfind _, h.grows_put ?_ (p.writeTable_p _) extends_writeTable⟩
    rw [p.writeTable_name, show p.name = name from KeyedList.key_of_find hfind]
    exact hfind
  · rw [ha]
    exact ⟨h.create c, h.grows_create c⟩

/-- An atomic run lets the registry grow. -/
theorem grows_run (h : Registered a.pipelines)
    (es : List (AtomicEvent τ.L (TableInfo τ) (Request τ))) :
    Grows a.pipelines ((atomic (requestApi lib tscHz worker)).run a es).pipelines := by
  induction es generalizing a with
  | nil => exact .refl _
  | cons e es ih =>
    obtain ⟨hstep, hgrows⟩ :
        Registered ((atomic (requestApi lib tscHz worker)).step a e).pipelines ∧
          Grows a.pipelines ((atomic (requestApi lib tscHz worker)).step a e).pipelines :=
      h.atomicStep e
    exact hgrows.trans (ih hstep)

/-- What is known of the keys of the tables in the end was true all along. -/
theorem AgreesOn.of_grows (h : Grows ps ps') (hagrees : ∀ p ∈ ps', v.AgreesOn cs p) :
    ∀ p ∈ ps, v.AgreesOn cs p := by
  intro p hp id t ht
  obtain ⟨p', hp', hname, hpp, htables⟩ := h p hp
  obtain ⟨t', ht', hparams⟩ := htables id t ht
  have hthen := hagrees p' hp' id t' ht'
  unfold Named at hthen
  rwa [hname, hpp, hparams] at hthen

/-- **A step.** -/
theorem TableView.Mirrors.step [DecidableEq κ] (h : v.Mirrors cs a.pipelines a.lib)
    (hv : v.Lawful lib)
    (hagrees : ∀ p ∈ a.pipelines, v.AgreesOn cs p)
    {e : AtomicEvent τ.L (TableInfo τ) (Request τ)} (hcall : ∀ c, e = .call c → c ∈ cs)
    (hcreate : ∀ c f, e = .create c f → (∀ l, v.entries (f l) = v.entries l) ∧
      ∀ name t, c = .table name t → t.rest.rules = []) :
    v.Mirrors cs (atomicStep (requestApi lib tscHz worker) a e).1.pipelines
      (atomicStep (requestApi lib tscHz worker) a e).1.lib := by
  rcases atomicStep_cases (requestApi lib tscHz worker) a e with
    ⟨hps, hlib⟩ | ⟨p, p', hfind, hp, hmsgq, htable, ha⟩ |
    ⟨name, c, p, q, rfl, hfind, hprepare, ha⟩ | ⟨c, f, rfl, ha⟩
  · rw [hps]
    apply h.quiet
    rcases hlib with hlib | ⟨p, hlib | hlib⟩
    · rw [hlib]
    · rw [hlib]
      exact hv.run p a.lib
    · rw [hlib]
      exact hv.flush p a.lib
  · rw [ha]
    exact h.put_same hfind hp hmsgq htable rfl
  · rw [ha]
    have hmem := KeyedList.mem_of_find hfind
    obtain rfl : p.name = name := KeyedList.key_of_find hfind
    have hafter := (h.holds p hmem).call hv (hagrees p hmem) (hcall _ rfl) hprepare
    apply h.put _ (p.writeTable_p _) (p.writeTable_msgq _) hafter.holds hafter.others
    rwa [p.writeTable_name]
  · rw [ha]
    obtain ⟨hquiet, hempty⟩ := hcreate c f rfl
    exact h.create hempty (hquiet a.lib)

/-- **A run without messages.** -/
theorem TableView.Mirrors.run [DecidableEq κ] (h : v.Mirrors cs a.pipelines a.lib)
    (hv : v.Lawful lib)
    (es : List (AtomicEvent τ.L (TableInfo τ) (Request τ)))
    (hagrees : ∀ p ∈ ((atomic (requestApi lib tscHz worker)).run a es).pipelines, v.AgreesOn cs p)
    (hcall : ∀ c, .call c ∈ es → c ∈ cs)
    (hcreate : ∀ c f, .create c f ∈ es → (∀ l, v.entries (f l) = v.entries l) ∧
      ∀ name t, c = .table name t → t.rest.rules = []) :
    v.Mirrors cs ((atomic (requestApi lib tscHz worker)).run a es).pipelines
      ((atomic (requestApi lib tscHz worker)).run a es).lib := by
  induction es generalizing a with
  | nil => exact h
  | cons e es ih =>
    have hnow := AgreesOn.of_grows (grows_run h.registered (e :: es)) hagrees
    have hstep : v.Mirrors cs ((atomic (requestApi lib tscHz worker)).step a e).pipelines
        ((atomic (requestApi lib tscHz worker)).step a e).lib := by
      apply h.step hv hnow
      · rintro c rfl
        exact hcall c List.mem_cons_self
      · rintro c f rfl
        exact hcreate c f List.mem_cons_self
    apply ih hstep hagrees
    · intro c hc
      exact hcall c (List.mem_cons_of_mem e hc)
    · intro c f hc
      exact hcreate c f (List.mem_cons_of_mem e hc)

end Run

/-! ### Runs of the system -/

/-- A call of an atomic run ends in it. -/
theorem mem_map_ended {L T Q R C V : Type} {api : Api L T Q R C V} {a : Atomic L T} {call : Call C}
    {es : List (AtomicEvent L T C)} (h : .call call ∈ es) :
    call ∈ (ended ((atomic api).hist a es)).map Prod.fst := by
  induction es generalizing a with
  | nil => cases h
  | cons e es ih =>
    rw [ended_hist_cons, List.map_append]
    rcases List.mem_cons.mp h with rfl | h
    · exact List.mem_append_left _ List.mem_cons_self
    · exact List.mem_append_right _ (ih h)

/-- A view of the outcomes keeps the calls. -/
theorem map_seen {C V W : Type} (view : V → W) (os : List (Call C × Outcome V)) :
    (seen view os).map Prod.fst = os.map Prod.fst := by
  rw [seen, List.map_map]
  rfl

/-- A creation of the atomic run is one of the concurrent run. -/
theorem create_mem {L T C : Type} {es : List (AtomicEvent L T C)} {xs : List (Event L T C)}
    (hsub : (es.filterMap AtomicEvent.setup).Sublist (xs.filterMap Event.setup)) {c : Create T}
    {f : L → L} (h : .create c f ∈ es) : Event.create c f ∈ xs := by
  have hsetup : Event.create c f ∈ es.filterMap AtomicEvent.setup :=
    List.mem_filterMap.mpr ⟨_, h, rfl⟩
  obtain ⟨x, hx, hxsetup⟩ := List.mem_filterMap.mp (hsub.subset hsetup)
  cases x <;> cases hxsetup
  exact hx

/-- The tables of the library are those of the main thread: every rule is under its key, with the
place that the main thread has noted, every entry is that of one rule, and tables that are not there
have no entries. -/
structure TableView.Mirrored (v : TableView τ κ)
    (s : System τ.L (TableInfo τ) (PipelineMsgReq τ) (PipelineMsgRsp τ) (Request τ)) : Prop where
  stored : ∀ p ∈ s.pipelines, ∀ id t, p.table[id]? = some t → ∀ r ∈ t.rest.rules,
    ∃ k, v.key p.p id r.ruleMatch = some k ∧ v.entries s.lib p.p id k = some r.data
  listed : ∀ p ∈ s.pipelines, ∀ id t, p.table[id]? = some t → ∀ k d,
    v.entries s.lib p.p id k = some d → ∃! r, r ∈ t.rest.rules ∧ v.key p.p id r.ruleMatch = some k
  rest : ∀ n id, (∀ p ∈ s.pipelines, p.p = n → p.table.length ≤ id) →
    v.entries s.lib n id = fun _ => none

/-- The mirror with its calls gives the mirror of the system. -/
theorem TableView.Mirrors.mirrored
    {s : System τ.L (TableInfo τ) (PipelineMsgReq τ) (PipelineMsgRsp τ) (Request τ)}
    (h : v.Mirrors cs s.pipelines s.lib) (hagrees : ∀ p ∈ s.pipelines, v.AgreesOn cs p) :
    v.Mirrored s := by
  refine ⟨?_, ?_, ?_⟩
  · intro p hp id t ht r hr
    exact ((h.holds p hp).tables id t ht).represents.sound r hr
  · intro p hp id t ht k d hk
    have htable := (h.holds p hp).tables id t ht
    obtain ⟨r, hr, hkey⟩ := htable.represents.complete k d hk
    refine ⟨r, ⟨hr, hkey⟩, ?_⟩
    rintro r' ⟨hr', hkey'⟩
    have hsame := ((hagrees p hp id t ht).add r.ruleMatch r'.ruleMatch k (htable.named r hr)
      (htable.named r' hr') hkey).mp hkey'
    exact List.inj_on_of_nodup_map htable.distinct hr' hr (TableRuleMatch.same_iff.mp hsame)
  · intro n id hn
    by_cases hlt : n < s.pipelines.length
    · have hmem : n ∈ s.pipelines.map (·.p) := by
        rw [h.registered.ids]
        exact List.mem_range.mpr hlt
      obtain ⟨p, hp, rfl⟩ := List.mem_map.mp hmem
      exact (h.holds p hp).beyond id (hn p hp rfl)
    · exact h.rest n (Nat.le_of_not_lt hlt) id

/-- The calls of a run that have ended. -/
def calls {L T Q R C V : Type} (api : Api L T Q R C V) (s : System L T Q R C)
    (xs : List (Event L T C)) : List (Call C) :=
  (ended ((system api).hist s xs)).map Prod.fst

/-- **The tables.** After any interleaving of calls, creations and steps of the threads, between two
calls, the library has exactly the rules that the main thread lists, each under its key and at the
place that is noted for it. The run creates tables without rules, and none on an enabled pipeline;
for each table, two matches that calls name have one key only if they are the same for the main
thread, and a delete names the key that an add has used. -/
theorem mirroredTables_run [DecidableEq κ] (lib : Library τ) (tscHz : ℕ) (worker : ℕ → Bool)
    (now : ℕ → ℕ) (l : τ.L) (v : TableView τ κ) (hv : v.Lawful lib)
    (hl : ∀ n id, v.entries l n id = fun _ => none)
    (xs : List (Event τ.L (TableInfo τ) (Request τ)))
    (hspares : AllSafe (system (requestApi lib tscHz worker)).step System.Spares
      (System.init (requestApi lib tscHz worker) now l) xs)
    (hcreate : ∀ c f, Event.create c f ∈ xs → (∀ l, v.entries (f l) = v.entries l) ∧
      ∀ name t, c = .table name t → t.rest.rules = [])
    (hidle : ((system (requestApi lib tscHz worker)).run
      (System.init (requestApi lib tscHz worker) now l) xs).main = .idle)
    (hagrees : ∀ p ∈ ((system (requestApi lib tscHz worker)).run
      (System.init (requestApi lib tscHz worker) now l) xs).pipelines,
        v.AgreesOn (calls (requestApi lib tscHz worker)
          (System.init (requestApi lib tscHz worker) now l) xs) p) :
    v.Mirrored ((system (requestApi lib tscHz worker)).run
      (System.init (requestApi lib tscHz worker) now l) xs) := by
  -- what a call returns does not matter here, so that the two ways agree in any library
  have hagree : (requestApi lib tscHz worker).Agrees fun _ : Result τ.N => () :=
    requests_agree_of _ lib tscHz worker fun _ _ _ _ _ _ _ _ => rfl
  obtain ⟨ess, -, hmatches⟩ := linearizable hagree now l xs hspares
  have hall := hmatches xs.length
  rw [List.take_length] at hall
  obtain ⟨⟨rest, -, hseen, hrest⟩, hsub, hlib, -, hps⟩ := hall
  specialize hps hidle
  obtain rfl := hrest hidle
  have hcalls := congrArg (List.map Prod.fst) hseen
  rw [List.append_nil, map_seen, map_seen] at hcalls
  have hinit : v.Mirrors (calls (requestApi lib tscHz worker)
      (System.init (requestApi lib tscHz worker) now l) xs) [] l :=
    ⟨⟨List.nodup_nil, rfl, rfl⟩, nofun, fun n _ id => hl n id⟩
  apply TableView.Mirrors.mirrored _ hagrees
  rw [← hps] at hagrees ⊢
  rw [← hlib]
  apply hinit.run hv _ hagrees
  · intro c hc
    rw [calls, ← hcalls]
    exact mem_map_ended hc
  · intro c f hc
    exact hcreate c f (create_mem hsub hc)

end Tables

/-! ### A library that stores -/

/-- The entries of array tables, each with its position. -/
abbrev storeTypes : LibraryTypes := ⟨ℕ → ℕ → ℕ → Option ℕ, Unit, ℕ, Unit, Unit, Unit, Unit⟩

/-- A library that stores the entries of array tables. -/
def storeLibrary : Library storeTypes where
  run _ l := l
  flush _ l := l
  portInStatsRead _ _ _ l := (l, 0, some ())
  portInEnable _ _ l := (l, 0)
  portInDisable _ _ l := (l, 0)
  portOutStatsRead _ _ _ l := (l, 0, some ())
  tableStatsRead _ _ _ l := (l, 0, some ())
  zeroEntry := ()
  actionApply _ _ _ e := .ok e
  tableEntryAdd p id := {
    add := fun l x => .ok
      (setTable l p id (Function.update (l p id) (x.1.load 0 4) (some (x.1.load 0 4))),
        x.1.load 0 4)
    addBulk := fun l xs => .ok
      (setTable l p id
        (insertAll (l p id) (xs.map fun x => x.1.load 0 4) (xs.map fun x => x.1.load 0 4)),
        xs.map fun x => x.1.load 0 4)
    addBulk_length := by
      rintro l xs l' ds ⟨⟩
      exact List.length_map _ }
  tableEntryDelete p id ml l :=
    (setTable l p id (Function.update (l p id) (ml.load 0 4) none), 0)
  tableDefaultEntryAdd _ _ _ l := .ok (l, 0)
  tableDefaultEntryDelete _ _ l := (l, 0)
  statsRead _ _ _ l := (l, 0, some ())
  meterProfileAdd _ _ _ l := (l, 0)
  meterProfileDelete _ _ l := (l, 0)
  meterRead _ _ _ _ l := (l, 0, some ())
  dscpTableUpdate _ _ _ l := (l, 0)
  ttlRead _ _ _ l := (l, 0, some ())
  timeRead _ _ l := (l, 0, some ())

/-- An array table reads the position. -/
def storeView : TableView storeTypes ℕ := ⟨id, fun _ _ ml => ml.load 0 4, fun _ _ ml => ml.load 0 4⟩

/-- The library of the example keeps what is asked of a library. -/
theorem storeView_lawful : storeView.Lawful storeLibrary := by
  constructor
  case entryAdd =>
    rintro p id l ml e l' d ⟨⟩
    rfl
  case entryAddBulk =>
    rintro p id l xs l' ds ⟨⟩
    rfl
  case defaultEntryAdd =>
    rintro p id fwd l l' d ⟨⟩
    rfl
  all_goals
    intros
    rfl

/-- A pipeline with an array table is created and enabled, and a data plane thread adds a rule. -/
def storeRun : List (Event storeTypes.L (TableInfo storeTypes) (Request storeTypes)) :=
  [.create (.pipeline "PIPELINE0" 1) id, .create (.portIn "PIPELINE0") id,
    .create (.portOut "PIPELINE0") id,
    .create (.table "PIPELINE0"
      ⟨some 0, ⟨.array, ⟨true :: List.replicate 11 false, true, 0, 0, 0, [], true, true⟩, true, [],
        none⟩⟩) id,
    .call 0 (.thread (.enable 1 "PIPELINE0")), .launch 1,
    .call 0 (.pipeline "PIPELINE0" (.ruleAdd 0 ⟨.array, fun _ => 0⟩
      ⟨some .drop, none, none, none, none, none, none, false, false, none, none, none⟩)),
    .main, .thread 1 100, .thread 1 100, .thread 1 100, .thread 1 100, .main]

/-- The system that the run starts from. -/
abbrev storeInit : System storeTypes.L (TableInfo storeTypes) (PipelineMsgReq storeTypes)
    (PipelineMsgRsp storeTypes) (Request storeTypes) :=
  System.init (requestApi storeLibrary 1000 fun _ => true) (fun _ => 0) fun _ _ _ => none

/-- The run of the example meets all hypotheses. -/
theorem mirroredTables_run_storeRun :
    storeView.Mirrored ((system (requestApi storeLibrary 1000 fun _ => true)).run
      storeInit storeRun) := by
  have hcalls : calls (requestApi storeLibrary 1000 fun _ => true) storeInit storeRun =
      [.thread (.enable 1 "PIPELINE0"), .pipeline "PIPELINE0" (.ruleAdd 0 ⟨.array, fun _ => 0⟩
        ⟨some .drop, none, none, none, none, none, none, false, false, none, none, none⟩)] := rfl
  apply mirroredTables_run storeLibrary 1000 (fun _ => true) (fun _ => 0) (fun _ _ _ => none)
    storeView storeView_lawful (fun _ _ => rfl) storeRun
  · have htable : ∀ p, pipelineFind ((system (requestApi storeLibrary 1000 fun _ => true)).run
        storeInit (storeRun.take 3)).pipelines "PIPELINE0" = some p → p.enabled = false := by
      rintro p ⟨⟩
      rfl
    simp only [storeRun, allSafe_cons]
    refine ⟨trivial, trivial, trivial, htable, ?_⟩
    simp only [System.Spares, true_and]
    intro pre x post hsplit
    simp at hsplit
  · intro c f hcreate
    simp only [storeRun, List.mem_cons, reduceCtorEq, Event.create.injEq, List.not_mem_nil,
      or_false] at hcreate
    rcases hcreate with ⟨rfl, rfl⟩ | ⟨rfl, rfl⟩ | ⟨rfl, rfl⟩ | ⟨rfl, rfl⟩
    all_goals
      refine ⟨fun _ => rfl, ?_⟩
      rintro name t ⟨⟩
    rfl
  · rfl
  · intro p _ id t _
    rw [hcalls]
    have hnamed : ∀ m, Named [.thread (.enable 1 "PIPELINE0"), .pipeline "PIPELINE0" (.ruleAdd 0
        ⟨.array, fun _ => 0⟩ ⟨some .drop, none, none, none, none, none, none, false, false, none,
          none, none⟩)] p.name id t.rest m → m = ⟨.array, fun _ => 0⟩ := by
      rintro m ⟨⟨c, hc, hm⟩, -⟩
      simp only [List.mem_cons, reduceCtorEq, Call.pipeline.injEq, List.not_mem_nil, or_false,
        false_or] at hc
      obtain ⟨-, rfl⟩ := hc
      simp only [Request.matches] at hm
      split_ifs at hm
      · exact List.mem_singleton.mp hm
      · cases hm
    constructor
    · intro m m' k hm hm' hk
      obtain rfl := hnamed m hm
      obtain rfl := hnamed m' hm'
      exact iff_of_true hk ⟨rfl, fun _ _ => rfl⟩
    · intro m ml hm hml
      obtain rfl := hnamed m hm
      rw [TableView.key, show matchConvert ⟨.array, fun _ => 0⟩ true =
        matchConvert ⟨.array, fun _ => 0⟩ false from rfl, hml]
      rfl

end Rids.Threads
