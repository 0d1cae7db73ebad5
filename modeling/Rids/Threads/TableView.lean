import Rids.Lib.ListedMap
import Rids.Threads.StoredRules

/-!
# The rules of a table and its entries in the library

The main thread keeps the rules of every table; the library has the entries that the data plane
threads look packets up in. `TableView` is what is looked at in the library, `Lawful` what its
functions are documented to do.

* `HoldsTable.add`, `HoldsTable.addBulk`, `HoldsTable.delete` — what a rule call does to the two
  stores of one table.
* `Holds.call` — what any call does to the stores of its pipeline.
-/

namespace Rids.Threads

open Rids.Lib Rids.Lib.SlotMachine Rids.Lib.ListedMap Rids.Lib.Runs
open Rids.Lib.ByteMem (Mem)
open Rids.Pipeline (TableRule TableRuleMatch TableRuleAction matchCheck matchConvert tableRuleAdd
  tableRuleDelete tableRuleAdd_eq_put mem_tableRuleDelete_iff)
open Rids.Pipeline.BulkAdd (Adds Converts LlAdds withData writeBack_take)

variable {τ : LibraryTypes} {κ : Type}

/-! ### The tables of the library -/

/-- What is looked at in the library: where the entry with a key is in table `id` of pipeline `p`,
and the key that this table reads from the parameters of an add, or of a delete. -/
structure TableView (τ : LibraryTypes) (κ : Type) where
  entries : τ.L → (p id : ℕ) → κ → Option τ.D
  addKey : (p id : ℕ) → Mem → κ
  deleteKey : (p id : ℕ) → Mem → κ

/-- Table `id` of pipeline `p` gets the entries `g`. -/
def setTable {D : Type} (f : ℕ → ℕ → κ → Option D) (p id : ℕ) (g : κ → Option D) :
    ℕ → ℕ → κ → Option D :=
  Function.update f p (Function.update (f p) id g)

/-- A table that was set, at its pipeline. -/
theorem setTable_self {D : Type} (f : ℕ → ℕ → κ → Option D) (p id : ℕ) (g : κ → Option D) :
    setTable f p id g p = Function.update (f p) id g := Function.update_self _ _ _

/-- Setting a table leaves the other pipelines as they are. -/
theorem setTable_of_ne {D : Type} (f : ℕ → ℕ → κ → Option D) {p n : ℕ} (h : n ≠ p) (id : ℕ)
    (g : κ → Option D) : setTable f p id g n = f n := Function.update_of_ne h _ _

/-- Setting a table to what it is. -/
theorem setTable_eq_self {D : Type} (f : ℕ → ℕ → κ → Option D) (p id : ℕ) :
    setTable f p id (f p id) = f := by
  rw [setTable, Function.update_eq_self, Function.update_eq_self]

/-- The last setting counts. -/
theorem setTable_setTable {D : Type} (f : ℕ → ℕ → κ → Option D) (p id : ℕ) (g g' : κ → Option D) :
    setTable (setTable f p id g) p id g' = setTable f p id g' := by
  rw [setTable, setTable_self, Function.update_idem]
  exact Function.update_idem _ _ _

variable [DecidableEq κ]

/-- Entries come in one after the other. -/
def insertAll {D : Type} (f : κ → Option D) : List κ → List D → κ → Option D
  | k :: ks, d :: ds => insertAll (Function.update f k (some d)) ks ds
  | _, _ => f

/-- The functions that add and delete entries do this and no more, and the others leave the entries
as they are. An add evicts no other entry, as it may in a hash table that is created with `lru`. -/
structure TableView.Lawful (v : TableView τ κ) (lib : Library τ) : Prop where
  entryAdd : ∀ p id l ml e l' d, (lib.tableEntryAdd p id).add l (ml, e) = .ok (l', d) →
    v.entries l' = setTable (v.entries l) p id
      (Function.update (v.entries l p id) (v.addKey p id ml) (some d))
  entryAddBulk : ∀ p id l xs l' ds, (lib.tableEntryAdd p id).addBulk l xs = .ok (l', ds) →
    v.entries l' = setTable (v.entries l) p id
      (insertAll (v.entries l p id) (xs.map fun x => v.addKey p id x.1) ds)
  entryDelete : ∀ p id ml l, v.entries (lib.tableEntryDelete p id ml l).1 =
    if (lib.tableEntryDelete p id ml l).2 = 0 then
      setTable (v.entries l) p id (Function.update (v.entries l p id) (v.deleteKey p id ml) none)
    else v.entries l
  defaultEntryAdd : ∀ p id fwd l l' d, lib.tableDefaultEntryAdd p id fwd l = .ok (l', d) →
    v.entries l' = v.entries l
  defaultEntryDelete : ∀ p id l, v.entries (lib.tableDefaultEntryDelete p id l).1 = v.entries l
  run : ∀ p l, v.entries (lib.run p l) = v.entries l
  flush : ∀ p l, v.entries (lib.flush p l) = v.entries l
  portInStatsRead : ∀ p id clear l, v.entries (lib.portInStatsRead p id clear l).1 = v.entries l
  portInEnable : ∀ p id l, v.entries (lib.portInEnable p id l).1 = v.entries l
  portInDisable : ∀ p id l, v.entries (lib.portInDisable p id l).1 = v.entries l
  portOutStatsRead : ∀ p id clear l, v.entries (lib.portOutStatsRead p id clear l).1 = v.entries l
  tableStatsRead : ∀ p id clear l, v.entries (lib.tableStatsRead p id clear l).1 = v.entries l
  statsRead : ∀ a data clear l, v.entries (lib.statsRead a data clear l).1 = v.entries l
  meterProfileAdd : ∀ a id profile l, v.entries (lib.meterProfileAdd a id profile l).1 = v.entries l
  meterProfileDelete : ∀ a id l, v.entries (lib.meterProfileDelete a id l).1 = v.entries l
  meterRead : ∀ a data mask clear l, v.entries (lib.meterRead a data mask clear l).1 = v.entries l
  dscpTableUpdate : ∀ a mask table l, v.entries (lib.dscpTableUpdate a mask table l).1 = v.entries l
  ttlRead : ∀ a data clear l, v.entries (lib.ttlRead a data clear l).1 = v.entries l
  timeRead : ∀ a data l, v.entries (lib.timeRead a data l).1 = v.entries l

/-- Single additions are a bulk of them. -/
theorem TableView.Lawful.adds {v : TableView τ κ} {lib : Library τ} (hv : v.Lawful lib) {p id : ℕ}
    {l l' : τ.L} {xs : List (Mem × τ.E)} {ds : List τ.D}
    (h : Adds (lib.tableEntryAdd p id) l xs ds l') :
    v.entries l' = setTable (v.entries l) p id
      (insertAll (v.entries l p id) (xs.map fun x => v.addKey p id x.1) ds) := by
  induction h with
  | nil t => exact (setTable_eq_self _ _ _).symm
  | @cons t t₁ t' x xs data entries hadd _ ih =>
    have hfirst := hv.entryAdd p id t x.1 x.2 t₁ data hadd
    rw [ih, hfirst, setTable_setTable, setTable_self, Function.update_self]
    rfl

/-! ### What the calls name -/

/-- The matches that a call names for a table. -/
def Request.matches (tableId : ℕ) : Request τ → List TableRuleMatch
  | .ruleAdd id m _ => if id = tableId then [m] else []
  | .ruleAddBulk id list => if id = tableId then list.map TableRule.ruleMatch else []
  | .ruleDelete id m => if id = tableId then [m] else []
  | _ => []

/-- A call of `cs` names the match for table `tableId` of the pipeline. -/
def Names (cs : List (Call (Request τ))) (name : String) (tableId : ℕ) (m : TableRuleMatch) :
    Prop :=
  ∃ c, Call.pipeline name c ∈ cs ∧ m ∈ c.matches tableId

/-- The key under which the library has the rule of a match. -/
def TableView.key (v : TableView τ κ) (p id : ℕ) (m : TableRuleMatch) : Option κ :=
  (matchConvert m true).map (v.addKey p id)

def TableView.ruleKey (v : TableView τ κ) (p id : ℕ) (r : Rule τ) : Option κ :=
  v.key p id r.ruleMatch

/-- The library has the matches that `M` selects under one key exactly when they are the same, and a
delete names the key that an add has used. -/
structure TableView.Agrees (v : TableView τ κ) (p id : ℕ) (M : TableRuleMatch → Prop) : Prop where
  add : ∀ m m' k, M m → M m' → v.key p id m = some k → (v.key p id m' = some k ↔ m'.Same m)
  delete : ∀ m ml, M m → matchConvert m false = some ml →
    v.key p id m = some (v.deleteKey p id ml)

/-- The matches that calls name for the table, and that pass the check of its parameters. -/
def Named (cs : List (Call (Request τ))) (name : String) (id : ℕ) (t : TableInfo τ)
    (m : TableRuleMatch) : Prop :=
  Names cs name id m ∧ matchCheck m t.params = true

section Tables

/-! ### One table -/

/-- The rules of a table are distinct, are named by calls, and are the entries of the library. -/
structure TableView.HoldsTable (v : TableView τ κ) (cs : List (Call (Request τ))) (name : String)
    (p id : ℕ) (t : TableInfo τ) (f : κ → Option τ.D) : Prop where
  distinct : KeyedList.Distinct TableRule.key t.rules
  named : ∀ r ∈ t.rules, Named cs name id t r.ruleMatch
  represents : Represents (v.ruleKey p id) TableRule.data t.rules f

variable {v : TableView τ κ} {cs : List (Call (Request τ))} {name : String} {p id : ℕ}
  {t : TableInfo τ} {f : κ → Option τ.D}

/-- A rule comes in on both sides. -/
theorem TableView.HoldsTable.add (h : v.HoldsTable cs name p id t f)
    (hagrees : v.Agrees p id (Named cs name id t)) {r : Rule τ} {k : κ}
    (hnamed : Named cs name id t r.ruleMatch) (hkey : v.key p id r.ruleMatch = some k) :
    v.HoldsTable cs name p id (t.setRules (tableRuleAdd t.rules r))
      (Function.update f k (some r.data)) := by
  have hmem (r' : Rule τ) :
      r' ∈ tableRuleAdd t.rules r ↔ r' = r ∨ r' ∈ t.rules ∧ r'.key ≠ r.key := by
    rw [tableRuleAdd_eq_put]
    exact KeyedList.mem_put_iff h.distinct
  refine ⟨?_, ?_, ?_⟩
  · change KeyedList.Distinct TableRule.key (tableRuleAdd t.rules r)
    rw [tableRuleAdd_eq_put]
    exact h.distinct.put r
  · intro r' hr'
    rcases (hmem r').mp hr' with rfl | ⟨hold, -⟩
    · exact hnamed
    · exact h.named r' hold
  · apply h.represents.insert hkey
    intro r'
    refine (hmem r').trans (or_congr_right (and_congr_right fun hold => not_congr ?_))
    have hsame := hagrees.add r.ruleMatch r'.ruleMatch k hnamed (h.named r' hold) hkey
    exact (TableRuleMatch.same_iff (m := r'.ruleMatch)).symm.trans hsame.symm

/-- The first rules of a list come in on both sides, one after the other. -/
theorem TableView.HoldsTable.addBulk (h : v.HoldsTable cs name p id t f)
    (hagrees : v.Agrees p id (Named cs name id t)) {stages : Pipeline.BulkAdd.ActionStages
      (TableRuleAction τ.S) τ.E} {list : List (Rule τ)} {xs : List (Mem × τ.E)} {ds : List τ.D}
    (hlist : ∀ r ∈ list, Named cs name id t r.ruleMatch)
    (hxs : List.Forall₂ (Converts stages) (list.take ds.length) xs) :
    v.HoldsTable cs name p id
      (t.setRules ((List.zipWith withData list ds).foldl tableRuleAdd t.rules))
      (insertAll f (xs.map fun x => v.addKey p id x.1) ds) := by
  induction ds generalizing t f list xs with
  | nil =>
    rw [List.zipWith_nil_right]
    cases xs <;> exact h
  | cons d ds ih =>
    cases list with
    | nil =>
      cases hxs
      exact h
    | cons r list =>
      rw [List.length_cons, List.take_succ_cons] at hxs
      cases hxs with
      | @cons _ x _ xs hx hxs =>
        obtain ⟨hr, hlist⟩ := List.forall_mem_cons.mp hlist
        have hkey : v.key p id (withData r d).ruleMatch = some (v.addKey p id x.1) := by
          rw [TableView.key, show (withData r d).ruleMatch = r.ruleMatch from rfl, hx.1]
          rfl
        have hfirst := h.add hagrees (r := withData r d) hr hkey
        exact ih hfirst hagrees hlist hxs

/-- A rule goes on both sides. -/
theorem TableView.HoldsTable.delete (h : v.HoldsTable cs name p id t f)
    (hagrees : v.Agrees p id (Named cs name id t)) {m : TableRuleMatch} {ml : Mem}
    (hnamed : Named cs name id t m) (hml : matchConvert m false = some ml) :
    v.HoldsTable cs name p id (t.setRules (tableRuleDelete t.rules m))
      (Function.update f (v.deleteKey p id ml) none) := by
  have hmem (r : Rule τ) : r ∈ tableRuleDelete t.rules m ↔ r ∈ t.rules ∧ ¬ r.ruleMatch.Same m :=
    mem_tableRuleDelete_iff h.distinct
  have hkey := hagrees.delete m ml hnamed hml
  refine ⟨?_, ?_, ?_⟩
  · change KeyedList.Distinct TableRule.key (tableRuleDelete t.rules m)
    rw [Pipeline.tableRuleDelete_eq_erase]
    exact h.distinct.erase _
  · intro r hr
    exact h.named r ((hmem r).mp hr).1
  · apply h.represents.erase
    intro r
    refine (hmem r).trans (and_congr_right fun hold => not_congr ?_)
    exact (hagrees.add m r.ruleMatch _ hnamed (h.named r hold) hkey).symm

omit [DecidableEq κ] in
/-- A table without rules has no entries. -/
theorem TableView.HoldsTable.empty (hrules : t.rules = []) (hf : f = fun _ => none) :
    v.HoldsTable cs name p id t f := by
  refine ⟨?_, ?_, ?_⟩
  · rw [hrules]
    exact List.nodup_nil
  · intro r hr
    rw [hrules] at hr
    cases hr
  · rw [hrules, hf]
    exact represents_nil

/-! ### One pipeline -/

/-- All tables of a pipeline, and no entry beyond them. -/
structure TableView.Holds (v : TableView τ κ) (cs : List (Call (Request τ)))
    (p : Pipeline (TableInfo τ)) (f : ℕ → κ → Option τ.D) : Prop where
  tables : ∀ id t, p.table[id]? = some t → v.HoldsTable cs p.name p.p id t.rest (f id)
  beyond : ∀ id, p.table.length ≤ id → f id = fun _ => none

/-- The keys of the tables of a pipeline agree with the matches. -/
def TableView.AgreesOn (v : TableView τ κ) (cs : List (Call (Request τ)))
    (p : Pipeline (TableInfo τ)) : Prop :=
  ∀ id t, p.table[id]? = some t → v.Agrees p.p id (Named cs p.name id t.rest)

variable {lib : Library τ} {p : Pipeline (TableInfo τ)} {g : ℕ → κ → Option τ.D} {l : τ.L}

omit [DecidableEq κ] in
/-- A table is written, and its entries with it. -/
theorem TableView.Holds.write (h : v.Holds cs p g) {id : ℕ} {rest : TableInfo τ}
    {f : κ → Option τ.D} (hid : id < p.table.length)
    (htable : v.HoldsTable cs p.name p.p id rest f) :
    v.Holds cs (p.writeTable (some (id, rest))) (Function.update g id f) := by
  constructor
  · intro id' t ht
    simp only [Pipeline.writeTable, List.getElem?_modify] at ht
    by_cases heq : id = id'
    · subst heq
      rw [List.getElem?_eq_getElem hid] at ht
      simp only [if_true, Option.map_eq_map, Option.map_some, Option.some.injEq] at ht
      subst ht
      rw [Function.update_self]
      exact htable
    · simp only [heq, if_false, Option.map_eq_map, Option.map_id_fun', id_eq] at ht
      rw [Function.update_of_ne (Ne.symm heq)]
      exact h.tables id' t ht
  · intro id' hid'
    rw [Pipeline.writeTable, List.length_modify] at hid'
    have hne : id' ≠ id := by omega
    rw [Function.update_of_ne hne]
    exact h.beyond id' hid'

omit [DecidableEq κ] in
/-- The default rule is none of the entries. -/
theorem TableView.HoldsTable.setDefault {name : String} {n id : ℕ} {t : TableInfo τ}
    {f : κ → Option τ.D} (h : v.HoldsTable cs name n id t f)
    (d : Option (Pipeline.FwdAction × τ.D)) :
    v.HoldsTable cs name n id { t with ruleDefault := d } f :=
  ⟨h.distinct, h.named, h.represents⟩

/-! ### A call on one pipeline -/

/-- A rule is added with the parameters of its match, or nothing is done. -/
theorem entryAdd_cases (lib : Library τ) (p id : ℕ) (a : Option ℕ) (m : TableRuleMatch)
    (action : TableRuleAction τ.S) (l : τ.L) :
    entryAdd lib p id a m action l = fails l ∨
      ∃ ml e l' d, matchConvert m true = some ml ∧
        (lib.tableEntryAdd p id).add l (ml, e) = .ok (l', d) ∧
        entryAdd lib p id a m action l = (l', ⟨0, .data d⟩) := by
  unfold entryAdd
  cases hml : matchConvert m true with
  | none => exact .inl rfl
  | some ml =>
    cases he : actionConvert lib a action l with
    | error status => exact .inl rfl
    | ok e =>
      cases hadd : (lib.tableEntryAdd p id).add l (ml, e) with
      | error status =>
        dsimp only
        rw [hadd]
        exact .inl rfl
      | ok next =>
        obtain ⟨l', d⟩ := next
        dsimp only
        rw [hadd]
        exact .inr ⟨ml, e, l', d, rfl, hadd, rfl⟩

/-- The stores of a pipeline after a call, and those of the others. -/
structure TableView.After (v : TableView τ κ) (cs : List (Call (Request τ)))
    (p : Pipeline (TableInfo τ)) (l l' : τ.L) (write : Option (ℕ × TableInfo τ)) : Prop where
  holds : v.Holds cs (p.writeTable write) (v.entries l' p.p)
  others : ∀ n, n ≠ p.p → v.entries l' n = v.entries l n

omit [DecidableEq κ] in
/-- Nothing is written, and the entries stay. -/
theorem TableView.Holds.after_none (h : v.Holds cs p (v.entries l p.p)) {l' : τ.L}
    (hquiet : v.entries l' = v.entries l) : v.After cs p l l' none := by
  refine ⟨?_, ?_⟩
  · rw [hquiet]
    exact h
  · intro n _
    rw [hquiet]

omit [DecidableEq κ] in
/-- A table is written, and its entries with it. -/
theorem TableView.Holds.after_some (h : v.Holds cs p (v.entries l p.p)) {l' : τ.L} {id : ℕ}
    {rest : TableInfo τ} {f : κ → Option τ.D} (hid : id < p.table.length)
    (hentries : v.entries l' = setTable (v.entries l) p.p id f)
    (htable : v.HoldsTable cs p.name p.p id rest f) : v.After cs p l l' (some (id, rest)) := by
  refine ⟨?_, ?_⟩
  · rw [hentries, setTable_self]
    exact h.write hid htable
  · intro n hn
    rw [hentries, setTable_of_ne _ hn]

omit [DecidableEq κ] in
/-- A table is written that has the same entries. -/
theorem TableView.Holds.after_same (h : v.Holds cs p (v.entries l p.p)) {l' : τ.L} {id : ℕ}
    {rest : TableInfo τ} (hid : id < p.table.length) (hquiet : v.entries l' = v.entries l)
    (htable : v.HoldsTable cs p.name p.p id rest (v.entries l p.p id)) :
    v.After cs p l l' (some (id, rest)) := by
  apply h.after_some hid _ htable
  rw [hquiet, setTable_eq_self]

variable {tableId : ℕ} {m : TableRuleMatch} {action : TableRuleAction τ.S}

/-- An add of a rule keeps the mirror. -/
theorem TableView.Holds.ruleAdd (h : v.Holds cs p (v.entries l p.p)) (hv : v.Lawful lib)
    (hagrees : v.AgreesOn cs p) (hc : Call.pipeline p.name (.ruleAdd tableId m action) ∈ cs)
    {q : PipelineMsgReq τ} (hprepare : prepare p (.ruleAdd tableId m action) = .ok q) :
    v.After cs p l (direct lib p q l).1
      (completeDirect p (.ruleAdd tableId m action) (direct lib p q l).2).1 := by
  obtain ⟨t, htable, hprepare⟩ := tableOf_bind_eq_ok hprepare
  obtain ⟨hmatch, hprepare⟩ := check_bind_eq_ok hprepare
  obtain ⟨-, hq⟩ := check_bind_eq_ok hprepare
  cases hq
  have hnamed : Named cs p.name tableId t.rest m :=
    ⟨⟨_, hc, by simp [Request.matches]⟩, hmatch⟩
  rcases entryAdd_cases lib p.p tableId (p.table[tableId]?.bind Table.a) m action l with
    hfails | ⟨ml, e, l', d, hml, hadd, hok⟩
  · have hdirect : direct lib p (.tableRuleAdd tableId m action) l = fails l := hfails
    rw [hdirect]
    exact h.after_none rfl
  · have hdirect : direct lib p (.tableRuleAdd tableId m action) l = (l', ⟨0, .data d⟩) := hok
    rw [hdirect]
    simp only [completeDirect, completeWith, writeTable, htable]
    apply h.after_some (List.getElem?_eq_some_iff.mp htable).1 (hv.entryAdd _ _ _ _ _ _ _ hadd)
    have hkey : v.key p.p tableId m = some (v.addKey p.p tableId ml) := by
      rw [TableView.key, hml]
      rfl
    have hrules := h.tables tableId t htable
    exact hrules.add (hagrees tableId t htable) (r := ⟨m, action, d⟩) hnamed hkey

/-- A bulk of rules keeps the mirror. -/
theorem TableView.Holds.ruleAddBulk (h : v.Holds cs p (v.entries l p.p)) (hv : v.Lawful lib)
    (hagrees : v.AgreesOn cs p) {list : List (Rule τ)}
    (hc : Call.pipeline p.name (.ruleAddBulk tableId list) ∈ cs) {q : PipelineMsgReq τ}
    (hprepare : prepare p (.ruleAddBulk tableId list) = .ok q) :
    v.After cs p l (direct lib p q l).1
      (completeDirect p (.ruleAddBulk tableId list) (direct lib p q l).2).1 := by
  obtain ⟨hempty, hprepare⟩ := check_bind_eq_ok hprepare
  have hne : list ≠ [] := by simpa using hempty
  cases htable : p.table[tableId]? with
  | none =>
    simp only [htable] at hprepare
    cases hprepare
  | some t =>
    simp only [htable] at hprepare
    obtain ⟨hall, hq⟩ := check_bind_eq_ok hprepare
    cases hq
    have hnamed : ∀ r ∈ list, Named cs p.name tableId t.rest r.ruleMatch := by
      intro r hr
      have hchecks := List.all_eq_true.mp hall r hr
      rw [Bool.and_eq_true] at hchecks
      refine ⟨⟨_, hc, ?_⟩, hchecks.1⟩
      simp only [Request.matches, if_true]
      exact List.mem_map_of_mem hr
    simp only [direct, bulkAddLl]
    rcases Pipeline.BulkAdd.tableRuleAddBulkLl_cases (lib.tableEntryAdd p.p tableId)
        ⟨fun _ => true, fun action => actionConvert lib (p.table[tableId]?.bind Table.a) action l⟩
        (t.rest.params.matchType = .acl) l hne with
      ⟨-, status, hll⟩ | ⟨-, k, entries, l', hadds, hll⟩
    · rw [hll]
      exact h.after_none rfl
    · rw [hll]
      obtain ⟨xs, hconverts, hreceived⟩ := hadds.received
      have hentries : v.entries l' = setTable (v.entries l) p.p tableId
          (insertAll (v.entries l p.p tableId) (xs.map fun x => v.addKey p.p tableId x.1)
            entries) := by
        unfold Pipeline.BulkAdd.Received at hreceived
        split_ifs at hreceived with hbulk
        · exact hv.entryAddBulk _ _ _ _ _ _ hreceived
        · exact hv.adds hreceived
      simp only [completeDirect, completeWith, htable, if_true, Pipeline.RuleList.tableRuleAddBulk_eq]
      rw [← hadds.length] at hconverts ⊢
      rw [writeBack_take (hadds.length ▸ hadds.le)]
      apply h.after_some (List.getElem?_eq_some_iff.mp htable).1 hentries
      exact (h.tables tableId t htable).addBulk (hagrees tableId t htable) hnamed hconverts

/-- A delete of a rule keeps the mirror. -/
theorem TableView.Holds.ruleDelete (h : v.Holds cs p (v.entries l p.p)) (hv : v.Lawful lib)
    (hagrees : v.AgreesOn cs p) (hc : Call.pipeline p.name (.ruleDelete tableId m) ∈ cs)
    {q : PipelineMsgReq τ} (hprepare : prepare p (.ruleDelete tableId m) = .ok q) :
    v.After cs p l (direct lib p q l).1
      (completeDirect p (.ruleDelete tableId m) (direct lib p q l).2).1 := by
  obtain ⟨t, htable, hprepare⟩ := tableOf_bind_eq_ok hprepare
  obtain ⟨hmatch, hq⟩ := check_bind_eq_ok hprepare
  cases hq
  have hnamed : Named cs p.name tableId t.rest m :=
    ⟨⟨_, hc, by simp [Request.matches]⟩, hmatch⟩
  simp only [direct, entryDelete]
  cases hml : matchConvert m false with
  | none => exact h.after_none rfl
  | some ml =>
    have hdelete := hv.entryDelete p.p tableId ml l
    simp only [returns, completeDirect, completeWith, writeTable, htable]
    by_cases hstatus : (lib.tableEntryDelete p.p tableId ml l).2 = 0
    · rw [if_pos hstatus] at hdelete
      rw [if_neg (not_not.mpr hstatus)]
      apply h.after_some (List.getElem?_eq_some_iff.mp htable).1 hdelete
      exact (h.tables tableId t htable).delete (hagrees tableId t htable) hnamed hml
    · rw [if_neg hstatus] at hdelete
      rw [if_pos hstatus]
      exact h.after_none hdelete

/-- A write goes to the table of the request. -/
theorem writeTable_fst {id : ℕ} {r : PipelineMsgRsp τ} {rest : TableInfo τ}
    {write : TableInfo τ → RspBody τ → Option (TableInfo τ)}
    (h : writeTable p tableId r write = some (id, rest)) : id = tableId := by
  unfold writeTable at h
  split_ifs at h
  cases htable : p.table[tableId]? with
  | none =>
    rw [htable] at h
    cases h
  | some t =>
    simp only [htable, Option.map_eq_some_iff, Prod.mk.injEq] at h
    obtain ⟨_, -, hid, -⟩ := h
    exact hid.symm

omit [DecidableEq κ] in
/-- A default rule is written, and the entries stay. -/
theorem TableView.Holds.after_default (h : v.Holds cs p (v.entries l p.p)) {l' : τ.L}
    {r : PipelineMsgRsp τ} {write : TableInfo τ → RspBody τ → Option (TableInfo τ)}
    (hquiet : v.entries l' = v.entries l)
    (hwrite : ∀ t body t', write t body = some t' → ∃ d, t' = { t with ruleDefault := d }) :
    v.After cs p l l' (writeTable p tableId r write) := by
  cases hw : writeTable p tableId r write with
  | none => exact h.after_none hquiet
  | some w =>
    obtain ⟨id, rest⟩ := w
    obtain rfl := writeTable_fst hw
    obtain ⟨t, -, htable, hrest⟩ := writeTable_eq_some hw
    obtain ⟨d, rfl⟩ := hwrite _ _ _ hrest
    apply h.after_same (List.getElem?_eq_some_iff.mp htable).1 hquiet
    exact (h.tables id t htable).setDefault d

/-- **A call.** The stores of a pipeline hold the same after any call on it, and a call leaves the
stores of the others. -/
theorem TableView.Holds.call (h : v.Holds cs p (v.entries l p.p)) (hv : v.Lawful lib)
    (hagrees : v.AgreesOn cs p) {c : Request τ} (hc : Call.pipeline p.name c ∈ cs)
    {q : PipelineMsgReq τ} (hprepare : prepare p c = .ok q) :
    v.After cs p l (direct lib p q l).1 (completeDirect p c (direct lib p q l).2).1 := by
  cases c with
  | ruleAdd tableId m action => exact h.ruleAdd hv hagrees hc hprepare
  | ruleAddBulk tableId list => exact h.ruleAddBulk hv hagrees hc hprepare
  | ruleDelete tableId m => exact h.ruleDelete hv hagrees hc hprepare
  | ruleAddDefault tableId action =>
    obtain ⟨t, -, hprepare⟩ := tableOf_bind_eq_ok hprepare
    cases hcheck : actionDefaultCheck p.nPortsOut p.table.length action with
    | none =>
      simp only [hcheck] at hprepare
      cases hprepare
    | some fwd =>
      simp only [hcheck] at hprepare
      cases hprepare
      dsimp only [completeDirect, completeWith]
      apply h.after_default
      · simp only [direct, defaultEntryAdd]
        cases hadd : lib.tableDefaultEntryAdd p.p tableId fwd l with
        | error status => rfl
        | ok next =>
          obtain ⟨l', d⟩ := next
          exact hv.defaultEntryAdd _ _ _ _ _ _ hadd
      · intro t' body t'' hwrite
        split at hwrite
        · cases hwrite
          exact ⟨_, rfl⟩
        · cases hwrite
  | ruleDeleteDefault tableId =>
    obtain ⟨t, -, hq⟩ := tableOf_bind_eq_ok hprepare
    cases hq
    dsimp only [completeDirect, completeWith]
    apply h.after_default (hv.defaultEntryDelete _ _ _)
    rintro t' body t'' ⟨⟩
    exact ⟨none, rfl⟩
  | portInStatsRead portId clear =>
    obtain ⟨-, hq⟩ := check_bind_eq_ok hprepare
    cases hq
    exact h.after_none (hv.portInStatsRead _ _ _ _)
  | portInEnable portId =>
    obtain ⟨-, hq⟩ := check_bind_eq_ok hprepare
    cases hq
    exact h.after_none (hv.portInEnable _ _ _)
  | portInDisable portId =>
    obtain ⟨-, hq⟩ := check_bind_eq_ok hprepare
    cases hq
    exact h.after_none (hv.portInDisable _ _ _)
  | portOutStatsRead portId clear =>
    obtain ⟨-, hq⟩ := check_bind_eq_ok hprepare
    cases hq
    exact h.after_none (hv.portOutStatsRead _ _ _ _)
  | tableStatsRead tableId clear =>
    obtain ⟨t, -, hq⟩ := tableOf_bind_eq_ok hprepare
    cases hq
    exact h.after_none (hv.tableStatsRead _ _ _ _)
  | ruleStatsRead tableId m clear =>
    obtain ⟨t, -, hprepare⟩ := tableOf_bind_eq_ok hprepare
    obtain ⟨-, hprepare⟩ := check_bind_eq_ok hprepare
    obtain ⟨rule, -, hq⟩ := bind_eq_ok.mp hprepare
    cases hq
    exact h.after_none (hv.statsRead _ _ _ _)
  | mtrProfileAdd tableId id profile =>
    obtain ⟨t, -, hq⟩ := tableOf_bind_eq_ok hprepare
    cases hq
    exact h.after_none (hv.meterProfileAdd _ _ _ _)
  | mtrProfileDelete tableId id =>
    obtain ⟨t, -, hq⟩ := tableOf_bind_eq_ok hprepare
    cases hq
    exact h.after_none (hv.meterProfileDelete _ _ _)
  | ruleMtrRead tableId m clear =>
    obtain ⟨t, -, hprepare⟩ := tableOf_bind_eq_ok hprepare
    obtain ⟨-, hprepare⟩ := check_bind_eq_ok hprepare
    obtain ⟨rule, -, hq⟩ := bind_eq_ok.mp hprepare
    cases hq
    exact h.after_none (hv.meterRead _ _ _ _ _)
  | dscpTableUpdate tableId dscpMask dscpTable =>
    obtain ⟨t, -, hq⟩ := tableOf_bind_eq_ok hprepare
    cases hq
    exact h.after_none (hv.dscpTableUpdate _ _ _ _)
  | ruleTtlRead tableId m clear =>
    obtain ⟨t, -, hprepare⟩ := tableOf_bind_eq_ok hprepare
    obtain ⟨-, hprepare⟩ := check_bind_eq_ok hprepare
    obtain ⟨-, hprepare⟩ := check_bind_eq_ok hprepare
    obtain ⟨rule, -, hq⟩ := bind_eq_ok.mp hprepare
    cases hq
    exact h.after_none (hv.ttlRead _ _ _ _)
  | ruleTimeRead tableId m =>
    obtain ⟨t, -, hprepare⟩ := tableOf_bind_eq_ok hprepare
    obtain ⟨-, hprepare⟩ := check_bind_eq_ok hprepare
    obtain ⟨rule, -, hq⟩ := bind_eq_ok.mp hprepare
    cases hq
    exact h.after_none (hv.timeRead _ _ _)

end Tables

end Rids.Threads
