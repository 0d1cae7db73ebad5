import Rids.Pipeline.RuleList

/-!
# A bulk of rules, with and without a running pipeline (`thread.c`)

`pipeline_table_rule_add_bulk` calls `table_rule_add_bulk_ll` itself, or sends the list of nodes to
the thread that runs the pipeline, whose handler calls it. The library's two insertion functions
are given by what they return, on an arbitrary table of the library; one that fails leaves it
unchanged. `RuleStore.pipelineTableRuleAddBulk` is the common outcome of the two ways, over the
table of entries.

* `tableRuleAddBulkLl_cases` — what the low-level function does, by the stage it fails at.
* `running_agrees` — the two ways agree, up to the value of a non-zero status.
* `bulkAdd_accounts` — an error that changes nothing, or `k ≥ 1` rules on both sides.
* `pipelineTableRuleAddBulk_store` — over the table of entries it is the function of `RuleStore`.
-/

namespace Rids.Pipeline.BulkAdd

open Rids.Lib Rids.Lib.ByteMem

/-! ### The library -/

/-- A failure: a non-zero status. -/
abbrev Status := {status : Int // status ≠ 0}

/-- `rte_pipeline_table_entry_add` and `rte_pipeline_table_entry_add_bulk` on a table `T`: a
failing status, or the table afterwards and where the library has put the entries. -/
structure Insertions (T E D : Type) where
  add : T → Mem × E → Except Status (T × D)
  addBulk : T → List (Mem × E) → Except Status (T × List D)
  addBulk_length : ∀ {t xs t' ds}, addBulk t xs = .ok (t', ds) → ds.length = xs.length

/-- `action_check` and `action_convert`, for the profile of a table. -/
structure ActionStages (A E : Type) where
  check : A → Bool
  convert : A → Except Status E

variable {T A E D : Type} (ins : Insertions T E D) (stages : ActionStages A E)

/-! ### The source -/

/-- One turn of the first loop.
Source: `thread.c` `table_rule_add_bulk_ll`, rule conversion
Kind: D -/
def convertRule (rule : TableRule A D) : Except Status (Mem × E) :=
  match matchConvert rule.ruleMatch true with
  | none => .error ⟨-1, by decide⟩
  | some ml => (stages.convert rule.action).map fun e => (ml, e)

/-- Source: `thread.c` `table_rule_add_bulk_ll`, the loop without bulk support. Kind: D -/
def addEach : T → List (Mem × E) → T × List D × Option Status
  | t, [] => (t, [], none)
  | t, x :: xs =>
    match ins.add t x with
    | .error status => (t, [], some status)
    | .ok (t', data) =>
      let (t'', entries, status) := addEach t' xs
      (t'', data :: entries, status)

/-- The data pointers of the first rules are set.
Source: `thread.c` `table_rule_add_bulk_ll`, write back to the rule list
Kind: D -/
def writeBack : List (TableRule A D) → List D → List (TableRule A D)
  | rule :: list, data :: entries => { rule with data := data } :: writeBack list entries
  | list, _ => list

/-- `n_rules`, the list and the table of the library.
Source: `thread.c` `table_rule_add_bulk_ll`
Kind: D -/
def tableRuleAddBulkLl (bulkSupported : Bool) (t : T) (list : List (TableRule A D)) :
    Except Status (ℕ × List (TableRule A D) × T) := do
  let xs ← list.mapM (convertRule stages)
  if bulkSupported then
    let (t', entries) ← ins.addBulk t xs
    return (xs.length, writeBack list entries, t')
  else
    match addEach ins t xs with
    | (t', entries, none) => return (xs.length, writeBack list entries, t')
    | (_, [], some status) => .error status
    | (t', entries, some _) => return (entries.length, writeBack list entries, t')

/-- A table: `table->rules` and the table of the library. -/
structure Table (T A D : Type) where
  rules : List (TableRule A D)
  ll : T

/-- Source: `thread.c` `struct pipeline_msg_rsp`, `table_rule_add_bulk`. Kind: D -/
structure BulkRsp where
  status : Int
  nRules : ℕ

/-- The response; the handler works on the list of the request.
Source: `thread.c` `pipeline_msg_handle_table_rule_add_bulk`
Kind: D -/
def pipelineMsgHandleTableRuleAddBulk (bulk : Bool) (t : T) (list : List (TableRule A D)) :
    BulkRsp × List (TableRule A D) × T :=
  match tableRuleAddBulkLl ins stages bulk t list with
  | .error _ => (⟨-1, 0⟩, list, t)
  | .ok (nRulesAdded, list', t') => (⟨0, nRulesAdded⟩, list', t')

/-- The status, `n_rules_added` and `n_rules_not_added` where they are written, and the table. The
nodes that are not moved are counted when they are freed.
Source: `thread.c` `pipeline_table_rule_add_bulk`
Kind: D -/
def pipelineTableRuleAddBulk (running : Bool) (params : TableParams) (table : Table T A D)
    (list : List (TableRule A D)) : Int × Option (ℕ × ℕ) × Table T A D :=
  if list.isEmpty then (-22, none, table)
  else if list.any fun r => !matchCheck r.ruleMatch params || !stages.check r.action then
    (-22, none, table)
  else if !running then
    match tableRuleAddBulkLl ins stages (params.matchType = .acl) table.ll list with
    | .error status => (status, none, table)
    | .ok (nRulesAdded, list', t') =>
      let (rules, rest) := RuleList.tableRuleAddBulk table.rules list' nRulesAdded
      (0, some (nRulesAdded, rest.length), ⟨rules, t'⟩)
  else
    let (rsp, list', t') :=
      pipelineMsgHandleTableRuleAddBulk ins stages (params.matchType = .acl) table.ll list
    if rsp.status = 0 then
      let (rules, rest) := RuleList.tableRuleAddBulk table.rules list' rsp.nRules
      (rsp.status, some (rsp.nRules, rest.length), ⟨rules, t'⟩)
    else (rsp.status, none, ⟨table.rules, t'⟩)

/-! ### The stages -/

/-- A rule and what the two conversions make of it. -/
def Converts (rule : TableRule A D) (x : Mem × E) : Prop :=
  matchConvert rule.ruleMatch true = some x.1 ∧ stages.convert rule.action = .ok x.2

/-- One of the two conversions of a rule fails. -/
def ConversionFails (rule : TableRule A D) : Prop :=
  matchConvert rule.ruleMatch true = none ∨ ∃ status, stages.convert rule.action = .error status

/-- A rule is converted when both of its stages pass. -/
theorem convertRule_eq_ok_iff {rule : TableRule A D} {x : Mem × E} :
    convertRule stages rule = .ok x ↔ Converts stages rule x := by
  unfold convertRule Converts
  cases hm : matchConvert rule.ruleMatch true with
  | none => simp
  | some ml =>
    cases ha : stages.convert rule.action with
    | error status => simp [Except.map]
    | ok e => simp [Except.map, Prod.ext_iff]

/-- A rule fails when one of its stages does. -/
theorem convertRule_eq_error_iff {rule : TableRule A D} :
    (∃ status, convertRule stages rule = .error status) ↔ ConversionFails stages rule := by
  unfold convertRule ConversionFails
  cases hm : matchConvert rule.ruleMatch true with
  | none => simp
  | some ml =>
    cases ha : stages.convert rule.action with
    | error status => simp [Except.map]
    | ok e => simp [Except.map]

/-- The first loop converts all rules, or stops at one that fails. -/
theorem mapM_convertRule (list : List (TableRule A D)) :
    (∃ xs, list.mapM (convertRule stages) = .ok xs ∧ List.Forall₂ (Converts stages) list xs) ∨
      (∃ status, list.mapM (convertRule stages) = .error status) ∧
        ∃ rule ∈ list, ConversionFails stages rule := by
  induction list with
  | nil => exact .inl ⟨[], rfl, .nil⟩
  | cons rule list ih =>
    rw [List.mapM_cons]
    cases hrule : convertRule stages rule with
    | error status =>
      have hfails := (convertRule_eq_error_iff stages).mp ⟨status, hrule⟩
      exact .inr ⟨⟨status, rfl⟩, rule, List.mem_cons_self, hfails⟩
    | ok x =>
      rcases ih with ⟨xs, hxs, hall⟩ | ⟨⟨status, hstatus⟩, bad, hbad, hfails⟩
      · refine .inl ⟨x :: xs, ?_, .cons ((convertRule_eq_ok_iff stages).mp hrule) hall⟩
        rw [hxs]
        rfl
      · refine .inr ⟨⟨status, ?_⟩, bad, List.mem_cons_of_mem rule hbad, hfails⟩
        rw [hstatus]
        rfl

/-- A rule is converted to one entry. -/
theorem rightUnique_converts :
    Relator.RightUnique (Converts (D := D) stages) := by
  rintro rule ⟨ml, e⟩ ⟨ml', e'⟩ ⟨hm, ha⟩ ⟨hm', ha'⟩
  rw [hm] at hm'
  rw [ha] at ha'
  cases hm'
  cases ha'
  rfl

/-- Where all rules convert, none fails to. -/
theorem not_conversionFails {list : List (TableRule A D)} {xs : List (Mem × E)}
    (h : List.Forall₂ (Converts stages) list xs) :
    ¬ ∃ rule ∈ list, ConversionFails stages rule := by
  rintro ⟨rule, hrule, hfails⟩
  induction h with
  | nil => cases hrule
  | cons hconverts _ ih =>
    rcases List.mem_cons.mp hrule with rfl | hrest
    · rcases hfails with hm | ⟨status, ha⟩
      · exact Option.some_ne_none _ (hconverts.1.symm.trans hm)
      · cases hconverts.2.symm.trans ha
    · exact ih hrest

/-! ### What the library receives -/

/-- The table `t` receives the rules one after the other, puts them at the given places, and
becomes `t'`. -/
inductive Adds : T → List (Mem × E) → List D → T → Prop
  | nil (t : T) : Adds t [] [] t
  | cons {t t₁ t' : T} {x : Mem × E} {xs : List (Mem × E)} {data : D} {entries : List D} :
      ins.add t x = .ok (t₁, data) → Adds t₁ xs entries t' → Adds t (x :: xs) (data :: entries) t'

/-- The loop adds the rules up to the first that the library refuses. -/
theorem addEach_spec {t t' : T} {xs : List (Mem × E)} {entries : List D} {status : Option Status}
    (h : addEach ins t xs = (t', entries, status)) :
    Adds ins t (xs.take entries.length) entries t' ∧ entries.length ≤ xs.length ∧
      (status = none → entries.length = xs.length) := by
  induction xs generalizing t entries with
  | nil =>
    simp only [addEach, Prod.mk.injEq] at h
    obtain ⟨rfl, rfl, rfl⟩ := h
    exact ⟨.nil t, le_rfl, fun _ => rfl⟩
  | cons x xs ih =>
    rw [addEach] at h
    cases hadd : ins.add t x with
    | error refused =>
      simp only [hadd, Prod.mk.injEq] at h
      obtain ⟨rfl, rfl, rfl⟩ := h
      exact ⟨.nil t, Nat.zero_le _, fun hnone => nomatch hnone⟩
    | ok next =>
      obtain ⟨t₁, data⟩ := next
      simp only [hadd] at h
      cases hrest : addEach ins t₁ xs with
      | mk t₂ rest =>
        obtain ⟨entries', status'⟩ := rest
        simp only [hrest, Prod.mk.injEq] at h
        obtain ⟨rfl, rfl, rfl⟩ := h
        obtain ⟨hadds, hle, hall⟩ := ih hrest
        exact ⟨.cons hadd hadds, Nat.succ_le_succ hle, fun hnone => congrArg (· + 1) (hall hnone)⟩

/-- The first insertion is refused exactly when nothing is added to a list with a first rule. -/
theorem addEach_refuses {t : T} {x : Mem × E} {xs : List (Mem × E)} :
    (∃ status, ins.add t x = .error status) ↔
      ∃ status, addEach ins t (x :: xs) = (t, [], some status) := by
  rw [addEach]
  cases hadd : ins.add t x with
  | error refused => simp
  | ok next => simp

/-- The table `t` receives the rules, one by one or, with bulk support, in one call. -/
def Received (bulk : Bool) (t : T) (xs : List (Mem × E)) (entries : List D) (t' : T) : Prop :=
  if bulk then ins.addBulk t xs = .ok (t', entries) else Adds ins t xs entries t'

/-- The bulk insertion fails, or the first single one. -/
def InsertionFails (bulk : Bool) (t : T) (xs : List (Mem × E)) : Prop :=
  if bulk then ∃ status, ins.addBulk t xs = .error status
  else ∃ x status, xs.head? = some x ∧ ins.add t x = .error status

/-- What makes the low-level function fail: a conversion, or an insertion after all conversions. -/
def LlFails (bulk : Bool) (t : T) (list : List (TableRule A D)) : Prop :=
  (∃ rule ∈ list, ConversionFails stages rule) ∨
    ∃ xs, List.Forall₂ (Converts stages) list xs ∧ InsertionFails ins bulk t xs

/-- The library receives the first `k` rules, at least one and all of them in a bulk, puts them
at the given places, and becomes `t'`. -/
structure LlAdds (bulk : Bool) (t : T) (list : List (TableRule A D)) (k : ℕ) (entries : List D)
    (t' : T) : Prop where
  pos : 1 ≤ k
  le : k ≤ list.length
  whole : bulk = true → k = list.length
  length : entries.length = k
  received : ∃ xs, List.Forall₂ (Converts stages) (list.take k) xs ∧
    Received ins bulk t xs entries t'

/-- Where all rules convert, only an insertion can fail. -/
theorem llFails_iff {bulk : Bool} {t : T} {list : List (TableRule A D)} {xs : List (Mem × E)}
    (h : List.Forall₂ (Converts stages) list xs) :
    LlFails ins stages bulk t list ↔ InsertionFails ins bulk t xs := by
  constructor
  · rintro (hfails | ⟨ys, hys, hins⟩)
    · exact absurd hfails (not_conversionFails stages h)
    · obtain rfl : ys = xs := List.right_unique_forall₂' (rightUnique_converts stages) hys h
      exact hins
  · exact fun hins => .inr ⟨xs, h, hins⟩

/-- With bulk support. -/
theorem tableRuleAddBulkLl_bulk {t : T} {list : List (TableRule A D)} {xs : List (Mem × E)}
    (hxs : list.mapM (convertRule stages) = .ok xs)
    (hall : List.Forall₂ (Converts stages) list xs) (hne : list ≠ []) :
    ((∃ status, ins.addBulk t xs = .error status) ∧
        ∃ status, tableRuleAddBulkLl ins stages true t list = .error status) ∨
      (¬ ∃ status, ins.addBulk t xs = .error status) ∧
        ∃ k entries t', LlAdds ins stages true t list k entries t' ∧
          tableRuleAddBulkLl ins stages true t list = .ok (k, writeBack list entries, t') := by
  have hlength : xs.length = list.length := hall.length_eq.symm
  cases hadd : ins.addBulk t xs with
  | error status =>
    refine .inl ⟨⟨status, rfl⟩, status, ?_⟩
    rw [tableRuleAddBulkLl, hxs]
    simp only [bind, Except.bind, if_true, hadd]
  | ok next =>
    obtain ⟨t', entries⟩ := next
    refine .inr ⟨?_, xs.length, entries, t', ?_, ?_⟩
    · rintro ⟨status, herror⟩
      cases herror
    · exact
        { pos := hlength ▸ List.length_pos_of_ne_nil hne
          le := hlength.le
          whole := fun _ => hlength
          length := ins.addBulk_length hadd
          received := ⟨xs, by rwa [hlength, List.take_length], by simpa [Received] using hadd⟩ }
    · rw [tableRuleAddBulkLl, hxs]
      simp only [bind, Except.bind, if_true, hadd]
      rfl

/-- Without it. -/
theorem tableRuleAddBulkLl_each {t : T} {list : List (TableRule A D)} {xs : List (Mem × E)}
    (hxs : list.mapM (convertRule stages) = .ok xs)
    (hall : List.Forall₂ (Converts stages) list xs) (hne : list ≠ []) :
    ((∃ x status, xs.head? = some x ∧ ins.add t x = .error status) ∧
        ∃ status, tableRuleAddBulkLl ins stages false t list = .error status) ∨
      (¬ ∃ x status, xs.head? = some x ∧ ins.add t x = .error status) ∧
        ∃ k entries t', LlAdds ins stages false t list k entries t' ∧
          tableRuleAddBulkLl ins stages false t list = .ok (k, writeBack list entries, t') := by
  have hlength : xs.length = list.length := hall.length_eq.symm
  obtain ⟨x, xs', rfl⟩ : ∃ x xs', xs = x :: xs' := List.exists_cons_of_ne_nil fun hnil => by
    rw [hnil] at hlength
    exact hne (List.length_eq_zero_iff.mp hlength.symm)
  have hhead : (∃ y status, (x :: xs').head? = some y ∧ ins.add t y = .error status) ↔
      ∃ status, addEach ins t (x :: xs') = (t, [], some status) := by
    rw [← addEach_refuses]
    constructor
    · rintro ⟨y, status, hy, hadd⟩
      obtain rfl := Option.some.inj hy
      exact ⟨status, hadd⟩
    · rintro ⟨status, hadd⟩
      exact ⟨x, status, rfl, hadd⟩
  rw [hhead]
  have hll : tableRuleAddBulkLl ins stages false t list =
      match addEach ins t (x :: xs') with
      | (t', entries, none) => .ok ((x :: xs').length, writeBack list entries, t')
      | (_, [], some status) => .error status
      | (t', entries, some _) => .ok (entries.length, writeBack list entries, t') := by
    rw [tableRuleAddBulkLl, hxs]
    rfl
  rw [hll]
  cases heach : addEach ins t (x :: xs') with
  | mk t' rest =>
    obtain ⟨entries, status⟩ := rest
    obtain ⟨hadds, hle, hnone⟩ := addEach_spec ins heach
    have hadded (hpos : 1 ≤ entries.length) :
        LlAdds ins stages false t list entries.length entries t' :=
      { pos := hpos
        le := hle.trans hlength.le
        whole := fun hbulk => nomatch hbulk
        length := rfl
        received := ⟨_, List.forall₂_take entries.length hall, by simpa [Received] using hadds⟩ }
    cases status with
    | none =>
      have hcount : entries.length = (x :: xs').length := hnone rfl
      refine .inr ⟨?_, entries.length, entries, t', hadded ?_, ?_⟩
      · rintro ⟨status, hsome⟩
        cases hsome
      · rw [hcount]
        exact Nat.succ_pos _
      · rw [hcount]
    | some status =>
      cases entries with
      | nil =>
        cases hadds
        exact .inl ⟨⟨status, rfl⟩, status, rfl⟩
      | cons data entries =>
        refine .inr ⟨?_, (data :: entries).length, data :: entries, t',
          hadded (Nat.succ_pos _), rfl⟩
        rintro ⟨status', hsome⟩
        cases hsome

/-- **The low-level function**, on a list that is not empty. -/
theorem tableRuleAddBulkLl_cases (bulk : Bool) (t : T) {list : List (TableRule A D)}
    (hne : list ≠ []) :
    (LlFails ins stages bulk t list ∧
        ∃ status, tableRuleAddBulkLl ins stages bulk t list = .error status) ∨
      ¬ LlFails ins stages bulk t list ∧
        ∃ k entries t', LlAdds ins stages bulk t list k entries t' ∧
          tableRuleAddBulkLl ins stages bulk t list = .ok (k, writeBack list entries, t') := by
  rcases mapM_convertRule stages list with ⟨xs, hxs, hall⟩ | ⟨⟨status, hstatus⟩, hfails⟩
  · rw [llFails_iff ins stages hall]
    cases bulk with
    | true => simpa [InsertionFails] using tableRuleAddBulkLl_bulk ins stages hxs hall hne
    | false => simpa [InsertionFails] using tableRuleAddBulkLl_each ins stages hxs hall hne
  · refine .inl ⟨.inl hfails, status, ?_⟩
    rw [tableRuleAddBulkLl, hstatus]
    rfl

/-! ### The two ways -/

/-- A rule at the place that the library has given it. -/
def withData (rule : TableRule A D) (data : D) : TableRule A D := { rule with data := data }

/-- Writing back keeps the rules. -/
theorem writeBack_length (list : List (TableRule A D)) (entries : List D) :
    (writeBack list entries).length = list.length := by
  induction list generalizing entries with
  | nil => cases entries <;> rfl
  | cons rule list ih =>
    cases entries with
    | nil => rfl
    | cons data entries => exact congrArg (· + 1) (ih entries)

/-- The rules that got an entry carry it. -/
theorem writeBack_take {list : List (TableRule A D)} {entries : List D}
    (h : entries.length ≤ list.length) :
    (writeBack list entries).take entries.length = List.zipWith withData list entries := by
  induction list generalizing entries with
  | nil =>
    obtain rfl : entries = [] := List.length_eq_zero_iff.mp (Nat.le_zero.mp h)
    rfl
  | cons rule list ih =>
    cases entries with
    | nil => rfl
    | cons data entries => exact congrArg (_ :: ·) (ih (Nat.le_of_succ_le_succ h))

/-- What makes a bulk fail: a check of one of the rules, or the low-level function. -/
def Fails (params : TableParams) (table : Table T A D) (list : List (TableRule A D)) : Prop :=
  (∃ rule ∈ list, matchCheck rule.ruleMatch params = false ∨ stages.check rule.action = false) ∨
    LlFails ins stages (params.matchType = .acl) table.ll list

/-- The table after the library has put the first rules of the list at the given places. -/
def Table.after (table : Table T A D) (list : List (TableRule A D)) (entries : List D) (t' : T) :
    Table T A D :=
  ⟨(List.zipWith withData list entries).foldl tableRuleAdd table.rules, t'⟩

/-- What is done with the list when the low-level function has not failed. -/
theorem tableRuleAddBulk_writeBack {params : TableParams} {table : Table T A D}
    {list : List (TableRule A D)} {k : ℕ} {entries : List D} {t' : T}
    (h : LlAdds ins stages (params.matchType = .acl) table.ll list k entries t') :
    RuleList.tableRuleAddBulk table.rules (writeBack list entries) k =
      ((table.after list entries t').rules, (writeBack list entries).drop k) ∧
      ((writeBack list entries).drop k).length = list.length - k := by
  have htake : (writeBack list entries).take k = List.zipWith withData list entries := by
    rw [← h.length]
    exact writeBack_take (h.length ▸ h.le)
  refine ⟨?_, ?_⟩
  · rw [RuleList.tableRuleAddBulk_eq, htake]
    rfl
  · rw [List.length_drop, writeBack_length]

/-- **One call**, in either way: an error that changes nothing, or `k` rules on both sides. -/
theorem pipelineTableRuleAddBulk_cases (running : Bool) (params : TableParams)
    (table : Table T A D) {list : List (TableRule A D)} (hne : list ≠ []) :
    (Fails ins stages params table list ∧ ∃ status ≠ 0,
        pipelineTableRuleAddBulk ins stages running params table list = (status, none, table)) ∨
      ¬ Fails ins stages params table list ∧ ∃ k entries t',
        LlAdds ins stages (params.matchType = .acl) table.ll list k entries t' ∧
          pipelineTableRuleAddBulk ins stages running params table list =
            (0, some (k, list.length - k), table.after list entries t') := by
  have hempty : list.isEmpty = false := by simpa using hne
  unfold pipelineTableRuleAddBulk
  rw [hempty, if_neg Bool.false_ne_true]
  by_cases hchecks : ∃ rule ∈ list,
      matchCheck rule.ruleMatch params = false ∨ stages.check rule.action = false
  · rw [if_pos (by simpa using hchecks)]
    exact .inl ⟨.inl hchecks, -22, by decide, rfl⟩
  · rw [if_neg (by simpa using hchecks), Fails, or_iff_right hchecks]
    rcases tableRuleAddBulkLl_cases ins stages (params.matchType = .acl) table.ll hne with
      ⟨hfails, status, hll⟩ | ⟨hfails, k, entries, t', hadds, hll⟩
    · refine .inl ⟨hfails, ?_⟩
      cases running
      · exact ⟨status, status.2, by simp [hll]⟩
      · exact ⟨-1, by decide, by simp [pipelineMsgHandleTableRuleAddBulk, hll]⟩
    · obtain ⟨hrules, hrest⟩ := tableRuleAddBulk_writeBack ins stages hadds
      refine .inr ⟨hfails, k, entries, t', hadds, ?_⟩
      cases running
      · simp only [hll, hrules, hrest]
        rfl
      · simp only [pipelineMsgHandleTableRuleAddBulk, hll, hrules, hrest]
        rfl

/-- The two ways leave the same and fail together. -/
theorem running_agrees (params : TableParams) (table : Table T A D)
    (list : List (TableRule A D)) :
    (pipelineTableRuleAddBulk ins stages true params table list).2 =
        (pipelineTableRuleAddBulk ins stages false params table list).2 ∧
      ((pipelineTableRuleAddBulk ins stages true params table list).1 = 0 ↔
        (pipelineTableRuleAddBulk ins stages false params table list).1 = 0) := by
  unfold pipelineTableRuleAddBulk
  by_cases hempty : list.isEmpty
  · rw [if_pos hempty, if_pos hempty]
    exact ⟨rfl, Iff.rfl⟩
  rw [if_neg hempty, if_neg hempty]
  by_cases hchecks : list.any fun r => !matchCheck r.ruleMatch params || !stages.check r.action
  · rw [if_pos hchecks, if_pos hchecks]
    exact ⟨rfl, Iff.rfl⟩
  rw [if_neg hchecks, if_neg hchecks]
  cases hll : tableRuleAddBulkLl ins stages (params.matchType = .acl) table.ll list with
  | error status =>
    have hstatus : (status : Int) ≠ 0 := status.2
    simp [pipelineMsgHandleTableRuleAddBulk, hll, hstatus]
  | ok added =>
    obtain ⟨nRulesAdded, list', t'⟩ := added
    simp [pipelineMsgHandleTableRuleAddBulk, hll]

/-- **A bulk accounts for every rule.** On every list that is not empty: where a stage fails, an
error is returned and neither side of the table changes; elsewhere the library has received the
first `k ≥ 1` rules in order, `table->rules` is the result of adding exactly these in order, each
with its data pointer, and the two counters are `k` and the rest. A running pipeline leaves the
same as a stopped one, and fails where that one fails. -/
theorem bulkAdd_accounts (params : TableParams) (table : Table T A D) (first : TableRule A D)
    (rest : List (TableRule A D)) :
    let list := first :: rest
    let result running := pipelineTableRuleAddBulk ins stages running params table list
    (∀ running,
      (Fails ins stages params table list ∧ ∃ status ≠ 0,
          result running = (status, none, table)) ∨
        ¬ Fails ins stages params table list ∧ ∃ k entries t',
          LlAdds ins stages (params.matchType = .acl) table.ll list k entries t' ∧
            result running = (0, some (k, list.length - k), table.after list entries t')) ∧
      (result true).2 = (result false).2 ∧ ((result true).1 = 0 ↔ (result false).1 = 0) :=
  ⟨fun running => pipelineTableRuleAddBulk_cases ins stages running params table
    (List.cons_ne_nil first rest), running_agrees ins stages params table (first :: rest)⟩

/-! ### Over the table of entries -/

section Store

variable {κ : Type} [DecidableEq κ] (lib : LowLevel κ E D) (ops : ActionOps A E)

/-- Every failure of the library and of the conversion has status -1. -/
def failed : Status := ⟨-1, by decide⟩

/-- The entries are put one after the other, or none of them is. -/
def placeAll : List (LlEntry E D) → List (Mem × E) → Option (List (LlEntry E D) × List D)
  | ll, [] => some (ll, [])
  | ll, x :: xs =>
    match lib.place ll x.1 x.2 with
    | none => none
    | some data =>
      (placeAll (KeyedList.put lib.entryKey ⟨x.1, x.2, data⟩ ll) xs).map fun (ll', entries) =>
        (ll', data :: entries)

/-- Every entry that is placed is returned. -/
theorem length_of_placeAll {ll ll' : List (LlEntry E D)} {xs : List (Mem × E)} {entries : List D}
    (h : placeAll lib ll xs = some (ll', entries)) : entries.length = xs.length := by
  induction xs generalizing ll entries with
  | nil =>
    cases h
    rfl
  | cons x xs ih =>
    rw [placeAll] at h
    cases hplace : lib.place ll x.1 x.2 with
    | none => simp [hplace] at h
    | some data =>
      simp only [hplace, Option.map_eq_some_iff] at h
      obtain ⟨⟨ll₁, entries'⟩, hrest, heq⟩ := h
      cases heq
      exact congrArg (· + 1) (ih hrest)

/-- The insertions of a library that keeps a list of entries. -/
def Insertions.ofLowLevel : Insertions (List (LlEntry E D)) E D where
  add ll x :=
    match lib.place ll x.1 x.2 with
    | none => .error failed
    | some data => .ok (KeyedList.put lib.entryKey ⟨x.1, x.2, data⟩ ll, data)
  addBulk ll xs :=
    match placeAll lib ll xs with
    | none => .error failed
    | some added => .ok added
  addBulk_length := by
    intro ll xs ll' entries h
    cases hplace : placeAll lib ll xs with
    | none => simp [hplace] at h
    | some added =>
      rw [hplace] at h
      cases h
      exact length_of_placeAll lib hplace

/-- The stages of a profile whose conversion fails in one way. -/
def ActionStages.ofOps : ActionStages A E where
  check := ops.check
  convert action :=
    match ops.convert action with
    | none => .error failed
    | some e => .ok e

variable {lib ops} (data₀ : D)

/-- A node of the list, before it has a place. -/
def node (r : TableRuleMatch × A) : TableRule A D := ⟨r.1, r.2, data₀⟩

/-- Converting a node is converting its rule. -/
theorem convertRule_node (r : TableRuleMatch × A) :
    convertRule (ActionStages.ofOps ops) (node data₀ r) =
      match Pipeline.convertRule ops r with
      | none => .error failed
      | some x => .ok (x.params, x.entry) := by
  simp only [convertRule, Pipeline.convertRule, ActionStages.ofOps, node]
  cases matchConvert r.1 true with
  | none => rfl
  | some ml => cases ops.convert r.2 <;> rfl

/-- The first loop converts the rules as `convertAll` does. -/
theorem mapM_convertRule_node (list : List (TableRuleMatch × A)) :
    (list.map (node data₀)).mapM (convertRule (ActionStages.ofOps ops)) =
      match convertAll ops list with
      | none => .error failed
      | some xs => .ok (xs.map fun x => (x.params, x.entry)) := by
  induction list with
  | nil => rfl
  | cons r list ih =>
    rw [List.map_cons, List.mapM_cons, convertRule_node, ih, convertAll]
    cases Pipeline.convertRule ops r with
    | none => rfl
    | some x => cases convertAll ops list <;> rfl

/-- What the loop without bulk support adds is what `entryAddAll` places. -/
theorem addEach_ofLowLevel (ll : List (LlEntry E D)) (xs : List (Converted A E)) :
    addEach (Insertions.ofLowLevel lib) ll (xs.map fun x => (x.params, x.entry)) =
      ((entryAddAll lib ll xs).2, (entryAddAll lib ll xs).1.map Placed.data,
        if (entryAddAll lib ll xs).1.length = xs.length then none else some failed) := by
  induction xs generalizing ll with
  | nil => rfl
  | cons x xs ih =>
    rw [List.map_cons, addEach, entryAddAll]
    cases hplace : lib.place ll x.params x.entry with
    | none => simp [Insertions.ofLowLevel, hplace]
    | some data =>
      have hadd : (Insertions.ofLowLevel lib).add ll (x.params, x.entry) =
          .ok (KeyedList.put lib.entryKey ⟨x.params, x.entry, data⟩ ll, data) := by
        simp [Insertions.ofLowLevel, hplace]
      simp only [hadd, ih, List.length_cons, Nat.add_right_cancel_iff, List.map_cons]

/-- A bulk is placed whole or not at all. -/
theorem placeAll_eq (ll : List (LlEntry E D)) (xs : List (Converted A E)) :
    placeAll lib ll (xs.map fun x => (x.params, x.entry)) =
      if (entryAddAll lib ll xs).1.length = xs.length then
        some ((entryAddAll lib ll xs).2, (entryAddAll lib ll xs).1.map Placed.data)
      else none := by
  induction xs generalizing ll with
  | nil => rfl
  | cons x xs ih =>
    rw [List.map_cons, placeAll, entryAddAll]
    cases hplace : lib.place ll x.params x.entry with
    | none => simp
    | some data =>
      simp only [ih, List.length_cons, Nat.add_right_cancel_iff, List.map_cons]
      split_ifs <;> rfl

/-- The nodes that have got a place are the rules that are moved. -/
theorem take_writeBack_node {ll : List (LlEntry E D)} {list : List (TableRuleMatch × A)}
    {xs : List (Converted A E)} (h : convertAll ops list = some xs) :
    (writeBack (list.map (node data₀)) ((entryAddAll lib ll xs).1.map Placed.data)).take
        (entryAddAll lib ll xs).1.length = (entryAddAll lib ll xs).1.map Placed.rule := by
  induction list generalizing ll xs with
  | nil =>
    cases h
    rfl
  | cons r list ih =>
    rw [convertAll] at h
    cases hr : Pipeline.convertRule ops r with
    | none => simp [hr] at h
    | some x =>
      cases hlist : convertAll ops list with
      | none => simp [hr, hlist] at h
      | some xs' =>
        obtain rfl : x :: xs' = xs := by simpa [hr, hlist] using h
        rw [entryAddAll]
        cases hplace : lib.place ll x.params x.entry with
        | none => rfl
        | some data =>
          obtain ⟨-, hmatch, haction⟩ := convertRule_eq_some hr
          simp [writeBack, node, Placed.rule, hmatch, haction, ih hlist]

/-- The bulk on the nodes is the bulk on the store. -/
theorem tableRuleAddBulkLl_store (bulk : Bool) (ll : List (LlEntry E D))
    (list : List (TableRuleMatch × A)) :
    tableRuleAddBulkLl (Insertions.ofLowLevel lib) (ActionStages.ofOps ops) bulk ll
        (list.map (node data₀)) =
      match Pipeline.tableRuleAddBulkLl lib ops bulk ll list with
      | none => .error failed
      | some (placed, ll') =>
        .ok (placed.length, writeBack (list.map (node data₀)) (placed.map Placed.data), ll') := by
  unfold tableRuleAddBulkLl Pipeline.tableRuleAddBulkLl
  rw [mapM_convertRule_node]
  cases hconv : convertAll ops list with
  | none => rfl
  | some xs =>
    have hbulk : (Insertions.ofLowLevel lib).addBulk ll (xs.map fun x => (x.params, x.entry)) =
        if (entryAddAll lib ll xs).1.length = xs.length then
          .ok ((entryAddAll lib ll xs).2, (entryAddAll lib ll xs).1.map Placed.data)
        else .error failed := by
      simp only [Insertions.ofLowLevel, placeAll_eq]
      split_ifs <;> rfl
    simp only [bind, Except.bind, addEach_ofLowLevel, hbulk]
    generalize entryAddAll lib ll xs = added
    obtain ⟨placed, ll'⟩ := added
    by_cases hall : placed.length = xs.length
    · cases bulk <;> simp [hall, pure, Except.pure]
    · cases bulk with
      | true => simp [hall]
      | false =>
        simp only [if_neg hall]
        cases placed <;> simp [pure, Except.pure]

/-- What the function of the store returns, part by part. -/
theorem pipelineTableRuleAddBulk_parts (params : TableParams) (s : TableState lib A)
    (list : List (TableRuleMatch × A)) :
    let result := Pipeline.pipelineTableRuleAddBulk ops params s list
    (result.1, result.2.1, result.2.2.rules, result.2.2.ll) =
      if list.isEmpty then (-22, none, s.rules, s.ll)
      else if !list.all fun (m, action) => matchCheck m params && ops.check action then
        (-22, none, s.rules, s.ll)
      else
        match Pipeline.tableRuleAddBulkLl lib ops (params.matchType = .acl) s.ll list with
        | none => (-1, none, s.rules, s.ll)
        | some (placed, ll') =>
          (0, some (placed.length, list.length - placed.length),
            Pipeline.tableRuleAddBulk s.rules (placed.map Placed.rule), ll') := by
  intro result
  unfold result Pipeline.pipelineTableRuleAddBulk
  split_ifs
  · rfl
  · rfl
  · split
    · rename_i hnone
      rw [hnone]
    · rename_i placed ll' hadd
      dsimp only
      rw [hadd]

/-- **The function of the store.** Over the table of entries, and with a failure of one kind, a
bulk does what `pipelineTableRuleAddBulk` of `RuleStore` does, in either way. -/
theorem pipelineTableRuleAddBulk_store (running : Bool) (params : TableParams)
    (s : TableState lib A) (list : List (TableRuleMatch × A)) :
    let result := pipelineTableRuleAddBulk (Insertions.ofLowLevel lib) (ActionStages.ofOps ops)
      running params ⟨s.rules, s.ll⟩ (list.map (node data₀))
    let stored := Pipeline.pipelineTableRuleAddBulk ops params s list
    (result.1, result.2.1, result.2.2.rules, result.2.2.ll) =
      (stored.1, stored.2.1, stored.2.2.rules, stored.2.2.ll) := by
  have hchecks : ((list.map (node data₀)).any fun r =>
      !matchCheck r.ruleMatch params || !(ActionStages.ofOps ops).check r.action) =
        !list.all fun (m, action) => matchCheck m params && ops.check action := by
    simp [List.any_map, List.all_eq_not_any_not, node, ActionStages.ofOps, Function.comp_def]
  intro result stored
  rw [pipelineTableRuleAddBulk_parts]
  unfold result pipelineTableRuleAddBulk pipelineMsgHandleTableRuleAddBulk
  rw [List.isEmpty_map, hchecks, tableRuleAddBulkLl_store]
  by_cases hempty : list.isEmpty
  · rw [if_pos hempty, if_pos hempty]
  by_cases hfails : !list.all fun (m, action) => matchCheck m params && ops.check action
  · rw [if_neg hempty, if_neg hempty, if_pos hfails, if_pos hfails]
  rw [if_neg hempty, if_neg hempty, if_neg hfails, if_neg hfails]
  cases hll : Pipeline.tableRuleAddBulkLl lib ops (params.matchType = .acl) s.ll list with
  | none => cases running <;> rfl
  | some added =>
    obtain ⟨placed, ll'⟩ := added
    obtain ⟨xs, hconv, hplaced⟩ := tableRuleAddBulkLl_eq_some hll
    have hmoved : (writeBack (list.map (node data₀)) ((entryAddAll lib s.ll xs).1.map
        Placed.data)).take (entryAddAll lib s.ll xs).1.length = _ :=
      take_writeBack_node data₀ hconv
    rw [hplaced] at hmoved
    have hrest : ((writeBack (list.map (node data₀)) (placed.map Placed.data)).drop
        placed.length).length = list.length - placed.length := by
      rw [List.length_drop, writeBack_length, List.length_map]
    cases running <;>
      simp [RuleList.tableRuleAddBulk_eq, hmoved, hrest, Pipeline.tableRuleAddBulk]

end Store

end Rids.Pipeline.BulkAdd
