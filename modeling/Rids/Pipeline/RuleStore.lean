import Mathlib.Data.List.InsertIdx
import Rids.Lib.KeyedList
import Rids.Pipeline.MatchConvert

/-!
# The rules of a table (`pipeline.c`, `thread.c`)

A table keeps its rules twice: the list `table->rules`, by match, and the table of the library, by
a key the library reads from the low-level rule. `pipeline_table_rule_add` and
`pipeline_table_rule_delete` update both; the key of a delete is read from another arm of the
union than the key of an add.

* `tableRuleAdd_eq_put`, `tableRuleDelete_eq_erase` — the list operations of the source are the
  updates of a keyed list.
* `tableRuleFind_tableRuleAdd`, `tableRuleFind_tableRuleDelete` — what is found afterwards.
* `pipelineTableRuleAddBulk` — a list of rules in one call; `distinct_tableRuleAddBulk` and
  `distinct_entryAddAll` keep both sides well formed.
* `removed_iff` — after an add, a delete of the same match removes the rule from both exactly when
  the two keys are equal.
-/

namespace Rids.Pipeline

open Rids.Lib.ByteMem Rids.Lib

/-! ### The rule list -/

/-- Source: `pipeline.h` `struct table_rule`. Kind: D -/
structure TableRule (A D : Type) where
  ruleMatch : TableRuleMatch
  action : A
  data : D

/-- What `memcmp` of two matches compares. -/
def TableRuleMatch.key (m : TableRuleMatch) : TableType × List (BitVec 8) :=
  (m.matchType, m.mem.bytes matchUnionSize)

/-- Matches are the same exactly when their keys are equal. -/
theorem TableRuleMatch.same_iff {m m' : TableRuleMatch} : m.Same m' ↔ m.key = m'.key := by
  rw [Same, key, key, Prod.mk.injEq, Mem.bytes_eq_iff]

section Rules

variable {A D : Type}

/-- The key of a rule in `table->rules`. -/
def TableRule.key (r : TableRule A D) : TableType × List (BitVec 8) := r.ruleMatch.key

variable (rules : List (TableRule A D))

/-- Source: `pipeline.c` `table_rule_find`. Kind: D -/
def tableRuleFind (m : TableRuleMatch) : Option (TableRule A D) :=
  rules.find? fun r => r.ruleMatch.Same m

/-- `TAILQ_INSERT_TAIL`, or `TAILQ_INSERT_AFTER` the existing rule and `TAILQ_REMOVE` it.
Source: `pipeline.c` `table_rule_add`
Kind: D -/
def tableRuleAdd (newRule : TableRule A D) : List (TableRule A D) :=
  match rules.findIdx? fun r => r.ruleMatch.Same newRule.ruleMatch with
  | none => rules ++ [newRule]
  | some i => (rules.insertIdx (i + 1) newRule).eraseIdx i

/-- Source: `pipeline.c` `table_rule_delete`. Kind: D -/
def tableRuleDelete (m : TableRuleMatch) : List (TableRule A D) :=
  match rules.findIdx? fun r => r.ruleMatch.Same m with
  | none => rules
  | some i => rules.eraseIdx i

/-- The comparison of matches is a comparison of keys. -/
theorem same_eq_key_eq (m : TableRuleMatch) :
    (fun r : TableRule A D => decide (r.ruleMatch.Same m)) = fun r => decide (r.key = m.key) :=
  funext fun _ => decide_eq_decide.mpr TableRuleMatch.same_iff

/-- `table_rule_find` is the search for the key. -/
theorem tableRuleFind_eq_find (m : TableRuleMatch) :
    tableRuleFind rules m = KeyedList.find TableRule.key rules m.key := by
  rw [tableRuleFind, same_eq_key_eq, KeyedList.find]

/-- Inserting behind a place and removing the place replaces it. -/
theorem eraseIdx_insertIdx_succ {α : Type} (l : List α) {i : ℕ} (h : i < l.length) (x : α) :
    (l.insertIdx (i + 1) x).eraseIdx i = l.set i x := by
  induction l generalizing i with
  | nil => simp at h
  | cons y l ih =>
    cases i with
    | zero => rfl
    | succ i =>
      rw [List.insertIdx_succ_cons, List.eraseIdx_cons_succ, List.set_cons_succ,
        ih (Nat.lt_of_succ_lt_succ h)]

/-- `table_rule_add` is the put under the key. -/
theorem tableRuleAdd_eq_put (newRule : TableRule A D) :
    tableRuleAdd rules newRule = KeyedList.put TableRule.key newRule rules := by
  rw [tableRuleAdd, same_eq_key_eq]
  cases h : rules.findIdx? fun r => r.key = newRule.ruleMatch.key with
  | none =>
    refine (KeyedList.put_eq_append (KeyedList.find_eq_none_iff.mpr fun r hr => ?_)).symm
    exact of_decide_eq_false (List.findIdx?_eq_none_iff.mp h r hr)
  | some i =>
    obtain ⟨hlt, -⟩ := List.findIdx?_eq_some_iff_getElem.mp h
    exact (eraseIdx_insertIdx_succ rules hlt newRule).trans (KeyedList.put_eq_set h).symm

/-- `table_rule_delete` is the erase of the key. -/
theorem tableRuleDelete_eq_erase (m : TableRuleMatch) :
    tableRuleDelete rules m = KeyedList.erase TableRule.key rules m.key := by
  rw [tableRuleDelete, same_eq_key_eq]
  exact List.eraseP_eq_eraseIdx.symm

/-- What is found after an add: the new rule under its match, all else as before. -/
theorem tableRuleFind_tableRuleAdd (newRule : TableRule A D) (m : TableRuleMatch) :
    tableRuleFind (tableRuleAdd rules newRule) m =
      if m.Same newRule.ruleMatch then some newRule else tableRuleFind rules m := by
  rw [tableRuleFind_eq_find, tableRuleFind_eq_find, tableRuleAdd_eq_put]
  split_ifs with h
  · rw [TableRuleMatch.same_iff.mp h]
    exact KeyedList.find_put_self newRule rules
  · exact KeyedList.find_put_of_ne fun hkey => h (TableRuleMatch.same_iff.mpr hkey)

/-- What is found after a delete: nothing under its match, all else as before. -/
theorem tableRuleFind_tableRuleDelete (hrules : KeyedList.Distinct TableRule.key rules)
    (m m' : TableRuleMatch) : tableRuleFind (tableRuleDelete rules m) m' =
      if m'.Same m then none else tableRuleFind rules m' := by
  rw [tableRuleFind_eq_find, tableRuleFind_eq_find, tableRuleDelete_eq_erase]
  split_ifs with h
  · rw [TableRuleMatch.same_iff.mp h]
    exact KeyedList.find_erase_self hrules
  · exact KeyedList.find_erase_of_ne fun hkey => h (TableRuleMatch.same_iff.mpr hkey)

end Rules

/-! ### The table of the library -/

/-- An entry of the table of the library: the parameters it was added with, the converted action,
and the place `data` that the library keeps it at. -/
structure LlEntry (E D : Type) where
  params : Mem
  entry : E
  data : D

/-- A table of the library, as the pipeline calls it. An entry is found by a key that the library
reads from the parameters of an add, or of a delete. `place` is where an add puts its entry,
`none` when it fails; an add evicts no entry of another key, as it may in a hash table that is
created with `lru`. `deleteMissing` is the status of a delete that finds no entry. -/
structure LowLevel (κ E D : Type) where
  addKey : Mem → κ
  deleteKey : Mem → κ
  place : List (LlEntry E D) → Mem → E → Option D
  deleteMissing : Int

/-- The key of an entry. -/
def LowLevel.entryKey {κ E D : Type} (lib : LowLevel κ E D) (e : LlEntry E D) : κ :=
  lib.addKey e.params

/-- The field values that an arm of the union carries, as one string of bytes. -/
def fieldValues (arm : Arm) (nFields : ℕ) (ml : Mem) : List (BitVec 8) :=
  (ml.drop arm.fieldValueOff).bytes (16 * nFields)

/-- An ACL table with rules of `nFields` fields: a rule is found by comparing its field values
bytewise, read from the arm `acl_add` or `acl_delete`. -/
def LowLevel.acl {E D : Type} (nFields : ℕ) (place : List (LlEntry E D) → Mem → E → Option D)
    (deleteMissing : Int) : LowLevel (List (BitVec 8)) E D where
  addKey := fieldValues .aclAdd nFields
  deleteKey := fieldValues .aclDelete nFields
  place := place
  deleteMissing := deleteMissing

/-- A hash table: an entry is found by the first `keySize` bytes of its key. -/
def LowLevel.hash {E D : Type} (keySize : ℕ) (place : List (LlEntry E D) → Mem → E → Option D)
    (deleteMissing : Int) : LowLevel (List (BitVec 8)) E D where
  addKey ml := ml.bytes keySize
  deleteKey ml := ml.bytes keySize
  place := place
  deleteMissing := deleteMissing

/-- The leading `depth` bits of the address of an LPM rule, and the depth. The address is an
integer in a table for ipv4, 16 bytes in a table for ipv6. -/
def lpmPrefix (keySize : BitVec 32) (ml : Mem) : ℕ × ℕ :=
  if keySize = 4 then (ml.load 0 4 / 2 ^ (32 - ml.load 4 1), ml.load 4 1)
  else (ml.beLoad 16 / 2 ^ (128 - ml.load 16 1), ml.load 16 1)

/-- An LPM table: an entry is found by its prefix. -/
def LowLevel.lpm {E D : Type} (keySize : BitVec 32)
    (place : List (LlEntry E D) → Mem → E → Option D) (deleteMissing : Int) :
    LowLevel (ℕ × ℕ) E D where
  addKey := lpmPrefix keySize
  deleteKey := lpmPrefix keySize
  place := place
  deleteMissing := deleteMissing

/-- `action_check` and `action_convert`, for the profile of a table. -/
structure ActionOps (A E : Type) where
  check : A → Bool
  convert : A → Option E

/-! ### Adding and deleting rules -/

section Pipeline

variable {κ A E D : Type} [DecidableEq κ]

/-- The rules of a table, on both sides. -/
structure TableState (lib : LowLevel κ E D) (A : Type) where
  rules : List (TableRule A D)
  ll : List (LlEntry E D)
  rules_distinct : KeyedList.Distinct TableRule.key rules
  ll_distinct : KeyedList.Distinct lib.entryKey ll

variable {lib : LowLevel κ E D}

/-- A created table. -/
def TableState.empty : TableState lib A := ⟨[], [], List.nodup_nil, List.nodup_nil⟩

/-- Status and state. The calls into the library by a stopped pipeline, and the request to the
thread that runs the pipeline, do the same.
Source: `thread.c` `pipeline_table_rule_add`, `pipeline_msg_handle_table_rule_add`
Kind: D -/
def pipelineTableRuleAdd (ops : ActionOps A E) (params : TableParams) (s : TableState lib A)
    (m : TableRuleMatch) (action : A) : Int × TableState lib A :=
  if !matchCheck m params || !ops.check action then (-1, s)
  else
    match matchConvert m true, ops.convert action with
    | some ml, some e =>
      match lib.place s.ll ml e with
      | none => (-1, s)
      | some data =>
        (0,
          { rules := tableRuleAdd s.rules ⟨m, action, data⟩
            ll := KeyedList.put lib.entryKey ⟨ml, e, data⟩ s.ll
            rules_distinct := tableRuleAdd_eq_put s.rules _ ▸ s.rules_distinct.put _
            ll_distinct := s.ll_distinct.put _ })
    | _, _ => (-1, s)

/-- The status of `rte_pipeline_table_entry_delete`. -/
def LowLevel.deleteStatus (lib : LowLevel κ E D) (ll : List (LlEntry E D)) (ml : Mem) : Int :=
  if (KeyedList.find lib.entryKey ll (lib.deleteKey ml)).isSome then 0 else lib.deleteMissing

/-- Status and state.
Source: `thread.c` `pipeline_table_rule_delete`, `pipeline_msg_handle_table_rule_delete`
Kind: D -/
def pipelineTableRuleDelete (params : TableParams) (s : TableState lib A) (m : TableRuleMatch) :
    Int × TableState lib A :=
  if !matchCheck m params then (-1, s)
  else
    match matchConvert m false with
    | none => (-1, s)
    | some ml =>
      let status := lib.deleteStatus s.ll ml
      (status,
        { rules := if status = 0 then tableRuleDelete s.rules m else s.rules
          ll := KeyedList.erase lib.entryKey s.ll (lib.deleteKey ml)
          rules_distinct := by
            split_ifs
            · exact tableRuleDelete_eq_erase s.rules m ▸ s.rules_distinct.erase _
            · exact s.rules_distinct
          ll_distinct := s.ll_distinct.erase _ })

/-! ### Adding a list of rules -/

/-- A rule of a bulk with what `match_convert` and `action_convert` make of it. -/
structure Converted (A E : Type) where
  ruleMatch : TableRuleMatch
  action : A
  params : Mem
  entry : E

/-- A converted rule that the library has put at `data`. -/
structure Placed (A E D : Type) extends Converted A E where
  data : D

/-- The rule that `table_rule_add_bulk` moves to `table->rules`. -/
def Placed.rule {A E D : Type} (x : Placed A E D) : TableRule A D := ⟨x.ruleMatch, x.action, x.data⟩

/-- One turn of the first loop of `table_rule_add_bulk_ll`. -/
def convertRule (ops : ActionOps A E) (r : TableRuleMatch × A) : Option (Converted A E) :=
  match matchConvert r.1 true, ops.convert r.2 with
  | some ml, some e => some ⟨r.1, r.2, ml, e⟩
  | _, _ => none

/-- A converted rule keeps match and action. -/
theorem convertRule_eq_some {ops : ActionOps A E} {r : TableRuleMatch × A} {x : Converted A E}
    (h : convertRule ops r = some x) :
    matchConvert x.ruleMatch true = some x.params ∧ x.ruleMatch = r.1 ∧ x.action = r.2 := by
  unfold convertRule at h
  cases hml : matchConvert r.1 true with
  | none => simp [hml] at h
  | some ml =>
    cases he : ops.convert r.2 with
    | none => simp [hml, he] at h
    | some e =>
      simp only [hml, he, Option.some.injEq] at h
      subst h
      exact ⟨hml, rfl, rfl⟩

/-- The first loop of `table_rule_add_bulk_ll`: all rules are converted before any is added. -/
def convertAll (ops : ActionOps A E) : List (TableRuleMatch × A) → Option (List (Converted A E))
  | [] => some []
  | r :: list =>
    match convertRule ops r, convertAll ops list with
    | some x, some xs => some (x :: xs)
    | _, _ => none

/-- Adds the converted rules one after the other, up to the first that the library refuses. -/
def entryAddAll (lib : LowLevel κ E D) :
    List (LlEntry E D) → List (Converted A E) → List (Placed A E D) × List (LlEntry E D)
  | ll, [] => ([], ll)
  | ll, x :: xs =>
    match lib.place ll x.params x.entry with
    | none => ([], ll)
    | some data =>
      let (placed, ll') :=
        entryAddAll lib (KeyedList.put lib.entryKey ⟨x.params, x.entry, data⟩ ll) xs
      ({ x with data := data } :: placed, ll')

/-- The rules that got an entry and the table of the library, `none` on an error. The library
adds a bulk whole or not at all; without bulk support what was added before a refusal stays.
Source: `thread.c` `table_rule_add_bulk_ll`
Kind: D -/
def tableRuleAddBulkLl (lib : LowLevel κ E D) (ops : ActionOps A E) (bulkSupported : Bool)
    (ll : List (LlEntry E D)) (list : List (TableRuleMatch × A)) :
    Option (List (Placed A E D) × List (LlEntry E D)) :=
  match convertAll ops list with
  | none => none
  | some xs =>
    let (placed, ll') := entryAddAll lib ll xs
    if placed.length = xs.length then some (placed, ll')
    else if bulkSupported ∨ placed.length = 0 then none
    else some (placed, ll')

/-- What a bulk does when it does not fail. -/
theorem tableRuleAddBulkLl_eq_some {ops : ActionOps A E} {bulkSupported : Bool}
    {ll ll' : List (LlEntry E D)} {list : List (TableRuleMatch × A)} {placed : List (Placed A E D)}
    (h : tableRuleAddBulkLl lib ops bulkSupported ll list = some (placed, ll')) :
    ∃ xs, convertAll ops list = some xs ∧ entryAddAll lib ll xs = (placed, ll') := by
  unfold tableRuleAddBulkLl at h
  cases hconv : convertAll ops list with
  | none => simp [hconv] at h
  | some xs =>
    refine ⟨xs, rfl, ?_⟩
    simp only [hconv] at h
    split_ifs at h <;> exact Option.some.inj h

/-- Source: `pipeline.c` `table_rule_add_bulk`. Kind: D -/
def tableRuleAddBulk (rules newRules : List (TableRule A D)) : List (TableRule A D) :=
  newRules.foldl tableRuleAdd rules

/-- A bulk keeps the matches distinct. -/
theorem distinct_tableRuleAddBulk {rules : List (TableRule A D)}
    (h : KeyedList.Distinct TableRule.key rules) (newRules : List (TableRule A D)) :
    KeyedList.Distinct TableRule.key (tableRuleAddBulk rules newRules) := by
  unfold tableRuleAddBulk
  induction newRules generalizing rules with
  | nil => exact h
  | cons r newRules ih =>
    rw [List.foldl_cons, tableRuleAdd_eq_put]
    exact ih (h.put r)

/-- The adds of a bulk keep the keys distinct. -/
theorem distinct_entryAddAll {ll : List (LlEntry E D)} (h : KeyedList.Distinct lib.entryKey ll)
    (xs : List (Converted A E)) :
    KeyedList.Distinct lib.entryKey (entryAddAll lib ll xs).2 := by
  induction xs generalizing ll with
  | nil => exact h
  | cons x xs ih =>
    rw [entryAddAll]
    cases lib.place ll x.params x.entry with
    | none => exact h
    | some data => exact ih (h.put _)

/-- Both ways of a bulk keep the keys distinct. -/
theorem distinct_tableRuleAddBulkLl {ops : ActionOps A E} {bulkSupported : Bool}
    {ll ll' : List (LlEntry E D)} {list : List (TableRuleMatch × A)}
    {placed : List (Placed A E D)} (h : KeyedList.Distinct lib.entryKey ll)
    (hadd : tableRuleAddBulkLl lib ops bulkSupported ll list = some (placed, ll')) :
    KeyedList.Distinct lib.entryKey ll' := by
  unfold tableRuleAddBulkLl at hadd
  cases hconv : convertAll ops list with
  | none => simp [hconv] at hadd
  | some xs =>
    have hdistinct := distinct_entryAddAll h xs
    simp only [hconv] at hadd
    split_ifs at hadd <;> cases hadd <;> exact hdistinct

/-- Status, `n_rules_added` and `n_rules_not_added` where they are written, and state. A pipeline
that is not running returns the status of the conversion or of the library in place of -1.
Source: `thread.c` `pipeline_table_rule_add_bulk`, `pipeline_msg_handle_table_rule_add_bulk`
Kind: D -/
def pipelineTableRuleAddBulk (ops : ActionOps A E) (params : TableParams) (s : TableState lib A)
    (list : List (TableRuleMatch × A)) : Int × Option (ℕ × ℕ) × TableState lib A :=
  if list.isEmpty then (-22, none, s)
  else if !list.all fun (m, action) => matchCheck m params && ops.check action then (-22, none, s)
  else
    match hadd : tableRuleAddBulkLl lib ops (params.matchType = .acl) s.ll list with
    | none => (-1, none, s)
    | some (placed, ll') =>
      (0, some (placed.length, list.length - placed.length),
        { rules := tableRuleAddBulk s.rules (placed.map Placed.rule)
          ll := ll'
          rules_distinct := distinct_tableRuleAddBulk s.rules_distinct _
          ll_distinct := distinct_tableRuleAddBulkLl s.ll_distinct hadd })

/-! ### A rule that was added, and the delete of its match -/

/-- What an add that succeeds does. -/
theorem pipelineTableRuleAdd_eq_zero {ops : ActionOps A E} {params : TableParams}
    {s s' : TableState lib A} {m : TableRuleMatch} {action : A}
    (h : pipelineTableRuleAdd ops params s m action = (0, s')) :
    matchCheck m params = true ∧ ∃ ml e data, matchConvert m true = some ml ∧
      s'.rules = tableRuleAdd s.rules ⟨m, action, data⟩ ∧
      s'.ll = KeyedList.put lib.entryKey ⟨ml, e, data⟩ s.ll := by
  unfold pipelineTableRuleAdd at h
  split_ifs at h with hcheck
  · exact absurd (show (-1 : Int) = 0 from congrArg Prod.fst h) (by decide)
  have hmatch : matchCheck m params = true := by
    cases hm : matchCheck m params with
    | true => rfl
    | false => simp [hm] at hcheck
  refine ⟨hmatch, ?_⟩
  cases hml : matchConvert m true with
  | none => simp [hml] at h
  | some ml =>
    cases he : ops.convert action with
    | none => simp [hml, he] at h
    | some e =>
      cases hplace : lib.place s.ll ml e with
      | none => simp [hml, he, hplace] at h
      | some data =>
        simp only [hml, he, hplace, Prod.mk.injEq, true_and] at h
        subst h
        exact ⟨ml, e, data, rfl, rfl, rfl⟩

/-- The rule with match `m` is gone: from the rule list, and from the table of the library, where
it was added with the parameters `ml`. -/
def TableState.Removed (s : TableState lib A) (m : TableRuleMatch) (ml : Mem) : Prop :=
  tableRuleFind s.rules m = none ∧ KeyedList.find lib.entryKey s.ll (lib.addKey ml) = none

/-- **Add, then delete.** -/
theorem removed_iff {ops : ActionOps A E} {params : TableParams} {s s' : TableState lib A}
    {m : TableRuleMatch} {action : A} {addMl deleteMl : Mem}
    (hadd : pipelineTableRuleAdd ops params s m action = (0, s'))
    (haddMl : matchConvert m true = some addMl)
    (hdeleteMl : matchConvert m false = some deleteMl) :
    (pipelineTableRuleDelete params s' m).2.Removed m addMl ↔
      lib.deleteKey deleteMl = lib.addKey addMl := by
  obtain ⟨hcheck, ml, e, data, hml, hrules, hll⟩ := pipelineTableRuleAdd_eq_zero hadd
  obtain rfl : addMl = ml := Option.some.inj (haddMl.symm.trans hml)
  have hfound : KeyedList.find lib.entryKey s'.ll (lib.addKey addMl) = some ⟨addMl, e, data⟩ :=
    hll ▸ KeyedList.find_put_self _ _
  simp only [pipelineTableRuleDelete, hcheck, hdeleteMl, Bool.not_true, Bool.false_eq_true,
    if_false, TableState.Removed]
  constructor
  · rintro ⟨-, hgone⟩
    by_contra hne
    rw [KeyedList.find_erase_of_ne (Ne.symm hne), hfound] at hgone
    cases hgone
  · intro hkey
    have hstatus : lib.deleteStatus s'.ll deleteMl = 0 := by
      rw [LowLevel.deleteStatus, hkey, hfound]
      rfl
    rw [if_pos hstatus, hkey, tableRuleFind_tableRuleDelete _ s'.rules_distinct,
      if_pos (TableRuleMatch.same_iff.mpr rfl)]
    exact ⟨rfl, KeyedList.find_erase_self s'.ll_distinct⟩

end Pipeline

end Rids.Pipeline
