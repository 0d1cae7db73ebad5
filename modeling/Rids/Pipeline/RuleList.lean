import Rids.Pipeline.RuleStore

/-!
# The rule list as a finite map (`pipeline.c`)

`table_rule_add_bulk` moves nodes from one list to another, one at a time, with the insertion of
`table_rule_add`. `Op` is a call of one of the three operations on `table->rules`.

* `tableRuleAddBulk_eq` — the loop adds the first rules of the list, and removes exactly these.
* `runOps_eq_run` — a run of calls is a run of updates of a keyed list.
* `ruleList_finiteMap` — hence no two rules have one match, and a find returns what the latest
  add or delete of that match has left.
-/

namespace Rids.Pipeline.RuleList

open Rids.Lib

variable {A D : Type}

/-- The rules, and what is left of the list.
Source: `pipeline.c` `table_rule_add_bulk`
Kind: D -/
def tableRuleAddBulk : List (TableRule A D) → List (TableRule A D) → ℕ →
    List (TableRule A D) × List (TableRule A D)
  | rules, list, 0 => (rules, list)
  | rules, [], _ + 1 => (rules, [])
  | rules, newRule :: list, nRules + 1 => tableRuleAddBulk (tableRuleAdd rules newRule) list nRules

/-- **The loop.** -/
theorem tableRuleAddBulk_eq (rules list : List (TableRule A D)) (nRules : ℕ) :
    tableRuleAddBulk rules list nRules =
      ((list.take nRules).foldl tableRuleAdd rules, list.drop nRules) := by
  induction list generalizing rules nRules with
  | nil => cases nRules <;> rfl
  | cons newRule list ih =>
    cases nRules with
    | zero => rfl
    | succ nRules =>
      rw [tableRuleAddBulk, ih]
      rfl

/-! ### Runs -/

/-- A call. -/
inductive Op (A D : Type)
  | add (newRule : TableRule A D)
  | addBulk (list : List (TableRule A D)) (nRules : ℕ)
  | delete (m : TableRuleMatch)

/-- The rules after a call. -/
def Op.apply (rules : List (TableRule A D)) : Op A D → List (TableRule A D)
  | .add newRule => tableRuleAdd rules newRule
  | .addBulk list nRules => (tableRuleAddBulk rules list nRules).1
  | .delete m => tableRuleDelete rules m

/-- The rules after a sequence of calls on a table that starts empty. -/
def runOps (ops : List (Op A D)) : List (TableRule A D) := ops.foldl Op.apply []

/-- What a call adds and deletes, in order. -/
def Op.updates : Op A D → List (KeyedList.Update (TableRule A D) (TableType × List (BitVec 8)))
  | .add newRule => [.put newRule]
  | .addBulk list nRules => (list.take nRules).map .put
  | .delete m => [.erase m.key]

/-- An operation on the list is a run of updates. -/
theorem apply_eq_foldl (rules : List (TableRule A D)) (op : Op A D) :
    op.apply rules = op.updates.foldl (KeyedList.Update.apply TableRule.key) rules := by
  cases op with
  | add newRule => exact tableRuleAdd_eq_put rules newRule
  | delete m => exact tableRuleDelete_eq_erase rules m
  | addBulk list nRules =>
    have hadd : tableRuleAdd (A := A) (D := D) = fun rules newRule =>
        KeyedList.Update.apply TableRule.key rules (.put newRule) := by
      funext rules newRule
      exact tableRuleAdd_eq_put rules newRule
    rw [Op.apply, tableRuleAddBulk_eq, Op.updates, List.foldl_map, hadd]

/-- **A run of calls is a run of updates.** -/
theorem runOps_eq_run (ops : List (Op A D)) :
    runOps ops = KeyedList.run TableRule.key (ops.flatMap Op.updates) := by
  unfold runOps KeyedList.run
  rw [List.foldl_flatMap]
  congr 1
  funext rules op
  exact apply_eq_foldl rules op

/-- A replacement keeps the position. -/
theorem tableRuleAdd_eq_set {rules : List (TableRule A D)}
    (hrules : KeyedList.Distinct TableRule.key rules) {newRule old : TableRule A D} {i : ℕ}
    (hi : rules[i]? = some old) (hsame : old.ruleMatch.Same newRule.ruleMatch) :
    tableRuleAdd rules newRule = rules.set i newRule := by
  obtain ⟨hlt, rfl⟩ := List.getElem?_eq_some_iff.mp hi
  have hkey : (rules[i]).key = newRule.key := TableRuleMatch.same_iff.mp hsame
  have hfirst : rules.findIdx? (fun r => r.key = newRule.key) = some i := by
    rw [List.findIdx?_eq_some_iff_getElem]
    refine ⟨hlt, by simpa using hkey, fun j hj => ?_⟩
    have hjlt : j < rules.length := hj.trans hlt
    have hne : rules[j].key ≠ rules[i].key :=
      List.pairwise_iff_getElem.mp (List.pairwise_map.mp hrules) j i hjlt hlt hj
    simpa [hkey] using hne
  rw [tableRuleAdd_eq_put, KeyedList.put_eq_set hfirst]

/-- **The rule list is a finite map.** After every sequence of calls on a table that starts empty:
no two rules have equal matches; a find returns the rule most recently added with the match and
not deleted since; a new rule goes to the end, and one that replaces another takes its position;
and a bulk adds the first rules of its list in order and removes exactly these from it. -/
theorem ruleList_finiteMap (ops : List (Op A D)) :
    (runOps ops).Pairwise (fun r r' => ¬ r.ruleMatch.Same r'.ruleMatch) ∧
      (∀ m, tableRuleFind (runOps ops) m =
        KeyedList.latest TableRule.key (ops.flatMap Op.updates) m.key) ∧
      (∀ newRule, tableRuleFind (runOps ops) newRule.ruleMatch = none →
        tableRuleAdd (runOps ops) newRule = runOps ops ++ [newRule]) ∧
      (∀ newRule old i, (runOps ops)[i]? = some old → old.ruleMatch.Same newRule.ruleMatch →
        tableRuleAdd (runOps ops) newRule = (runOps ops).set i newRule) ∧
      (∀ list k, tableRuleAddBulk (runOps ops) list k =
        ((list.take (min k list.length)).foldl tableRuleAdd (runOps ops),
          list.drop (min k list.length))) := by
  have hdistinct : KeyedList.Distinct TableRule.key (runOps ops) :=
    runOps_eq_run ops ▸ KeyedList.distinct_run _
  refine ⟨?_, fun m => ?_, fun newRule hnone => ?_, fun newRule old i hi hsame => ?_,
    fun list k => ?_⟩
  · refine (List.pairwise_map.mp hdistinct).imp fun hne hsame => ?_
    exact hne (TableRuleMatch.same_iff.mp hsame)
  · rw [tableRuleFind_eq_find, runOps_eq_run, KeyedList.find_run]
  · rw [tableRuleFind_eq_find] at hnone
    rw [tableRuleAdd_eq_put, KeyedList.put_eq_append hnone]
  · exact tableRuleAdd_eq_set hdistinct hi hsame
  · rw [tableRuleAddBulk_eq]
    rcases le_total k list.length with h | h
    · rw [min_eq_left h]
    · rw [min_eq_right h, List.take_of_length_le h, List.take_length, List.drop_of_length_le h,
        List.drop_length]

end Rids.Pipeline.RuleList
