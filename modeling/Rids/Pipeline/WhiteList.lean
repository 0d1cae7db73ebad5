import Rids.Lib.Replay
import Rids.Pipeline.RuleCommand

/-!
# Reading a white list again after it has grown

When `white_list.txt` grows, the dispatch loop runs all of it again. Each command sets what the
table holds under one match, clears it, or fails and leaves it; so does each command for the
default rule. A script that runs after its own beginning leaves what it leaves alone.

* `ruleCell_exec` — what a command does under one match; `overwrites_actRule` — it sets, clears or
  leaves alone.
* `view_execAll_replay` — one table.
* `view_grown_whiteList` — the dispatch loop.
-/

namespace Rids.Pipeline

open Rids.Lib.ByteMem Rids.Lib Rids.Lib.Replay

section Table

variable {κ E D S : Type} {c : TableConf κ E D S}

/-! ### What a table holds -/

/-- The action under each match. -/
def TableContents.actionOf (t : TableContents c) (m : TableRuleMatch) :
    Option (TableRuleAction S) :=
  (tableRuleFind t.rules.rules m).map TableRule.action

/-- The map from match to action, and the default rule. -/
def TableContents.view (t : TableContents c) :
    (TableRuleMatch → Option (TableRuleAction S)) × Option FwdAction :=
  (t.actionOf, t.ruleDefault)

/-- The match of an operation. -/
def TableOp.ruleMatch? : TableOp S → Option TableRuleMatch
  | .add m _ => some m
  | .delete m => some m
  | .addDefault _ => none
  | .deleteDefault => none

/-- The match is named by one of the operations, and the table takes it. -/
def Named (c : TableConf κ E D S) (ops : List (TableOp S)) (m : TableRuleMatch) : Prop :=
  matchCheck m c.params = true ∧ ∃ op ∈ ops, op.ruleMatch? = some m

/-- What the pipeline relies on: the library accepts every rule, and it takes two of the matches
that are named for the same rule exactly when `table_rule_find` does. -/
structure Keyed (c : TableConf κ E D S) (ops : List (TableOp S)) : Prop where
  accepts : ∀ ll ml e, (c.lib.place ll ml e).isSome
  same_iff : ∀ m m', Named c ops m → Named c ops m' → ∀ ml ml', matchConvert m true = some ml →
    matchConvert m' false = some ml' → (c.lib.deleteKey ml' = c.lib.addKey ml ↔ m'.Same m)

/-- A match converts for a delete exactly when it converts for an add. -/
theorem matchConvert_isSome (m : TableRuleMatch) :
    (matchConvert m false).isSome = (matchConvert m true).isSome := by
  unfold matchConvert matchConvertAssigns
  cases m.matchType with
  | acl =>
    simp only [Option.isSome_map, aclAssigns]
    by_cases hipv4 : m.mem.get Acl.ipVersion = 1
    · rw [if_pos hipv4, if_pos hipv4]
      rfl
    · by_cases hraw : m.mem.get Acl.ipVersion = 2
      · rw [if_neg hipv4, if_neg hipv4, if_pos hraw, if_pos hraw]
        rfl
      rw [if_neg hipv4, if_neg hipv4, if_neg hraw, if_neg hraw]
      cases matchConvertIpv6Depth (m.mem.get Acl.saDepth) with
      | none => rfl
      | some d => cases matchConvertIpv6Depth (m.mem.get Acl.daDepth) <;> rfl
  | array => rfl
  | hash => rfl
  | lpm => rfl
  | stub => rfl

variable {ops : List (TableOp S)}

/-- Two matches that are named have the same add key only if they are the same. -/
theorem Keyed.addKey_eq_iff (h : Keyed c ops) {m m' : TableRuleMatch} (hm : Named c ops m)
    (hm' : Named c ops m') {ml ml' : Mem} (hml : matchConvert m true = some ml)
    (hml' : matchConvert m' true = some ml') : c.lib.addKey ml' = c.lib.addKey ml ↔ m'.Same m := by
  have hsome := matchConvert_isSome m'
  rw [hml', Option.isSome_some, Option.isSome_iff_exists] at hsome
  obtain ⟨dl', hdl'⟩ := hsome
  have hself : c.lib.deleteKey dl' = c.lib.addKey ml' :=
    (h.same_iff m' m' hm' hm' ml' dl' hml' hdl').mpr (TableRuleMatch.same_iff.mpr rfl)
  rw [← hself]
  exact h.same_iff m m' hm hm' ml dl' hml hdl'

/-! ### One match -/

variable [DecidableEq κ]

/-- What an add installs: the action, when the checks pass and the rule converts. -/
def installs (c : TableConf κ E D S) (m : TableRuleMatch) (action : TableRuleAction S) : Bool :=
  matchCheck m c.params && c.ops.check action && (matchConvert m true).isSome &&
    (c.convert action).isSome

/-- What a table holds under the match `m` with the parameters `ml`: the action of its rule, and
whether the library has an entry. -/
def ruleCell (m : TableRuleMatch) (ml : Mem) (t : TableContents c) :
    Option (TableRuleAction S) × Bool :=
  (t.actionOf m, (KeyedList.find c.lib.entryKey t.rules.ll (c.lib.addKey ml)).isSome)

/-- A delete that finds an entry, or reports none as deleted, clears both. -/
def clearRule (c : TableConf κ E D S) (cell : Option (TableRuleAction S) × Bool) :
    Option (TableRuleAction S) × Bool :=
  if cell.2 = true ∨ c.lib.deleteMissing = 0 then (none, false) else cell

/-- What an operation does under the match `m`. -/
def actRule (c : TableConf κ E D S) (m : TableRuleMatch)
    (cell : Option (TableRuleAction S) × Bool) : TableOp S → Option (TableRuleAction S) × Bool
  | .add m' action => if m.Same m' ∧ installs c m' action then (some action, true) else cell
  | .delete m' =>
    if m.Same m' ∧ matchCheck m' c.params ∧ (matchConvert m' false).isSome then clearRule c cell
    else cell
  | .addDefault _ => cell
  | .deleteDefault => cell

omit [DecidableEq κ] in
/-- Clearing a rule twice is clearing it once. -/
theorem clearRule_clearRule (cell : Option (TableRuleAction S) × Bool) :
    clearRule c (clearRule c cell) = clearRule c cell := by
  unfold clearRule
  by_cases h : cell.2 = true ∨ c.lib.deleteMissing = 0
  · rw [if_pos h]
    split_ifs <;> rfl
  · rw [if_neg h, if_neg h]

omit [DecidableEq κ] in
/-- An operation sets what is held under a match, clears it or leaves it alone. -/
theorem overwrites_actRule (m : TableRuleMatch) (op : TableOp S) :
    Overwrites (clearRule c) fun cell => actRule c m cell op := by
  cases op with
  | add m' action =>
    by_cases h : m.Same m' ∧ installs c m' action
    · exact .sets (some action, true) fun cell => if_pos h
    · exact .keeps fun cell => if_neg h
  | delete m' =>
    by_cases h : m.Same m' ∧ matchCheck m' c.params ∧ (matchConvert m' false).isSome
    · exact .clears fun cell => if_pos h
    · exact .keeps fun cell => if_neg h
  | addDefault action => exact .keeps fun cell => rfl
  | deleteDefault => exact .keeps fun cell => rfl

/-- What an add leaves, where the library accepts every rule. -/
theorem exec_add (haccepts : ∀ ll ml e, (c.lib.place ll ml e).isSome) (t : TableContents c)
    (m : TableRuleMatch) (action : TableRuleAction S) :
    if installs c m action then
      ∃ ml e data, matchConvert m true = some ml ∧
        (t.exec (.add m action)).2.rules.rules = tableRuleAdd t.rules.rules ⟨m, action, data⟩ ∧
        (t.exec (.add m action)).2.rules.ll =
          KeyedList.put c.lib.entryKey ⟨ml, e, data⟩ t.rules.ll
    else (t.exec (.add m action)).2 = t := by
  unfold TableContents.exec pipelineTableRuleAdd installs
  cases hm : matchCheck m c.params with
  | false => simp [hm]
  | true =>
    cases ha : c.ops.check action with
    | false => simp [ha]
    | true =>
      cases hml : matchConvert m true with
      | none => simp [hm, ha, hml]
      | some ml =>
        cases he : c.convert action with
        | none =>
          have hconv : c.ops.convert action = none := he
          simp [hm, ha, hml, hconv]
        | some e =>
          have hconv : c.ops.convert action = some e := he
          obtain ⟨data, hdata⟩ := Option.isSome_iff_exists.mp (haccepts t.rules.ll ml e)
          simp only [hm, ha, hml, hconv, hdata, Bool.not_true, Bool.or_self, Bool.false_eq_true,
            if_false, Option.isSome_some, Bool.and_self, if_true]
          exact ⟨ml, e, data, rfl, rfl, rfl⟩

/-- What a delete leaves. -/
theorem exec_delete (t : TableContents c) (m : TableRuleMatch) :
    if matchCheck m c.params then
      ∀ ml, matchConvert m false = some ml →
        (t.exec (.delete m)).2.rules.rules =
            (if c.lib.deleteStatus t.rules.ll ml = 0 then tableRuleDelete t.rules.rules m
              else t.rules.rules) ∧
          (t.exec (.delete m)).2.rules.ll =
            KeyedList.erase c.lib.entryKey t.rules.ll (c.lib.deleteKey ml)
    else (t.exec (.delete m)).2 = t := by
  unfold TableContents.exec pipelineTableRuleDelete
  cases hm : matchCheck m c.params with
  | false => simp [hm]
  | true =>
    simp only [if_true]
    intro ml hml
    simp only [hm, Bool.not_true, Bool.false_eq_true, if_false, hml, and_self]

/-- What an operation leaves where the match does not convert. -/
theorem exec_delete_of_none {t : TableContents c} {m : TableRuleMatch}
    (h : matchConvert m false = none) : (t.exec (.delete m)).2 = t := by
  unfold TableContents.exec pipelineTableRuleDelete
  cases hm : matchCheck m c.params with
  | false => simp [hm]
  | true => simp [hm, h]

omit [DecidableEq κ] in
/-- Sameness of matches is symmetric. -/
theorem TableRuleMatch.Same.symm {m m' : TableRuleMatch} (h : m.Same m') : m'.Same m :=
  TableRuleMatch.same_iff.mpr (TableRuleMatch.same_iff.mp h).symm

omit [DecidableEq κ] in
/-- An add that installs names its match. -/
theorem named_of_installs {m : TableRuleMatch} {action : TableRuleAction S}
    (h : installs c m action = true) (hop : TableOp.add m action ∈ ops) : Named c ops m := by
  simp only [installs, Bool.and_eq_true] at h
  exact ⟨h.1.1.1, _, hop, rfl⟩

/-- The actions after an add. -/
theorem TableContents.actionOf_add {t : TableContents c} {m : TableRuleMatch}
    {action : TableRuleAction S} {data : D}
    (h : (t.exec (.add m action)).2.rules.rules = tableRuleAdd t.rules.rules ⟨m, action, data⟩)
    (m' : TableRuleMatch) : (t.exec (.add m action)).2.actionOf m' =
      if m'.Same m then some action else t.actionOf m' := by
  unfold TableContents.actionOf
  rw [h, tableRuleFind_tableRuleAdd]
  split_ifs <;> rfl

/-- The cell after an add. -/
theorem ruleCell_add (hkeyed : Keyed c ops) {m : TableRuleMatch} {ml : Mem}
    (hm : Named c ops m) (hml : matchConvert m true = some ml) {m' : TableRuleMatch}
    {action : TableRuleAction S} (hop : TableOp.add m' action ∈ ops) (t : TableContents c) :
    ruleCell m ml (t.exec (.add m' action)).2 = actRule c m (ruleCell m ml t) (.add m' action) := by
  have hexec := exec_add hkeyed.accepts t m' action
  by_cases hinst : installs c m' action = true
  · rw [if_pos hinst] at hexec
    obtain ⟨ml', e, data, hml', hrules, hll⟩ := hexec
    have hm' : Named c ops m' := named_of_installs hinst hop
    have hkey := hkeyed.addKey_eq_iff hm hm' hml hml'
    rw [ruleCell, t.actionOf_add hrules, hll, actRule]
    by_cases hsame : m.Same m'
    · have hput : KeyedList.find c.lib.entryKey
          (KeyedList.put c.lib.entryKey ⟨ml', e, data⟩ t.rules.ll) (c.lib.addKey ml') =
          some ⟨ml', e, data⟩ :=
        KeyedList.find_put_self _ _
      rw [if_pos hsame, if_pos ⟨hsame, hinst⟩, ← hkey.mpr hsame.symm, hput]
      rfl
    · have hne : c.lib.addKey ml ≠ c.lib.entryKey ⟨ml', e, data⟩ :=
        fun heq => hsame (hkey.mp heq.symm).symm
      rw [if_neg hsame, if_neg (not_and_of_not_left _ hsame), KeyedList.find_put_of_ne hne]
      rfl
  · rw [if_neg hinst] at hexec
    rw [hexec, actRule, if_neg (not_and_of_not_right _ hinst)]

/-- The cell after a delete. -/
theorem ruleCell_delete (hkeyed : Keyed c ops) {m : TableRuleMatch} {ml : Mem}
    (hm : Named c ops m) (hml : matchConvert m true = some ml) {m' : TableRuleMatch}
    (hop : TableOp.delete m' ∈ ops) (t : TableContents c) :
    ruleCell m ml (t.exec (.delete m')).2 = actRule c m (ruleCell m ml t) (.delete m') := by
  have hexec := exec_delete t m'
  rw [actRule]
  by_cases hcheck : matchCheck m' c.params = true
  · rw [if_pos hcheck] at hexec
    cases hml' : matchConvert m' false with
    | none =>
      rw [exec_delete_of_none hml', if_neg]
      rintro ⟨-, -, hsome⟩
      cases hsome
    | some ml' =>
      obtain ⟨hrules, hll⟩ := hexec ml' hml'
      have hkey := hkeyed.same_iff m m' hm ⟨hcheck, _, hop, rfl⟩ ml ml' hml hml'
      unfold ruleCell TableContents.actionOf
      rw [hrules, hll]
      by_cases hsame : m.Same m'
      · -- the library finds the entry of `m`, if there is one
        have hact : m.Same m' ∧ matchCheck m' c.params = true ∧ (some ml').isSome = true :=
          ⟨hsame, hcheck, rfl⟩
        rw [if_pos hact, LowLevel.deleteStatus, hkey.mpr hsame.symm,
          KeyedList.find_erase_self t.rules.ll_distinct, clearRule]
        by_cases hfound : (KeyedList.find c.lib.entryKey t.rules.ll (c.lib.addKey ml)).isSome = true
        · rw [if_pos hfound, if_pos rfl, if_pos (.inl hfound),
            tableRuleFind_tableRuleDelete _ t.rules.rules_distinct, if_pos hsame]
          rfl
        · rw [if_neg hfound]
          by_cases hmissing : c.lib.deleteMissing = 0
          · rw [if_pos hmissing, if_pos (.inr hmissing),
              tableRuleFind_tableRuleDelete _ t.rules.rules_distinct, if_pos hsame]
            rfl
          · rw [if_neg hmissing, if_neg (not_or_intro hfound hmissing)]
            rw [Bool.not_eq_true] at hfound
            rw [hfound]
            rfl
      · have hne : c.lib.addKey ml ≠ c.lib.deleteKey ml' :=
          fun heq => hsame (hkey.mp heq.symm).symm
        rw [if_neg (not_and_of_not_left _ hsame), KeyedList.find_erase_of_ne hne]
        split_ifs
        · rw [tableRuleFind_tableRuleDelete _ t.rules.rules_distinct, if_neg hsame]
        · rfl
  · rw [if_neg hcheck] at hexec
    rw [hexec, if_neg]
    rintro ⟨-, hpass, -⟩
    exact hcheck hpass

/-- What an operation does under a match that is named. -/
theorem ruleCell_exec (hkeyed : Keyed c ops) {m : TableRuleMatch} {ml : Mem}
    (hm : Named c ops m) (hml : matchConvert m true = some ml) {op : TableOp S} (hop : op ∈ ops)
    (t : TableContents c) :
    ruleCell m ml (t.exec op).2 = actRule c m (ruleCell m ml t) op := by
  cases op with
  | add m' action => exact ruleCell_add hkeyed hm hml hop t
  | delete m' => exact ruleCell_delete hkeyed hm hml hop t
  | addDefault action =>
    change ruleCell m ml (pipelineTableRuleAddDefault t action).2 = ruleCell m ml t
    unfold pipelineTableRuleAddDefault
    split_ifs <;> rfl
  | deleteDefault => rfl

/-- Under a match that no named one is the same as, or that does not convert, nothing happens. -/
theorem actionOf_exec (haccepts : ∀ ll ml e, (c.lib.place ll ml e).isSome) {m : TableRuleMatch}
    (hnone : ∀ m', Named c ops m' → m.Same m' → matchConvert m' true = none) {op : TableOp S}
    (hop : op ∈ ops) (t : TableContents c) : (t.exec op).2.actionOf m = t.actionOf m := by
  cases op with
  | add m' action =>
    have hexec := exec_add haccepts t m' action
    by_cases hinst : installs c m' action = true
    · rw [if_pos hinst] at hexec
      obtain ⟨ml', e, data, hml', hrules, -⟩ := hexec
      rw [t.actionOf_add hrules, if_neg]
      intro hsame
      rw [hnone m' (named_of_installs hinst hop) hsame] at hml'
      cases hml'
    · rw [if_neg hinst] at hexec
      rw [hexec]
  | delete m' =>
    have hexec := exec_delete t m'
    by_cases hcheck : matchCheck m' c.params = true
    · rw [if_pos hcheck] at hexec
      cases hml' : matchConvert m' false with
      | none => rw [exec_delete_of_none hml']
      | some ml' =>
        have hdiff : ¬ m.Same m' := by
          intro hsame
          have hsome := matchConvert_isSome m'
          rw [hml', hnone m' ⟨hcheck, _, hop, rfl⟩ hsame] at hsome
          cases hsome
        rw [TableContents.actionOf, (hexec ml' hml').1]
        split_ifs
        · rw [tableRuleFind_tableRuleDelete _ t.rules.rules_distinct, if_neg hdiff]
          rfl
        · rfl
    · rw [if_neg hcheck] at hexec
      rw [hexec]
  | addDefault action =>
    change (pipelineTableRuleAddDefault t action).2.actionOf m = t.actionOf m
    unfold pipelineTableRuleAddDefault
    split_ifs <;> rfl
  | deleteDefault => rfl

/-! ### The default rule -/

omit [DecidableEq κ] in
/-- What a delete of the default rule leaves. -/
def clearDefault (c : TableConf κ E D S) (cell : Option FwdAction) : Option FwdAction :=
  if c.defaultDelete cell.isSome = 0 then none else cell

/-- What an operation does to the default rule. -/
def actDefault (c : TableConf κ E D S) (cell : Option FwdAction) : TableOp S → Option FwdAction
  | .addDefault action =>
    if fwdCheck c.nPortsOut c.nTables action ∧ c.defaultAdd action then some action else cell
  | .deleteDefault => clearDefault c cell
  | .add _ _ => cell
  | .delete _ => cell

omit [DecidableEq κ] in
/-- Clearing the default twice is clearing it once. -/
theorem clearDefault_clearDefault (cell : Option FwdAction) :
    clearDefault c (clearDefault c cell) = clearDefault c cell := by
  unfold clearDefault
  by_cases h : c.defaultDelete cell.isSome = 0
  · rw [if_pos h]
    split_ifs <;> rfl
  · rw [if_neg h, if_neg h]

omit [DecidableEq κ] in
/-- An operation on the default overwrites what clearing clears. -/
theorem overwrites_actDefault (op : TableOp S) :
    Overwrites (clearDefault c) fun cell => actDefault c cell op := by
  cases op with
  | addDefault action =>
    by_cases h : fwdCheck c.nPortsOut c.nTables action ∧ c.defaultAdd action
    · exact .sets (some action) fun cell => if_pos h
    · exact .keeps fun cell => if_neg h
  | deleteDefault => exact .clears fun cell => rfl
  | add m action => exact .keeps fun cell => rfl
  | delete m => exact .keeps fun cell => rfl

/-- What an operation does to the default. -/
theorem ruleDefault_exec (op : TableOp S) (t : TableContents c) :
    (t.exec op).2.ruleDefault = actDefault c t.ruleDefault op := by
  cases op with
  | addDefault action =>
    simp only [TableContents.exec, pipelineTableRuleAddDefault, actDefault]
    cases hcheck : fwdCheck c.nPortsOut c.nTables action with
    | false => simp
    | true => cases hadd : c.defaultAdd action <;> simp
  | deleteDefault => rfl
  | add m action => rfl
  | delete m => rfl

/-! ### A whole table -/

omit [DecidableEq κ] in
/-- The matches of the same rule hold the same action. -/
theorem TableContents.actionOf_congr (t : TableContents c) {m m' : TableRuleMatch}
    (h : m.Same m') : t.actionOf m = t.actionOf m' := by
  unfold actionOf
  rw [tableRuleFind_eq_find, tableRuleFind_eq_find, TableRuleMatch.same_iff.mp h]

/-- A table that runs a script after its own beginning has the same map from match to action and
the same default rule as without it. -/
theorem view_execAll_replay {ops ops' : List (TableOp S)} (hkeyed : Keyed c (ops ++ ops'))
    (t : TableContents c) :
    ((t.execAll ops).execAll (ops ++ ops')).view = (t.execAll (ops ++ ops')).view := by
  have hdefault : ((t.execAll ops).execAll (ops ++ ops')).ruleDefault =
      (t.execAll (ops ++ ops')).ruleDefault := by
    unfold TableContents.execAll
    exact view_replay clearDefault_clearDefault (fun op _ t => ruleDefault_exec op t)
      (fun op _ => overwrites_actDefault op) t
  refine Prod.ext (funext fun m => ?_) hdefault
  by_cases hnamed : ∃ m', Named c (ops ++ ops') m' ∧ m.Same m' ∧ matchConvert m' true ≠ none
  · obtain ⟨m', hm', hsame, hconv⟩ := hnamed
    obtain ⟨ml, hml⟩ := Option.ne_none_iff_exists'.mp hconv
    have hcell : ruleCell m' ml ((t.execAll ops).execAll (ops ++ ops')) =
        ruleCell m' ml (t.execAll (ops ++ ops')) := by
      unfold TableContents.execAll
      exact view_replay clearRule_clearRule
        (fun op hop t => ruleCell_exec hkeyed hm' hml hop t)
        (fun op _ => overwrites_actRule m' op) t
    change TableContents.actionOf _ m = TableContents.actionOf _ m
    rw [TableContents.actionOf_congr _ hsame, TableContents.actionOf_congr _ hsame]
    exact congrArg Prod.fst hcell
  · push Not at hnamed
    have hkeep (xs : List (TableOp S)) (hxs : ∀ op ∈ xs, op ∈ ops ++ ops') (t : TableContents c) :
        (t.execAll xs).actionOf m = t.actionOf m := by
      unfold TableContents.execAll
      induction xs generalizing t with
      | nil => rfl
      | cons op xs ih =>
        obtain ⟨hop, hxs⟩ := List.forall_mem_cons.mp hxs
        rw [List.foldl_cons, ih hxs, actionOf_exec hkeyed.accepts hnamed hop]
    change TableContents.actionOf _ m = TableContents.actionOf _ m
    rw [hkeep _ (fun _ hop => hop), hkeep _ (fun _ hop => hop),
      hkeep ops fun _ hop => List.mem_append_left _ hop]

end Table

/-! ### Hash tables -/

/-- The key a hash table reads from a converted match. -/
theorem bytes_matchConvert_hash {m : TableRuleMatch} (htype : m.matchType = .hash) (add : Bool)
    {n : ℕ} (hn : n ≤ tableRuleMatchSizeMax) {ml : Mem} (h : matchConvert m add = some ml) :
    ml.bytes n = m.mem.bytes n := by
  rw [matchConvert, matchConvertAssigns, htype] at h
  obtain rfl := Option.some.inj h
  rw [Mem.bytes_eq_iff]
  intro a ha
  have hcopy : Mem.zero.copy 0 tableRuleMatchSizeMax m.mem (0 + a) = m.mem a :=
    Mem.copy_apply_of_covered _ _ (ha.trans_le hn)
  rwa [Nat.zero_add] at hcopy

/-- A hash table takes two matches for the same rule exactly when `table_rule_find` does, if the
matches are 0 from the size of the key on. -/
theorem keyed_hash {E D S : Type} {c : TableConf (List (BitVec 8)) E D S} {ops : List (TableOp S)}
    {keySize : ℕ} {place : List (LlEntry E D) → Mem → E → Option D} {status : Int}
    (hlib : c.lib = .hash keySize place status) (hparams : c.params = .hash)
    (hsize : keySize ≤ tableRuleMatchSizeMax) (haccepts : ∀ ll ml e, (place ll ml e).isSome)
    (hzero : ∀ m, Named c ops m → ∀ a < matchUnionSize, keySize ≤ a → m.mem a = 0) :
    Keyed c ops := by
  have htype : ∀ m, Named c ops m → m.matchType = .hash := by
    rintro m ⟨hcheck, -⟩
    by_contra htype
    have hne : m.matchType ≠ TableParams.hash.matchType := htype
    rw [hparams, matchCheck, if_pos hne] at hcheck
    cases hcheck
  constructor
  · rw [hlib]
    exact haccepts
  · intro m m' hm hm' ml ml' hml hml'
    have hkey := bytes_matchConvert_hash (htype m hm) true hsize hml
    have hkey' := bytes_matchConvert_hash (htype m' hm') false hsize hml'
    rw [hlib]
    change ml'.bytes keySize = ml.bytes keySize ↔ _
    rw [hkey, hkey', Mem.bytes_eq_iff]
    constructor
    · intro heq
      refine ⟨(htype m' hm').trans (htype m hm).symm, ?_⟩
      intro a ha
      by_cases hlt : a < keySize
      · exact heq a hlt
      · rw [hzero m hm a ha (not_lt.mp hlt), hzero m' hm' a ha (not_lt.mp hlt)]
    · rintro ⟨-, heq⟩ a ha
      exact heq a (ha.trans_le (hsize.trans (by decide)))

/-! ### The dispatch loop -/

section WhiteList

variable {κ E D S : Type} [DecidableEq κ]

/-- The map from match to action and the default rule of a table. -/
def Pipelines.view (ps : Pipelines κ E D S) (name : String) (id : ℕ) :
    Option ((TableRuleMatch → Option (TableRuleAction S)) × Option FwdAction) :=
  (ps.table name id).map fun t => t.contents.view

variable {inet : InetPton} {symCrypto : List String → Parse (S × ℕ)}
  {other : List String → Pipelines κ E D S → Option CliMessage × Pipelines κ E D S}

/-- Turns that find the same content do what the first of them does. -/
theorem foldl_dispatchStep_replicate {T : Type} (process : FileContent → T → T)
    (d : DispatchState T) (c : FileContent) (n : ℕ) :
    (List.replicate (n + 1) c).foldl (dispatchStep process) d = dispatchStep process d c := by
  induction n with
  | zero => rfl
  | succ n ih =>
    rw [List.replicate_succ', List.foldl_append, ih]
    exact dispatchStep_of_size_eq fileSize_dispatchStep.symm

/-- **Reading a grown white list again.** Let the loop find the content `L` for some turns and
then `LM`, which has more lines, all of rule commands. Then each table has the map from match to
action and the default rule that it has when `LM` alone is processed. -/
theorem view_grown_whiteList {L LM : FileContent} {M : List Char} (hgrown : LM.text = L.text ++ M)
    (hM : M ≠ []) (hL : EndsWithLine L.text ∨ M.head? = some '\n')
    (hscript : IsRuleScript LM.text) (d : DispatchState (Pipelines κ E D S))
    (hkeyed : ∀ name id t, d.tables.table name id = some t →
      Keyed t.conf (opsOn name id (scriptCommands inet symCrypto LM.text)))
    (n : ℕ) (name : String) (id : ℕ) :
    (((List.replicate (n + 1) L ++ [LM]).foldl
        (dispatchStep (cliScriptProcess inet symCrypto other)) d).tables).view name id =
      (cliScriptProcess inet symCrypto other LM d.tables).view name id := by
  have htokens : scriptTokens LM.text = scriptTokens L.text ++ scriptTokens M := by
    rw [hgrown]
    exact scriptTokens_append hL
  have hscriptL : IsRuleScript L.text := by
    rw [isRuleScript_iff] at hscript ⊢
    intro tokens hmem
    apply hscript
    rw [htokens]
    exact List.mem_append_left _ hmem
  have hsize : LM.size ≠
      (dispatchStep (cliScriptProcess inet symCrypto other) d L).fileSize := by
    have hlen := List.length_pos_iff.mpr hM
    rw [fileSize_dispatchStep, ne_eq, FileContent.size_eq_iff, hgrown, List.length_append]
    omega
  rw [List.foldl_append, foldl_dispatchStep_replicate, List.foldl_cons, List.foldl_nil,
    dispatchStep_of_size_ne hsize]
  by_cases hfirst : L.size = d.fileSize
  · rw [dispatchStep_of_size_eq hfirst]
  · rw [dispatchStep_of_size_ne hfirst]
    simp only
    have hcmds : scriptCommands inet symCrypto LM.text =
        scriptCommands inet symCrypto L.text ++ scriptCommands inet symCrypto M := by
      simp only [scriptCommands_eq, htokens, List.filterMap_append]
    rw [cliScriptProcess_eq other hscript, cliScriptProcess_eq other hscript,
      cliScriptProcess_eq other hscriptL, Pipelines.view, Pipelines.view, table_execAll,
      table_execAll, table_execAll]
    cases ht : d.tables.table name id with
    | none => rfl
    | some t =>
      have hops := hkeyed name id t ht
      rw [hcmds, opsOn_append] at hops ⊢
      exact congrArg some (view_execAll_replay hops t.contents)

end WhiteList

/-! ### A rule that is added and later deleted -/

/-- No token is an address, and no action is `sym_crypto`. -/
def noAddresses : InetPton := ⟨fun _ => none, fun _ => none⟩

/-- A hash table with keys of 8 bytes that takes every rule. -/
def hashTable : TableConf (List (BitVec 8)) Unit ℕ Unit where
  params := .hash
  ap :=
    { actionMask := true :: List.replicate 11 false, ipv4 := true, nTc := 0, nSubportsPerPort := 0
      nPipesPerSubport := 0, encapMask := [], vxlanVlan := false, vxlanIpv4 := false }
  nPortsOut := 1
  nTables := 1
  lib := .hash 8 (fun ll _ _ => some ll.length) (-1)
  convert := fun _ => some ()
  defaultAdd := fun _ => true
  defaultDelete := fun _ => 0

/-- A pipeline with one table. -/
def onePipeline : Pipelines (List (BitVec 8)) Unit ℕ Unit :=
  fun name => if name = "P" then some [⟨hashTable, ⟨.empty, none⟩⟩] else none

/-- A rule is added. -/
def addLine : List Char :=
  "pipeline P table 0 rule add match hash raw 0102030405060708 action fwd drop\n".toList

/-- It is deleted. -/
def deleteLine : List Char :=
  "pipeline P table 0 rule delete match hash raw 0102030405060708\n".toList

/-- The length of the example script. -/
theorem length_deleteLines : (addLine ++ deleteLine).length < 2 ^ 63 := by decide +kernel

/-- The file with the first line, and with both. -/
def addFile : FileContent := ⟨addLine, by decide +kernel⟩
/-- The file with both lines. -/
def deleteFile : FileContent := ⟨addLine ++ deleteLine, length_deleteLines⟩

/-- The matches of the two lines are 0 after 8 bytes. -/
theorem deleteFile_zero : ∀ cmd ∈ scriptCommands (S := Unit) noAddresses (fun _ => .error .silent)
    deleteFile.text, ∀ m ∈ cmd.op.ruleMatch?, ∀ a < matchUnionSize, 8 ≤ a → m.mem a = 0 := by
  decide +kernel

/-- The library of the example keeps its keys. -/
theorem keyed_onePipeline (name : String) (id : ℕ) (t : Table (List (BitVec 8)) Unit ℕ Unit)
    (ht : onePipeline.table name id = some t) :
    Keyed t.conf (opsOn name id (scriptCommands noAddresses (fun _ => .error .silent) deleteFile.text)) := by
  have hconf : t.conf = hashTable := by
    unfold Pipelines.table onePipeline at ht
    by_cases hname : name = "P"
    · rw [if_pos hname, Option.bind_some] at ht
      have hmem := List.mem_of_getElem? ht
      rw [List.mem_singleton] at hmem
      rw [hmem]
    · rw [if_neg hname] at ht
      cases ht
  have hlib : hashTable.lib = .hash 8 (fun ll _ _ => some ll.length) (-1) := rfl
  rw [hconf]
  refine keyed_hash hlib rfl (by decide) (fun _ _ _ => rfl) ?_
  rintro m ⟨-, op, hop, hm⟩
  obtain ⟨cmd, hcmd, rfl⟩ := List.mem_map.mp hop
  exact deleteFile_zero cmd (List.mem_filter.mp hcmd).1 m hm

/-- The file with the first line, then with both. -/
theorem onePipeline_view_grown :
    (([addFile, deleteFile].foldl (dispatchStep (cliScriptProcess noAddresses (fun _ => .error .silent)
        fun _ ps => (none, ps))) (.init onePipeline)).tables).view "P" 0 =
      (cliScriptProcess noAddresses (fun _ => .error .silent) (fun _ ps => (none, ps)) deleteFile
        onePipeline).view "P" 0 :=
  view_grown_whiteList rfl (by decide) (.inl (.inr (by decide +kernel))) (by decide +kernel)
    (.init onePipeline) keyed_onePipeline 0 "P" 0

end Rids.Pipeline
