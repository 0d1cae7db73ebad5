import Rids.Pipeline.MatchLoad
import Rids.Pipeline.RuleCommand

/-!
# Showing the rules of a table and loading them again

`rule show` writes the rules of a table to a file, `rule add bulk` reads such a file.

* `exists_loadsAs_iff` — the line of a rule is read back exactly when the rule is `Printable`.
* `TableContents.AllRead`, `allRead_runAdds` — every rule that add commands install was read from
  tokens; a step lemma for one command, a run lemma for a list of them.
* `roundTrips_iff` — the file of a table that add commands have filled holds the rules of the
  table exactly when all of them are `Printable`.
-/

namespace Rids.Pipeline

open Rids.Lib.ByteMem Rids.Lib

/-! ### A rule -/

section Rule

variable {S D : Type} {inet : InetPton} {symCrypto : List String → Parse (S × ℕ)}

/-- A match that the printer writes in the words of the parser: an array index, or a hash key
that is 0 behind the bytes that are printed. -/
def TableRuleMatch.Printable (keySize : ℕ) (m : TableRuleMatch) : Prop :=
  m.matchType = .array ∨
    m.matchType = .hash ∧ ∀ a < matchUnionSize, keySize ≤ a → m.mem a = 0

/-- A rule that the printer writes in the words of the parser. -/
structure TableRule.Printable (keySize : ℕ) (r : TableRule (TableRuleAction S) D) : Prop where
  ruleMatch : r.ruleMatch.Printable keySize
  action : r.action.Printable

/-- The loaded rule has the match and the action of the rule. -/
def TableRule.LoadsAs (r : TableRule (TableRuleAction S) D) (x : FileRule S) : Prop :=
  r.ruleMatch.Same x.1 ∧ r.action = x.2

/-- A match and an action that were read from tokens. -/
structure IsRead (inet : InetPton) (symCrypto : List String → Parse (S × ℕ)) (m : TableRuleMatch)
    (a : TableRuleAction S) : Prop where
  ruleMatch : ∃ tokens n, parseMatch inet tokens = .ok (m, n)
  action : ∃ tokens n, parseTableAction inet symCrypto tokens = .ok (a, n)

/-- A line of a rule file is a match and an action and nothing behind. -/
theorem parseFileRule_eq_ok {tokens : List String} {x : FileRule S} :
    parseFileRule inet symCrypto tokens = .ok x ↔
      ∃ n n', parseMatch inet tokens = .ok (x.1, n) ∧
        parseTableAction inet symCrypto (tokens.drop n) = .ok (x.2, n') ∧
        tokens.length ≤ n + n' := by
  obtain ⟨m, a⟩ := x
  simp only [parseFileRule, bind_eq_ok, ensure_eq_ok, Prod.exists, decide_eq_true_eq,
    Except.ok.injEq, Prod.mk.injEq]
  constructor
  · rintro ⟨m', n, hm, a', n', ha, _, hlen, rfl, rfl⟩
    exact ⟨n, n', hm, ha, hlen⟩
  · rintro ⟨n, n', hm, ha, hlen⟩
    exact ⟨m, n, hm, a, n', ha, (), hlen, rfl, rfl⟩

variable (keySize : HashKeySize) (ap : ActionProfile) {r : TableRule (TableRuleAction S) D}

/-- The tokens of a rule. -/
theorem ruleTokens_eq : ruleTokens keySize ap r =
    "match" ::
      (tokensOf (matchWords keySize r.ruleMatch) ++ tokensOf (actionWords ap r.action)) := by
  rw [ruleTokens, ruleWords, tokensOf_append]

/-- A line whose match takes the tokens up to `action` is read when the rest is an action. -/
theorem parseFileRule_ruleTokens {ws : List String} {k : ℕ} {m : TableRuleMatch}
    (hws : tokensOf (matchWords keySize r.ruleMatch) = ws ++ ["action"]) (hk : ws.length + 1 = k)
    (hm : parseMatch inet (ruleTokens keySize ap r) = .ok (m, k)) {x : FileRule S} :
    parseFileRule inet symCrypto (ruleTokens keySize ap r) = .ok x ↔
      x.1 = m ∧ ∃ n, parseTableAction inet symCrypto
          ("action" :: tokensOf (actionWords ap r.action)) = .ok (x.2, n) ∧
        ("action" :: tokensOf (actionWords ap r.action)).length ≤ n := by
  have htokens : ruleTokens keySize ap r =
      ("match" :: ws) ++ ("action" :: tokensOf (actionWords ap r.action)) := by
    rw [ruleTokens_eq, hws, List.append_assoc]
    rfl
  have hdrop : (ruleTokens keySize ap r).drop k =
      "action" :: tokensOf (actionWords ap r.action) := by
    rw [htokens]
    exact List.drop_left' hk
  have hlen : (ruleTokens keySize ap r).length =
      k + ("action" :: tokensOf (actionWords ap r.action)).length := by
    rw [htokens, List.length_append]
    exact congrArg (· + _) hk
  rw [parseFileRule_eq_ok]
  constructor
  · rintro ⟨n, n', hm', ha, hle⟩
    obtain ⟨hx, rfl⟩ := eq_of_ok hm hm'
    rw [hdrop] at ha
    rw [hlen] at hle
    exact ⟨hx.symm, n', ha, Nat.le_of_add_le_add_left hle⟩
  · rintro ⟨rfl, n, ha, hle⟩
    refine ⟨k, n, hm, ?_, ?_⟩
    · rw [hdrop]
      exact ha
    · rw [hlen]
      exact Nat.add_le_add_left hle k

variable (symCrypto) in
/-- The action of a line is read as the action of the rule when that is written in the words of
the parser. -/
theorem exists_parseTableAction_iff (hinet : inet.Standard) {a : TableRuleAction S}
    (hmask : true ∈ a.actionMask) (hcrypto : a.symCrypto = none) :
    (∃ n, parseTableAction inet symCrypto ("action" :: tokensOf (actionWords ap a)) = .ok (a, n) ∧
        ("action" :: tokensOf (actionWords ap a)).length ≤ n) ↔ a.Printable := by
  constructor
  · rintro ⟨n, hparse, hle⟩
    by_contra hne
    exact absurd (parseTableAction_actionWords_lt ap hinet hne hparse) (not_lt.mpr hle)
  · intro ha
    exact ⟨_, parseTableAction_actionWords ap hinet ha hcrypto hmask, le_rfl⟩

/-- A line whose match is read. -/
theorem exists_loadsAs_iff_of_parseMatch {ws : List String} {k : ℕ} {m : TableRuleMatch}
    (hinet : inet.Standard) (hmask : true ∈ r.action.actionMask)
    (hcrypto : r.action.symCrypto = none)
    (hws : tokensOf (matchWords keySize r.ruleMatch) = ws ++ ["action"]) (hk : ws.length + 1 = k)
    (hm : parseMatch inet (ruleTokens keySize ap r) = .ok (m, k)) :
    (∃ x, parseFileRule inet symCrypto (ruleTokens keySize ap r) = .ok x ∧ r.LoadsAs x) ↔
      r.ruleMatch.Same m ∧ r.action.Printable := by
  rw [← exists_parseTableAction_iff symCrypto ap hinet hmask hcrypto]
  constructor
  · rintro ⟨x, hx, hsame, haction⟩
    obtain ⟨rfl, n, ha, hle⟩ := (parseFileRule_ruleTokens keySize ap hws hk hm).mp hx
    rw [← haction] at ha
    exact ⟨hsame, n, ha, hle⟩
  · rintro ⟨hsame, n, ha, hle⟩
    exact ⟨(m, r.action), (parseFileRule_ruleTokens keySize ap hws hk hm).mpr ⟨rfl, n, ha, hle⟩,
      hsame, rfl⟩

/-- An array match is the one that is loaded. -/
theorem same_array {m : TableRuleMatch} {pos : BitVec 32} (hm : m.matchType = .array)
    (hpos : m.mem = Mem.zero.set ArrayKey.pos pos.toNat) :
    m.Same ⟨.array, Mem.zero.set ArrayKey.pos (m.mem.get ArrayKey.pos)⟩ := by
  refine ⟨hm, fun a _ => ?_⟩
  rw [hpos, Mem.get_set_of_lt Mem.zero (f := ArrayKey.pos) pos.isLt]

/-- A hash match is the one that is loaded when it is 0 behind the bytes that are printed. -/
theorem same_hash_iff {m : TableRuleMatch} {mem : Mem} (hm : m.matchType = .hash)
    (hmem : ∀ a, mem a = if a < keySize.val then m.mem a else 0) :
    m.Same ⟨.hash, mem⟩ ↔ ∀ a < matchUnionSize, keySize.val ≤ a → m.mem a = 0 := by
  constructor
  · rintro ⟨-, heq⟩ a ha hle
    have hbyte : m.mem a = mem a := heq a ha
    rw [hbyte, hmem, if_neg (not_lt.mpr hle)]
  · intro hzero
    refine ⟨hm, fun a ha => ?_⟩
    change m.mem a = mem a
    rw [hmem]
    split_ifs with hlt
    · rfl
    · exact hzero a ha (not_lt.mp hlt)

/-- **A line read back.** The line of a rule is read as the rule exactly when the rule is written
in the words of the parser. -/
theorem exists_loadsAs_iff (hinet : inet.Standard)
    (hread : IsRead inet symCrypto r.ruleMatch r.action) (hcrypto : r.action.symCrypto = none) :
    (∃ x, parseFileRule inet symCrypto (ruleTokens keySize ap r) = .ok x ∧ r.LoadsAs x) ↔
      r.Printable keySize := by
  obtain ⟨⟨_, _, hm⟩, ⟨_, _, ha⟩⟩ := hread
  have hmask := true_mem_actionMask ha
  by_cases harray : r.ruleMatch.matchType = .array
  · obtain ⟨pos, hpos⟩ := parseMatch_array_ok hm harray
    have hws : tokensOf (matchWords keySize r.ruleMatch) =
      ["array", showUint (r.ruleMatch.mem.get ArrayKey.pos)] ++ ["action"] :=
      tokensOf_matchWords_array harray
    have hparse : parseMatch inet (ruleTokens keySize ap r) =
        .ok (⟨.array, Mem.zero.set ArrayKey.pos (r.ruleMatch.mem.get ArrayKey.pos)⟩, 3) := by
      rw [ruleTokens_eq]
      exact parseMatch_array harray
    rw [exists_loadsAs_iff_of_parseMatch keySize ap hinet hmask hcrypto hws rfl hparse]
    constructor
    · rintro ⟨-, haction⟩
      exact ⟨.inl harray, haction⟩
    · rintro ⟨-, haction⟩
      exact ⟨same_array harray hpos, haction⟩
  · by_cases hhash : r.ruleMatch.matchType = .hash
    · have hws : tokensOf (matchWords keySize r.ruleMatch) =
        ["hash", "raw", .ofList ((r.ruleMatch.mem.bytes keySize).flatMap showByte)] ++ ["action"] :=
        tokensOf_matchWords_hash hhash
      obtain ⟨mem, hparse, hmem⟩ : ∃ mem, parseMatch inet (ruleTokens keySize ap r) =
            .ok (⟨.hash, mem⟩, 4) ∧
          ∀ a, mem a = if a < keySize.val then r.ruleMatch.mem a else 0 := by
        rw [ruleTokens_eq]
        exact parseMatch_hash hhash
      rw [exists_loadsAs_iff_of_parseMatch keySize ap hinet hmask hcrypto hws rfl hparse,
        same_hash_iff keySize hhash hmem]
      constructor
      · rintro ⟨hzero, haction⟩
        exact ⟨.inr ⟨hhash, hzero⟩, haction⟩
      · rintro ⟨hmatch | ⟨-, hzero⟩, haction⟩
        · exact absurd hmatch harray
        · exact ⟨hzero, haction⟩
    · constructor
      · rintro ⟨x, hx, -⟩
        obtain ⟨n, _, hparse, -⟩ := parseFileRule_eq_ok.mp hx
        rw [ruleTokens_eq] at hparse
        exact absurd hparse (parseMatch_ne harray hhash _)
      · rintro ⟨hmatch | ⟨hmatch, -⟩, -⟩
        · exact absurd hmatch harray
        · exact absurd hmatch hhash

end Rule

/-! ### Tables that add commands fill -/

section Commands

variable {κ E D S : Type} [DecidableEq κ] {c : TableConf κ E D S} (inet : InetPton)
  (symCrypto : List String → Parse (S × ℕ))

/-- The commands that add rules to a table: `rule add` and `rule add` of the default rule with
their tokens, `rule add bulk` with the text of its file. -/
inductive AddCommand
  | add (tokens : List String)
  | addDefault (tokens : List String)
  | addBulk (text : List Char)

/-- The operation of a command that parses. -/
def TableContents.execParsed (t : TableContents c) : Parse (RuleCommand S) → TableContents c
  | .ok cmd => (t.exec cmd.op).2
  | .error _ => t

/-- The table after the rules of a file that is read are added.
Source: `cli.c` `cmd_pipeline_table_rule_add_bulk`
Kind: D -/
def TableContents.execBulk (t : TableContents c) : Option (List (FileRule S)) → TableContents c
  | some list => { t with rules := (pipelineTableRuleAddBulk c.ops c.params t.rules list).2.2 }
  | none => t

/-- The table that a command names after the command.
Source: `cli.c` `cmd_pipeline_table_rule_add`, `_add_default`, `_add_bulk`
Kind: D -/
def TableContents.runAdd (t : TableContents c) : AddCommand → TableContents c
  | .add tokens => t.execParsed (parseRuleAdd inet symCrypto tokens)
  | .addDefault tokens => t.execParsed (parseRuleAddDefault tokens)
  | .addBulk text => t.execBulk (cliRuleFileProcess inet symCrypto text).ruleList

/-- The table after a list of commands. -/
def TableContents.runAdds (t : TableContents c) (cmds : List AddCommand) : TableContents c :=
  cmds.foldl (fun t cmd => t.runAdd inet symCrypto cmd) t

/-- Every rule of the list was read from tokens. -/
def AllRead (rules : List (TableRule (TableRuleAction S) D)) : Prop :=
  ∀ r ∈ rules, IsRead inet symCrypto r.ruleMatch r.action

variable {inet symCrypto}

/-- An add of a rule that was read keeps the rules so. -/
theorem AllRead.tableRuleAdd {rules : List (TableRule (TableRuleAction S) D)}
    {newRule : TableRule (TableRuleAction S) D} (h : AllRead inet symCrypto rules)
    (hnew : IsRead inet symCrypto newRule.ruleMatch newRule.action) :
    AllRead inet symCrypto (tableRuleAdd rules newRule) := by
  intro r hr
  rw [tableRuleAdd_eq_put, (KeyedList.put_perm newRule rules).mem_iff, List.mem_cons] at hr
  rcases hr with rfl | hr
  · exact hnew
  · exact h r (List.mem_of_mem_eraseP hr)

/-- A bulk of rules that were read keeps the rules so. -/
theorem AllRead.tableRuleAddBulk {rules newRules : List (TableRule (TableRuleAction S) D)}
    (h : AllRead inet symCrypto rules) (hnew : AllRead inet symCrypto newRules) :
    AllRead inet symCrypto (tableRuleAddBulk rules newRules) := by
  unfold Rids.Pipeline.tableRuleAddBulk
  induction newRules generalizing rules with
  | nil => exact h
  | cons r newRules ih =>
    obtain ⟨hr, hnew⟩ := List.forall_mem_cons.mp hnew
    exact ih (h.tableRuleAdd hr) hnew

/-- A rule of a line comes from its tokens. -/
theorem exists_tokens_of_readRuleLine {line : List Char} {x : FileRule S}
    (h : readRuleLine inet symCrypto line = .ok (some x)) :
    ∃ tokens, parseFileRule inet symCrypto tokens = .ok x := by
  unfold readRuleLine at h
  simp only at h
  split_ifs at h with hcomment
  · cases h
  split at h
  · cases h
  · cases h
  · rename_i tokens _ _
    cases hparse : parseFileRule inet symCrypto tokens with
    | error e =>
      rw [hparse] at h
      cases h
    | ok y =>
      rw [hparse] at h
      obtain rfl := Option.some.inj (Except.ok.inj h)
      exact ⟨tokens, hparse⟩

/-- The rules of a file that is read were read from tokens. -/
theorem isRead_of_ruleList {lines : List (List Char)} {lineId : ℕ} {rules list : List (FileRule S)}
    (hrules : ∀ x ∈ rules, IsRead inet symCrypto x.1 x.2)
    (h : (readRuleLines inet symCrypto lines lineId rules).ruleList = some list) :
    ∀ x ∈ list, IsRead inet symCrypto x.1 x.2 := by
  induction lines generalizing lineId rules with
  | nil =>
    obtain rfl := Option.some.inj h
    exact hrules
  | cons line lines ih =>
    unfold readRuleLines at h
    cases hline : readRuleLine inet symCrypto line with
    | error e =>
      rw [hline] at h
      cases h
    | ok o =>
      rw [hline] at h
      cases o with
      | none => exact ih hrules h
      | some x =>
        refine ih (fun y hy => ?_) h
        rcases List.mem_append.mp hy with hy | hy
        · exact hrules y hy
        · obtain rfl := List.mem_singleton.mp hy
          obtain ⟨tokens, hparse⟩ := exists_tokens_of_readRuleLine hline
          obtain ⟨n, n', hm, ha, -⟩ := parseFileRule_eq_ok.mp hparse
          exact ⟨⟨tokens, n, hm⟩, ⟨tokens.drop n, n', ha⟩⟩

/-- The converted rules are rules of the list. -/
theorem mem_of_mem_convertAll {A : Type} {ops : ActionOps A E} {list : List (TableRuleMatch × A)}
    {xs : List (Converted A E)} (h : convertAll ops list = some xs) :
    ∀ x ∈ xs, (x.ruleMatch, x.action) ∈ list := by
  induction list generalizing xs with
  | nil =>
    obtain rfl := Option.some.inj h
    exact fun x hx => absurd hx List.not_mem_nil
  | cons r list ih =>
    unfold convertAll at h
    cases hr : convertRule ops r with
    | none =>
      rw [hr] at h
      cases h
    | some y =>
      cases hlist : convertAll ops list with
      | none =>
        rw [hr, hlist] at h
        cases h
      | some ys =>
        rw [hr, hlist] at h
        obtain rfl := Option.some.inj h
        intro x hx
        rcases List.mem_cons.mp hx with rfl | hx
        · have hrule : (x.ruleMatch, x.action) = r := by
            unfold convertRule at hr
            split at hr
            · obtain rfl := Option.some.inj hr
              rfl
            · cases hr
          rw [hrule]
          exact List.mem_cons_self
        · exact List.mem_cons_of_mem r (ih hlist x hx)

/-- The rules that got an entry are converted rules. -/
theorem mem_of_mem_entryAddAll {A : Type} {lib : LowLevel κ E D} {ll : List (LlEntry E D)}
    {xs : List (Converted A E)} :
    ∀ x ∈ (entryAddAll lib ll xs).1, x.toConverted ∈ xs := by
  induction xs generalizing ll with
  | nil => exact fun x hx => absurd hx List.not_mem_nil
  | cons y xs ih =>
    intro x hx
    unfold entryAddAll at hx
    cases hplace : lib.place ll y.params y.entry with
    | none =>
      rw [hplace] at hx
      exact absurd hx List.not_mem_nil
    | some data =>
      rw [hplace] at hx
      rcases List.mem_cons.mp hx with rfl | hx
      · exact List.mem_cons_self
      · exact List.mem_cons_of_mem y (ih x hx)

/-- What a bulk places comes from its list. -/
theorem mem_of_mem_placed {A : Type} {lib : LowLevel κ E D} {ops : ActionOps A E} {b : Bool}
    {ll ll' : List (LlEntry E D)} {list : List (TableRuleMatch × A)} {placed : List (Placed A E D)}
    (h : tableRuleAddBulkLl lib ops b ll list = some (placed, ll')) :
    ∀ x ∈ placed, (x.ruleMatch, x.action) ∈ list := by
  intro x hx
  unfold tableRuleAddBulkLl at h
  cases hconvert : convertAll ops list with
  | none =>
    rw [hconvert] at h
    cases h
  | some xs =>
    have hmem : x ∈ (entryAddAll lib ll xs).1 := by
      simp only [hconvert] at h
      split_ifs at h <;> cases h <;> exact hx
    exact mem_of_mem_convertAll hconvert _ (mem_of_mem_entryAddAll x hmem)

/-! ### One command, and a list of them -/

/-- An add command keeps the rules read. -/
theorem allRead_exec {t : TableContents c} (h : AllRead inet symCrypto t.rules.rules)
    {m : TableRuleMatch} {a : TableRuleAction S} (hnew : IsRead inet symCrypto m a) :
    AllRead inet symCrypto (t.exec (.add m a)).2.rules.rules := by
  change AllRead inet symCrypto (pipelineTableRuleAdd c.ops c.params t.rules m a).2.rules
  unfold pipelineTableRuleAdd
  split_ifs
  · exact h
  · split
    · split
      · exact h
      · exact h.tableRuleAdd hnew
    · exact h

/-- The rule of an add command was read. -/
theorem isRead_of_parseRuleAdd {tokens : List String} {cmd : RuleCommand S}
    (h : parseRuleAdd inet symCrypto tokens = .ok cmd) :
    ∃ m a, cmd.op = .add m a ∧ IsRead inet symCrypto m a := by
  simp only [parseRuleAdd, bind_eq_ok, Prod.exists, Except.ok.injEq] at h
  obtain ⟨_, -, name, id, -, m, n, hm, a, n', ha, _, -, rfl⟩ := h
  exact ⟨m, a, rfl, ⟨_, n, hm⟩, ⟨_, n', ha⟩⟩

/-- A bulk command keeps the rules read. -/
theorem allRead_pipelineTableRuleAddBulk {s : TableState c.lib (TableRuleAction S)}
    {list : List (FileRule S)} (h : AllRead inet symCrypto s.rules)
    (hlist : ∀ x ∈ list, IsRead inet symCrypto x.1 x.2) :
    AllRead inet symCrypto (pipelineTableRuleAddBulk c.ops c.params s list).2.2.rules := by
  unfold pipelineTableRuleAddBulk
  split_ifs
  · exact h
  · exact h
  · split
    · exact h
    · rename_i placed ll' hadd
      apply h.tableRuleAddBulk
      intro r hr
      obtain ⟨x, hx, rfl⟩ := List.mem_map.mp hr
      exact hlist _ (mem_of_mem_placed hadd x hx)

/-- The command for the default adds a default. -/
theorem addDefault_of_parseRuleAddDefault {tokens : List String} {cmd : RuleCommand S}
    (h : parseRuleAddDefault tokens = .ok cmd) : ∃ action, cmd.op = .addDefault action := by
  simp only [parseRuleAddDefault, bind_eq_ok, Prod.exists, Except.ok.injEq] at h
  obtain ⟨_, -, name, id, -, _, -, _, -, _, -, _, -, action, -, rfl⟩ := h
  exact ⟨action, rfl⟩

/-- The default rule is not one of the rules. -/
theorem rules_exec_addDefault (t : TableContents c) (action : FwdAction) :
    (t.exec (.addDefault action)).2.rules = t.rules := by
  change (pipelineTableRuleAddDefault t action).2.rules = t.rules
  unfold pipelineTableRuleAddDefault
  split_ifs <;> rfl

/-- One command. -/
theorem allRead_runAdd {t : TableContents c} (h : AllRead inet symCrypto t.rules.rules)
    (cmd : AddCommand) : AllRead inet symCrypto (t.runAdd inet symCrypto cmd).rules.rules := by
  cases cmd with
  | add tokens =>
    change AllRead inet symCrypto (t.execParsed (parseRuleAdd inet symCrypto tokens)).rules.rules
    cases hcmd : parseRuleAdd inet symCrypto tokens with
    | error e => exact h
    | ok cmd =>
      obtain ⟨m, a, hop, hnew⟩ := isRead_of_parseRuleAdd hcmd
      change AllRead inet symCrypto (t.exec cmd.op).2.rules.rules
      rw [hop]
      exact allRead_exec h hnew
  | addDefault tokens =>
    change AllRead inet symCrypto (t.execParsed (parseRuleAddDefault tokens)).rules.rules
    cases hcmd : parseRuleAddDefault (S := S) tokens with
    | error e => exact h
    | ok cmd =>
      obtain ⟨action, hop⟩ := addDefault_of_parseRuleAddDefault hcmd
      change AllRead inet symCrypto (t.exec cmd.op).2.rules.rules
      rw [hop, rules_exec_addDefault]
      exact h
  | addBulk text =>
    change AllRead inet symCrypto
      (t.execBulk (cliRuleFileProcess inet symCrypto text).ruleList).rules.rules
    cases hlist : (cliRuleFileProcess inet symCrypto text).ruleList with
    | none => exact h
    | some list =>
      exact allRead_pipelineTableRuleAddBulk h
        (isRead_of_ruleList (fun x hx => absurd hx List.not_mem_nil) hlist)

/-- A list of commands. -/
theorem allRead_runAdds {t : TableContents c} (h : AllRead inet symCrypto t.rules.rules)
    (cmds : List AddCommand) :
    AllRead inet symCrypto (t.runAdds inet symCrypto cmds).rules.rules := by
  induction cmds generalizing t with
  | nil => exact h
  | cons cmd cmds ih => exact ih (allRead_runAdd h cmd)

end Commands

/-! ### The round trip -/

/-- Two relations between the members of two lists. -/
theorem forall₂_and {α β : Type} {R R' : α → β → Prop} {as : List α} {bs : List β}
    (h : List.Forall₂ R as bs) (h' : List.Forall₂ R' as bs) :
    List.Forall₂ (fun a b => R a b ∧ R' a b) as bs := by
  induction h with
  | nil => exact .nil
  | cons hab _ ih =>
    cases h' with
    | cons hab' h' => exact .cons ⟨hab, hab'⟩ (ih h')

/-- A list has a partner under a relation when each of its entries has one. -/
theorem exists_forall₂_iff {α β : Type} {R : α → β → Prop} {as : List α} :
    (∃ bs, List.Forall₂ R as bs) ↔ ∀ a ∈ as, ∃ b, R a b := by
  induction as with
  | nil =>
    constructor
    · intro _ a ha
      exact absurd ha List.not_mem_nil
    · intro _
      exact ⟨[], .nil⟩
  | cons a as ih =>
    rw [List.forall_mem_cons, ← ih]
    constructor
    · rintro ⟨_, hall⟩
      obtain ⟨b, bs, hb, hbs, -⟩ := List.forall₂_cons_left_iff.mp hall
      exact ⟨⟨b, hb⟩, bs, hbs⟩
    · rintro ⟨⟨b, hb⟩, bs, hbs⟩
      exact ⟨b :: bs, .cons hb hbs⟩

section RoundTrip

variable {κ E D S : Type} {c : TableConf κ E D S} (inet : InetPton)
  (symCrypto : List String → Parse (S × ℕ))

/-- The file of the table is accepted, and its rules are those of the table, in their order. -/
def TableContents.RoundTrips (keySize : HashKeySize) (t : TableContents c) : Prop :=
  let result := cliRuleFileProcess inet symCrypto
    (tableRuleShow keySize c.ap t.rules.rules t.ruleDefault)
  result.status = 0 ∧
    ∃ l, result.ruleList = some l ∧ List.Forall₂ TableRule.LoadsAs t.rules.rules l

variable {inet symCrypto}

/-- The file is read line by line. -/
theorem roundTrips_iff_forall₂ {keySize : HashKeySize} {t : TableContents c} :
    t.RoundTrips inet symCrypto keySize ↔
      ∃ l, List.Forall₂ (fun r x => parseFileRule inet symCrypto (ruleTokens keySize c.ap r) =
        .ok x ∧ r.LoadsAs x) t.rules.rules l := by
  constructor
  · rintro ⟨-, l, hl, hloads⟩
    have hread := (ruleList_tableRuleShow keySize c.ap).mp hl
    exact ⟨l, forall₂_and hread hloads⟩
  · rintro ⟨l, hboth⟩
    have hl : (cliRuleFileProcess inet symCrypto
        (tableRuleShow keySize c.ap t.rules.rules t.ruleDefault)).ruleList = some l :=
      (ruleList_tableRuleShow keySize c.ap).mpr (hboth.imp fun _ _ h => h.1)
    have hstatus := (status_readRuleLines _ _ _).mpr (Option.isSome_of_eq_some hl)
    exact ⟨hstatus, l, hl, hboth.imp fun _ _ h => h.2⟩

/-- The file of a table whose rules were read from tokens. -/
theorem roundTrips_iff_of_allRead (hinet : inet.Standard) (keySize : HashKeySize)
    {t : TableContents c} (hread : AllRead inet symCrypto t.rules.rules)
    (hcrypto : ∀ r ∈ t.rules.rules, r.action.symCrypto = none) :
    t.RoundTrips inet symCrypto keySize ↔ ∀ r ∈ t.rules.rules, r.Printable keySize := by
  rw [roundTrips_iff_forall₂, exists_forall₂_iff]
  constructor
  · intro h r hr
    exact (exists_loadsAs_iff keySize c.ap hinet (hread r hr) (hcrypto r hr)).mp (h r hr)
  · intro h r hr
    exact (exists_loadsAs_iff keySize c.ap hinet (hread r hr) (hcrypto r hr)).mpr (h r hr)

/-- **Show, then load.** Let add commands fill a table with rules whose actions use neither `time`
nor `sym_crypto`. The file that `rule show` writes of the table is accepted by the reader of rule
files and holds the rules of the table, in their order, exactly when all of them are written in
the words of the parser. -/
theorem roundTrips_iff [DecidableEq κ] (hinet : inet.Standard) (keySize : HashKeySize)
    (cmds : List AddCommand)
    (hactions : ∀ r ∈ ((⟨.empty, none⟩ : TableContents c).runAdds inet symCrypto cmds).rules.rules,
      r.action.time = false ∧ r.action.symCrypto = none) :
    ((⟨.empty, none⟩ : TableContents c).runAdds inet symCrypto cmds).RoundTrips inet symCrypto
        keySize ↔
      ∀ r ∈ ((⟨.empty, none⟩ : TableContents c).runAdds inet symCrypto cmds).rules.rules,
        r.Printable keySize := by
  have hempty : AllRead inet symCrypto (⟨.empty, none⟩ : TableContents c).rules.rules := by
    intro r hr
    exact absurd hr List.not_mem_nil
  exact roundTrips_iff_of_allRead hinet keySize (allRead_runAdds hempty cmds) fun r hr =>
    (hactions r hr).2

end RoundTrip

/-! ### A table that is shown and loaded, and one that is not -/

/-- A byte in decimal digits without a leading zero. -/
def dottedByte (digits : List Char) : Option (BitVec 8) :=
  if decimal digits < 256 ∧ Nat.toDigits 10 (decimal digits) = digits then
    some (.ofNat 8 (decimal digits))
  else none

/-- Reads dotted addresses, and no others. -/
def dottedInet : InetPton where
  af4 t :=
    match (t.toList.splitOnP (· = '.')).map dottedByte with
    | [some a, some b, some c, some d] => some fun i => [a, b, c, d].getD i 0
    | _ => none
  af6 _ := none

/-- A printed byte is read back. -/
theorem dottedByte_toDigits (a : BitVec 8) : dottedByte (Nat.toDigits 10 a.toNat) = some a := by
  have hlt : a.toNat < 256 := a.isLt
  unfold dottedByte
  rw [decimal_toDigits, if_pos ⟨hlt, rfl⟩, BitVec.ofNat_toNat, BitVec.setWidth_eq]

/-- The reader of the example is a standard one. -/
theorem dottedInet_standard : dottedInet.Standard where
  af4_dotted a b c d := by
    have hdot (n : ℕ) : ∀ x ∈ Nat.toDigits 10 n, (decide (x = '.')) = false := by
      intro x hx
      have hdigit := Nat.isDigit_of_mem_toDigits (by decide) (by decide) hx
      apply decide_eq_false
      rintro rfl
      cases hdigit
    have hsplit : ((showUint a.toNat ++ "." ++ showUint b.toNat ++ "." ++ showUint c.toNat ++ "." ++
        showUint d.toNat).toList.splitOnP (· = '.')) = [Nat.toDigits 10 a.toNat,
          Nat.toDigits 10 b.toNat, Nat.toDigits 10 c.toNat, Nat.toDigits 10 d.toNat] := by
      have htext : (showUint a.toNat ++ "." ++ showUint b.toNat ++ "." ++ showUint c.toNat ++ "." ++
          showUint d.toNat).toList = Nat.toDigits 10 a.toNat ++ '.' :: (Nat.toDigits 10 b.toNat ++
            '.' :: (Nat.toDigits 10 c.toNat ++ '.' :: Nat.toDigits 10 d.toNat)) := by
        simp only [String.toList_append, showUint, Nat.toList_repr, List.append_assoc]
        rfl
      rw [htext, List.splitOnP_append_cons _ _ rfl, List.splitOnP_append_cons _ _ rfl,
        List.splitOnP_append_cons _ _ rfl, List.splitOnP_eq_singleton (hdot _),
        List.splitOnP_eq_singleton (hdot _), List.splitOnP_eq_singleton (hdot _),
        List.splitOnP_eq_singleton (hdot _)]
      rfl
    refine ⟨fun i => [a, b, c, d].getD i 0, ?_, rfl⟩
    unfold dottedInet
    simp only [hsplit, List.map_cons, List.map_nil, dottedByte_toDigits]
  af6_colon s _ := rfl

/-- No action is `sym_crypto`. -/
def noSymCrypto : List String → Parse (Unit × ℕ) := fun _ => .error .silent

/-- Keys of 8 bytes. -/
def eightBytes : HashKeySize := ⟨8, by decide⟩

/-- A profile with the parts `fwd` and `nat`. -/
def natProfile : ActionProfile where
  actionMask :=
    [true, false, false, false, false, true, false, false, false, false, false, false]
  ipv4 := true
  nTc := 0
  nSubportsPerPort := 0
  nPipesPerSubport := 0
  encapMask := []
  vxlanVlan := false
  vxlanIpv4 := false

/-- A hash table with keys of 8 bytes, for rules with `fwd` and `nat`. -/
def natTable : TableConf (List (BitVec 8)) Unit ℕ Unit where
  params := .hash
  ap := natProfile
  nPortsOut := 2
  nTables := 1
  lib := .hash 8 (fun ll _ _ => some ll.length) (-1)
  convert := fun _ => some ()
  defaultAdd := fun _ => true
  defaultDelete := fun _ => 0

/-- A rule with a key, a port and a translated address. -/
def natCommand : AddCommand :=
  .add ["pipeline", "P", "table", "0", "rule", "add", "match", "hash", "raw", "0102030405060708",
    "action", "fwd", "port", "1", "nat", "ipv4", "10.0.0.1", "80"]

/-- The table with the rule. -/
theorem natTable_roundTrips_iff :
    ((⟨.empty, none⟩ : TableContents natTable).runAdds dottedInet noSymCrypto
        [natCommand]).RoundTrips dottedInet noSymCrypto eightBytes ↔
      ∀ r ∈ ((⟨.empty, none⟩ : TableContents natTable).runAdds dottedInet noSymCrypto
        [natCommand]).rules.rules, r.Printable 8 :=
  roundTrips_iff dottedInet_standard eightBytes [natCommand] (by decide +kernel)

/-- An LPM table for ipv4, for rules with `fwd`. -/
def lpmTable : TableConf (ℕ × ℕ) Unit ℕ Unit where
  params := .lpm 4
  ap := { natProfile with actionMask := true :: List.replicate 11 false }
  nPortsOut := 1
  nTables := 1
  lib := .lpm 4 (fun ll _ _ => some ll.length) (-1)
  convert := fun _ => some ()
  defaultAdd := fun _ => true
  defaultDelete := fun _ => 0

/-- The table with a route. -/
def lpmContents : TableContents lpmTable :=
  (⟨.empty, none⟩ : TableContents lpmTable).runAdds dottedInet noSymCrypto
    [.add ["pipeline", "P", "table", "0", "rule", "add", "match", "lpm", "ipv4", "10.0.0.0", "8",
      "action", "fwd", "port", "0"]]

/-- The route is installed and uses neither `time` nor `sym_crypto`, and the file of the table is
not accepted. -/
theorem lpmContents_not_roundTrips :
    lpmContents.rules.rules.length = 1 ∧
      (∀ r ∈ lpmContents.rules.rules, r.action.time = false ∧ r.action.symCrypto = none) ∧
      ¬ lpmContents.RoundTrips dottedInet noSymCrypto eightBytes := by
  refine ⟨by decide +kernel, by decide +kernel, ?_⟩
  rintro ⟨-, l, hl, -⟩
  have hnone : (cliRuleFileProcess dottedInet noSymCrypto (tableRuleShow eightBytes
    lpmTable.ap lpmContents.rules.rules lpmContents.ruleDefault)).ruleList.isNone = true := by
    decide +kernel
  rw [hl] at hnone
  cases hnone

end Rids.Pipeline
