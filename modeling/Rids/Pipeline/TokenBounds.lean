import Rids.Pipeline.ActionBounds
import Rids.Pipeline.MatchBounds
import Rids.Pipeline.RuleCommand
import Rids.Pipeline.RuleFile

/-!
# Which tokens the rule grammar examines

`KeepsTo` is that a parser reads no token past the end of its array and counts no more tokens than
there are; `DifferencesKeep` is that no `n_tokens - t0` of a caller is below zero.
`tokenBounds_iff` says of every token array and of every command line where these hold: the grammar
goes past the end of its tokens in three places.
-/

namespace Rids.Pipeline

open Rids.Lib.ByteMem Rids.Lib.Fallible Rids.Lib.TokenPattern

/-! ### The parsers -/

section Parsers

variable {inet : InetPton} {algos : CryptoAlgos} {tokens : List String} {n : ℕ}

/-- No token past the end is examined, and the number of tokens taken is at most the number there
is. -/
def KeepsTo {α : Type} (tokens : List String) (x : Parse (α × ℕ)) : Prop :=
  ¬ Overruns x ∧ ∀ n, Takes n x → n ≤ tokens.length

/-- A parser that counts right keeps to its tokens unless it goes past their end. -/
theorem keepsTo_iff {α : Type} {x : Parse (α × ℕ)} {P : Prop} (hover : Overruns x ↔ P)
    (hcount : ∀ n, Takes n x → n ≤ tokens.length) : KeepsTo tokens x ↔ ¬ P := by
  rw [KeepsTo, hover]
  exact and_iff_left hcount

/-- A match takes no more tokens than there are. -/
theorem takes_parseMatch_le (h : Takes n (parseMatch inet tokens)) : n ≤ tokens.length :=
  (takes_parseMatch.mp h).le_length

/-- A part with one number takes no more tokens than there are. -/
theorem takes_parseTableActionUint_le {w : ℕ} {name : String}
    {read : String → Except Errno (BitVec w)}
    (h : Takes n (parseTableActionUint name read tokens)) : n ≤ tokens.length := by
  simp only [parseTableActionUint, takes_bind, takes_ok, ensure_eq_ok, decide_eq_true_eq,
    exists_const] at h
  obtain ⟨hlen, -, -, -, -, rfl⟩ := h
  exact hlen

/-- The number is that of the tokens that are not left. -/
theorem takes_parseTableAction_le {S : Type} {symCrypto : List String → Parse (S × ℕ)}
    (h : Takes n (parseTableAction inet symCrypto tokens)) : n ≤ tokens.length := by
  simp only [parseTableAction, takes_bind, takes_ok] at h
  grind

variable (inet algos tokens) in
/-- The routines that keep to whatever tokens they are given. The meter of a traffic class returns
9 or 0. -/
structure RoutinesKeep : Prop where
  fwd : KeepsTo tokens (parseTableActionFwd tokens)
  balance : KeepsTo tokens (parseTableActionBalance tokens)
  meterTc : ¬ Overruns (parseTableActionMeterTc tokens) ∧
    ∀ tc, parseTableActionMeterTc tokens = .ok tc → 9 ≤ tokens.length
  meter : KeepsTo tokens (parseTableActionMeter tokens)
  tm : KeepsTo tokens (parseTableActionTm tokens)
  nat : KeepsTo tokens (parseTableActionNat inet tokens)
  ttl : KeepsTo tokens (parseTableActionTtl tokens)
  stats : KeepsTo tokens (parseTableActionStats tokens)
  time : KeepsTo tokens (parseTableActionTime tokens)
  cipher : ∀ maxKeyLen encrypt,
    KeepsTo tokens (parseTableActionCipher algos maxKeyLen encrypt tokens)
  cipherAuth : ∀ maxKeyLen encrypt,
    KeepsTo tokens (parseTableActionCipherAuth algos maxKeyLen encrypt tokens)
  aead : ∀ maxKeyLen encrypt, KeepsTo tokens (parseTableActionAead algos maxKeyLen encrypt tokens)
  tag : KeepsTo tokens (parseTableActionTag tokens)
  decap : KeepsTo tokens (parseTableActionDecap tokens)

/-- A part that is one word keeps to its tokens. -/
theorem keepsTo_flag {name : String} : KeepsTo tokens (parseTableActionFlag name tokens) :=
  ⟨not_overruns_parseTableActionFlag, fun _ h => (takes_parseTableActionFlag.mp h).le_length⟩

/-- A part with one number keeps to its tokens. -/
theorem keepsTo_uint {w : ℕ} {name : String} {read : String → Except Errno (BitVec w)} :
    KeepsTo tokens (parseTableActionUint name read tokens) :=
  ⟨not_overruns_parseTableActionUint, fun _ => takes_parseTableActionUint_le⟩

/-- The routines of the parts keep to their tokens. -/
theorem routinesKeep : RoutinesKeep inet algos tokens where
  fwd := ⟨not_overruns_parseTableActionFwd,
    fun _ h => (takes_parseTableActionFwd.mp h).le_length⟩
  balance := ⟨not_overruns_parseTableActionBalance,
    fun _ h => (takes_parseTableActionBalance.mp h).le_length⟩
  meterTc := ⟨not_overruns_parseTableActionMeterTc,
    fun tc h => (parseTableActionMeterTc_ok.mp ⟨tc, h⟩).length_le⟩
  meter := ⟨not_overruns_parseTableActionMeter,
    fun _ h => (takes_parseTableActionMeter.mp h).le_length⟩
  tm := ⟨not_overruns_parseTableActionTm, fun _ h => (takes_parseTableActionTm.mp h).le_length⟩
  nat := ⟨not_overruns_parseTableActionNat, fun _ h => (takes_parseTableActionNat.mp h).le_length⟩
  ttl := ⟨not_overruns_parseTableActionTtl, fun _ h => (takes_parseTableActionTtl.mp h).le_length⟩
  stats := keepsTo_flag
  time := keepsTo_flag
  cipher _ _ := ⟨not_overruns_parseTableActionCipher, fun _ h => by
    obtain ⟨rfl, hstarts⟩ := takes_parseTableActionCipher.mp h
    exact hstarts.le_of_drop (Nat.succ_pos _)⟩
  cipherAuth _ _ := ⟨not_overruns_parseTableActionCipherAuth, fun _ h => by
    obtain ⟨rfl, key, -, hstarts⟩ := takes_parseTableActionCipherAuth.mp h
    exact hstarts.le_of_drop (Nat.succ_pos _)⟩
  aead _ _ := ⟨not_overruns_parseTableActionAead, fun _ h => by
    obtain ⟨rfl, hstarts⟩ := takes_parseTableActionAead.mp h
    exact hstarts.le_of_drop (Nat.succ_pos _)⟩
  tag := keepsTo_uint
  decap := keepsTo_uint

end Parsers

/-! ### The commands -/

section Commands

variable (inet : InetPton) (algos : CryptoAlgos) (tokens : List String)

/-- A rule from the token `t0` on, which leaves a number of tokens that is not below zero for the
match, for the action and for what comes after it. -/
def DifferencesKeep (t0 : ℕ) : Prop :=
  t0 ≤ tokens.length ∧ ∀ n, Takes n (parseMatch inet (tokens.drop t0)) →
    t0 + n ≤ tokens.length ∧
      ∀ n', Takes n' (parseTableAction inet (parseTableActionSymCrypto algos)
        (tokens.drop (t0 + n))) → t0 + n + n' ≤ tokens.length

/-- `cmd_pipeline_table_rule_add` keeps to its tokens. -/
def RuleAddKeeps : Prop :=
  ¬ Overruns (parseRuleAdd inet (parseTableActionSymCrypto algos) tokens) ∧
    ∀ target, readTarget tokens "add" = .ok target → DifferencesKeep inet algos tokens 6

/-- `cmd_pipeline_table_rule_delete` keeps to its tokens. -/
def RuleDeleteKeeps : Prop :=
  ¬ Overruns (parseRuleDelete inet tokens : Parse (RuleCommand SymCryptoParams)) ∧
    ∀ target, readTarget tokens "delete" = .ok target → 6 ≤ tokens.length ∧
      ∀ n, Takes n (parseMatch inet (tokens.drop 6)) → 6 + n ≤ tokens.length

/-- `cli_rule_file_process` keeps to the tokens of a line. -/
def FileRuleKeeps : Prop :=
  ¬ Overruns (parseFileRule inet (parseTableActionSymCrypto algos) tokens) ∧
    DifferencesKeep inet algos tokens 0

/-- A truncated match, or a whole one with a truncated action after it. -/
def TruncatedRule : Prop :=
  TruncatedRaw tokens ∨
    ∃ n, StartsAny (matchPatterns inet) n tokens ∧ TruncatedAction inet algos (tokens.drop n)

/-- The tokens of a command up to its match. -/
def ruleHead (verb : String) : Pattern String :=
  [fun _ => True, fun _ => True, Is "table", IsUint 32, Is "rule", Is verb]

/-- A command that adds a truncated rule. -/
def TruncatedRuleAdd : Prop :=
  Starts (ruleHead "add") tokens ∧ TruncatedRule inet algos (tokens.drop 6)

/-- A command that deletes the rule of a truncated match. -/
def TruncatedRuleDelete : Prop := Starts (ruleHead "delete") tokens ∧ TruncatedRaw (tokens.drop 6)

variable {inet algos tokens}

/-- The pipeline and the table of a rule command are read behind its head. -/
theorem readTarget_ok {verb : String} :
    (∃ target, readTarget tokens verb = .ok target) ↔ Starts (ruleHead verb) tokens := by
  simp only [readTarget, returns_bind, returns_ok, arg_eq_ok, keyword_ok, readUint_ok,
    exists_and_right, exists_const, and_true, ruleHead, starts_cons, starts_nil, at_drop,
    at_true, List.length_drop, List.drop_drop, Nat.reduceAdd]
  constructor
  · rintro ⟨⟨name, hname⟩, h⟩
    have hlt := (List.getElem?_eq_some_iff.mp hname).1
    exact ⟨by omega, by omega, h⟩
  · rintro ⟨-, hlt, h⟩
    exact ⟨⟨tokens[1], List.getElem?_eq_getElem (by omega)⟩, h⟩

/-- The pipeline and the table of a rule command are the tokens up to 5. -/
theorem overruns_readTarget {verb : String} (h : Overruns (readTarget tokens verb)) :
    tokens.length < 6 := by
  simp only [readTarget, overruns_bind, overruns_ok, overruns_arg, overruns_keyword,
    overruns_readUint, exists_const, and_false, or_false] at h
  grind

/-- A match takes no more tokens than there are after `t0`. -/
theorem add_le_of_takes_parseMatch {t0 n : ℕ} (h : t0 ≤ tokens.length)
    (hn : Takes n (parseMatch inet (tokens.drop t0))) : t0 + n ≤ tokens.length := by
  have hle : n ≤ (tokens.drop t0).length := takes_parseMatch_le hn
  rw [List.length_drop] at hle
  omega

/-- The differences the callers take do not wrap around. -/
theorem differencesKeep {t0 : ℕ} (h : t0 ≤ tokens.length) :
    DifferencesKeep inet algos tokens t0 := by
  refine ⟨h, fun n hn => ?_⟩
  have hmatch : t0 + n ≤ tokens.length := add_le_of_takes_parseMatch h hn
  refine ⟨hmatch, fun n' hn' => ?_⟩
  have haction : n' ≤ (tokens.drop (t0 + n)).length := takes_parseTableAction_le hn'
  rw [List.length_drop] at haction
  omega

/-- What a rule goes past the end with. -/
theorem overruns_rule {t0 : ℕ} : (Overruns (parseMatch inet (tokens.drop t0)) ∨
    ∃ x, parseMatch inet (tokens.drop t0) = .ok x ∧
      Overruns (parseTableAction inet (parseTableActionSymCrypto algos) (tokens.drop (t0 + x.2)))) ↔
    TruncatedRule inet algos (tokens.drop t0) := by
  simp only [Prod.exists, exists_takes, TruncatedRule, overruns_parseMatch, takes_parseMatch,
    overruns_parseTableAction, List.drop_drop]

/-- A truncated rule has at least two tokens. -/
theorem TruncatedRule.two_le (h : TruncatedRule inet algos tokens) : 2 ≤ tokens.length := by
  rcases h with h | ⟨n, -, h⟩
  · exact Nat.le_trans (by decide) h.1
  · have hle := h.two_le
    rw [List.length_drop] at hle
    omega

/-- An add goes past the end exactly with a truncated rule. -/
theorem overruns_parseRuleAdd :
    Overruns (parseRuleAdd inet (parseTableActionSymCrypto algos) tokens) ↔
      TruncatedRuleAdd inet algos tokens := by
  simp only [parseRuleAdd, overruns_bind, overruns_ok, overruns_ensure, ensure_eq_ok,
    decide_eq_true_eq, exists_const, reduceCtorEq, exists_false, and_false, or_false, false_or,
    overruns_rule, TruncatedRuleAdd, ← readTarget_ok, exists_and_right]
  constructor
  · rintro ⟨hlen, h | h⟩
    · have hlt := overruns_readTarget h
      omega
    · exact h
  · rintro ⟨htarget, h⟩
    have hle := h.two_le
    rw [List.length_drop] at hle
    exact ⟨by omega, .inr ⟨htarget, h⟩⟩

/-- A delete goes past the end exactly with a truncated match. -/
theorem overruns_parseRuleDelete :
    Overruns (parseRuleDelete inet tokens : Parse (RuleCommand SymCryptoParams)) ↔
      TruncatedRuleDelete tokens := by
  simp only [parseRuleDelete, overruns_bind, overruns_ok, overruns_ensure, ensure_eq_ok,
    decide_eq_true_eq, exists_const, reduceCtorEq, exists_false, and_false, or_false, false_or,
    overruns_parseMatch, TruncatedRuleDelete, ← readTarget_ok, exists_and_right]
  constructor
  · rintro ⟨hlen, h | h⟩
    · have hlt := overruns_readTarget h
      omega
    · exact h
  · rintro ⟨htarget, h⟩
    have hle : 14 ≤ (tokens.drop 6).length := h.1
    rw [List.length_drop] at hle
    exact ⟨by omega, .inr ⟨htarget, h⟩⟩

/-- A line of a rule file goes past the end exactly with a truncated rule. -/
theorem overruns_parseFileRule :
    Overruns (parseFileRule inet (parseTableActionSymCrypto algos) tokens) ↔
      TruncatedRule inet algos tokens := by
  have hrule : _ ↔ TruncatedRule inet algos (tokens.drop 0) := overruns_rule
  simp only [Nat.zero_add, List.drop_zero] at hrule
  simp only [parseFileRule, overruns_bind, overruns_ok, overruns_ensure, reduceCtorEq,
    exists_false, and_false, or_false, hrule]

/-- An add keeps to its tokens unless its rule is truncated. -/
theorem ruleAddKeeps_iff : RuleAddKeeps inet algos tokens ↔ ¬ TruncatedRuleAdd inet algos tokens := by
  rw [RuleAddKeeps, overruns_parseRuleAdd]
  refine and_iff_left fun target h => differencesKeep ?_
  exact (readTarget_ok.mp ⟨target, h⟩).length_le

/-- A delete keeps to its tokens unless its match is truncated. -/
theorem ruleDeleteKeeps_iff : RuleDeleteKeeps inet tokens ↔ ¬ TruncatedRuleDelete tokens := by
  rw [RuleDeleteKeeps, overruns_parseRuleDelete]
  refine and_iff_left fun target h => ?_
  have hlen : 6 ≤ tokens.length := (readTarget_ok.mp ⟨target, h⟩).length_le
  exact ⟨hlen, fun n => add_le_of_takes_parseMatch hlen⟩

/-- A line of a rule file keeps to its tokens unless its rule is truncated. -/
theorem fileRuleKeeps_iff : FileRuleKeeps inet algos tokens ↔ ¬ TruncatedRule inet algos tokens := by
  rw [FileRuleKeeps, overruns_parseFileRule]
  exact and_iff_left (differencesKeep (Nat.zero_le _))

/-- Every parser, and every command, goes past the end of its tokens where a raw match, a tunnel
or a transform is truncated in one of three ways, and nowhere else; no count is above the number
of tokens. A command has a token at least. -/
theorem tokenBounds_iff (inet : InetPton) (algos : CryptoAlgos) :
    (∀ tokens, RoutinesKeep inet algos tokens) ∧
    (∀ tokens, KeepsTo tokens (parseMatch inet tokens) ↔ ¬ TruncatedRaw tokens) ∧
    (∀ tokens, KeepsTo tokens (parseTableActionEncap inet tokens) ↔ ¬ TruncatedVxlan tokens) ∧
    (∀ tokens, KeepsTo tokens (parseTableActionSymCrypto algos tokens) ↔
      ¬ TruncatedSymCrypto algos tokens) ∧
    (∀ tokens, KeepsTo tokens (parseTableAction inet (parseTableActionSymCrypto algos) tokens) ↔
      ¬ TruncatedAction inet algos tokens) ∧
    (∀ t tokens, RuleAddKeeps inet algos (t :: tokens) ↔
      ¬ TruncatedRuleAdd inet algos (t :: tokens)) ∧
    (∀ t tokens, RuleDeleteKeeps inet (t :: tokens) ↔ ¬ TruncatedRuleDelete (t :: tokens)) ∧
    (∀ tokens, FileRuleKeeps inet algos tokens ↔ ¬ TruncatedRule inet algos tokens) :=
  ⟨fun _ => routinesKeep,
    fun _ => keepsTo_iff overruns_parseMatch fun _ => takes_parseMatch_le,
    fun _ => keepsTo_iff overruns_parseTableActionEncap
      fun _ h => (takes_parseTableActionEncap.mp h).le_length,
    fun _ => keepsTo_iff overruns_parseTableActionSymCrypto
      fun _ => takes_parseTableActionSymCrypto_le,
    fun _ => keepsTo_iff overruns_parseTableAction fun _ => takes_parseTableAction_le,
    fun _ _ => ruleAddKeeps_iff, fun _ _ => ruleDeleteKeeps_iff, fun _ => fileRuleKeeps_iff⟩

end Commands

/-! ### A truncated command -/

/-- A raw match of 14 tokens. -/
def fourteenRaw : List String :=
  ["match", "acl", "priority", "0", "raw"] ++ List.replicate 9 "0"

/-- The match and the command that adds its rule go past their last tokens, as does a tunnel
without a header. -/
theorem fourteenRaw_not_keepsTo :
    ¬ KeepsTo fourteenRaw (parseMatch .unspecified fourteenRaw) ∧
      ¬ RuleAddKeeps .unspecified ⟨fun _ => none, fun _ => none, fun _ => none⟩
        (["pipeline", "p", "table", "0", "rule", "add"] ++ fourteenRaw) ∧
      ¬ KeepsTo ["encap", "vxlan", "ether", "1:2:3", "4:5:6"] (parseTableActionEncap .unspecified
        ["encap", "vxlan", "ether", "1:2:3", "4:5:6"]) :=
  ⟨fun h => h.1 (by decide +kernel), fun h => h.1 (by decide +kernel),
    fun h => h.1 (by decide +kernel)⟩

end Rids.Pipeline
