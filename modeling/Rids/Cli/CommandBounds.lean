import Rids.Cli.CliProcess
import Rids.Pipeline.TokenBounds

/-!
# Which tokens a command examines

* `overruns_cliProcessTokens` — the lines on which a token past the end is read.
-/

namespace Rids.Cli

open Rids.Lib.ByteMem Rids.Lib.Fallible Rids.Lib.TokenPattern Rids.Pipeline

/-! ### Readers -/

section Readers

variable {α : Type} {tokens : List String} {i n w : ℕ} {name word : String}

/-- A named number is read past the end when its word or the number is missing. -/
theorem overruns_readNamed {read : String → Except Errno (BitVec w)} :
    Overruns (readNamed tokens i word name read) ↔
      tokens.length ≤ i ∨ At tokens i (Is word) ∧ tokens.length ≤ i + 1 := by
  simp only [readNamed, overruns_bind, overruns_keyword, overruns_readUint, keyword_ok,
    exists_const]

/-- A named number is its word and a number behind it. -/
theorem readNamed_ok : (∃ v, readNamed tokens i word name (parserReadUint w) = .ok v) ↔
    At tokens i (Is word) ∧ At tokens (i + 1) (IsUint w) := by
  simp only [readNamed, returns_bind, keyword_ok, readUint_ok, exists_const]

/-- Only too few tokens are read past the end. -/
theorem lt_of_overruns_readUints {read : String → Except Errno (BitVec w)}
    (h : Overruns (readUints tokens i n name read)) : tokens.length < i + n := by
  obtain ⟨j, hj, hread⟩ := exists_raises_of_mapM h
  have hle : tokens.length ≤ i + j := overruns_readUint.mp hread
  have hlt : j < n := List.mem_range.mp hj
  omega

/-- A hex string is read past the end when it is missing. -/
theorem overruns_readHex : Overruns (readHex tokens i name n) ↔ tokens.length ≤ i :=
  overruns_arg_bind fun t => by
    cases parseHexString t n with
    | none => simp [overruns_error]
    | some x => exact overruns_ok x

/-- An optional part is read only where its name is the next token. -/
theorem overruns_optionalPart {part : List String → Parse (α × ℕ)} :
    Overruns (optionalPart name part tokens) ↔
      tokens.head? = some name ∧ Overruns (part tokens) := by
  simp only [optionalPart, overruns_ite, overruns_bind, overruns_ok, and_false, exists_false,
    or_false]

/-- A part that is one word reads nothing behind it. -/
theorem not_overruns_flagPart : ¬ Overruns (flagPart tokens) := overruns_ok _

end Readers

/-! ### Devices -/

section Devices

variable {tokens : List String}

/-- `cmd_mempool` keeps to its tokens. -/
theorem not_overruns_cmdMempool : ¬ Overruns (cmdMempool tokens) := by
  simp only [cmdMempool, mismatch, overruns_bind, overruns_ok, overruns_ensure, overruns_arg,
    overruns_readNamed, ensure_eq_ok, decide_eq_true_eq, exists_const, reduceCtorEq, and_false,
    or_false, false_or]
  grind

/-- `cmd_link` keeps to its tokens, also with a list of queues. -/
theorem not_overruns_cmdLink : ¬ Overruns (cmdLink tokens) := by
  simp only [cmdLink, cmdLinkDev, cmdLinkRss, readSwitch, mismatch, overruns_bind, overruns_ite,
    overruns_ok, overruns_error, overruns_ensure, overruns_arg, overruns_keyword,
    overruns_readUint, overruns_readNamed, ensure_eq_ok, decide_eq_true_eq, exists_const,
    reduceCtorEq, and_false, or_false, false_or]
  grind [→ lt_of_overruns_readUints]

/-- `cmd_link_show` keeps to its tokens. -/
theorem not_overruns_cmdLinkShow : ¬ Overruns (cmdLinkShow tokens) := by
  simp only [cmdLinkShow, mismatch, overruns_bind, overruns_ite, overruns_ok, overruns_ensure,
    overruns_arg, ensure_eq_ok, decide_eq_true_eq, exists_const, reduceCtorEq, and_false,
    or_false, false_or]
  omega

/-- `cmd_swq` keeps to its tokens. -/
theorem not_overruns_cmdSwq : ¬ Overruns (cmdSwq tokens) := by
  simp only [cmdSwq, mismatch, overruns_bind, overruns_ok, overruns_ensure, overruns_arg,
    overruns_readNamed, ensure_eq_ok, decide_eq_true_eq, exists_const, reduceCtorEq, and_false,
    or_false, false_or]
  grind

/-- The common part of the two profiles reads the tokens up to 18. -/
theorem overruns_readSchedProfile (h : Overruns (readSchedProfile tokens)) :
    tokens.length < 19 := by
  simp only [readSchedProfile, schedTrafficClassesPerPipe, overruns_bind, overruns_ok,
    overruns_readUint, and_false] at h
  grind [→ lt_of_overruns_readUints]

/-- `cmd_tmgr_subport_profile` keeps to its tokens. -/
theorem not_overruns_cmdTmgrSubportProfile : ¬ Overruns (cmdTmgrSubportProfile tokens) := by
  simp only [cmdTmgrSubportProfile, mismatch, overruns_bind, overruns_ensure, ensure_eq_ok,
    decide_eq_true_eq, exists_const, reduceCtorEq, and_false, false_or]
  grind [→ overruns_readSchedProfile]

/-- `cmd_tmgr_pipe_profile` keeps to its tokens. -/
theorem not_overruns_cmdTmgrPipeProfile : ¬ Overruns (cmdTmgrPipeProfile tokens) := by
  simp only [cmdTmgrPipeProfile, schedBeQueuesPerPipe, mismatch, overruns_bind, overruns_ok,
    overruns_ensure, overruns_readUint, ensure_eq_ok, decide_eq_true_eq, exists_const,
    reduceCtorEq, and_false, or_false, false_or]
  grind [→ overruns_readSchedProfile, → lt_of_overruns_readUints]

/-- `cmd_tmgr` keeps to its tokens. -/
theorem not_overruns_cmdTmgr : ¬ Overruns (cmdTmgr tokens) := by
  simp only [cmdTmgr, mismatch, overruns_bind, overruns_ok, overruns_ensure, overruns_arg,
    overruns_readUint, overruns_readNamed, ensure_eq_ok, decide_eq_true_eq, exists_const,
    reduceCtorEq, and_false, or_false, false_or]
  grind

/-- `cmd_tmgr_subport` keeps to its tokens. -/
theorem not_overruns_cmdTmgrSubport : ¬ Overruns (cmdTmgrSubport tokens) := by
  simp only [cmdTmgrSubport, mismatch, overruns_bind, overruns_ok, overruns_ensure, overruns_arg,
    overruns_readUint, ensure_eq_ok, decide_eq_true_eq, exists_const, reduceCtorEq, and_false,
    or_false, false_or]
  grind

/-- `cmd_tmgr_subport_pipe` keeps to its tokens. -/
theorem not_overruns_cmdTmgrSubportPipe : ¬ Overruns (cmdTmgrSubportPipe tokens) := by
  simp only [cmdTmgrSubportPipe, mismatch, overruns_bind, overruns_ok, overruns_ensure,
    overruns_arg, overruns_keyword, overruns_readUint, overruns_readNamed, ensure_eq_ok,
    decide_eq_true_eq, exists_const, reduceCtorEq, and_false,
    or_false, false_or]
  grind

/-- `cmd_tap` keeps to its tokens. -/
theorem not_overruns_cmdTap : ¬ Overruns (cmdTap tokens) := by
  simp only [cmdTap, mismatch, overruns_bind, overruns_ensure, overruns_arg, ensure_eq_ok,
    decide_eq_true_eq, exists_const, reduceCtorEq, and_false, false_or]
  omega

/-- `cmd_kni` keeps to its tokens. -/
theorem not_overruns_cmdKni : ¬ Overruns (cmdKni tokens) := by
  simp only [cmdKni, mismatch, overruns_bind, overruns_ite, overruns_ok, overruns_ensure,
    overruns_arg, overruns_keyword, overruns_readNamed, ensure_eq_ok, decide_eq_true_eq,
    exists_const, reduceCtorEq, and_false,
    or_false, false_or]
  grind

/-- `cmd_cryptodev` keeps to its tokens. -/
theorem not_overruns_cmdCryptodev : ¬ Overruns (cmdCryptodev tokens) := by
  simp only [cmdCryptodev, cmdCryptodevDev, mismatch, overruns_bind, overruns_ite, overruns_ok,
    overruns_error, overruns_ensure, overruns_arg, overruns_readUint, overruns_readNamed,
    ensure_eq_ok, decide_eq_true_eq, exists_const, reduceCtorEq, and_false,
    or_false, false_or]
  grind

end Devices

/-! ### Profiles -/

section Profiles

variable {cryptodevFind : String → Option Cryptodev} {tokens : List String}

/-- The filter of a port profile compares the number of tokens first. -/
theorem not_overruns_portInFilter : ¬ Overruns (portInFilter tokens) := by
  simp only [portInFilter, readSwitch, readHexFull, overruns_bind, overruns_ite, overruns_ok,
    overruns_error, overruns_ensure, overruns_arg, overruns_keyword, overruns_readNamed,
    overruns_readHex, ensure_eq_ok, decide_eq_true_eq, exists_const, reduceCtorEq, and_false,
    or_false, false_or]
  grind

/-- The balance of a port profile compares the number of tokens first. -/
theorem not_overruns_portInBalance : ¬ Overruns (portInBalance tokens) := by
  simp only [portInBalance, overruns_bind, overruns_ok, overruns_ensure, overruns_keyword,
    overruns_readNamed, overruns_readHex, ensure_eq_ok, decide_eq_true_eq, exists_const,
    reduceCtorEq, and_false, or_false, false_or]
  grind [→ lt_of_overruns_readUints]

/-- `cmd_port_in_action_profile` keeps to its tokens. -/
theorem not_overruns_cmdPortInActionProfile : ¬ Overruns (cmdPortInActionProfile tokens) := by
  simp only [cmdPortInActionProfile, mismatch, overruns_bind, overruns_ok, overruns_ensure,
    overruns_arg, overruns_keyword, overruns_optionalPart, not_overruns_portInFilter,
    not_overruns_portInBalance, ensure_eq_ok, decide_eq_true_eq, exists_const, reduceCtorEq,
    and_false, or_false, false_or]
  grind

/-- The balance of a table profile compares the number of tokens first. -/
theorem not_overruns_tableBalance : ¬ Overruns (tableBalance tokens) := by
  simp only [tableBalance, overruns_bind, overruns_ok, overruns_ensure, overruns_keyword,
    overruns_readNamed, overruns_readHex, ensure_eq_ok, decide_eq_true_eq, exists_const,
    reduceCtorEq, and_false, or_false, false_or]
  grind

/-- The meter of a table profile compares the number of tokens first. -/
theorem not_overruns_tableMeter : ¬ Overruns (tableMeter tokens) := by
  simp only [tableMeter, readSwitch, readCounters, overruns_bind, overruns_ite, overruns_ok,
    overruns_error, overruns_ensure, overruns_arg, overruns_keyword, overruns_readNamed,
    ensure_eq_ok, decide_eq_true_eq, exists_const, reduceCtorEq, and_false,
    or_false, false_or]
  grind

/-- The traffic manager of a table profile compares the number of tokens first. -/
theorem not_overruns_tableTm : ¬ Overruns (tableTm tokens) := by
  simp only [tableTm, overruns_bind, overruns_ok, overruns_ensure, overruns_readNamed,
    ensure_eq_ok, decide_eq_true_eq, exists_const, reduceCtorEq, and_false,
    or_false, false_or]
  grind

/-- The encapsulation of a table profile compares the number of tokens first. -/
theorem not_overruns_tableEncap : ¬ Overruns (tableEncap tokens) := by
  simp only [tableEncap, tableEncapVxlan, readSwitch, overruns_bind, overruns_ite, overruns_ok,
    overruns_error, overruns_ensure, overruns_arg, overruns_readUint, ensure_eq_ok,
    decide_eq_true_eq, exists_const, reduceCtorEq, and_false,
    or_false, false_or]
  grind

/-- The address translation of a table profile compares the number of tokens first. -/
theorem not_overruns_tableNat : ¬ Overruns (tableNat tokens) := by
  simp only [tableNat, readSwitch, overruns_bind, overruns_ite, overruns_ok, overruns_error,
    overruns_ensure, overruns_arg, overruns_keyword, ensure_eq_ok, decide_eq_true_eq,
    exists_const, reduceCtorEq, and_false,
    or_false, false_or]
  grind

/-- The time to live of a table profile compares the number of tokens first. -/
theorem not_overruns_tableTtl : ¬ Overruns (tableTtl tokens) := by
  simp only [tableTtl, readSwitch, overruns_bind, overruns_ite, overruns_ok, overruns_error,
    overruns_ensure, overruns_arg, overruns_keyword, ensure_eq_ok, decide_eq_true_eq,
    exists_const, reduceCtorEq, and_false,
    or_false, false_or]
  grind

/-- The counters of a table profile compare the number of tokens first. -/
theorem not_overruns_tableStats : ¬ Overruns (tableStats tokens) := by
  simp only [tableStats, readCounters, overruns_bind, overruns_ite, overruns_ok, overruns_error,
    overruns_ensure, overruns_arg, ensure_eq_ok, decide_eq_true_eq, exists_const, reduceCtorEq,
    and_false, or_false, false_or]
  grind

/-- The cryptography of a table profile compares the number of tokens first. -/
theorem not_overruns_tableSymCrypto : ¬ Overruns (tableSymCrypto cryptodevFind tokens) := by
  simp only [tableSymCrypto, overruns_bind, overruns_ensure, overruns_arg, ensure_eq_ok,
    decide_eq_true_eq, exists_const, reduceCtorEq, and_false, false_or]
  rintro ⟨hlen, h | ⟨dev, -, -, h | ⟨offset, -, -, h | ⟨name, -, h⟩⟩⟩⟩
  · omega
  · omega
  · omega
  · cases hfind : cryptodevFind name with
    | none => simp [hfind, overruns_error] at h
    | some cryptodev =>
      simp only [hfind, overruns_bind, overruns_readUint, overruns_ok, and_false, exists_false,
        or_false] at h
      omega

/-- `cmd_table_action_profile` keeps to its tokens. -/
theorem not_overruns_cmdTableActionProfile :
    ¬ Overruns (cmdTableActionProfile cryptodevFind tokens) := by
  simp only [cmdTableActionProfile, readSwitch, mismatch, overruns_bind, overruns_ite, overruns_ok,
    overruns_error, overruns_ensure, overruns_arg, overruns_keyword, overruns_readNamed,
    overruns_optionalPart, not_overruns_tableBalance, not_overruns_tableMeter,
    not_overruns_tableTm, not_overruns_tableEncap, not_overruns_tableNat, not_overruns_tableTtl,
    not_overruns_tableStats, not_overruns_flagPart, not_overruns_tableSymCrypto, ensure_eq_ok,
    decide_eq_true_eq, exists_const, reduceCtorEq, and_false,
    or_false, false_or]
  grind

end Profiles

/-! ### Pipelines -/

section Pipelines

variable {tokens : List String}

/-- `cmd_pipeline` keeps to its tokens. -/
theorem not_overruns_cmdPipeline : ¬ Overruns (cmdPipeline tokens) := by
  simp only [cmdPipeline, mismatch, overruns_bind, overruns_ok, overruns_ensure, overruns_arg,
    overruns_readNamed, ensure_eq_ok, decide_eq_true_eq, exists_const, reduceCtorEq, and_false,
    or_false, false_or]
  grind

/-- The name of an action profile is read where it is there. -/
theorem not_overruns_actionName : ¬ Overruns (actionName tokens) := by
  simp only [actionName, overruns_bind, overruns_ok, overruns_ensure, overruns_arg, ensure_eq_ok,
    decide_eq_true_eq, exists_const, reduceCtorEq, and_false,
    or_false, false_or]
  omega

/-- The end of a source port without its number, and that of a crypto port without its queue. -/
def portInSource : Pattern String :=
  [Is "source", Is "mempool", fun _ => True, Is "file", fun _ => True, Is "bpp"]
def portInCryptodev : Pattern String := [Is "cryptodev", fun _ => True, fun _ => True]

/-- The tokens of an input port up to its device. -/
def portInHead : Pattern String :=
  [fun _ => True, fun _ => True, Is "port", Is "in", Is "bsz", IsUint 32]

/-- A command that creates an input port and lacks its last number. -/
def TruncatedPortIn (tokens : List String) : Prop :=
  Starts portInHead tokens ∧
    (IsText portInSource (tokens.drop 6) ∨ IsText portInCryptodev (tokens.drop 6))

/-- The device of an input port breaks off in two of its forms. -/
theorem overruns_cmdPortInDev (h : 7 ≤ tokens.length) : Overruns (cmdPortInDev tokens) ↔
    IsText portInSource (tokens.drop 6) ∨ IsText portInCryptodev (tokens.drop 6) := by
  have hlt : 6 < tokens.length := h
  have hkind : tokens[6]? = some tokens[6] := List.getElem?_eq_getElem hlt
  simp only [cmdPortInDev, overruns_bind, overruns_ite, overruns_ok, overruns_error,
    overruns_ensure, overruns_arg, overruns_keyword, overruns_readUint, overruns_readNamed,
    ensure_eq_ok, decide_eq_true_eq, exists_const, reduceCtorEq, and_false, or_false, false_or,
    IsText, portInSource, portInCryptodev, starts_cons, starts_nil, at_drop, at_true, at_is,
    keyword_ok, arg_eq_ok, hkind, Option.some.injEq, exists_eq_left', List.length_drop,
    List.drop_drop, List.length_cons, List.length_nil, Nat.reduceAdd]
  grind

/-- The head of the command, token by token. -/
theorem starts_portInHead : Starts portInHead tokens ↔ At tokens 2 (Is "port") ∧
    At tokens 3 (Is "in") ∧ At tokens 4 (Is "bsz") ∧ At tokens 5 (IsUint 32) := by
  simp only [portInHead, starts_cons, starts_nil, at_drop, at_true, List.length_drop,
    List.drop_drop, Nat.reduceAdd, and_true]
  constructor
  · rintro ⟨-, -, h⟩
    exact h
  · intro h
    have hlt : 5 < tokens.length := h.2.2.2.lt
    exact ⟨by omega, by omega, h⟩

/-- A truncated command has at least the seven tokens that were compared. -/
theorem TruncatedPortIn.le_length (h : TruncatedPortIn tokens) : 7 ≤ tokens.length := by
  rcases h.2 with ⟨hlen, -⟩ | ⟨hlen, -⟩
  · have hsix : tokens.length - 6 = 6 := by rwa [List.length_drop] at hlen
    omega
  · have hthree : tokens.length - 6 = 3 := by rwa [List.length_drop] at hlen
    omega

/-- `cmd_pipeline_port_in` reads past the end exactly on the truncated commands. -/
theorem overruns_cmdPipelinePortIn :
    Overruns (cmdPipelinePortIn tokens) ↔ TruncatedPortIn tokens := by
  by_cases hlen : 7 ≤ tokens.length
  · have hname : arg tokens 1 = .ok tokens[1] :=
      arg_eq_ok.mpr (List.getElem?_eq_getElem (by omega))
    simp only [cmdPipelinePortIn, mismatch, overruns_bind, overruns_ok, overruns_ensure,
      overruns_keyword, overruns_readNamed, overruns_optionalPart, not_overruns_actionName,
      not_overruns_flagPart, ensure_eq_ok, keyword_ok, decide_eq_true_eq, exists_const,
      reduceCtorEq, and_false, or_false, false_or, hlen, hname, readNamed_ok, exists_and_right,
      true_and, TruncatedPortIn, starts_portInHead, overruns_cmdPortInDev hlen]
    grind
  · refine iff_of_false ?_ fun h => hlen h.le_length
    simp only [cmdPipelinePortIn, mismatch, overruns_bind, overruns_ensure, ensure_eq_ok,
      decide_eq_true_eq, hlen, false_and, reduceCtorEq, exists_false, and_false, or_false,
      not_false_eq_true]

/-- `cmd_pipeline_port_in_table` keeps to its tokens. -/
theorem not_overruns_cmdPipelinePortInTable : ¬ Overruns (cmdPipelinePortInTable tokens) := by
  simp only [cmdPipelinePortInTable, mismatch, overruns_bind, overruns_ok, overruns_ensure,
    overruns_arg, overruns_keyword, overruns_readUint, overruns_readNamed, ensure_eq_ok,
    decide_eq_true_eq, exists_const, reduceCtorEq, and_false,
    or_false, false_or]
  grind

/-- `cmd_pipeline_port_out` keeps to its tokens. -/
theorem not_overruns_cmdPipelinePortOut : ¬ Overruns (cmdPipelinePortOut tokens) := by
  simp only [cmdPipelinePortOut, cmdPortOutDev, cmdPortOutSink, cmdPortOutCryptodev, mismatch,
    overruns_bind, overruns_ite, overruns_ok, overruns_error, overruns_ensure, overruns_arg,
    overruns_keyword, overruns_readUint, overruns_readNamed, ensure_eq_ok, decide_eq_true_eq,
    exists_const, reduceCtorEq, and_false,
    or_false, false_or]
  grind

/-- The parameters of an acl table compare the number of tokens first. -/
theorem not_overruns_parseTableAcl {t0 : ℕ} : ¬ Overruns (parseTableAcl tokens t0) := by
  simp only [parseTableAcl, overruns_bind, overruns_ite, overruns_ok, overruns_error,
    overruns_ensure, overruns_arg, overruns_keyword, overruns_readUint, ensure_eq_ok,
    decide_eq_true_eq, exists_const, reduceCtorEq, and_false,
    or_false, false_or]
  grind

/-- The parameters of a hash table compare the number of tokens first. -/
theorem not_overruns_cmdTableHash : ¬ Overruns (cmdTableHash tokens) := by
  simp only [cmdTableHash, readSwitch, overruns_bind, overruns_ite, overruns_ok, overruns_error,
    overruns_ensure, overruns_arg, overruns_keyword, overruns_readNamed, overruns_readHex,
    ensure_eq_ok, decide_eq_true_eq, exists_const, reduceCtorEq, and_false,
    or_false, false_or]
  grind

/-- `cmd_pipeline_table` keeps to its tokens. -/
theorem not_overruns_cmdPipelineTable : ¬ Overruns (cmdPipelineTable tokens) := by
  simp only [cmdPipelineTable, cmdTableMatch, readSwitch, mismatch, overruns_bind, overruns_ite,
    overruns_ok, overruns_error, overruns_ensure, overruns_arg, overruns_keyword,
    overruns_readNamed, overruns_optionalPart, not_overruns_parseTableAcl,
    not_overruns_cmdTableHash, not_overruns_actionName, ensure_eq_ok, decide_eq_true_eq,
    exists_const, reduceCtorEq, and_false,
    or_false, false_or]
  grind

/-! ### Calls -/

/-- A word is read past the end when it is missing. -/
theorem overruns_keywordInvalid {i : ℕ} {name : String} :
    Overruns (keywordInvalid tokens i name) ↔ tokens.length ≤ i :=
  overruns_arg_bind fun _ => by simp [overruns_ensure]

/-- The counters of a port, in either direction. -/
theorem not_overruns_cmdPortStats {dir : String} : ¬ Overruns (cmdPortStats tokens dir) := by
  simp only [cmdPortStats, readPort, readClear, mismatch, overruns_bind, overruns_ite, overruns_ok,
    overruns_ensure, overruns_arg, overruns_keyword, overruns_keywordInvalid, overruns_readUint,
    ensure_eq_ok, decide_eq_true_eq, exists_const, reduceCtorEq, and_false,
    or_false, false_or]
  grind

/-- Enabling and disabling an input port. -/
theorem not_overruns_cmdPortInSwitch {verb : String} :
    ¬ Overruns (cmdPortInSwitch tokens verb) := by
  simp only [cmdPortInSwitch, readPort, mismatch, overruns_bind, overruns_ok, overruns_ensure,
    overruns_arg, overruns_keyword, overruns_readUint, ensure_eq_ok, decide_eq_true_eq,
    exists_const, reduceCtorEq, and_false,
    or_false, false_or]
  grind

/-- The pipeline and the table of a command are the tokens up to 3. -/
theorem overruns_readTableOfPort (h : Overruns (readTableOfPort tokens)) : tokens.length < 4 := by
  simp only [readTableOfPort, overruns_bind, overruns_ok, overruns_ensure, overruns_arg,
    overruns_readUint, ensure_eq_ok, decide_eq_true_eq, exists_const, reduceCtorEq, and_false,
    or_false, false_or] at h
  grind

/-- `cmd_pipeline_table_stats` keeps to its tokens. -/
theorem not_overruns_cmdPipelineTableStats : ¬ Overruns (cmdPipelineTableStats tokens) := by
  simp only [cmdPipelineTableStats, readClear, mismatch, overruns_bind, overruns_ite, overruns_ok,
    overruns_ensure, overruns_keyword, overruns_keywordInvalid, ensure_eq_ok, decide_eq_true_eq,
    exists_const, reduceCtorEq, and_false,
    or_false, false_or]
  grind [→ overruns_readTableOfPort]

/-- `cmd_pipeline_table_rule_add_default` keeps to its tokens. -/
theorem not_overruns_parseRuleAddDefault {S : Type} :
    ¬ Overruns (parseRuleAddDefault tokens : Parse (RuleCommand S)) := by
  simp only [parseRuleAddDefault, parseDefaultAction, overruns_bind, overruns_ite, overruns_ok,
    overruns_error, overruns_ensure, overruns_arg, overruns_keywordInvalid, overruns_readUint,
    ensure_eq_ok, decide_eq_true_eq, exists_const, reduceCtorEq, and_false,
    or_false, false_or]
  grind [→ overruns_readTarget]

/-- `cmd_pipeline_table_rule_delete_default` keeps to its tokens. -/
theorem not_overruns_parseRuleDeleteDefault {S : Type} :
    ¬ Overruns (parseRuleDeleteDefault tokens : Parse (RuleCommand S)) := by
  simp only [parseRuleDeleteDefault, overruns_bind, overruns_ok, overruns_ensure,
    overruns_keywordInvalid, ensure_eq_ok, decide_eq_true_eq, exists_const, reduceCtorEq,
    and_false, or_false, false_or]
  grind [→ overruns_readTarget]

/-- `cmd_pipeline_table_rule_add_bulk` keeps to its tokens. -/
theorem not_overruns_cmdPipelineTableRuleAddBulk :
    ¬ Overruns (cmdPipelineTableRuleAddBulk tokens) := by
  simp only [cmdPipelineTableRuleAddBulk, mismatch, overruns_bind, overruns_ok, overruns_ensure,
    overruns_arg, overruns_keywordInvalid, ensure_eq_ok, decide_eq_true_eq, exists_const,
    reduceCtorEq, and_false, or_false, false_or]
  grind [→ overruns_readTarget]

/-- `cmd_pipeline_table_rule_show` keeps to its tokens. -/
theorem not_overruns_cmdPipelineTableRuleShow : ¬ Overruns (cmdPipelineTableRuleShow tokens) := by
  simp only [cmdPipelineTableRuleShow, mismatch, overruns_bind, overruns_ok, overruns_ensure,
    overruns_arg, overruns_keyword, ensure_eq_ok, decide_eq_true_eq, exists_const, reduceCtorEq,
    and_false, or_false, false_or]
  grind [→ overruns_readTarget]

/-- The table and the profile of a meter command are the tokens up to 7. -/
theorem overruns_readMeterTarget {verb : String} (h : Overruns (readMeterTarget tokens verb)) :
    tokens.length < 8 := by
  simp only [readMeterTarget, overruns_bind, overruns_ok, overruns_keyword, overruns_readUint,
    exists_const, and_false, or_false] at h
  grind [→ overruns_readTableOfPort]

/-- `cmd_pipeline_table_meter_profile_add` keeps to its tokens. -/
theorem not_overruns_cmdPipelineTableMeterProfileAdd :
    ¬ Overruns (cmdPipelineTableMeterProfileAdd tokens) := by
  simp only [cmdPipelineTableMeterProfileAdd, readMeterProfile, mismatch, overruns_bind,
    overruns_ite, overruns_ok, overruns_error, overruns_ensure, overruns_arg, overruns_readNamed,
    ensure_eq_ok, decide_eq_true_eq, exists_const, reduceCtorEq, and_false,
    or_false, false_or]
  grind [→ overruns_readMeterTarget]

/-- `cmd_pipeline_table_meter_profile_delete` keeps to its tokens. -/
theorem not_overruns_cmdPipelineTableMeterProfileDelete :
    ¬ Overruns (cmdPipelineTableMeterProfileDelete tokens) := by
  simp only [cmdPipelineTableMeterProfileDelete, mismatch, overruns_bind, overruns_ensure,
    ensure_eq_ok, decide_eq_true_eq, exists_const, reduceCtorEq, and_false, false_or]
  grind [→ overruns_readMeterTarget]

/-- `cmd_pipeline_table_dscp` keeps to its tokens. -/
theorem not_overruns_cmdPipelineTableDscp : ¬ Overruns (cmdPipelineTableDscp tokens) := by
  simp only [cmdPipelineTableDscp, mismatch, overruns_bind, overruns_ok, overruns_ensure,
    overruns_arg, overruns_keyword, ensure_eq_ok, decide_eq_true_eq, exists_const, reduceCtorEq,
    and_false, or_false, false_or]
  grind [→ overruns_readTableOfPort]

/-- The two commands on threads keep to their tokens. -/
theorem not_overruns_cmdThreadPipeline {verb : String} :
    ¬ Overruns (cmdThreadPipeline tokens verb) := by
  simp only [cmdThreadPipeline, mismatch, overruns_bind, overruns_ok, overruns_ensure,
    overruns_arg, overruns_keyword, overruns_readUint, ensure_eq_ok, decide_eq_true_eq,
    exists_const, reduceCtorEq, and_false,
    or_false, false_or]
  grind

end Pipelines

/-! ### The command line -/

/-- `cmd_help` keeps to its tokens, of which there is at least one. -/
theorem not_overruns_cmdHelp {tokens : List String} (h : tokens ≠ []) :
    ¬ Overruns (cmdHelp tokens) := by
  have hpos : 0 < tokens.length := List.length_pos_of_ne_nil h
  simp only [cmdHelp, overruns_ite, overruns_bind, overruns_ok, overruns_arg]
  grind

section CommandLine

variable {inet : InetPton} {algos : CryptoAlgos} {cryptodevFind : String → Option Cryptodev}
  {tokens : List String}

/-- The match of a read is read past the end where it is a truncated raw match, behind `clear` or
not. -/
theorem overruns_readMatchOfRule {clearable : Bool} :
    Overruns (readMatchOfRule tokens inet clearable) ↔ TruncatedRaw tokens ∨
      clearable = true ∧ tokens.head? = some "clear" ∧ TruncatedRaw (tokens.drop 1) := by
  have hmatch {ts : List String} : ts.head? = some "match" ∧ TruncatedRaw ts ↔ TruncatedRaw ts :=
    and_iff_right_of_imp TruncatedRaw.head
  have hraw (h : tokens.head? = some "clear") : ¬ TruncatedRaw tokens := by
    intro hraw
    rw [hraw.head] at h
    exact absurd (Option.some.inj h) (by decide)
  simp only [readMatchOfRule, overruns_bind, overruns_ok, overruns_ensure, overruns_parseMatch,
    ensure_eq_ok, decide_eq_true_eq, exists_const, reduceCtorEq, exists_false, and_false, or_false,
    false_or]
  by_cases hclear : clearable = true ∧ tokens.head? = some "clear"
  · simp only [hclear, and_self, if_true, hmatch, true_and, hraw hclear.2, false_or]
  · rw [if_neg hclear, hmatch, ← and_assoc]
    simp only [hclear, false_and, or_false]

/-- A command that reads something of the rule of a truncated match, and clears it or not. -/
def TruncatedRuleRead (tokens : List String) : Prop :=
  ∃ what ∈ ["stats", "meter", "ttl", "time"], Starts (ruleHead "read" ++ [Is what]) tokens ∧
    (TruncatedRaw (tokens.drop 7) ∨
      what ≠ "time" ∧ At tokens 7 (Is "clear") ∧ TruncatedRaw (tokens.drop 8))

/-- A read of a rule goes past the end exactly with such a match. -/
theorem overruns_cmdRuleRead {what : String} {clearable : Bool} :
    Overruns (cmdRuleRead tokens inet what clearable) ↔
      Starts (ruleHead "read" ++ [Is what]) tokens ∧ (TruncatedRaw (tokens.drop 7) ∨
        clearable = true ∧ At tokens 7 (Is "clear") ∧ TruncatedRaw (tokens.drop 8)) := by
  have hwhat : Starts (ruleHead "read" ++ [Is what]) tokens ↔
      Starts (ruleHead "read") tokens ∧ At tokens 6 (Is what) := by
    rw [starts_append, starts_cons, at_drop]
    simp only [starts_nil, and_true]
    exact Iff.rfl
  simp only [cmdRuleRead, mismatch, overruns_bind, overruns_ok, overruns_ensure, overruns_keyword,
    overruns_readMatchOfRule, ensure_eq_ok, keyword_ok, decide_eq_true_eq, exists_const,
    reduceCtorEq, exists_false, and_false, or_false, false_or, exists_and_right, readTarget_ok,
    hwhat, List.drop_drop, List.head?_drop, ← at_is, Nat.reduceAdd]
  constructor
  · rintro ⟨hlen, h | ⟨htarget, h | ⟨hword, h⟩⟩⟩
    · have hlt := overruns_readTarget h
      omega
    · omega
    · exact ⟨⟨htarget, hword⟩, h⟩
  · rintro ⟨⟨htarget, hword⟩, h⟩
    exact ⟨hword.lt, .inr ⟨htarget, .inr ⟨hword, h⟩⟩⟩

/-- A comparison of a token with a word. -/
theorem tokenIs_iff {i : ℕ} {word : String} : tokenIs tokens i word = true ↔
    tokens[i]? = some word := decide_eq_true_iff

/-- The words of the head, as the switch compares them. -/
theorem ruleHead_at {verb : String} (h : Starts (ruleHead verb) tokens) :
    tokens[2]? = some "table" ∧ tokens[3]? ≠ some "match" ∧ tokens[4]? = some "rule" ∧
      tokens[5]? = some verb := by
  have hat := starts_iff.mp h
  refine ⟨at_is.mp (hat 2 _ rfl), fun hmatch => ?_, at_is.mp (hat 4 _ rfl), at_is.mp (hat 5 _ rfl)⟩
  obtain ⟨t, ht, hnum⟩ := hat 3 (IsUint 32) rfl
  obtain rfl : t = "match" := Option.some.inj (ht.symm.trans hmatch)
  exact absurd hnum (by decide)

/-- The reads of a rule go past the end exactly where one of them does. -/
theorem overruns_cliProcessRuleRead {S : Type} :
    Overruns (cliProcessRuleRead inet tokens : Parse (Command S)) ↔ TruncatedRuleRead tokens := by
  have hwhat {what : String} (h : Starts (ruleHead "read" ++ [Is what]) tokens) :
      tokens[6]? = some what := at_is.mp (starts_iff.mp h 6 _ rfl)
  simp only [cliProcessRuleRead, cmdPipelineTableRuleStatsRead, cmdPipelineTableRuleMeterRead,
    cmdPipelineTableRuleTtlRead, cmdPipelineTableRuleTimeRead, overruns_ite, overruns_bind,
    overruns_ok, overruns_cmdRuleRead, tokenIs_iff, TruncatedRuleRead, List.exists_mem_cons_iff,
    List.not_mem_nil, false_and, exists_false, and_false, or_false]
  grind

/-- A match of a rule is not the default one. -/
theorem parseMatch_at {n : ℕ} (h : StartsAny (matchPatterns inet) n tokens) :
    tokens[0]? = some "match" ∧ tokens[1]? ≠ some "default" := by
  rw [← takes_parseMatch] at h
  simp only [parseMatch, takes_bind, takes_ite, takes_error, ensure_eq_ok, keyword_ok, at_is,
    arg_eq_ok, exists_const, decide_eq_true_eq] at h
  obtain ⟨-, hmatch, kind, hkind, h⟩ := h
  refine ⟨hmatch, fun hdefault => ?_⟩
  obtain rfl : kind = "default" := Option.some.inj (hkind.symm.trans hdefault)
  simp at h

/-- A truncated raw match is not the default. -/
theorem truncatedRaw_at (h : TruncatedRaw tokens) :
    tokens[0]? = some "match" ∧ tokens[1]? ≠ some "default" := by
  have hat := starts_iff.mp (truncatedRaw_iff.mp h).2.1
  refine ⟨at_is.mp (hat 0 _ rfl), fun hdefault => ?_⟩
  have hacl : tokens[1]? = some "acl" := at_is.mp (hat 1 _ rfl)
  exact absurd (Option.some.inj (hacl.symm.trans hdefault)) (by decide)

/-- A truncated rule is not the default. -/
theorem truncatedRule_at (h : TruncatedRule inet algos (tokens.drop 6)) :
    tokens[6]? = some "match" ∧ tokens[7]? ≠ some "default" := by
  have hat : (tokens.drop 6)[0]? = some "match" ∧ (tokens.drop 6)[1]? ≠ some "default" := by
    rcases h with h | ⟨n, h, -⟩
    · exact truncatedRaw_at h
    · exact parseMatch_at h
  rwa [List.getElem?_drop, List.getElem?_drop] at hat

variable (inet algos tokens) in
/-- A command on the rules of a table with a truncated rule or a truncated match. -/
def TruncatedRuleCommand : Prop :=
  TruncatedRuleAdd inet algos tokens ∨ TruncatedRuleDelete tokens ∨ TruncatedRuleRead tokens

/-- The commands on rules go past the end exactly on the truncated ones. -/
theorem overruns_cliProcessRule :
    Overruns (cliProcessRule inet (parseTableActionSymCrypto algos) tokens) ↔
      TruncatedRuleCommand inet algos tokens := by
  have hadd (h : TruncatedRuleAdd inet algos tokens) : tokens[5]? = some "add" ∧
      tokens[6]? = some "match" ∧ tokens[7]? ≠ some "default" :=
    ⟨(ruleHead_at h.1).2.2.2, truncatedRule_at h.2⟩
  have hdelete (h : TruncatedRuleDelete tokens) : tokens[5]? = some "delete" ∧
      tokens[6]? = some "match" ∧ tokens[7]? ≠ some "default" :=
    ⟨(ruleHead_at h.1).2.2.2, @truncatedRule_at inet algos _ (.inl h.2)⟩
  have hread (h : TruncatedRuleRead tokens) : tokens[5]? = some "read" := by
    obtain ⟨what, -, hstarts, -⟩ := h
    exact (ruleHead_at (starts_append.mp hstarts).1).2.2.2
  simp only [cliProcessRule, overruns_ite, overruns_bind, overruns_ok, overruns_parseRuleAdd,
    overruns_parseRuleDelete, not_overruns_parseRuleAddDefault,
    not_overruns_parseRuleDeleteDefault, not_overruns_cmdPipelineTableRuleAddBulk,
    not_overruns_cmdPipelineTableRuleShow, overruns_cliProcessRuleRead, Bool.and_eq_true,
    tokenIs_iff, TruncatedRuleCommand, exists_false, and_false, or_false, false_or]
  grind

/-- The words of a truncated command on rules, as the switch compares them. -/
theorem truncatedRuleCommand_at (h : TruncatedRuleCommand inet algos tokens) :
    tokens[2]? = some "table" ∧ tokens[3]? ≠ some "match" ∧ tokens[4]? = some "rule" := by
  obtain ⟨verb, hstarts⟩ : ∃ verb, Starts (ruleHead verb) tokens := by
    rcases h with h | h | ⟨what, -, h, -⟩
    · exact ⟨_, h.1⟩
    · exact ⟨_, h.1⟩
    · exact ⟨_, (starts_append.mp h).1⟩
  obtain ⟨htable, hmatch, hrule, -⟩ := ruleHead_at hstarts
  exact ⟨htable, hmatch, hrule⟩

/-- Of the commands on tables only those on rules go past the end. -/
theorem overruns_cliProcessTable :
    Overruns (cliProcessTable inet (parseTableActionSymCrypto algos) tokens) ↔
      TruncatedRuleCommand inet algos tokens := by
  have hat := @truncatedRuleCommand_at inet algos tokens
  simp only [cliProcessTable, overruns_ite, overruns_bind, overruns_ok,
    not_overruns_cmdPipelineTable, not_overruns_cmdPipelineTableStats, overruns_cliProcessRule,
    not_overruns_cmdPipelineTableMeterProfileAdd, not_overruns_cmdPipelineTableMeterProfileDelete,
    not_overruns_cmdPipelineTableDscp, tokenIs_iff, exists_false, and_false, or_false, false_or]
  grind

/-- The words of a truncated command on ports, as the switch compares them. -/
theorem truncatedPortIn_at (h : TruncatedPortIn tokens) :
    tokens[2]? = some "port" ∧ tokens[3]? = some "in" ∧ tokens[4]? = some "bsz" := by
  obtain ⟨hport, hin, hbsz, -⟩ := starts_portInHead.mp h.1
  exact ⟨at_is.mp hport, at_is.mp hin, at_is.mp hbsz⟩

/-- Of the commands on ports only the creation of an input port goes past the end. -/
theorem overruns_cliProcessPort {S : Type} :
    Overruns (cliProcessPort tokens : Parse (Command S)) ↔ TruncatedPortIn tokens := by
  have hat := @truncatedPortIn_at tokens
  simp only [cliProcessPort, cmdPipelinePortInStats, cmdPipelinePortInEnable,
    cmdPipelinePortInDisable, cmdPipelinePortOutStats, overruns_ite, overruns_bind, overruns_ok,
    overruns_cmdPipelinePortIn, not_overruns_cmdPipelinePortOut,
    not_overruns_cmdPipelinePortInTable, not_overruns_cmdPortStats, not_overruns_cmdPortInSwitch,
    Bool.and_eq_true, tokenIs_iff, exists_false, and_false, or_false]
  grind

/-- The commands on pipelines go past the end on ports and on rules. -/
theorem overruns_cliProcessPipeline :
    Overruns (cliProcessPipeline inet (parseTableActionSymCrypto algos) tokens) ↔
      TruncatedPortIn tokens ∨ TruncatedRuleCommand inet algos tokens := by
  have hport := @truncatedPortIn_at tokens
  have hrule := @truncatedRuleCommand_at inet algos tokens
  simp only [cliProcessPipeline, overruns_ite, overruns_bind, overruns_ok,
    not_overruns_cmdPipeline, overruns_cliProcessPort, overruns_cliProcessTable, tokenIs_iff,
    exists_false, and_false, or_false, false_or]
  grind

/-- The commands on traffic managers keep to their tokens. -/
theorem not_overruns_cliProcessTmgr {S : Type} :
    ¬ Overruns (cliProcessTmgr tokens : Parse (Command S)) := by
  simp only [cliProcessTmgr, overruns_ite, overruns_bind, overruns_ok,
    not_overruns_cmdTmgrSubportProfile, not_overruns_cmdTmgrPipeProfile,
    not_overruns_cmdTmgrSubport, not_overruns_cmdTmgrSubportPipe, not_overruns_cmdTmgr,
    exists_false, and_false, or_false, not_false_eq_true]

/-- The commands on threads keep to their tokens. -/
theorem not_overruns_cliProcessThread {S : Type} :
    ¬ Overruns (cliProcessThread tokens : Parse (Command S)) := by
  simp only [cliProcessThread, cmdThreadPipelineEnable, cmdThreadPipelineDisable, overruns_ite,
    overruns_bind, overruns_ok, not_overruns_cmdThreadPipeline, exists_false, and_false, or_false,
    not_false_eq_true]

/-- `link` alone is read one token too far. -/
theorem overruns_cliProcessLink {S : Type} :
    Overruns (cliProcessLink tokens : Parse (Command S)) ↔ tokens.length ≤ 1 := by
  simp only [cliProcessLink, overruns_bind, overruns_ite, overruns_ok, overruns_arg,
    not_overruns_cmdLinkShow, not_overruns_cmdLink, exists_false, and_false, or_false]

/-- A token past the end is read for the line `link`, for an input port from a file or from a
crypto device that lacks its last number, and for a rule or a match of a rule that breaks off in one
of the ways of `tokenBounds_iff`. No other command reads one. -/
theorem overruns_cliProcessTokens (inet : InetPton) (algos : CryptoAlgos)
    (cryptodevFind : String → Option Cryptodev) (tokens : List String) :
    Overruns (cliProcessTokens inet (parseTableActionSymCrypto algos) cryptodevFind tokens) ↔
      tokens = ["link"] ∨ At tokens 0 (Is "pipeline") ∧
        (TruncatedPortIn tokens ∨ TruncatedRuleAdd inet algos tokens ∨
          TruncatedRuleDelete tokens ∨ TruncatedRuleRead tokens) := by
  rw [← TruncatedRuleCommand]
  rcases tokens with - | ⟨word, tokens⟩
  · simp [cliProcessTokens, overruns_ok, at_is]
  simp only [cliProcessTokens, List.head?_cons, overruns_ite, overruns_bind, overruns_ok,
    not_overruns_cmdHelp (List.cons_ne_nil word tokens), not_overruns_cmdMempool,
    overruns_cliProcessLink, not_overruns_cmdSwq,
    not_overruns_cliProcessTmgr, not_overruns_cmdTap, not_overruns_cmdKni,
    not_overruns_cmdCryptodev, not_overruns_cmdPortInActionProfile,
    not_overruns_cmdTableActionProfile, overruns_cliProcessPipeline, not_overruns_cliProcessThread,
    exists_false, and_false, or_false, false_or, at_is, List.getElem?_cons_zero,
    Option.some.injEq, List.cons.injEq, List.length_cons]
  by_cases hlink : word = "link"
  · subst hlink
    simp
  · by_cases hpipeline : word = "pipeline"
    · subst hpipeline
      simp
    · simp only [hlink, hpipeline, false_and, and_false, or_false]

end CommandLine

end Rids.Cli
