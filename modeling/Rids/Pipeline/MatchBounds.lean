import Rids.Pipeline.MatchGrammar

/-!
# Which tokens the grammar of matches examines

`parse_match` reads past the end of its tokens on a raw match that breaks off behind its length
check, and on nothing else (`overruns_parseMatch`).
-/

namespace Rids.Pipeline

open Rids.Lib.ByteMem Rids.Lib.Fallible Rids.Lib.TokenPattern

section Match

variable {inet : InetPton} {tokens : List String}

/-- A raw match that breaks off behind the length that is asked of every acl match. -/
def TruncatedRaw (tokens : List String) : Prop := Cut 14 rawPattern tokens

/-- The loop goes past the end with the first pair that is not there. -/
theorem overruns_parseRawPairs {m : Mem} {k : ℕ} :
    Overruns ((List.range k).foldlM (parseRawPair tokens) m) ↔
      ∃ j < k * 2, tokens.length ≤ 6 + j ∧ ∀ i < j, At tokens (6 + i) (IsUint 32) := by
  induction k with
  | zero => simp [Pure.pure, Except.pure, overruns_ok]
  | succ k ih =>
    have hpair (m : Mem) : Overruns (parseRawPair tokens m k) ↔ tokens.length ≤ 6 + k * 2 ∨
        At tokens (6 + k * 2) (IsUint 32) ∧ tokens.length ≤ 7 + k * 2 := by
      simp only [parseRawPair, overruns_bind, overruns_readUint, overruns_ok, and_false,
        exists_false, or_false, exists_and_right, readUint_ok]
    simp only [List.range_succ, List.foldlM_append, List.foldlM_cons, List.foldlM_nil, bind_pure,
      overruns_bind, hpair, exists_and_right, parseRawPairs_accepts, ih]
    rw [show (k + 1) * 2 = k * 2 + 1 + 1 by omega, Nat.exists_lt_succ_right,
      Nat.exists_lt_succ_right, Nat.forall_lt_succ_right, show 6 + (k * 2 + 1) = 7 + k * 2 by omega,
      or_assoc, and_or_left]
    exact or_congr_right (or_congr and_comm (by rw [← and_assoc, and_comm]))

/-- The first tokens of the tail are numbers of 32 bits. -/
theorem getElem?_rawTail {i : ℕ} (h : i < 121) : rawTail[i]? = some (IsUint 32) := by
  rw [rawTail, List.getElem?_append_left (by rw [List.length_replicate]; exact h),
    List.getElem?_replicate]
  exact if_pos h

/-- The tail is read in order, the priority in front of it a second time. -/
theorem overruns_parseMatchRaw {m : Mem} (hlen : 14 ≤ tokens.length)
    (hprio : At tokens 3 (IsUint 32)) : Overruns (parseMatchRaw tokens m) ↔
      tokens.length < 128 ∧ ∀ i < tokens.length - 5, ∀ P ∈ rawTail[i]?, At tokens (5 + i) P := by
  have hrow {k : ℕ} (hk : k ≤ 120) (h : At tokens 5 (IsUint 32))
      (hall : ∀ i < k, At tokens (6 + i) (IsUint 32)) {i : ℕ} (hi : i < k + 1) {P : String → Prop}
      (hP : P ∈ rawTail[i]?) : At tokens (5 + i) P := by
    rw [getElem?_rawTail (by omega)] at hP
    obtain rfl := Option.some.inj hP
    cases i with
    | zero => exact h
    | succ i => rw [show 5 + (i + 1) = 6 + i by omega]; exact hall i (by omega)
  simp only [parseMatchRaw, overruns_bind, overruns_readUint, overruns_ok, overruns_parseRawPairs,
    exists_and_right, parseRawPairs_accepts, readUint_ok, and_false, exists_false, or_false,
    nFilterRaw, Nat.reduceMul, Nat.reduceAdd, hprio, true_and]
  constructor
  · rintro (h | ⟨h5, ⟨j, hj, hend, hall⟩ | ⟨hall, h | h | ⟨h126, hend⟩⟩⟩)
    · omega
    · have hlast : 6 + (j - 1) < tokens.length := (hall (j - 1) (by omega)).lt
      exact ⟨by omega, fun i hi P hP => hrow (by omega) h5 hall (by omega) hP⟩
    · omega
    · have hlast : 6 + 119 < tokens.length := (hall 119 (by omega)).lt
      exact ⟨by omega, fun i hi P hP => hrow (Nat.le_refl _) h5 hall (by omega) hP⟩
    · have hlast := h126.lt
      refine ⟨by omega, fun i hi P hP => ?_⟩
      by_cases h121 : i < 121
      · exact hrow (Nat.le_refl _) h5 hall h121 hP
      · obtain rfl : i = 121 := by omega
        obtain rfl : IsUint 8 = P := Option.some.inj hP
        exact h126
  · rintro ⟨hlt, hall⟩
    have hpair {i : ℕ} (hi : i < 120) (hend : 6 + i < tokens.length) :
        At tokens (6 + i) (IsUint 32) := by
      have h := hall (i + 1) (by omega) (IsUint 32) (getElem?_rawTail (by omega))
      rwa [show 5 + (i + 1) = 6 + i by omega] at h
    refine .inr ⟨hall 0 (by omega) _ (getElem?_rawTail (by omega)), ?_⟩
    by_cases h126 : tokens.length < 126
    · exact .inl ⟨tokens.length - 6, by omega, by omega, fun i hi => hpair (by omega) (by omega)⟩
    · refine .inr ⟨fun i hi => hpair hi (by omega), ?_⟩
      by_cases hend : tokens.length ≤ 126
      · exact .inr (.inl hend)
      · exact .inr (.inr ⟨hall 121 (by omega) (IsUint 8) rfl, by omega⟩)

/-- A truncated raw match, token by token. -/
theorem truncatedRaw_iff : TruncatedRaw tokens ↔ 14 ≤ tokens.length ∧
    Starts (aclHead "raw") tokens ∧ tokens.length < 128 ∧
      ∀ i < tokens.length - 5, ∀ P ∈ rawTail[i]?, At tokens (5 + i) P := by
  have hlength : (aclHead "raw" ++ rawTail).length = 128 := by
    rw [List.length_append, length_rawTail]
    rfl
  have hhead : (aclHead "raw").length ≤ 14 := by decide
  rw [← hlength]
  exact cut_append hhead

/-- A truncated raw match starts with its word. -/
theorem TruncatedRaw.head (h : TruncatedRaw tokens) :
    tokens.head? = some "match" := by
  rw [List.head?_eq_getElem?, ← at_is]
  exact starts_iff.mp (truncatedRaw_iff.mp h).2.1 0 _ rfl

/-- An acl match goes past the end exactly where it is raw and truncated. -/
theorem overruns_parseMatchAcl (hmatch : At tokens 0 (Is "match"))
    (hacl : At tokens 1 (Is "acl")) :
    Overruns (parseMatchAcl inet tokens) ↔ TruncatedRaw tokens := by
  rw [truncatedRaw_iff]
  by_cases hlen : 14 ≤ tokens.length
  · have hhead : Starts (aclHead "raw") tokens ↔
        At tokens 2 (Is "priority") ∧ At tokens 3 (IsUint 32) ∧ At tokens 4 (Is "raw") := by
      simp only [aclHead, starts_cons, starts_nil, at_drop, List.drop_drop, Nat.reduceAdd, hmatch,
        hacl, true_and, and_true]
    simp (disch := omega) only [parseMatchAcl, parseMatchAclVersion, parseMatchIpv4,
      parseMatchIpv6, parseMatchIpRest, overruns_bind, overruns_ite, overruns_ok, overruns_error,
      overruns_ensure, overruns_keyword, overruns_arg, overruns_readUint, overruns_readAddr,
      ensure_eq_ok, keyword_ok, arg_eq_ok, decide_eq_true_eq, exists_const, reduceCtorEq,
      and_false, or_false, false_or, Nat.not_le_of_lt, hlen, true_and, hhead]
    constructor
    · rintro ⟨hword, prio, hprio, version, hversion, rfl, hraw⟩
      have hprio' : At tokens 3 (IsUint 32) := readUint_ok.mp ⟨prio, hprio⟩
      exact ⟨⟨hword, hprio', at_is.mpr hversion⟩, (overruns_parseMatchRaw hlen hprio').mp hraw⟩
    · rintro ⟨⟨hword, hprio, hversion⟩, hraw⟩
      obtain ⟨prio, hread⟩ : ∃ n, readUint tokens 3 "priority" parserReadUint32 = .ok n :=
        readUint_ok.mpr hprio
      exact ⟨hword, prio, hread, _, at_is.mp hversion, rfl,
        (overruns_parseMatchRaw hlen hprio).mpr hraw⟩
  · simp only [parseMatchAcl, overruns_bind, overruns_ensure, ensure_eq_ok, decide_eq_true_eq,
      hlen, false_and, reduceCtorEq, exists_false, and_false, or_false]

/-- An array match keeps to its tokens. -/
theorem not_overruns_parseMatchArray : ¬ Overruns (parseMatchArray tokens) := by
  simp only [parseMatchArray, overruns_bind, overruns_ok, overruns_ensure, overruns_readUint,
    ensure_eq_ok, decide_eq_true_eq, exists_const, reduceCtorEq, and_false, or_false, false_or]
  omega

/-- A hash match keeps to its tokens. -/
theorem not_overruns_parseMatchHash : ¬ Overruns (parseMatchHash inet tokens) := by
  simp only [parseMatchHash, parseMatchIpv4Tuple, parseMatchIpv6Tuple, parseMatchQinq,
    overruns_bind, overruns_ite, overruns_ok, overruns_error, overruns_ensure, overruns_arg,
    overruns_readUint, overruns_readAddr, ensure_eq_ok, arg_eq_ok, decide_eq_true_eq,
    exists_const, reduceCtorEq, and_false, or_false, false_or]
  rintro ⟨hlen, hend | ⟨kind, -, ⟨-, hlen', hend | ⟨key, -, hkey⟩⟩ | ⟨-, h⟩⟩⟩
  · omega
  · omega
  · cases hhex : parseHexString key tableRuleMatchSizeMax with
    | none => simp [hhex, overruns_error] at hkey
    | some x =>
      rw [hhex] at hkey
      exact overruns_ok _ hkey
  · grind

/-- An lpm match keeps to its tokens. -/
theorem not_overruns_parseMatchLpm : ¬ Overruns (parseMatchLpm inet tokens) := by
  simp only [parseMatchLpm, overruns_bind, overruns_ite, overruns_ok, overruns_error,
    overruns_ensure, overruns_arg, overruns_readUint, overruns_readAddr, ensure_eq_ok, arg_eq_ok,
    decide_eq_true_eq, exists_const, reduceCtorEq, and_false, or_false, false_or]
  grind

/-- `parse_match` goes past the end of the truncated raw matches and of nothing else. -/
theorem overruns_parseMatch : Overruns (parseMatch inet tokens) ↔ TruncatedRaw tokens := by
  simp only [parseMatch, overruns_bind, overruns_ite, overruns_error, overruns_ensure,
    overruns_keyword, overruns_arg, ensure_eq_ok, keyword_ok, arg_eq_ok, decide_eq_true_eq,
    exists_const, reduceCtorEq, and_false, or_false, false_or,
    not_overruns_parseMatchArray, not_overruns_parseMatchHash, not_overruns_parseMatchLpm]
  constructor
  · rintro ⟨hlen, hend | ⟨hmatch, hend | ⟨kind, hkind, rfl, h⟩⟩⟩
    · omega
    · omega
    · exact (overruns_parseMatchAcl hmatch (at_is.mpr hkind)).mp h
  · intro h
    have hstarts : Starts (aclHead "raw") tokens := (truncatedRaw_iff.mp h).2.1
    have hmatch : At tokens 0 (Is "match") := starts_iff.mp hstarts 0 _ rfl
    have hacl : At tokens 1 (Is "acl") := starts_iff.mp hstarts 1 _ rfl
    exact ⟨hacl.lt, .inr ⟨hmatch, .inr ⟨_, at_is.mp hacl, rfl,
      (overruns_parseMatchAcl hmatch hacl).mpr h⟩⟩⟩

end Match

end Rids.Pipeline
