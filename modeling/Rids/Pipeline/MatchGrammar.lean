import Rids.Pipeline.TokenRead

/-!
# The grammar of matches

The patterns of the matches of a rule, and that `parse_match` takes exactly their texts
(`takes_parseMatch`).
-/

namespace Rids.Pipeline

open Rids.Lib.ByteMem Rids.Lib.Fallible Rids.Lib.TokenPattern

/-! ### Matches -/

section Match

variable (inet : InetPton)

/-- The tokens of an acl match up to its version. -/
def aclHead (version : String) : Pattern String :=
  [Is "match", Is "acl", Is "priority", IsUint 32, Is version]

/-- The tokens of an IP rule after the version. -/
def ipTail (version : IpVersion) : Pattern String :=
  [ReadBy (version.parseAddr inet), IsUint 32, ReadBy (version.parseAddr inet), IsUint 32,
    IsUint 16, IsUint 16, IsUint 16, IsUint 16, IsUint 8]

/-- The tokens of a raw rule after the version: the category mask, the pairs, the protocol and its
mask. -/
def rawTail : Pattern String :=
  List.replicate (1 + nFilterRaw * 2) (IsUint 32) ++ [IsUint 8, IsUint 8]

/-- The tokens of an IP rule. -/
def ipPattern (version : IpVersion) : Pattern String := aclHead version.word ++ ipTail inet version

/-- The tokens of a raw rule. -/
def rawPattern : Pattern String := aclHead "raw" ++ rawTail

/-- The tokens of a hash match for each kind of key. -/
def hashPatterns : List (Pattern String) :=
  [[Is "match", Is "hash", Is "raw", ReadBy (parseHexString · tableRuleMatchSizeMax)],
    [Is "match", Is "hash", Is "ipv4_5tuple", ReadBy (parseIpv4Addr inet),
      ReadBy (parseIpv4Addr inet), IsUint 16, IsUint 16, IsUint 8],
    [Is "match", Is "hash", Is "ipv6_5tuple", ReadBy (parseIpv6Addr inet),
      ReadBy (parseIpv6Addr inet), IsUint 16, IsUint 16, IsUint 8],
    [Is "match", Is "hash", Is "ipv4_addr", ReadBy (parseIpv4Addr inet)],
    [Is "match", Is "hash", Is "ipv6_addr", ReadBy (parseIpv6Addr inet)],
    [Is "match", Is "hash", Is "qinq", IsUintLe 16 0xFFF, IsUintLe 16 0xFFF]]

/-- The tokens of an acl match. -/
def aclPatterns : List (Pattern String) :=
  [rawPattern, ipPattern inet .ipv4, ipPattern inet .ipv6]

/-- The tokens of an array match. -/
def arrayPatterns : List (Pattern String) := [[Is "match", Is "array", IsUint 32]]

/-- The tokens of an lpm match. -/
def lpmPatterns : List (Pattern String) :=
  [[Is "match", Is "lpm", Is "ipv4", ReadBy (parseIpv4Addr inet), IsUint 8],
    [Is "match", Is "lpm", Is "ipv6", ReadBy (parseIpv6Addr inet), IsUint 8]]

/-- The tokens of a match. -/
def matchPatterns : List (Pattern String) :=
  aclPatterns inet ++ arrayPatterns ++ hashPatterns inet ++ lpmPatterns inet

variable {inet} {tokens : List String} {n : ℕ}

/-- The loop reads the pairs in order. -/
theorem parseRawPairs_accepts {m : Mem} {k : ℕ} :
    (∃ m', (List.range k).foldlM (parseRawPair tokens) m = .ok m') ↔
      ∀ i < k * 2, At tokens (6 + i) (IsUint 32) := by
  induction k with
  | zero => simp [Pure.pure, Except.pure]
  | succ k ih =>
    have hpair (m : Mem) : (∃ m', parseRawPair tokens m k = .ok m') ↔
        At tokens (6 + k * 2) (IsUint 32) ∧ At tokens (7 + k * 2) (IsUint 32) := by
      simp only [parseRawPair, returns_bind, returns_ok, exists_and_right, and_true, readUint_ok]
    simp only [List.range_succ, List.foldlM_append, List.foldlM_cons, List.foldlM_nil, bind_pure,
      returns_bind, hpair, exists_and_right, ih]
    rw [show (k + 1) * 2 = k * 2 + 1 + 1 by omega, Nat.forall_lt_succ_right,
      Nat.forall_lt_succ_right, and_assoc, show 6 + (k * 2 + 1) = 7 + k * 2 by omega]

/-- A raw match has 123 tokens behind its head. -/
theorem length_rawTail : rawTail.length = 123 := by simp [rawTail, nFilterRaw]

/-- A match on addresses has nine tokens behind its head. -/
theorem length_ipTail (version : IpVersion) : (ipTail inet version).length = 9 := rfl

/-- The numbers of a raw match, token by token. -/
theorem starts_rawTail : Starts rawTail (tokens.drop 5) ↔
    (∀ i < 1 + nFilterRaw * 2, At tokens (5 + i) (IsUint 32)) ∧
      At tokens 126 (IsUint 8) ∧ At tokens 127 (IsUint 8) := by
  simp only [rawTail, starts_append, starts_replicate, starts_cons, starts_nil, at_drop,
    List.drop_drop, List.length_replicate, nFilterRaw, Nat.reduceMul, Nat.reduceAdd, and_true]

/-- What the raw branch takes. -/
theorem takes_parseMatchRaw {m : Mem} : Takes n (parseMatchRaw tokens m) ↔
    128 = n ∧ At tokens 3 (IsUint 32) ∧ Starts rawTail (tokens.drop 5) := by
  have hshift : (∀ i < 120 + 1, At tokens (5 + i) (IsUint 32)) ↔
      At tokens 5 (IsUint 32) ∧ ∀ i < 120, At tokens (6 + i) (IsUint 32) := by
    rw [Nat.forall_lt_succ_left]
    simp only [Nat.add_zero, show ∀ i, 5 + (i + 1) = 6 + i by omega]
  simp only [parseMatchRaw, takes_bind, takes_ok, exists_and_right, readUint_ok, starts_rawTail,
    parseRawPairs_accepts, nFilterRaw, Nat.reduceMul, show 1 + 120 = 120 + 1 from rfl, hshift]
  tauto

/-- What the branches on addresses take. -/
theorem takes_parseMatchIp {version : IpVersion} {m : Mem} :
    Takes n (parseMatchAclVersion inet tokens m version.word) ↔
      14 = n ∧ Starts (ipTail inet version) (tokens.drop 5) := by
  cases version <;>
    simp only [parseMatchAclVersion, IpVersion.word, IpVersion.parseAddr, parseMatchIpv4,
      parseMatchIpv6, parseMatchIpRest, String.reduceEq, if_true, if_false, takes_bind,
      returns_bind, returns_ok, takes_ok, exists_and_right, readUint_ok, readAddr_ok, ipTail,
      starts_cons, starts_nil, at_drop, List.drop_drop, Nat.reduceAdd] <;>
    tauto

/-- What must follow the version of an acl match. -/
theorem takes_parseMatchAclVersion {m : Mem} {version : String} :
    Takes n (parseMatchAclVersion inet tokens m version) ↔
      (version = "raw" ∧ 128 = n ∧ At tokens 3 (IsUint 32) ∧ Starts rawTail (tokens.drop 5)) ∨
        ∃ v : IpVersion, version = v.word ∧ 14 = n ∧ Starts (ipTail inet v) (tokens.drop 5) := by
  constructor
  · intro h
    by_cases hraw : version = "raw"
    · subst hraw
      rw [parseMatchAclVersion, if_pos rfl, takes_bind] at h
      obtain ⟨⟨m', k⟩, hm', hk⟩ := h
      obtain rfl := takes_ok.mp hk
      exact .inl ⟨rfl, takes_parseMatchRaw.mp ⟨m', hm'⟩⟩
    · by_cases hipv4 : version = "ipv4"
      · subst hipv4
        exact .inr ⟨.ipv4, rfl, takes_parseMatchIp.mp h⟩
      · by_cases hipv6 : version = "ipv6"
        · subst hipv6
          exact .inr ⟨.ipv6, rfl, takes_parseMatchIp.mp h⟩
        · rw [parseMatchAclVersion, if_neg hraw, if_neg hipv4, if_neg hipv6] at h
          exact (takes_error h).elim
  · rintro (⟨rfl, h⟩ | ⟨v, rfl, h⟩)
    · obtain ⟨m', hm'⟩ := takes_parseMatchRaw.mpr h
      rw [parseMatchAclVersion, if_pos rfl, takes_bind]
      exact ⟨(m', n), hm', takes_ok.mpr rfl⟩
    · exact takes_parseMatchIp.mpr h

/-- What an acl match takes. -/
theorem takes_parseMatchAcl (hmatch : At tokens 0 (Is "match")) (hacl : At tokens 1 (Is "acl")) :
    Takes n (parseMatchAcl inet tokens) ↔
      StartsAny (aclPatterns inet) n tokens := by
  simp only [parseMatchAcl, takes_bind, ensure_eq_ok, keyword_ok, arg_eq_ok, exists_and_right,
    exists_const, decide_eq_true_eq, readUint_ok, takes_parseMatchAclVersion, aclPatterns,
    StartsAny, rawPattern, ipPattern, aclHead, starts_append, starts_cons, starts_nil, at_drop,
    List.drop_drop, Nat.reduceAdd, List.length_cons, List.length_append, List.length_nil,
    length_rawTail, length_ipTail, hmatch, hacl, true_and]
  have hlen {p : Pattern String} (hp : 9 ≤ p.length) (hrest : Starts p (tokens.drop 5)) :
      14 ≤ tokens.length := by
    have hle := hrest.le_of_drop (by omega)
    omega
  constructor
  · rintro ⟨-, hprio, hnum, version, hversion, ⟨rfl, rfl, -, hrest⟩ | ⟨v, rfl, rfl, hrest⟩⟩
    · exact .inl ⟨rfl, ⟨hprio, hnum, at_is.mpr hversion, trivial⟩, hrest⟩
    · cases v with
      | ipv4 => exact .inr (.inl ⟨rfl, ⟨hprio, hnum, at_is.mpr hversion, trivial⟩, hrest⟩)
      | ipv6 => exact .inr (.inr (.inl ⟨rfl, ⟨hprio, hnum, at_is.mpr hversion, trivial⟩, hrest⟩))
  · rintro (⟨rfl, ⟨hprio, hnum, hversion, -⟩, hrest⟩ | ⟨rfl, ⟨hprio, hnum, hversion, -⟩, hrest⟩ |
      ⟨rfl, ⟨hprio, hnum, hversion, -⟩, hrest⟩ | ⟨⟨⟩⟩)
    · exact ⟨hlen (by rw [length_rawTail]; decide) hrest, hprio, hnum, _, at_is.mp hversion,
        .inl ⟨rfl, rfl, hnum, hrest⟩⟩
    · exact ⟨hlen (length_ipTail _).ge hrest, hprio, hnum, _, at_is.mp hversion,
        .inr ⟨.ipv4, rfl, rfl, hrest⟩⟩
    · exact ⟨hlen (length_ipTail _).ge hrest, hprio, hnum, _, at_is.mp hversion,
        .inr ⟨.ipv6, rfl, rfl, hrest⟩⟩

/-- What an array match takes. -/
theorem takes_parseMatchArray (hmatch : At tokens 0 (Is "match"))
    (harray : At tokens 1 (Is "array")) : Takes n (parseMatchArray tokens) ↔
      StartsAny arrayPatterns n tokens := by
  simp only [parseMatchArray, takes_bind, takes_ok, ensure_eq_ok, exists_and_right, exists_const,
    decide_eq_true_eq, readUint_ok, arrayPatterns, StartsAny, starts_cons, starts_nil, at_drop,
    List.drop_drop, Nat.reduceAdd, List.length_cons, List.length_nil, hmatch, harray, true_and]
  grind [→ At.lt]

/-- What a raw hash match takes. -/
theorem takes_parseMatchHash_raw (hmatch : At tokens 0 (Is "match"))
    (hhash : At tokens 1 (Is "hash")) (hraw : At tokens 2 (Is "raw")) :
    Takes n (parseMatchHash inet tokens) ↔ 4 = n ∧ Starts [Is "match", Is "hash", Is "raw",
      ReadBy (parseHexString · tableRuleMatchSizeMax)] tokens := by
  simp only [parseMatchHash, takes_bind, ensure_eq_ok, arg_eq_ok, at_is.mp hraw, exists_const,
    Option.some.injEq, exists_eq_left', decide_eq_true_eq, if_true, starts_cons, starts_nil,
    at_drop, List.drop_drop, Nat.reduceAdd, hmatch, hhash, hraw, true_and, and_true]
  constructor
  · rintro ⟨-, -, key, hkey, h⟩
    cases hhex : parseHexString key tableRuleMatchSizeMax with
    | none =>
      rw [hhex] at h
      exact (takes_error h).elim
    | some x =>
      rw [hhex] at h
      exact ⟨takes_ok.mp h, key, hkey, x, hhex⟩
  · rintro ⟨hn, key, hkey, x, hhex⟩
    have hlt : 3 < tokens.length := (List.getElem?_eq_some_iff.mp hkey).1
    refine ⟨Nat.le_of_lt hlt, hlt, key, hkey, ?_⟩
    change parseHexString key tableRuleMatchSizeMax = some x at hhex
    rw [hhex]
    exact takes_ok.mpr hn

/-- What a hash match takes. -/
theorem takes_parseMatchHash (hmatch : At tokens 0 (Is "match"))
    (hhash : At tokens 1 (Is "hash")) : Takes n (parseMatchHash inet tokens) ↔
      StartsAny (hashPatterns inet) n tokens := by
  by_cases hraw : At tokens 2 (Is "raw")
  · rw [takes_parseMatchHash_raw hmatch hhash hraw]
    simp only [hashPatterns, StartsAny, starts_cons, starts_nil, at_drop, List.drop_drop,
      Nat.reduceAdd, List.length_cons, List.length_nil, at_is]
    rw [at_is] at hraw
    simp only [hraw, Option.some.injEq, String.reduceEq, false_and, and_false, or_false]
  · simp only [parseMatchHash, parseMatchIpv4Tuple, parseMatchIpv6Tuple, parseMatchQinq,
      takes_bind, takes_ite, takes_ok, takes_error, ensure_eq_ok, arg_eq_ok, exists_and_right,
      exists_const, decide_eq_true_eq, readUint_ok, readUint_le_ok, readAddr_ok, hashPatterns,
      StartsAny, starts_cons, starts_nil, at_drop, List.drop_drop, Nat.reduceAdd,
      List.length_cons, List.length_nil, hmatch, hhash, true_and]
    simp only [at_is] at hraw ⊢
    grind [→ At.lt]

/-- What an lpm match takes. -/
theorem takes_parseMatchLpm (hmatch : At tokens 0 (Is "match")) (hlpm : At tokens 1 (Is "lpm")) :
    Takes n (parseMatchLpm inet tokens) ↔ StartsAny (lpmPatterns inet) n tokens := by
  simp only [parseMatchLpm, takes_bind, takes_ite, takes_ok, ensure_eq_ok, arg_eq_ok,
    exists_and_right, exists_const, decide_eq_true_eq, readUint_ok, readAddr_ok, returns_ok,
    reduceCtorEq, false_and, and_false, or_false, lpmPatterns, StartsAny, starts_cons, starts_nil,
    at_drop, List.drop_drop, Nat.reduceAdd, List.length_cons, List.length_nil, hmatch, hlpm,
    true_and]
  simp only [at_is]
  grind [→ At.lt]

/-- `parse_match` takes the texts of the patterns and no others. -/
theorem takes_parseMatch :
    Takes n (parseMatch inet tokens) ↔ StartsAny (matchPatterns inet) n tokens := by
  simp only [parseMatch, takes_bind, takes_ite, takes_error, ensure_eq_ok, keyword_ok, arg_eq_ok,
    exists_const, decide_eq_true_eq, matchPatterns, startsAny_append]
  constructor
  · rintro ⟨-, hmatch, kind, hkind, h⟩
    rw [← at_is] at hkind
    rcases h with ⟨rfl, h⟩ | ⟨-, ⟨rfl, h⟩ | ⟨-, ⟨rfl, h⟩ | ⟨-, ⟨rfl, h⟩ | ⟨-, ⟨⟩⟩⟩⟩⟩
    · exact .inl (.inl (.inl ((takes_parseMatchAcl hmatch hkind).mp h)))
    · exact .inl (.inl (.inr ((takes_parseMatchArray hmatch hkind).mp h)))
    · exact .inl (.inr ((takes_parseMatchHash hmatch hkind).mp h))
    · exact .inr ((takes_parseMatchLpm hmatch hkind).mp h)
  · rintro (((h | h) | h) | h)
    · have hmatch : At tokens 0 (Is "match") :=
        h.at (by simp [aclPatterns, rawPattern, ipPattern, aclHead])
      have hkind : At tokens 1 (Is "acl") :=
        h.at (by simp [aclPatterns, rawPattern, ipPattern, aclHead])
      exact ⟨hkind.lt, hmatch, _, at_is.mp hkind,
        .inl ⟨rfl, (takes_parseMatchAcl hmatch hkind).mpr h⟩⟩
    · have hmatch : At tokens 0 (Is "match") := h.at (by simp [arrayPatterns])
      have hkind : At tokens 1 (Is "array") := h.at (by simp [arrayPatterns])
      exact ⟨hkind.lt, hmatch, _, at_is.mp hkind,
        .inr ⟨by decide, .inl ⟨rfl, (takes_parseMatchArray hmatch hkind).mpr h⟩⟩⟩
    · have hmatch : At tokens 0 (Is "match") := h.at (by simp [hashPatterns])
      have hkind : At tokens 1 (Is "hash") := h.at (by simp [hashPatterns])
      exact ⟨hkind.lt, hmatch, _, at_is.mp hkind, .inr ⟨by decide, .inr ⟨by decide,
        .inl ⟨rfl, (takes_parseMatchHash hmatch hkind).mpr h⟩⟩⟩⟩
    · have hmatch : At tokens 0 (Is "match") := h.at (by simp [lpmPatterns])
      have hkind : At tokens 1 (Is "lpm") := h.at (by simp [lpmPatterns])
      exact ⟨hkind.lt, hmatch, _, at_is.mp hkind, .inr ⟨by decide, .inr ⟨by decide,
        .inr ⟨by decide, .inl ⟨rfl, (takes_parseMatchLpm hmatch hkind).mpr h⟩⟩⟩⟩⟩

end Match

end Rids.Pipeline
