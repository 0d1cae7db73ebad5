import Rids.Pipeline.ActionLoad

/-!
# The match of a line read back

* `parseMatch_array`, `parseMatch_hash` — the match of an array rule is read back, that of a hash
  rule up to the size of a key.
* `parseMatch_ne` — acl and lpm matches are not read: two words are written as one.
-/

namespace Rids.Pipeline

open Rids.Lib.ByteMem

section MatchLoad

variable {inet : InetPton} {keySize : HashKeySize} {m : TableRuleMatch} {rest : List String}

/-- A number that was printed is read back. -/
theorem readUint_showUint {tokens : List String} {i n w : ℕ} (name : String) (hw : w ≤ 64)
    (hn : n < 2 ^ w) (h : tokens[i]? = some (showUint n)) :
    readUint tokens i name (parserReadUint w) = .ok n := by
  have hnat : (BitVec.ofNat w n).toNat = n := by
    rw [BitVec.toNat_ofNat, Nat.mod_eq_of_lt hn]
  have hread := parserReadUint_showUint hw (BitVec.ofNat w n)
  rw [hnat] at hread
  exact readUint_eq_ok.mpr ⟨.ofNat w n, ⟨showUint n, h, hread⟩, hnat⟩

/-- A printed key is not empty. -/
theorem ofList_showByte_ne_empty {bs : List (BitVec 8)} (h : bs ≠ []) :
    String.ofList (bs.flatMap showByte) ≠ "" := by
  obtain ⟨b, bs, rfl⟩ := List.exists_cons_of_ne_nil h
  intro heq
  have hnil := congrArg String.toList heq
  rw [String.toList_ofList] at hnil
  cases hnil

/-- The tokens of an array match. -/
theorem tokensOf_matchWords_array (hm : m.matchType = .array) :
    tokensOf (matchWords keySize m) =
      ["array", showUint (m.mem.get ArrayKey.pos), "action"] := by
  rw [matchWords, hm]
  simp [tokensOf, showUint_ne_empty]

/-- The tokens of a hash match. -/
theorem tokensOf_matchWords_hash (hm : m.matchType = .hash) :
    tokensOf (matchWords keySize m) =
      ["hash", "raw", .ofList ((m.mem.bytes keySize).flatMap showByte), "action"] := by
  have hpos := (keySize_spec keySize).1
  have hne : m.mem.bytes keySize ≠ [] := by
    apply List.ne_nil_of_length_pos
    rw [Mem.length_bytes]
    exact hpos
  rw [matchWords, hm]
  simp [tokensOf, ofList_showByte_ne_empty hne]

/-- An array rule is read back. -/
theorem parseMatch_array (hm : m.matchType = .array) :
    parseMatch inet ("match" :: (tokensOf (matchWords keySize m) ++ rest)) =
      .ok (⟨.array, Mem.zero.set ArrayKey.pos (m.mem.get ArrayKey.pos)⟩, 3) := by
  have hread : readUint ("match" :: "array" :: showUint (m.mem.get ArrayKey.pos) :: "action" ::
      rest) 2 "pos" parserReadUint32 = .ok (m.mem.get ArrayKey.pos) :=
    readUint_showUint "pos" (by decide) (get_lt_two_pow _ _) rfl
  rw [tokensOf_matchWords_array hm]
  simp [parseMatch, parseMatchArray, keyword, arg, hread]

/-- A hash rule is read back as far as it is printed. -/
theorem parseMatch_hash (hm : m.matchType = .hash) :
    ∃ mem, parseMatch inet ("match" :: (tokensOf (matchWords keySize m) ++ rest)) =
        .ok (⟨.hash, mem⟩, 4) ∧
      ∀ a, mem a = if a < keySize.val then m.mem a else 0 := by
  obtain ⟨-, hle, heven⟩ := keySize_spec keySize
  have hlen := m.mem.length_bytes keySize
  have hmax : 0 < tableRuleMatchSizeMax ∧ 64 ≤ tableRuleMatchSizeMax := by decide
  have heven' : (m.mem.bytes keySize).length % 2 = 0 := by rw [hlen, heven]
  obtain ⟨bytes, hread, hbytes⟩ := parseHexString_showByte hmax.1 heven'
    (hlen.le.trans (hle.trans hmax.2))
  refine ⟨Mem.zero.copy 0 keySize.val bytes, ?_, ?_⟩
  · rw [tokensOf_matchWords_hash hm]
    generalize String.ofList ((m.mem.bytes keySize).flatMap showByte) = key at hread
    rw [hlen] at hread
    simp [parseMatch, parseMatchHash, keyword, arg, hread]
  · intro a
    by_cases ha : a < keySize.val
    · have hcovered : Mem.zero.copy 0 keySize.val bytes (0 + a) = bytes a :=
        Mem.copy_apply_of_covered Mem.zero bytes ha
      rw [Nat.zero_add] at hcovered
      rw [if_pos ha, hcovered, hbytes a (by rw [hlen]; exact ha)]
      simp [Mem.bytes]
    · rw [if_neg ha, Mem.copy_apply_of_not_covered]
      · rfl
      · rw [Nat.zero_add]
        exact .inr (not_lt.mp ha)

/-! ### Acl and lpm rules -/

/-- A number has at least one digit. -/
theorem one_le_length_showUint (n : ℕ) : 1 ≤ (showUint n).length := by
  rw [Nat.one_le_iff_ne_zero, ne_eq, String.length_eq_zero_iff]
  exact showUint_ne_empty n

/-- An IPv4 address has at least seven characters. -/
theorem seven_le_length_ipv4AddrShow (addr : ℕ) : 7 ≤ (ipv4AddrShow addr).length := by
  have h := one_le_length_showUint
  have h0 := h (addr / 2 ^ 24)
  have h1 := h (addr / 2 ^ 16 % 256)
  have h2 := h (addr / 2 ^ 8 % 256)
  have h3 := h (addr % 256)
  have hdot : ".".length = 1 := rfl
  simp only [ipv4AddrShow, String.length_append, hdot]
  omega

/-- An IPv6 address has forty characters. -/
theorem length_ipv6AddrShow (addr : Mem) : (ipv6AddrShow addr).length = 40 := by
  rw [ipv6AddrShow, String.length_ofList, List.length_flatMap]
  rfl

/-- The two addresses, the depths and the first port make a word that is no address. -/
theorem length_aclGlued (m : Mem) :
    16 ≤ (aclGlued m).length ∧ (m.get Acl.ipVersion = 0 → 46 ≤ (aclGlued m).length) := by
  have hsa := one_le_length_showUint (m.get Acl.saDepth)
  have hda := one_le_length_showUint (m.get Acl.daDepth)
  have hsp := one_le_length_showUint (m.get Acl.sp0)
  have hsa4 := seven_le_length_ipv4AddrShow (m.get Acl.ipv4Sa)
  have hda4 := seven_le_length_ipv4AddrShow (m.get Acl.ipv4Da)
  simp only [aclGlued, aclAddrShow, String.length_append]
  split_ifs with hversion
  · constructor
    · omega
    · intro hzero
      rw [hzero] at hversion
      cases hversion
  · rw [length_ipv6AddrShow, length_ipv6AddrShow]
    omega

/-- The tokens of an acl rule are not read. -/
theorem parseMatchAcl_ne (hm : m.matchType = .acl) (x : TableRuleMatch × ℕ) :
    parseMatchAcl inet ("match" :: (tokensOf (matchWords keySize m) ++ rest)) ≠ .ok x := by
  obtain ⟨hlen4, hlen6⟩ := length_aclGlued m.mem
  intro h
  simp only [parseMatchAcl, bind_eq_ok, arg_eq_ok, ensure_eq_ok, keyword_eq_ok] at h
  obtain ⟨_, -, _, -, _, -, version, hversion, h⟩ := h
  by_cases hraw : m.mem.get Acl.ipVersion = 2
  · have hwords : tokensOf (matchWords keySize m) =
        ["acl", "priority", showUint (m.mem.get Acl.priority), "rawaction"] := by
      rw [matchWords, hm]
      simp [tokensOf, hraw, showUint_ne_empty]
    rw [hwords] at hversion
    obtain rfl : "rawaction" = version := Option.some.inj hversion
    simp [parseMatchAclVersion] at h
  · have hglued : aclGlued m.mem ≠ "" := by
      intro hempty
      rw [hempty] at hlen4
      exact absurd hlen4 (by decide)
    have hwords : tokensOf (matchWords keySize m) =
        ["acl", "priority", showUint (m.mem.get Acl.priority),
          if m.mem.get Acl.ipVersion ≠ 0 then "ipv4" else "ipv6", aclGlued m.mem,
          showUint (m.mem.get Acl.sp1), showUint (m.mem.get Acl.dp0),
          showUint (m.mem.get Acl.dp1), showUint (m.mem.get Acl.proto), "action"] := by
      simp only [matchWords, hm, hraw, if_false, tokensOf]
      by_cases hzero : m.mem.get Acl.ipVersion = 0 <;> simp [hzero, hglued, showUint_ne_empty]
    rw [hwords] at hversion h
    by_cases hzero : m.mem.get Acl.ipVersion = 0
    · obtain rfl : "ipv6" = version := by simpa [hzero] using hversion
      have haddr : parseIpv6Addr inet (aclGlued m.mem) = none := if_pos (hlen6 hzero)
      simp [parseMatchAclVersion, parseMatchIpv6, readAddr, arg, haddr] at h
    · obtain rfl : "ipv4" = version := by simpa [hzero] using hversion
      have haddr : parseIpv4Addr inet (aclGlued m.mem) = none := if_pos hlen4
      simp [parseMatchAclVersion, parseMatchIpv4, readAddr, arg, haddr] at h

/-- An lpm rule is not read: `action` stands where the depth is read. -/
theorem parseMatchLpm_ne (hm : m.matchType = .lpm) (x : TableRuleMatch × ℕ) :
    parseMatchLpm inet ("match" :: (tokensOf (matchWords keySize m) ++ rest)) ≠ .ok x := by
  have hglued : lpmGlued m.mem ≠ "" := by
    simp [lpmGlued, showUint_ne_empty]
  have hwords : tokensOf (matchWords keySize m) =
      ["lpm", if m.mem.get Lpm.ipVersion ≠ 0 then "ipv4" else "ipv6", lpmGlued m.mem,
        "action"] := by
    rw [matchWords, hm]
    by_cases hzero : m.mem.get Lpm.ipVersion = 0 <;> simp [tokensOf, hzero, hglued]
  have hdepth (v : ℕ) :
      readUint ("match" :: (tokensOf (matchWords keySize m) ++ rest)) 4 "depth" parserReadUint8 ≠
        .ok v := by
    intro h
    obtain ⟨_, ⟨t, ht, hread⟩, -⟩ := readUint_eq_ok.mp h
    rw [hwords] at ht
    obtain rfl : "action" = t := Option.some.inj ht
    cases hread
  intro h
  simp only [parseMatchLpm, bind_eq_ok] at h
  obtain ⟨_, -, version, -, h⟩ := h
  split_ifs at h
  · simp only [bind_eq_ok] at h
    obtain ⟨_, -, _, -, _, hread, -⟩ := h
    exact hdepth _ hread
  · simp only [bind_eq_ok] at h
    obtain ⟨_, -, _, -, _, hread, -⟩ := h
    exact hdepth _ hread
  · cases h

/-- The matches of acl and lpm tables are not read. -/
theorem parseMatch_ne (harray : m.matchType ≠ .array) (hhash : m.matchType ≠ .hash)
    (x : TableRuleMatch × ℕ) :
    parseMatch inet ("match" :: (tokensOf (matchWords keySize m) ++ rest)) ≠ .ok x := by
  intro h
  simp only [parseMatch, bind_eq_ok, arg_eq_ok, ensure_eq_ok, keyword_eq_ok] at h
  obtain ⟨_, -, _, -, kind, hkind, h⟩ := h
  cases hm : m.matchType with
  | array => exact harray hm
  | hash => exact hhash hm
  | acl =>
    obtain rfl : "acl" = kind := by
      rw [matchWords, hm] at hkind
      exact Option.some.inj hkind
    exact parseMatchAcl_ne hm x h
  | lpm =>
    obtain rfl : "lpm" = kind := by
      rw [matchWords, hm] at hkind
      exact Option.some.inj hkind
    exact parseMatchLpm_ne hm x h
  | stub =>
    obtain rfl : "unknown" = kind := by
      rw [matchWords, hm] at hkind
      exact Option.some.inj hkind
    simp at h

/-! ### The type of a match that was read -/

/-- An acl match has its type. -/
theorem matchType_parseMatchAcl {tokens : List String} {n : ℕ}
    (h : parseMatchAcl inet tokens = .ok (m, n)) : m.matchType = .acl := by
  simp only [parseMatchAcl, bind_eq_ok] at h
  obtain ⟨_, -, _, -, _, -, _, -, hbranch⟩ := h
  exact matchType_parseMatchAclVersion hbranch

/-- An lpm match has its type. -/
theorem matchType_parseMatchLpm {tokens : List String} {n : ℕ}
    (h : parseMatchLpm inet tokens = .ok (m, n)) : m.matchType = .lpm := by
  simp only [parseMatchLpm, bind_eq_ok] at h
  obtain ⟨_, -, version, -, h⟩ := h
  split_ifs at h
  · simp only [bind_eq_ok, Except.ok.injEq, Prod.mk.injEq] at h
    obtain ⟨_, -, _, -, _, -, rfl, -⟩ := h
    rfl
  · simp only [bind_eq_ok, Except.ok.injEq, Prod.mk.injEq] at h
    obtain ⟨_, -, _, -, _, -, rfl, -⟩ := h
    rfl
  · cases h

/-- A hash match has its type. -/
theorem matchType_parseMatchHash {tokens : List String} {n : ℕ}
    (h : parseMatchHash inet tokens = .ok (m, n)) : m.matchType = .hash := by
  simp only [parseMatchHash, bind_eq_ok] at h
  obtain ⟨_, -, kind, -, h⟩ := h
  split_ifs at h
  · simp only [bind_eq_ok] at h
    obtain ⟨_, -, key, -, h⟩ := h
    cases hkey : parseHexString key tableRuleMatchSizeMax with
    | none =>
      rw [hkey] at h
      cases h
    | some x =>
      rw [hkey] at h
      exact (congrArg (·.1.matchType) (Except.ok.inj h)).symm
  · simp only [parseMatchIpv4Tuple, bind_eq_ok, Except.ok.injEq, Prod.mk.injEq] at h
    obtain ⟨_, -, _, -, _, -, _, -, _, -, _, -, rfl, -⟩ := h
    rfl
  · simp only [parseMatchIpv6Tuple, bind_eq_ok, Except.ok.injEq, Prod.mk.injEq] at h
    obtain ⟨_, -, _, -, _, -, _, -, _, -, _, -, rfl, -⟩ := h
    rfl
  · simp only [bind_eq_ok, Except.ok.injEq, Prod.mk.injEq] at h
    obtain ⟨_, -, _, -, rfl, -⟩ := h
    rfl
  · simp only [bind_eq_ok, Except.ok.injEq, Prod.mk.injEq] at h
    obtain ⟨_, -, _, -, rfl, -⟩ := h
    rfl
  · simp only [parseMatchQinq, bind_eq_ok, Except.ok.injEq, Prod.mk.injEq] at h
    obtain ⟨_, -, _, -, _, -, _, -, _, -, rfl, -⟩ := h
    rfl

/-- An array rule that was read holds a position and nothing else. -/
theorem parseMatch_array_ok {tokens : List String} {n : ℕ}
    (h : parseMatch inet tokens = .ok (m, n)) (hm : m.matchType = .array) :
    ∃ pos : BitVec 32, m.mem = Mem.zero.set ArrayKey.pos pos.toNat := by
  simp only [parseMatch, bind_eq_ok, arg_eq_ok, ensure_eq_ok, keyword_eq_ok] at h
  obtain ⟨_, -, _, -, kind, -, h⟩ := h
  split_ifs at h
  · rw [matchType_parseMatchAcl h] at hm
    cases hm
  · simp only [parseMatchArray, bind_eq_ok, readUint_eq_ok, Except.ok.injEq, Prod.mk.injEq] at h
    obtain ⟨_, -, _, ⟨pos, -, rfl⟩, rfl, -⟩ := h
    exact ⟨pos, rfl⟩
  · rw [matchType_parseMatchHash h] at hm
    cases hm
  · rw [matchType_parseMatchLpm h] at hm
    cases hm

end MatchLoad

end Rids.Pipeline
