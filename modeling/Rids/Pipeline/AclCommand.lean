import Rids.Pipeline.MatchConvert

/-!
# What the acl branch of `parse_match` accepts and stores

A command denotes a rule: the numbers and addresses its tokens read as (`IpRule`, `RawRule`).
When `parse_match` accepts an acl command, the match it returns holds the rule its tokens denote.

* `parseMatch_ip` — the ipv4 and ipv6 commands.
* `parseMatch_raw` — the raw command, its 60 pairs read by a loop.
* `parseMatch_acl_version` — the versions and the pair count a parsed acl match can have.
-/

namespace Rids.Pipeline

open Rids.Lib.ByteMem

/-! ### Inversion of the parser's steps -/

/-- A bind returns when both its parts do. -/
theorem bind_eq_ok {α β ε : Type} {x : Except ε α} {f : α → Except ε β} {b : β} :
    (x >>= f) = .ok b ↔ ∃ a, x = .ok a ∧ f a = .ok b := by
  cases x <;> simp [Bind.bind, Except.bind]

/-- Token `i` reads as the number `v`. -/
def TokenUint {w : ℕ} (tokens : List String) (i : ℕ) (v : BitVec w) : Prop :=
  ∃ t, tokens[i]? = some t ∧ parserReadUint w t = .ok v

/-- Token `i` reads as the address `a`. -/
def TokenAddr (parse : String → Option Mem) (tokens : List String) (i : ℕ) (a : Mem) : Prop :=
  ∃ t, tokens[i]? = some t ∧ parse t = some a

/-- A token reads as one number. -/
theorem TokenUint.unique {w : ℕ} {tokens : List String} {i : ℕ} {v v' : BitVec w}
    (h : TokenUint tokens i v) (h' : TokenUint tokens i v') : v = v' := by
  obtain ⟨t, ht, hread⟩ := h
  obtain ⟨t', ht', hread'⟩ := h'
  obtain rfl : t = t' := Option.some.inj (ht.symm.trans ht')
  exact Except.ok.inj (hread.symm.trans hread')

section Steps

variable {tokens : List String} {i : ℕ} {name : String}

/-- A token is read where it stands. -/
theorem arg_eq_ok {t : String} : arg tokens i = .ok t ↔ tokens[i]? = some t := by
  unfold arg
  cases tokens[i]? <;> simp

/-- A check passes exactly when its condition holds. -/
theorem ensure_eq_ok {b : Bool} {e : ParseError} {u : Unit} : ensure b e = .ok u ↔ b = true := by
  unfold ensure
  split_ifs <;> simp_all

/-- A keyword is read where it stands. -/
theorem keyword_eq_ok {u : Unit} : keyword tokens i name = .ok u ↔ tokens[i]? = some name := by
  simp [keyword, bind_eq_ok, arg_eq_ok, ensure_eq_ok]

/-- A number is read where one stands. -/
theorem readUint_eq_ok {w n : ℕ} :
    readUint tokens i name (parserReadUint w) = .ok n ↔
      ∃ v : BitVec w, TokenUint tokens i v ∧ v.toNat = n := by
  simp only [readUint, bind_eq_ok, arg_eq_ok, TokenUint]
  constructor
  · rintro ⟨t, ht, h⟩
    cases hv : parserReadUint w t with
    | error e => simp [hv] at h
    | ok v => exact ⟨v, ⟨t, ht, hv⟩, by simpa [hv] using h⟩
  · rintro ⟨v, ⟨t, ht, hv⟩, rfl⟩
    exact ⟨t, ht, by rw [hv]⟩

/-- An address is read where one stands. -/
theorem readAddr_eq_ok {parse : String → Option Mem} {a : Mem} :
    readAddr tokens i name parse = .ok a ↔ TokenAddr parse tokens i a := by
  simp only [readAddr, bind_eq_ok, arg_eq_ok, TokenAddr]
  refine exists_congr fun t => and_congr_right fun _ => ?_
  cases parse t <;> simp

end Steps

/-! ### IP rules -/

/-- The two IP versions of a rule. -/
inductive IpVersion
  | ipv4 | ipv6
deriving DecidableEq, Repr

namespace IpVersion

/-- The keyword of a version. -/
def word : IpVersion → String
  | ipv4 => "ipv4"
  | ipv6 => "ipv6"

/-- The format of a version. -/
def format : IpVersion → AclFormat
  | ipv4 => .ipv4
  | ipv6 => .ipv6

/-- The address reader of a version. -/
def parseAddr (inet : InetPton) : IpVersion → String → Option Mem
  | ipv4 => parseIpv4Addr inet
  | ipv6 => parseIpv6Addr inet

/-- The number of 32-bit words of an address. -/
def words : IpVersion → ℕ
  | ipv4 => 1
  | ipv6 => 4

/-- Word `w` of the source address in a match, in host order. -/
def saWord (m : Mem) : IpVersion → ℕ → ℕ
  | ipv4, _ => m.get Acl.ipv4Sa
  | ipv6, w => addrWord m Acl.ipv6Sa w

/-- Word `w` of the destination address in a match, in host order. -/
def daWord (m : Mem) : IpVersion → ℕ → ℕ
  | ipv4, _ => m.get Acl.ipv4Da
  | ipv6, w => addrWord m Acl.ipv6Da w

end IpVersion

/-- The rule `priority P .. SA SD DA DD SP0 SP1 DP0 DP1 PROTO`. Addresses are bytes in network
order. -/
structure IpRule where
  priority : BitVec 32
  sa : Mem
  sd : BitVec 32
  da : Mem
  dd : BitVec 32
  sp0 : BitVec 16
  sp1 : BitVec 16
  dp0 : BitVec 16
  dp1 : BitVec 16
  proto : BitVec 8

/-- The tokens read as the rule. -/
structure IpRule.Denoted (v : IpRule) (parseAddr : String → Option Mem) (tokens : List String) :
    Prop where
  priority : TokenUint tokens 3 v.priority
  sa : TokenAddr parseAddr tokens 5 v.sa
  sd : TokenUint tokens 6 v.sd
  da : TokenAddr parseAddr tokens 7 v.da
  dd : TokenUint tokens 8 v.dd
  sp0 : TokenUint tokens 9 v.sp0
  sp1 : TokenUint tokens 10 v.sp1
  dp0 : TokenUint tokens 11 v.dp0
  dp1 : TokenUint tokens 12 v.dp1
  proto : TokenUint tokens 13 v.proto

/-- The match holds the rule, with a protocol mask of 0. -/
structure IpRule.StoredIn (v : IpRule) (version : IpVersion) (m : Mem) : Prop where
  ipVersion : m.get Acl.ipVersion = version.format.ipVersion
  priority : m.get Acl.priority = v.priority.toNat
  sa : ∀ w < version.words, version.saWord m w = (v.sa.drop (4 * w)).beLoad 4
  sd : m.get Acl.saDepth = v.sd.toNat
  da : ∀ w < version.words, version.daWord m w = (v.da.drop (4 * w)).beLoad 4
  dd : m.get Acl.daDepth = v.dd.toNat
  sp0 : m.get Acl.sp0 = v.sp0.toNat
  sp1 : m.get Acl.sp1 = v.sp1.toNat
  dp0 : m.get Acl.dp0 = v.dp0.toNat
  dp1 : m.get Acl.dp1 = v.dp1.toNat
  proto : m.get Acl.proto = v.proto.toNat
  protoMask : m.get Acl.protoMask = 0

/-- A field reads back the number of its width that was assigned to it. -/
theorem get_set_toNat (m : Mem) (f : Field) {w : ℕ} (v : BitVec w) (h : w ≤ 8 * f.len) :
    (m.set f v.toNat).get f = v.toNat := by
  refine Mem.get_set_of_lt m (v.isLt.trans_le ?_)
  rw [show (256 : ℕ) = 2 ^ 8 from rfl, ← Nat.pow_mul]
  exact Nat.pow_le_pow_right (by omega) h

/-- What the common part of the IP branches stores. -/
theorem parseMatchIpRest_ok {tokens : List String} {m m' : Mem}
    (h : parseMatchIpRest tokens m = .ok m') :
    ∃ (sd dd : BitVec 32) (sp0 sp1 dp0 dp1 : BitVec 16) (proto : BitVec 8),
      (TokenUint tokens 6 sd ∧ m'.get Acl.saDepth = sd.toNat) ∧
      (TokenUint tokens 8 dd ∧ m'.get Acl.daDepth = dd.toNat) ∧
      (TokenUint tokens 9 sp0 ∧ m'.get Acl.sp0 = sp0.toNat) ∧
      (TokenUint tokens 10 sp1 ∧ m'.get Acl.sp1 = sp1.toNat) ∧
      (TokenUint tokens 11 dp0 ∧ m'.get Acl.dp0 = dp0.toNat) ∧
      (TokenUint tokens 12 dp1 ∧ m'.get Acl.dp1 = dp1.toNat) ∧
      (TokenUint tokens 13 proto ∧ m'.get Acl.proto = proto.toNat) ∧
      m'.get Acl.protoMask = 0 ∧
      ∀ a, a < 36 ∨ 54 ≤ a → m' a = m a := by
  simp only [parseMatchIpRest, bind_eq_ok, readUint_eq_ok, Except.ok.injEq] at h
  obtain ⟨_, ⟨sd, hsd, rfl⟩, _, ⟨dd, hdd, rfl⟩, _, ⟨sp0, hsp0, rfl⟩, _, ⟨sp1, hsp1, rfl⟩,
    _, ⟨dp0, hdp0, rfl⟩, _, ⟨dp1, hdp1, rfl⟩, _, ⟨proto, hproto, rfl⟩, rfl⟩ := h
  refine ⟨sd, dd, sp0, sp1, dp0, dp1, proto, ⟨hsd, ?_⟩, ⟨hdd, ?_⟩, ⟨hsp0, ?_⟩, ⟨hsp1, ?_⟩,
    ⟨hdp0, ?_⟩, ⟨hdp1, ?_⟩, ⟨hproto, ?_⟩, Mem.get_set_self _ _ _, fun a ha => ?_⟩
  iterate 7
    · simp (disch := decide) only [Mem.get_set_of_disjoint, get_set_toNat]
  simp only [Acl.protoMask, Acl.proto, Acl.dp1, Acl.dp0, Acl.sp1, Acl.sp0, Acl.daDepth,
    Acl.saDepth]
  iterate 8 rw [Mem.set_apply_of_not_covered]
  all_goals
    simp only
    omega

/-- A swapped word fits into four bytes. -/
theorem bswap32_load_lt (a : Mem) : bswap32 (a.load 0 4) < 256 ^ 4 := by
  rw [bswap32_load]
  exact beLoad_lt _ 4

/-- What an address branch leaves for the common part: addresses, version, priority. -/
structure AddrStored (version : IpVersion) (sa da : Mem) (priority : ℕ) (m : Mem) : Prop where
  ipVersion : m.get Acl.ipVersion = version.format.ipVersion
  priority : m.get Acl.priority = priority
  sa : ∀ w < version.words, version.saWord m w = (sa.drop (4 * w)).beLoad 4
  da : ∀ w < version.words, version.daWord m w = (da.drop (4 * w)).beLoad 4

/-- What the ipv4 branch stores. -/
theorem parseMatchIpv4_ok {inet : InetPton} {tokens : List String} {m m' : Mem}
    (h : parseMatchIpv4 inet tokens m = .ok m') :
    ∃ sa da, TokenAddr (parseIpv4Addr inet) tokens 5 sa ∧
      TokenAddr (parseIpv4Addr inet) tokens 7 da ∧
      AddrStored .ipv4 sa da (m.get Acl.priority) m' := by
  simp only [parseMatchIpv4, bind_eq_ok, readAddr_eq_ok, Except.ok.injEq] at h
  obtain ⟨sa, hsa, da, hda, rfl⟩ := h
  refine ⟨sa, da, hsa, hda, ?_, ?_, fun w hw => ?_, fun w hw => ?_⟩
  · simp (disch := decide) only [Mem.get_set_of_disjoint]
    exact Mem.get_set_self _ _ _
  · simp (disch := decide) only [Mem.get_set_of_disjoint]
  · obtain rfl : w = 0 := Nat.lt_one_iff.mp hw
    simp (disch := decide) only [IpVersion.saWord, Mem.get_set_of_disjoint]
    rw [Mem.get_set_of_lt _ (bswap32_load_lt sa), bswap32_load]
  · obtain rfl : w = 0 := Nat.lt_one_iff.mp hw
    rw [IpVersion.daWord, Mem.get_set_of_lt _ (bswap32_load_lt da), bswap32_load]

/-- A word of an address that lies at `off` in a match. -/
theorem addrWord_eq {m a : Mem} {off : ℕ} (h : ∀ i < 16, m (off + i) = a i) {w : ℕ} (hw : w < 4) :
    addrWord m off w = (a.drop (4 * w)).beLoad 4 := by
  rw [addrWord, bswap32_load]
  refine beLoad_congr fun i hi => ?_
  rw [Mem.drop_apply, Mem.drop_apply, ← h (4 * w + i) (by omega), Nat.add_assoc]

/-- What the ipv6 branch stores. -/
theorem parseMatchIpv6_ok {inet : InetPton} {tokens : List String} {m m' : Mem}
    (h : parseMatchIpv6 inet tokens m = .ok m') :
    ∃ sa da, TokenAddr (parseIpv6Addr inet) tokens 5 sa ∧
      TokenAddr (parseIpv6Addr inet) tokens 7 da ∧
      AddrStored .ipv6 sa da (m.get Acl.priority) m' := by
  simp only [parseMatchIpv6, bind_eq_ok, readAddr_eq_ok, Except.ok.injEq] at h
  obtain ⟨sa, hsa, da, hda, rfl⟩ := h
  refine ⟨sa, da, hsa, hda, ?_, ?_, fun w hw => ?_, fun w hw => ?_⟩
  · simp (disch := decide) only [Mem.get_copy_of_disjoint]
    exact Mem.get_set_self _ _ _
  · simp (disch := decide) only [Mem.get_copy_of_disjoint, Mem.get_set_of_disjoint]
  · refine addrWord_eq (fun i hi => ?_) hw
    rw [Mem.copy_apply_of_not_covered, Mem.copy_apply_of_covered _ _ hi]
    simp only [Acl.ipv6Sa, Acl.ipv6Da]
    omega
  · exact addrWord_eq (fun i hi => Mem.copy_apply_of_covered _ _ hi) hw

/-- The common part keeps the addresses. -/
theorem words_congr {version : IpVersion} {m m' : Mem} (h : ∀ a < 36, m' a = m a) {w : ℕ}
    (hw : w < version.words) :
    version.saWord m' w = version.saWord m w ∧ version.daWord m' w = version.daWord m w := by
  cases version with
  | ipv4 =>
    refine ⟨Mem.get_congr fun i hi => h _ ?_, Mem.get_congr fun i hi => h _ ?_⟩ <;>
      simp only [Acl.ipv4Sa, Acl.ipv4Da] at hi ⊢ <;> omega
  | ipv6 =>
    simp only [IpVersion.words] at hw
    refine ⟨congrArg bswap32 (load_congr fun i hi => h _ ?_),
      congrArg bswap32 (load_congr fun i hi => h _ ?_)⟩ <;>
      simp only [Acl.ipv6Sa, Acl.ipv6Da] <;> omega

/-- After both parts the match holds the rule. -/
theorem storedIn_of_rest {version : IpVersion} {parseAddr : String → Option Mem}
    {tokens : List String} {sa da m m' : Mem} {priority : BitVec 32}
    (hpriority : TokenUint tokens 3 priority) (hsa : TokenAddr parseAddr tokens 5 sa)
    (hda : TokenAddr parseAddr tokens 7 da)
    (haddr : AddrStored version sa da priority.toNat m)
    (h : parseMatchIpRest tokens m = .ok m') :
    ∃ v : IpRule, v.Denoted parseAddr tokens ∧ v.StoredIn version m' := by
  obtain ⟨sd, dd, sp0, sp1, dp0, dp1, proto, hsd, hdd, hsp0, hsp1, hdp0, hdp1, hproto, hmask,
    hkeep⟩ := parseMatchIpRest_ok h
  have hlow (a : ℕ) (ha : a < 36) : m' a = m a := hkeep a (.inl ha)
  have hget (f : Field) (hf : f.off + f.len ≤ 36 ∨ 54 ≤ f.off) : m'.get f = m.get f :=
    Mem.get_congr fun i hi => hkeep _ (by omega)
  refine ⟨⟨priority, sa, sd, da, dd, sp0, sp1, dp0, dp1, proto⟩,
    ⟨hpriority, hsa, hsd.1, hda, hdd.1, hsp0.1, hsp1.1, hdp0.1, hdp1.1, hproto.1⟩,
    ⟨?_, ?_, fun w hw => ?_, hsd.2, fun w hw => ?_, hdd.2, hsp0.2, hsp1.2, hdp0.2, hdp1.2,
      hproto.2, hmask⟩⟩
  · exact (hget _ (by decide)).trans haddr.ipVersion
  · exact (hget _ (by decide)).trans haddr.priority
  · exact (words_congr hlow hw).1.trans (haddr.sa w hw)
  · exact (words_congr hlow hw).2.trans (haddr.da w hw)

/-- An acl command that is accepted: its priority, and the branch its fifth token selects. -/
theorem parseMatch_acl {inet : InetPton} {tokens : List String} {m : TableRuleMatch} {n : ℕ}
    (h : parseMatch inet tokens = .ok (m, n)) (hacl : tokens[1]? = some "acl") :
    ∃ (priority : BitVec 32) (version : String), TokenUint tokens 3 priority ∧
      tokens[4]? = some version ∧
      parseMatchAclVersion inet tokens (Mem.zero.set Acl.priority priority.toNat) version =
        .ok (m, n) := by
  simp only [parseMatch, bind_eq_ok, arg_eq_ok, ensure_eq_ok, keyword_eq_ok] at h
  obtain ⟨_, -, _, -, kind, hkind, h⟩ := h
  obtain rfl : kind = "acl" := Option.some.inj (hkind.symm.trans hacl)
  rw [if_pos rfl] at h
  simp only [parseMatchAcl, bind_eq_ok, arg_eq_ok, ensure_eq_ok, keyword_eq_ok,
    readUint_eq_ok] at h
  obtain ⟨_, -, _, -, _, ⟨priority, hpriority, rfl⟩, version, hversion, h⟩ := h
  exact ⟨priority, version, hpriority, hversion, h⟩

/-- Whatever the branch, the match is an acl match. -/
theorem matchType_parseMatchAclVersion {inet : InetPton} {tokens : List String} {m₀ : Mem}
    {version : String} {m : TableRuleMatch} {n : ℕ}
    (h : parseMatchAclVersion inet tokens m₀ version = .ok (m, n)) : m.matchType = .acl := by
  unfold parseMatchAclVersion at h
  split_ifs at h
  · simp only [bind_eq_ok, Except.ok.injEq, Prod.mk.injEq] at h
    obtain ⟨_, -, rfl, -⟩ := h
    rfl
  · simp only [bind_eq_ok, Except.ok.injEq, Prod.mk.injEq] at h
    obtain ⟨_, -, _, -, rfl, -⟩ := h
    rfl
  · simp only [bind_eq_ok, Except.ok.injEq, Prod.mk.injEq] at h
    obtain ⟨_, -, _, -, rfl, -⟩ := h
    rfl

/-- **IP commands.** A match that `parse_match` returns for an ipv4 or ipv6 command holds the
rule its tokens denote. -/
theorem parseMatch_ip {inet : InetPton} {tokens : List String} {m : TableRuleMatch} {n : ℕ}
    {version : IpVersion} (h : parseMatch inet tokens = .ok (m, n))
    (hacl : tokens[1]? = some "acl") (hversion : tokens[4]? = some version.word) :
    ∃ v : IpRule, v.Denoted (version.parseAddr inet) tokens ∧ v.StoredIn version m.mem := by
  obtain ⟨priority, word, hpriority, hword, h⟩ := parseMatch_acl h hacl
  obtain rfl : word = version.word := Option.some.inj (hword.symm.trans hversion)
  have hprio : (Mem.zero.set Acl.priority priority.toNat).get Acl.priority = priority.toNat :=
    get_set_toNat _ _ _ (by decide)
  cases version with
  | ipv4 =>
    rw [parseMatchAclVersion, if_neg (by decide), if_pos (by decide)] at h
    simp only [bind_eq_ok, Except.ok.injEq, Prod.mk.injEq] at h
    obtain ⟨m1, h1, m2, h2, rfl, -⟩ := h
    obtain ⟨sa, da, hsa, hda, haddr⟩ := parseMatchIpv4_ok h1
    rw [hprio] at haddr
    exact storedIn_of_rest hpriority hsa hda haddr h2
  | ipv6 =>
    rw [parseMatchAclVersion, if_neg (by decide), if_neg (by decide), if_pos (by decide)] at h
    simp only [bind_eq_ok, Except.ok.injEq, Prod.mk.injEq] at h
    obtain ⟨m1, h1, m2, h2, rfl, -⟩ := h
    obtain ⟨sa, da, hsa, hda, haddr⟩ := parseMatchIpv6_ok h1
    rw [hprio] at haddr
    exact storedIn_of_rest hpriority hsa hda haddr h2

/-! ### Raw rules -/

/-- The rule `priority P raw CATEGORY (ORIGIN MASK) .. PROTO PROTO_MASK`. -/
structure RawRule where
  priority : BitVec 32
  categoryMask : BitVec 32
  origin : ℕ → BitVec 32
  mask : ℕ → BitVec 32
  proto : BitVec 8
  protoMask : BitVec 8

/-- The tokens read as the rule. -/
structure RawRule.Denoted (v : RawRule) (tokens : List String) : Prop where
  priority : TokenUint tokens 3 v.priority
  categoryMask : TokenUint tokens 5 v.categoryMask
  origin : ∀ i < nFilterRaw, TokenUint tokens (6 + i * 2) (v.origin i)
  mask : ∀ i < nFilterRaw, TokenUint tokens (7 + i * 2) (v.mask i)
  proto : TokenUint tokens (6 + nFilterRaw * 2) v.proto
  protoMask : TokenUint tokens (7 + nFilterRaw * 2) v.protoMask

/-- The match holds the rule. -/
structure RawRule.StoredIn (v : RawRule) (m : Mem) : Prop where
  ipVersion : m.get Acl.ipVersion = AclFormat.raw.ipVersion
  priority : m.get Raw.priority = v.priority.toNat
  categoryMask : m.get Raw.categoryMask = v.categoryMask.toNat
  origin : ∀ i < nFilterRaw, m.get (Raw.origin i) = (v.origin i).toNat
  mask : ∀ i < nFilterRaw, m.get (Raw.mask i) = (v.mask i).toNat
  proto : m.get Raw.proto = v.proto.toNat
  protoMask : m.get Raw.protoMask = v.protoMask.toNat
  nFilter : m.get Raw.nFilter = nFilterRaw

/-- The loop over the pairs: the pairs read so far are stored, bytes past the arrays stay. -/
theorem parseRawPairs_ok {tokens : List String} {m m' : Mem} {n : ℕ} (hn : n ≤ 64)
    (h : (List.range n).foldlM (parseRawPair tokens) m = .ok m') :
    (∀ i < n, ∃ origin mask : BitVec 32,
      TokenUint tokens (6 + i * 2) origin ∧ TokenUint tokens (7 + i * 2) mask ∧
      m'.get (Raw.origin i) = origin.toNat ∧ m'.get (Raw.mask i) = mask.toNat) ∧
    ∀ a, a < 4 ∨ 516 ≤ a → m' a = m a := by
  induction n generalizing m' with
  | zero =>
    simp only [List.range_zero, List.foldlM_nil] at h
    cases h
    exact ⟨fun i hi => absurd hi (by omega), fun _ _ => rfl⟩
  | succ n ih =>
    simp only [List.range_succ, List.foldlM_append, List.foldlM_cons, List.foldlM_nil,
      parseRawPair, bind_eq_ok, readUint_eq_ok, Except.ok.injEq] at h
    obtain ⟨m1, hm1, m2, ⟨_, ⟨origin, horigin, rfl⟩, _, ⟨mask, hmask, rfl⟩, rfl⟩, h⟩ := h
    cases h
    obtain ⟨hpairs, hkeep⟩ := ih (by omega) hm1
    refine ⟨fun i hi => ?_, fun a ha => ?_⟩
    · rcases Nat.lt_succ_iff_lt_or_eq.mp hi with hlt | rfl
      · obtain ⟨o, k, ho, hk, hgo, hgk⟩ := hpairs i hlt
        refine ⟨o, k, ho, hk, ?_, ?_⟩
        · rw [Mem.get_set_of_disjoint, Mem.get_set_of_disjoint, hgo] <;>
            simp only [Field.Disjoint, Raw.origin, Raw.mask] <;> omega
        · rw [Mem.get_set_of_disjoint, Mem.get_set_of_disjoint, hgk] <;>
            simp only [Field.Disjoint, Raw.origin, Raw.mask] <;> omega
      · refine ⟨origin, mask, horigin, hmask, ?_, get_set_toNat _ _ _ (Nat.le_refl 32)⟩
        rw [Mem.get_set_of_disjoint, get_set_toNat _ _ _ (Nat.le_refl 32)]
        simp only [Field.Disjoint, Raw.origin, Raw.mask]
        omega
    · rw [Mem.set_apply_of_not_covered, Mem.set_apply_of_not_covered, hkeep a ha] <;>
        simp only [Raw.origin, Raw.mask] <;> omega

/-- What the raw branch reads and stores. -/
theorem parseMatchRaw_ok {tokens : List String} {m m' : Mem} {n : ℕ}
    (h : parseMatchRaw tokens m = .ok (m', n)) :
    ∃ v : RawRule, v.Denoted tokens ∧ v.StoredIn m' := by
  simp only [parseMatchRaw, bind_eq_ok, readUint_eq_ok, Except.ok.injEq, Prod.mk.injEq] at h
  obtain ⟨_, ⟨categoryMask, hcategory, rfl⟩, m1, hloop, _, ⟨priority, hpriority, rfl⟩,
    _, ⟨proto, hproto, rfl⟩, _, ⟨protoMask, hprotoMask, rfl⟩, rfl, -⟩ := h
  obtain ⟨hpairs, hkeep⟩ := parseRawPairs_ok (by decide) hloop
  have hversion : m1.get Acl.ipVersion = 2 := by
    rw [Mem.get_congr fun i hi => hkeep _ (.inl (by simpa [Acl.ipVersion] using hi))]
    exact Mem.get_set_self _ _ _
  choose! origin mask horigin hmask hgetOrigin hgetMask using hpairs
  refine ⟨⟨priority, categoryMask, origin, mask, proto, protoMask⟩,
    ⟨hpriority, hcategory, horigin, hmask, hproto, hprotoMask⟩,
    ⟨?_, ?_, ?_, fun i hi => ?_, fun i hi => ?_, ?_, ?_, ?_⟩⟩
  · simp (disch := decide) only [Mem.get_set_of_disjoint]
    exact hversion
  · simp (disch := decide) only [Mem.get_set_of_disjoint, get_set_toNat]
  · exact get_set_toNat _ _ _ (by decide)
  · rw [← hgetOrigin i hi]
    simp only [nFilterRaw] at hi
    iterate 5 rw [Mem.get_set_of_disjoint]
    all_goals
      simp only [Field.Disjoint, Raw.origin, Raw.categoryMask, Raw.nFilter, Raw.protoMask,
        Raw.proto, Raw.priority]
      omega
  · rw [← hgetMask i hi]
    simp only [nFilterRaw] at hi
    iterate 5 rw [Mem.get_set_of_disjoint]
    all_goals
      simp only [Field.Disjoint, Raw.mask, Raw.categoryMask, Raw.nFilter, Raw.protoMask,
        Raw.proto, Raw.priority]
      omega
  · simp (disch := decide) only [Mem.get_set_of_disjoint, get_set_toNat]
  · simp (disch := decide) only [Mem.get_set_of_disjoint, get_set_toNat]
  · simp (disch := decide) only [Mem.get_set_of_disjoint]
    exact Mem.get_set_self _ _ _

/-- **Raw commands.** A match that `parse_match` returns for a raw command holds the rule its
tokens denote. -/
theorem parseMatch_raw {inet : InetPton} {tokens : List String} {m : TableRuleMatch} {n : ℕ}
    (h : parseMatch inet tokens = .ok (m, n)) (hacl : tokens[1]? = some "acl")
    (hversion : tokens[4]? = some "raw") :
    ∃ v : RawRule, v.Denoted tokens ∧ v.StoredIn m.mem := by
  obtain ⟨priority, word, -, hword, h⟩ := parseMatch_acl h hacl
  obtain rfl : word = "raw" := Option.some.inj (hword.symm.trans hversion)
  rw [parseMatchAclVersion, if_pos rfl] at h
  simp only [bind_eq_ok, Except.ok.injEq, Prod.mk.injEq, Prod.exists] at h
  obtain ⟨m1, n1, hraw, rfl, rfl⟩ := h
  exact parseMatchRaw_ok hraw

/-- A parsed acl match has the version of one of the three formats, and a raw one carries 60
pairs. -/
theorem parseMatch_acl_version {inet : InetPton} {tokens : List String} {m : TableRuleMatch}
    {n : ℕ} (h : parseMatch inet tokens = .ok (m, n)) (hacl : tokens[1]? = some "acl") :
    ∃ f : AclFormat, m.mem.get Acl.ipVersion = f.ipVersion ∧
      (f = .raw → m.mem.get Raw.nFilter = nFilterRaw) := by
  obtain ⟨priority, word, -, hword, hbranch⟩ := parseMatch_acl h hacl
  unfold parseMatchAclVersion at hbranch
  split_ifs at hbranch with hraw hipv4 hipv6
  · subst hraw
    obtain ⟨v, -, hstored⟩ := parseMatch_raw h hacl hword
    exact ⟨.raw, hstored.ipVersion, fun _ => hstored.nFilter⟩
  · subst hipv4
    obtain ⟨v, -, hstored⟩ :=
      parseMatch_ip h hacl (show tokens[4]? = some IpVersion.ipv4.word from hword)
    exact ⟨.ipv4, hstored.ipVersion, by simp⟩
  · subst hipv6
    obtain ⟨v, -, hstored⟩ :=
      parseMatch_ip h hacl (show tokens[4]? = some IpVersion.ipv6.word from hword)
    exact ⟨.ipv6, hstored.ipVersion, by simp⟩

/-! ### Accepted commands -/

/-- The match of a command that `parse_match` and, for the table, `match_check` accept. -/
def acceptedMatch (inet : InetPton) (tokens : List String) (t : TableAclParams) :
    Option TableRuleMatch :=
  match parseMatch inet tokens with
  | .error _ => none
  | .ok (m, _) => if matchCheck m (.acl t) then some m else none

/-- A match is accepted when it is parsed and checked. -/
theorem acceptedMatch_eq_some {inet : InetPton} {tokens : List String} {t : TableAclParams}
    {m : TableRuleMatch} : acceptedMatch inet tokens t = some m ↔
      ∃ n, parseMatch inet tokens = .ok (m, n) ∧ matchCheck m (.acl t) = true := by
  unfold acceptedMatch
  cases parseMatch inet tokens with
  | error e => simp
  | ok r =>
    simp only [Option.ite_none_right_eq_some, Option.some.injEq, Except.ok.injEq]
    constructor
    · rintro ⟨hcheck, rfl⟩
      exact ⟨r.2, rfl, hcheck⟩
    · rintro ⟨n, rfl, hcheck⟩
      exact ⟨hcheck, rfl⟩

/-! ### Sample commands -/

/-- An `inet_pton` that reads the unspecified addresses. -/
def InetPton.unspecified : InetPton where
  af4 s := if s = "0.0.0.0" then some Mem.zero else none
  af6 s := if s = "::" then some Mem.zero else none

/-- The rule for all TCP packets. -/
def anyTcp : List String :=
  ["match", "acl", "priority", "0", "ipv4", "0.0.0.0", "0", "0.0.0.0", "0", "0", "65535", "0",
    "65535", "6"]

/-- A raw rule with one pair for all bytes. -/
def rawOf (categoryMask origin mask proto protoMask : String) : List String :=
  ["match", "acl", "priority", "0", "raw", categoryMask] ++
    (List.replicate nFilterRaw [origin, mask]).flatten ++ [proto, protoMask]

/-- A table of ipv4 rules for the header after an Ethernet header, with 256 bytes before the
packet data. -/
def ethernetIpv4 : TableAclParams := ⟨1, 270, 1⟩

/-- A table of raw rules at the same place. -/
def ethernetRaw : TableAclParams := ⟨1, 270, 2⟩

end Rids.Pipeline
