import Rids.Pipeline.AclCommand
import Rids.Pipeline.AclMatch

/-!
# What an IP rule matches, end to end

A command `match acl priority P ipv4|ipv6 SA SD DA DD SP0 SP1 DP0 DP1 PROTO` goes through
`parse_match`, `match_check`, `match_convert` and the field format of its table. The rule that
comes out compares the address prefixes as the command says. It compares the port ranges with the
four bytes after a header of 20 or 40 bytes, which are the ports of a packet without options or
extension headers. The protocol is compared under the mask 0 that `parse_match` stores, so it is
not compared at all.

The rule passes through three forms: the tokens, the bytes of the match (`IpRule.StoredIn`) and
the fields of the low-level rule.

* `aclMatches_ip_iff` — the converted rule matches a header exactly when the addresses do and the
  bytes after the fixed header lie in the port ranges.
* `ip_rule_iff` — when that is what the command says, for a header of any length; without options
  it is when the protocol is the rule's or an address or a port is not.
-/

namespace Rids.Pipeline

open Rids.Lib.ByteMem

/-! ### What the command says -/

namespace IpVersion

/-- The offset of the source address in a header. -/
def srcAddrOff : IpVersion → ℕ
  | ipv4 => 12
  | ipv6 => 8

/-- The offset of the destination address in a header. -/
def dstAddrOff : IpVersion → ℕ
  | ipv4 => 16
  | ipv6 => 24

/-- The offset of the protocol, or next header, in a header. -/
def protoOff : IpVersion → ℕ
  | ipv4 => 9
  | ipv6 => 6

/-- The length of a header without options or extension headers. -/
def fixedLen : IpVersion → ℕ
  | ipv4 => 20
  | ipv6 => 40

/-- The number of bits of an address. -/
def addrBits : IpVersion → ℕ
  | ipv4 => 32
  | ipv6 => 128

/-- The length of an ipv6 extension header with length byte `b`, for the next-header values that
name one: hop-by-hop, routing, destination options, mobility, HIP and shim6, then fragment, then
authentication. -/
def extensionLen (proto : BitVec 8) (b : ℕ) : Option ℕ :=
  if proto ∈ [0, 43, 60, 135, 139, 140] then some (8 * (b + 1))
  else if proto = 44 then some 8
  else if proto = 51 then some (4 * (b + 2))
  else none

/-- The protocol behind a chain of ipv6 extension headers that begins at `off`, and its offset. -/
def skipExtensions (hdr : Mem) : ℕ → BitVec 8 → ℕ → BitVec 8 × ℕ
  | 0, proto, off => (proto, off)
  | fuel + 1, proto, off =>
    (extensionLen proto (hdr (off + 1)).toNat).elim (proto, off) fun len =>
      skipExtensions hdr fuel (hdr off) (off + len)

/-- One more header to skip. -/
theorem skipExtensions_succ (hdr : Mem) (fuel : ℕ) (proto : BitVec 8) (off : ℕ) :
    skipExtensions hdr (fuel + 1) proto off =
      (extensionLen proto (hdr (off + 1)).toNat).elim (proto, off) fun len =>
        skipExtensions hdr fuel (hdr off) (off + len) := rfl

/-- The protocol a header carries and the offset where it begins. An ipv4 header counts its words
in its first byte; the extension headers of ipv6 have at least 8 of at most 65535 bytes, so that
8192 of them are never all used. -/
def upperLayer : IpVersion → Mem → BitVec 8 × ℕ
  | ipv4, hdr => (hdr 9, 4 * ((hdr 0).toNat % 16))
  | ipv6, hdr => skipExtensions hdr 8192 (hdr 6) 40

/-- No options and no extension headers: the protocol of the header follows its fixed part. -/
def IsPlain (version : IpVersion) (hdr : Mem) : Prop :=
  version.upperLayer hdr = (hdr version.protoOff, version.fixedLen)

/-- An ipv4 header of five words is plain. -/
theorem isPlain_ipv4_iff (hdr : Mem) : IsPlain .ipv4 hdr ↔ (hdr 0).toNat % 16 = 5 := by
  simp only [IsPlain, upperLayer, protoOff, fixedLen, Prod.mk.injEq, true_and]
  omega

/-- An extension header has at least eight bytes. -/
theorem le_extensionLen {proto : BitVec 8} {b len : ℕ} (h : extensionLen proto b = some len) :
    8 ≤ len := by
  unfold extensionLen at h
  split_ifs at h <;> obtain rfl := Option.some.inj h <;> omega

/-- The chain never runs backwards, and it ends at a protocol that is no extension header, or
after eight bytes for every header passed. -/
theorem skipExtensions_spec (hdr : Mem) (fuel : ℕ) (proto : BitVec 8) (off : ℕ) :
    off ≤ (skipExtensions hdr fuel proto off).2 ∧
      (extensionLen (skipExtensions hdr fuel proto off).1
          (hdr ((skipExtensions hdr fuel proto off).2 + 1)).toNat = none ∨
        off + 8 * fuel ≤ (skipExtensions hdr fuel proto off).2) := by
  induction fuel generalizing proto off with
  | zero => exact ⟨le_rfl, .inr le_rfl⟩
  | succ fuel ih =>
    rcases hlen : extensionLen proto (hdr (off + 1)).toNat with _ | len
    · simp only [skipExtensions_succ, hlen, Option.elim_none, le_refl, true_or, and_self]
    · simp only [skipExtensions_succ, hlen, Option.elim_some]
      have hle := le_extensionLen hlen
      obtain ⟨hoff, hstop⟩ := ih (hdr off) (off + len)
      exact ⟨by omega, hstop.imp_right fun h => by omega⟩

/-- Nothing is skipped when the first protocol is no extension header. -/
theorem skipExtensions_eq_self_iff (hdr : Mem) (fuel : ℕ) (proto : BitVec 8) (off : ℕ) :
    skipExtensions hdr (fuel + 1) proto off = (proto, off) ↔
      extensionLen proto (hdr (off + 1)).toNat = none := by
  rw [skipExtensions_succ]
  rcases hlen : extensionLen proto (hdr (off + 1)).toNat with _ | len
  · exact iff_of_true rfl rfl
  · refine iff_of_false (fun h => ?_) (by simp)
    have hoff : (skipExtensions hdr fuel (hdr off) (off + len)).2 = off := congrArg Prod.snd h
    have hle := le_extensionLen hlen
    have hge := (skipExtensions_spec hdr fuel (hdr off) (off + len)).1
    omega

/-- An ipv6 header is plain when its next header is no extension header. -/
theorem isPlain_ipv6_iff (hdr : Mem) :
    IsPlain .ipv6 hdr ↔ extensionLen (hdr 6) (hdr 41).toNat = none :=
  skipExtensions_eq_self_iff hdr 8191 (hdr 6) 40

end IpVersion

namespace IpRule

variable (v : IpRule) (version : IpVersion) (hdr : Mem)

/-- Source and destination address have the prefixes of the rule. -/
def MatchesAddrs : Prop :=
  BitPrefix v.sd.toNat (hdr.drop version.srcAddrOff) v.sa ∧
    BitPrefix v.dd.toNat (hdr.drop version.dstAddrOff) v.da

/-- The two words at `off` lie in the ranges for the source and the destination port. -/
def PortsAt (off : ℕ) : Prop :=
  (v.sp0.toNat ≤ (hdr.drop off).beLoad 2 ∧ (hdr.drop off).beLoad 2 ≤ v.sp1.toNat) ∧
    (v.dp0.toNat ≤ (hdr.drop (off + 2)).beLoad 2 ∧ (hdr.drop (off + 2)).beLoad 2 ≤ v.dp1.toNat)

/-- The ports of the packet, the first two words of the protocol its header carries, lie in the
ranges of the rule. -/
def MatchesPorts : Prop := v.PortsAt hdr (version.upperLayer hdr).2

/-- The protocol the header carries is the rule's. -/
def MatchesProto : Prop := (version.upperLayer hdr).1 = v.proto

/-- What the command says. -/
def Matches : Prop :=
  v.MatchesAddrs version hdr ∧ v.MatchesPorts version hdr ∧ v.MatchesProto version hdr

end IpRule

/-! ### The converted rule -/

/-- Field `j` of a converted rule, when the assignments share no byte and two of them are its. -/
theorem fieldOf_pair {as : List Assign} (hapart : Apart as) (j len : ℕ) {x y : ℕ}
    (hx : x < 256 ^ len) (hy : y < 256 ^ len)
    (h : ∀ a ∈ fieldAssigns .aclAdd j len x y, a ∈ as) :
    fieldOf (runAssigns as) .aclAdd j .value len = x ∧
      fieldOf (runAssigns as) .aclAdd j .maskRange len = y := by
  have hvalue := h _ List.mem_cons_self
  have hmask := h _ (List.mem_cons_of_mem _ List.mem_cons_self)
  rw [fieldOf_runAssigns hapart hvalue, fieldOf_runAssigns hapart hmask]
  exact ⟨Nat.mod_eq_of_lt hx, Nat.mod_eq_of_lt hy⟩

/-- The ipv4 rule under the ipv4 format. -/
theorem aclMatches_ipv4 {v : IpRule} {m hdr : Mem} (hv : v.StoredIn .ipv4 m)
    (hsd : v.sd.toNat ≤ 32) (hdd : v.dd.toNat ≤ 32) :
    aclMatches tableAclFieldFormatIpv4 (runAssigns (ipv4AddAssigns m)) hdr ↔
      v.MatchesAddrs .ipv4 hdr ∧ v.PortsAt hdr 20 := by
  have hpair := @fieldOf_pair _ (apart_ipv4AddAssigns m)
  have hproto := hpair 0 1 (Mem.get_lt m Acl.proto) (Mem.get_lt m Acl.protoMask)
    (by simp [ipv4AddAssigns, ipv4Assigns, fieldAssigns])
  have hsa := hpair 1 4 (Mem.get_lt m Acl.ipv4Sa) (Mem.get_lt m Acl.saDepth)
    (by simp [ipv4AddAssigns, ipv4Assigns, fieldAssigns])
  have hda := hpair 2 4 (Mem.get_lt m Acl.ipv4Da) (Mem.get_lt m Acl.daDepth)
    (by simp [ipv4AddAssigns, ipv4Assigns, fieldAssigns])
  have hsp := hpair 3 2 (Mem.get_lt m Acl.sp0) (Mem.get_lt m Acl.sp1)
    (by simp [ipv4AddAssigns, ipv4Assigns, fieldAssigns])
  have hdp := hpair 4 2 (Mem.get_lt m Acl.dp0) (Mem.get_lt m Acl.dp1)
    (by simp [ipv4AddAssigns, ipv4Assigns, fieldAssigns])
  have hsaWord := hv.sa 0 (by decide)
  have hdaWord := hv.da 0 (by decide)
  simp only [aclMatches, tableAclFieldFormatIpv4, List.forall_mem_cons, List.not_mem_nil,
    false_imp_iff, implies_true, and_true]
  refine (and_iff_right (bitmask_zero_matches (hproto.2.trans hv.protoMask))).trans ?_
  rw [IpRule.MatchesAddrs, and_assoc]
  refine and_congr (mask_matches_iff (hsa.1.trans hsaWord) (hsa.2.trans hv.sd) hsd) ?_
  refine and_congr (mask_matches_iff (hda.1.trans hdaWord) (hda.2.trans hv.dd) hdd) ?_
  exact and_congr (range_matches_iff (hsp.1.trans hv.sp0) (hsp.2.trans hv.sp1))
    (range_matches_iff (hdp.1.trans hv.dp0) (hdp.2.trans hv.dp1))

/-- A bounded quantifier over four words, written out in front of `q`. -/
theorem forall_lt_four_and {P : ℕ → Prop} {q : Prop} :
    (∀ w < 4, P w) ∧ q ↔ P 0 ∧ P 1 ∧ P 2 ∧ P 3 ∧ q := by
  constructor
  · rintro ⟨h, hq⟩
    exact ⟨h 0 (by decide), h 1 (by decide), h 2 (by decide), h 3 (by decide), hq⟩
  · rintro ⟨h0, h1, h2, h3, hq⟩
    refine ⟨fun w hw => ?_, hq⟩
    interval_cases w <;> assumption

/-- The ipv6 rule under the ipv6 format. -/
theorem aclMatches_ipv6 {v : IpRule} {m hdr : Mem} {sa32Depth da32Depth : ℕ → ℕ}
    (hv : v.StoredIn .ipv6 m) (hsd : v.sd.toNat ≤ 128) (hdd : v.dd.toNat ≤ 128)
    (hsa32 : ∀ w < 4, sa32Depth w = wordLen v.sd.toNat w)
    (hda32 : ∀ w < 4, da32Depth w = wordLen v.dd.toNat w) :
    aclMatches tableAclFieldFormatIpv6 (runAssigns (ipv6AddAssigns m sa32Depth da32Depth)) hdr ↔
      v.MatchesAddrs .ipv6 hdr ∧ v.PortsAt hdr 40 := by
  have hpair := @fieldOf_pair _ (apart_ipv6AddAssigns m sa32Depth da32Depth)
  have hproto := hpair 0 1 (Mem.get_lt m Acl.proto) (Mem.get_lt m Acl.protoMask)
    (by simp [ipv6AddAssigns, ipv6Assigns, fieldAssigns])
  have hsp := hpair 9 2 (Mem.get_lt m Acl.sp0) (Mem.get_lt m Acl.sp1)
    (by simp [ipv6AddAssigns, ipv6Assigns, fieldAssigns])
  have hdp := hpair 10 2 (Mem.get_lt m Acl.dp0) (Mem.get_lt m Acl.dp1)
    (by simp [ipv6AddAssigns, ipv6Assigns, fieldAssigns])
  -- a word of an address is compared under the part of the prefix that lies in it
  have hword {j off w : ℕ} {a : Mem} {len d : ℕ} (hw : w < 4) {k : ℕ} {o : BitVec 32}
      (haddr : addrWord m off w = (a.drop (4 * w)).beLoad 4) (hd : d = wordLen len w)
      (h : ∀ x ∈ fieldAssigns .aclAdd j 4 (addrWord m off w) d,
        x ∈ ipv6AddAssigns m sa32Depth da32Depth) :
      (AclFieldDef.mk .mask 4 j k o).Matches (runAssigns (ipv6AddAssigns m sa32Depth da32Depth))
        hdr ↔ BitPrefix (wordLen len w) (hdr.drop o.toNat) (a.drop (4 * w)) := by
    have hlen : wordLen len w ≤ 32 := min_le_left _ _
    have hf := hpair j 4 (haddr ▸ beLoad_lt _ 4) (by omega) h
    exact mask_matches_iff (hf.1.trans haddr) (hf.2.trans hd) hlen
  simp only [aclMatches, tableAclFieldFormatIpv6, List.forall_mem_cons, List.not_mem_nil,
    false_imp_iff, implies_true, and_true]
  refine (and_iff_right (bitmask_zero_matches (hproto.2.trans hv.protoMask))).trans ?_
  rw [IpRule.MatchesAddrs, bitPrefix_128_iff _ _ hsd, bitPrefix_128_iff _ _ hdd, and_assoc,
    forall_lt_four_and, forall_lt_four_and]
  simp only [Mem.drop_drop]
  refine and_congr (hword (by decide) (hv.sa 0 (by decide)) (hsa32 0 (by decide)) ?_) <|
    and_congr (hword (by decide) (hv.sa 1 (by decide)) (hsa32 1 (by decide)) ?_) <|
    and_congr (hword (by decide) (hv.sa 2 (by decide)) (hsa32 2 (by decide)) ?_) <|
    and_congr (hword (by decide) (hv.sa 3 (by decide)) (hsa32 3 (by decide)) ?_) <|
    and_congr (hword (by decide) (hv.da 0 (by decide)) (hda32 0 (by decide)) ?_) <|
    and_congr (hword (by decide) (hv.da 1 (by decide)) (hda32 1 (by decide)) ?_) <|
    and_congr (hword (by decide) (hv.da 2 (by decide)) (hda32 2 (by decide)) ?_) <|
    and_congr (hword (by decide) (hv.da 3 (by decide)) (hda32 3 (by decide)) ?_) <|
    and_congr (range_matches_iff (hsp.1.trans hv.sp0) (hsp.2.trans hv.sp1))
      (range_matches_iff (hdp.1.trans hv.dp0) (hdp.2.trans hv.dp1))
  all_goals simp [ipv6AddAssigns, ipv6Assigns, fieldAssigns]

/-! ### From the command to the packet -/

section Accepted

variable {inet : InetPton} {tokens : List String} {m : TableRuleMatch} {n : ℕ}
  {version : IpVersion} {t : TableAclParams} {dataStart : BitVec 32} {fields : List AclFieldDef}

/-- The version of a table that takes a stored rule of its format bounds its depths. -/
theorem depth_le_of_matchCheck {v : IpRule} (hv : v.StoredIn version m.mem)
    (hcheck : matchCheck m (.acl t) = true) :
    v.sd.toNat ≤ version.addrBits ∧ v.dd.toNat ≤ version.addrBits := by
  obtain ⟨-, -, hsd, hdd⟩ := matchCheck_acl_iff.mp hcheck
  rw [hv.ipVersion, hv.sd] at hsd
  rw [hv.ipVersion, hv.dd] at hdd
  cases version <;> exact ⟨hsd, hdd⟩

/-- **What the library gets.** A match that holds an IP rule and passes the check of a table of
its version is converted to a rule that compares, in the header at the table's offset, the
addresses, and the port ranges with the bytes after the fixed part of the header. -/
theorem aclMatches_ip_iff {v : IpRule} (hv : v.StoredIn version m.mem)
    (ht : t.format = version.format) (hcreate : aclFormat dataStart t = some fields)
    (hcheck : matchCheck m (.acl t) = true) :
    ∃ ml, matchConvert m true = some ml ∧ ∀ p : PacketAt, aclMatches fields ml p.bytes ↔
      v.MatchesAddrs version (t.header dataStart p) ∧
        v.PortsAt (t.header dataStart p) version.fixedLen := by
  obtain ⟨htype, -⟩ := matchCheck_acl_iff.mp hcheck
  obtain ⟨hsd, hdd⟩ := depth_le_of_matchCheck hv hcheck
  unfold aclFormat at hcreate
  split_ifs at hcreate
  rw [ht] at hcreate
  cases version with
  | ipv4 =>
    obtain rfl := Option.some.inj hcreate
    refine ⟨runAssigns (ipv4AddAssigns m.mem), ?_, fun p => ?_⟩
    · rw [matchConvert, matchConvertAssigns, htype]
      simp only [aclAssigns, hv.ipVersion]
      rfl
    · rw [aclMatches_shift, aclMatches_ipv4 hv hsd hdd, TableAclParams.header, IpVersion.fixedLen]
  | ipv6 =>
    obtain rfl := Option.some.inj hcreate
    obtain ⟨sa32, hsa32, hsaWord⟩ := matchConvertIpv6Depth_eq hsd
    obtain ⟨da32, hda32, hdaWord⟩ := matchConvertIpv6Depth_eq hdd
    refine ⟨runAssigns (ipv6AddAssigns m.mem sa32 da32), ?_, fun p => ?_⟩
    · rw [matchConvert, matchConvertAssigns, htype]
      simp only [aclAssigns, hv.ipVersion, hv.sd, hv.dd, hsa32, hda32]
      rfl
    · rw [aclMatches_shift, aclMatches_ipv6 hv hsd hdd hsaWord hdaWord, TableAclParams.header,
        IpVersion.fixedLen]

/-- **When an IP rule means what its command says.** A packet misses an address prefix, or the
bytes after the fixed part of its header lie in the port ranges exactly when its ports do and its
protocol is the rule's. Behind a plain header these bytes are the ports. -/
theorem ip_rule_iff (hparse : parseMatch inet tokens = .ok (m, n))
    (hacl : tokens[1]? = some "acl") (hversion : tokens[4]? = some version.word)
    (ht : t.format = version.format) (hcreate : aclFormat dataStart t = some fields)
    (hcheck : matchCheck m (.acl t) = true) :
    ∃ (v : IpRule) (ml : Mem), v.Denoted (version.parseAddr inet) tokens ∧
      matchConvert m true = some ml ∧
      (∀ p : PacketAt,
        (aclMatches fields ml p.bytes ↔ v.Matches version (t.header dataStart p)) ↔
          (¬ v.MatchesAddrs version (t.header dataStart p) ∨
            (v.PortsAt (t.header dataStart p) version.fixedLen ↔
              v.MatchesPorts version (t.header dataStart p) ∧
                v.MatchesProto version (t.header dataStart p)))) ∧
      ∀ p : PacketAt, version.IsPlain (t.header dataStart p) →
        ((aclMatches fields ml p.bytes ↔ v.Matches version (t.header dataStart p)) ↔
          (v.MatchesProto version (t.header dataStart p) ∨
            ¬ (v.MatchesAddrs version (t.header dataStart p) ∧
              v.MatchesPorts version (t.header dataStart p)))) := by
  obtain ⟨v, hdenoted, hstored⟩ := parseMatch_ip hparse hacl hversion
  obtain ⟨ml, hconv, hmatch⟩ := aclMatches_ip_iff hstored ht hcreate hcheck
  refine ⟨v, ml, hdenoted, hconv, fun p => ?_, fun p hplain => ?_⟩
  · rw [hmatch p, IpRule.Matches]
    by_cases haddr : v.MatchesAddrs version (t.header dataStart p)
    · simp only [haddr, true_and, not_true_eq_false, false_or]
    · simp only [haddr, false_and, not_false_eq_true, true_or]
  · have hports : v.PortsAt (t.header dataStart p) version.fixedLen ↔
        v.MatchesPorts version (t.header dataStart p) := by
      rw [IpRule.MatchesPorts, hplain]
    rw [hmatch p, hports, IpRule.Matches, ← and_assoc]
    exact ⟨fun h => (em _).imp_right fun hproto hmatches => hproto (h.mp hmatches).2,
      fun h => ⟨fun hmatches => ⟨hmatches, h.resolve_right (not_not_intro hmatches)⟩, And.left⟩⟩

end Accepted

/-- A UDP packet without ip options in an Ethernet frame, all else 0. -/
def udpFrame : PacketAt := fun a => if a = 14 then 0x45 else if a = 23 then 17 else 0

/-- A command for every packet of protocol 6. -/
theorem anyTcp_ip_rule_iff :
    ∃ m fields, parseMatch .unspecified anyTcp = .ok (m, 14) ∧
      aclFormat 256 ethernetIpv4 = some fields ∧
      ∃ (v : IpRule) (ml : Mem), v.Denoted (parseIpv4Addr .unspecified) anyTcp ∧
        matchConvert m true = some ml ∧
        (∀ p : PacketAt,
          (aclMatches fields ml p.bytes ↔ v.Matches .ipv4 (ethernetIpv4.header 256 p)) ↔
            (¬ v.MatchesAddrs .ipv4 (ethernetIpv4.header 256 p) ∨
              (v.PortsAt (ethernetIpv4.header 256 p) 20 ↔
                v.MatchesPorts .ipv4 (ethernetIpv4.header 256 p) ∧
                  v.MatchesProto .ipv4 (ethernetIpv4.header 256 p)))) ∧
        ∀ p : PacketAt, IpVersion.IsPlain .ipv4 (ethernetIpv4.header 256 p) →
          ((aclMatches fields ml p.bytes ↔ v.Matches .ipv4 (ethernetIpv4.header 256 p)) ↔
            (v.MatchesProto .ipv4 (ethernetIpv4.header 256 p) ∨
              ¬ (v.MatchesAddrs .ipv4 (ethernetIpv4.header 256 p) ∧
                v.MatchesPorts .ipv4 (ethernetIpv4.header 256 p)))) :=
  ⟨_, _, rfl, rfl, ip_rule_iff rfl rfl (show anyTcp[4]? = some IpVersion.ipv4.word from rfl) rfl rfl
    (by decide +kernel)⟩

/-- The rule for TCP takes a UDP packet behind a plain header. -/
theorem anyTcp_matches_udpFrame :
    ∃ (m : TableRuleMatch) (fields : List AclFieldDef) (v : IpRule) (ml : Mem),
      parseMatch .unspecified anyTcp = .ok (m, 14) ∧
      matchCheck m (.acl ethernetIpv4) = true ∧
      aclFormat 256 ethernetIpv4 = some fields ∧
      v.Denoted (parseIpv4Addr .unspecified) anyTcp ∧
      matchConvert m true = some ml ∧
      IpVersion.IsPlain .ipv4 (ethernetIpv4.header 256 udpFrame) ∧
      ¬ (aclMatches fields ml udpFrame.bytes ↔
        v.Matches .ipv4 (ethernetIpv4.header 256 udpFrame)) := by
  have htoken {w : ℕ} {v : BitVec w} (i : ℕ) (t : String) (h : anyTcp[i]? = some t)
      (hread : parserReadUint w t = .ok v) : TokenUint anyTcp i v := ⟨t, h, hread⟩
  refine ⟨_, _, ⟨0, Mem.zero, 0, Mem.zero, 0, 0, 65535, 0, 65535, 6⟩, _, rfl, by decide +kernel,
    rfl, ?_, rfl, (IpVersion.isPlain_ipv4_iff _).mpr (by decide), ?_⟩
  · exact ⟨htoken 3 "0" rfl rfl, ⟨"0.0.0.0", rfl, rfl⟩, htoken 6 "0" rfl rfl,
      ⟨"0.0.0.0", rfl, rfl⟩, htoken 8 "0" rfl rfl, htoken 9 "0" rfl rfl,
      htoken 10 "65535" rfl rfl, htoken 11 "0" rfl rfl, htoken 12 "65535" rfl rfl,
      htoken 13 "6" rfl rfl⟩
  · intro hiff
    have hproto : (17 : BitVec 8) = 6 := (hiff.mp (by decide +kernel)).2.2
    exact absurd hproto (by decide)

end Rids.Pipeline
