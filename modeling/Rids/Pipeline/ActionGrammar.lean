import Rids.Pipeline.TokenRead

/-!
# The grammar of actions

The parts of an action from `fwd` to `sym_crypto`, and that their parsers take exactly the texts of
these (`takes_parseTableActionFwd` and its siblings).
-/

namespace Rids.Pipeline

open Rids.Lib.ByteMem Rids.Lib.Fallible Rids.Lib.TokenPattern

/-! ### The parts -/

/-- The tokens of `fwd`. -/
def fwdPatterns : List (Pattern String) :=
  [[Is "fwd", Is "drop"], [Is "fwd", Is "port", IsUint 32], [Is "fwd", Is "meta"],
    [Is "fwd", Is "table", IsUint 32]]

/-- The tokens of `balance`. -/
def balancePattern : Pattern String := Is "balance" :: List.replicate 8 (IsUint 32)

/-- The meter of a traffic class. -/
def meterTcPattern : Pattern String :=
  [Is "meter", IsUint 32, Is "policer", Is "g", ReadBy parsePolicerAction, Is "y",
    ReadBy parsePolicerAction, Is "r", ReadBy parsePolicerAction]

/-- The tokens of `meter` with one traffic class. -/
def meterOnePattern : Pattern String := [Is "meter", Is "tc0"] ++ meterTcPattern

/-- The tokens of `meter` with four traffic classes. -/
def meterFourPattern : Pattern String :=
  meterOnePattern ++ (Is "tc1" :: meterTcPattern ++ (Is "tc2" :: meterTcPattern ++
    (Is "tc3" :: meterTcPattern)))

/-- The tokens of `tm`. -/
def tmPattern : Pattern String := [Is "tm", Is "subport", IsUint 32, Is "pipe", IsUint 32]

/-- The tokens of `ttl`. -/
def ttlPatterns : List (Pattern String) := [[Is "ttl", Is "dec"], [Is "ttl", Is "keep"]]

section Addresses

variable (inet : InetPton)

/-- The tokens of `nat`. -/
def natPatterns : List (Pattern String) :=
  [[Is "nat", Is "ipv4", ReadBy (parseIpv4Addr inet), IsUint 16],
    [Is "nat", Is "ipv6", ReadBy (parseIpv6Addr inet), IsUint 16]]

/-- The two addresses of an Ethernet header. -/
def etherPattern : Pattern String := [ReadBy parseMacAddr, ReadBy parseMacAddr]

/-- The fields of a vlan. -/
def vlanPattern : Pattern String := [IsBounded 3, IsBounded 1, IsBounded 12]

/-- The fields of a label. -/
def mplsPattern : Pattern String := [IsBounded 20, IsBounded 3, IsBounded 6]

/-- The IP headers of a tunnel. -/
def vxlanIpPatterns : List (Pattern String) :=
  [[Is "ipv4", ReadBy (parseIpv4Addr inet), ReadBy (parseIpv4Addr inet), IsUintLe 8 64, IsUint 8],
    [Is "ipv6", ReadBy (parseIpv6Addr inet), ReadBy (parseIpv6Addr inet), IsUint 32,
      IsUintLe 8 64, IsUint 8]]

/-- The tokens of `encap vxlan` up to the addresses. -/
def vxlanHead : Pattern String := [Is "encap", Is "vxlan", Is "ether"] ++ etherPattern

/-- The tokens of `encap vxlan` after the IP header. -/
def vxlanTail : Pattern String := [Is "udp", IsUint 16, IsUint 16, Is "vxlan", IsBounded 24]

/-- A whole `encap vxlan`, with a vlan or without. -/
def VxlanWhole (n : ℕ) (ts : List String) : Prop :=
  Starts vxlanHead ts ∧ ∃ k, StartsAny [[], Is "vlan" :: vlanPattern] k (ts.drop 5) ∧
    ∃ j, StartsAny (vxlanIpPatterns inet) j (ts.drop (5 + k)) ∧
      Starts vxlanTail (ts.drop (5 + k + j)) ∧ 10 + k + j = n

/-- The tokens of `encap` but for labels and tunnels. -/
def encapPatterns : List (Pattern String) :=
  [[Is "encap", Is "ether"] ++ etherPattern,
    [Is "encap", Is "vlan"] ++ (etherPattern ++ vlanPattern),
    [Is "encap", Is "qinq"] ++ (etherPattern ++ (vlanPattern ++ vlanPattern)),
    [Is "encap", Is "qinq_pppoe"] ++ (etherPattern ++ (vlanPattern ++ (vlanPattern ++
      [IsUint 16]))),
    [Is "encap", Is "pppoe"] ++ (etherPattern ++ [IsUint 16])]

variable {inet} {tokens : List String} {n : ℕ}

/-- What `parse_table_action_fwd` takes. -/
theorem takes_parseTableActionFwd :
    Takes n (parseTableActionFwd tokens) ↔ StartsAny fwdPatterns n tokens := by
  simp only [parseTableActionFwd, takes_bind, takes_ite, takes_ok, takes_error, arg_eq_ok,
    ensure_eq_ok, expect_ok, exists_and_right, exists_const, readSilent_ok, decide_eq_true_eq,
    fwdPatterns, StartsAny, starts_cons, starts_nil, at_drop, List.drop_drop, Nat.reduceAdd,
    List.length_cons, List.length_nil]
  simp only [at_is]
  grind [→ At.lt]

/-- What `parse_table_action_tm` takes. -/
theorem takes_parseTableActionTm :
    Takes n (parseTableActionTm tokens) ↔ StartsAny [tmPattern] n tokens := by
  simp only [parseTableActionTm, takes_bind, takes_ok, ensure_eq_ok, expect_ok, exists_and_right,
    exists_const, readSilent_ok, decide_eq_true_eq, tmPattern, StartsAny, starts_cons, starts_nil,
    at_drop, List.drop_drop, Nat.reduceAdd, List.length_cons, List.length_nil]
  grind [→ At.lt]

/-- What `parse_table_action_nat` takes. -/
theorem takes_parseTableActionNat :
    Takes n (parseTableActionNat inet tokens) ↔ StartsAny (natPatterns inet) n tokens := by
  simp only [parseTableActionNat, takes_bind, takes_ite, takes_ok, takes_error, arg_eq_ok,
    ensure_eq_ok, expect_ok, orSilent_eq_ok, exists_and_right, exists_const, readSilent_ok,
    decide_eq_true_eq,
    natPatterns, StartsAny, starts_cons, starts_nil, at_drop, List.drop_drop, Nat.reduceAdd,
    List.length_cons, List.length_nil]
  simp only [at_is]
  grind [→ At.lt, At, ReadBy]

/-- What `parse_table_action_ttl` takes. -/
theorem takes_parseTableActionTtl :
    Takes n (parseTableActionTtl tokens) ↔ StartsAny ttlPatterns n tokens := by
  simp only [parseTableActionTtl, takes_bind, takes_ite, takes_ok, takes_error, arg_eq_ok,
    ensure_eq_ok, expect_ok, exists_const, decide_eq_true_eq, ttlPatterns, StartsAny, starts_cons,
    starts_nil, at_drop, List.drop_drop, Nat.reduceAdd, List.length_cons, List.length_nil]
  simp only [at_is]
  grind [→ At.lt]

/-- What `parse_table_action_stats` and `parse_table_action_time` take. -/
theorem takes_parseTableActionFlag {name : String} :
    Takes n (parseTableActionFlag name tokens) ↔ StartsAny [[Is name]] n tokens := by
  simp only [parseTableActionFlag, takes_bind, takes_ok, ensure_eq_ok, expect_ok, exists_const,
    decide_eq_true_eq, StartsAny, starts_cons, starts_nil, List.length_cons, List.length_nil]
  grind [→ At.lt]

/-! ### `balance` and `meter` -/

/-- The numbers of a row are read when each of its tokens is one. -/
theorem mapM_readToken_ok {w : ℕ} {ts : List String} :
    (∃ out, ts.mapM (readToken (parserReadUint w)) = .ok out ∧ out.length = ts.length) ↔
      ∀ t ∈ ts, IsUint w t := by
  induction ts with
  | nil => simp [Pure.pure, Except.pure]
  | cons t ts ih =>
    rw [List.mapM_cons, List.forall_mem_cons, ← ih]
    simp only [bind_eq_ok, readToken_eq_ok, Pure.pure, Except.pure, Except.ok.injEq, IsUint]
    constructor
    · rintro ⟨-, ⟨v, hv, vs, hvs, rfl⟩, hlen⟩
      exact ⟨⟨v, hv⟩, vs, hvs, Nat.succ.inj hlen⟩
    · rintro ⟨⟨v, hv⟩, vs, hvs, hlen⟩
      exact ⟨_, ⟨v, hv, vs, hvs, rfl⟩, congrArg Nat.succ hlen⟩

/-- What `parse_table_action_balance` takes. -/
theorem takes_parseTableActionBalance :
    Takes n (parseTableActionBalance tokens) ↔ StartsAny [balancePattern] n tokens := by
  simp only [parseTableActionBalance, takes_bind, ensure_eq_ok, expect_ok, exists_const,
    decide_eq_true_eq, balancePattern, StartsAny, starts_cons, starts_replicate, at_drop,
    List.length_cons, List.length_replicate, Nat.reduceAdd, or_false]
  constructor
  · rintro ⟨-, hname, hlen, out, hout, h⟩
    split_ifs at h with hcount
    · have hrow : out.length = ((tokens.drop 1).take 8).length := by
        rw [hcount, List.length_take, List.length_drop]
        omega
      refine ⟨takes_ok.mp h, hname, ?_⟩
      rw [← forall_mem_take_drop hlen]
      exact mapM_readToken_ok.mp ⟨out, hout, hrow⟩
    · exact (takes_error h).elim
  · rintro ⟨hn, hname, hall⟩
    have hlen : 9 ≤ tokens.length := (hall 7 (by decide)).lt
    rw [← forall_mem_take_drop hlen] at hall
    obtain ⟨out, hout, hrow⟩ := mapM_readToken_ok.mpr hall
    have hcount : out.length = 8 := by
      rw [hrow, List.length_take, List.length_drop]
      omega
    refine ⟨hname.lt, hname, hlen, out, hout, ?_⟩
    rw [dif_pos hcount]
    exact takes_ok.mpr hn

/-- What `parse_table_action_meter_tc` accepts. -/
theorem parseTableActionMeterTc_ok :
    (∃ tc, parseTableActionMeterTc tokens = .ok tc) ↔ Starts meterTcPattern tokens := by
  simp only [parseTableActionMeterTc, readPolicer, returns_bind, returns_ok, ensure_eq_ok,
    expect_ok, arg_eq_ok, orSilent_eq_ok, exists_and_right, exists_const, readSilent_ok,
    decide_eq_true_eq, meterTcPattern, starts_cons, starts_nil, at_drop, List.drop_drop,
    Nat.reduceAdd]
  grind [→ At.lt, At, ReadBy]

/-- The meter of one traffic class is nine tokens. -/
theorem length_meterTcPattern : meterTcPattern.length = 9 := rfl

/-- A whole `meter`: a second traffic class asks for four. -/
def MeterWhole (n : ℕ) (ts : List String) : Prop :=
  (11 = n ∧ Starts meterOnePattern ts ∧ ¬ At ts 11 (Is "tc1")) ∨
    (41 = n ∧ Starts meterFourPattern ts)

/-- A whole meter is no longer than its tokens. -/
theorem MeterWhole.le_length (h : MeterWhole n tokens) : n ≤ tokens.length := by
  rcases h with ⟨rfl, h, -⟩ | ⟨rfl, h⟩
  · exact h.length_le
  · exact h.length_le

/-- What `parse_table_action_meter` takes. -/
theorem takes_parseTableActionMeter :
    Takes n (parseTableActionMeter tokens) ↔ MeterWhole n tokens := by
  have hlen {k : ℕ} (h : Starts meterTcPattern (tokens.drop k)) : 9 ≤ tokens.length - k := by
    rw [← List.length_drop]
    exact h.length_le
  simp only [parseTableActionMeter, takes_bind, takes_ite, takes_ok, ensure_eq_ok, expect_ok,
    exists_and_right, exists_const, decide_eq_true_eq, parseTableActionMeterTc_ok,
    MeterWhole, meterOnePattern, meterFourPattern, starts_append, starts_cons, starts_nil, at_drop, at_is,
    List.drop_drop, List.head?_drop, List.length_drop, List.length_append, List.length_cons,
    List.length_nil, length_meterTcPattern, Nat.reduceAdd]
  grind

/-! ### `encap` -/

/-- An Ethernet header is two addresses. -/
theorem readEther_ok {i : ℕ} : (∃ hdr, readEther tokens i = .ok hdr) ↔
    At tokens i (ReadBy parseMacAddr) ∧ At tokens (i + 1) (ReadBy parseMacAddr) := by
  simp only [readEther, returns_bind, returns_ok, arg_eq_ok, orSilent_eq_ok, exists_and_right,
    and_true, At, ReadBy]
  grind

/-- A vlan tag is three bounded numbers. -/
theorem readVlan_ok {i : ℕ} : (∃ vlan, readVlan tokens i = .ok vlan) ↔
    At tokens i (IsBounded 3) ∧ At tokens (i + 1) (IsBounded 1) ∧
      At tokens (i + 2) (IsBounded 12) := by
  simp only [readVlan, returns_bind, returns_ok, readBounded_ok, exists_and_right, and_true]

/-- A label is three bounded numbers. -/
theorem readMplsLabel_ok {i : ℕ} : (∃ label, readMplsLabel tokens i = .ok label) ↔
    At tokens i (IsBounded 20) ∧ At tokens (i + 1) (IsBounded 3) ∧
      At tokens (i + 2) (IsBounded 6) := by
  simp only [readMplsLabel, returns_bind, returns_ok, readBounded_ok, exists_and_right, and_true]

/-- `k` labels after the first: the first name that does not stand in front of one ends them. -/
def MplsMore : List String → ℕ → List String → Prop
  | [], k, _ => k = 0
  | name :: names, k, ts => (¬ At ts 0 (Is name) ∧ k = 0) ∨
    ∃ j, k = j + 1 ∧ Starts (Is name :: mplsPattern) ts ∧ MplsMore names j (ts.drop 4)

/-- The tokens of `encap mpls` up to the first label. -/
def mplsHead : Pattern String :=
  [Is "encap", Is "mpls", fun t => t = "unicast" ∨ t = "multicast"] ++ (etherPattern ++
    (Is "label0" :: mplsPattern))

/-- A whole `encap mpls`. -/
def MplsWhole (n : ℕ) (ts : List String) : Prop :=
  Starts mplsHead ts ∧ ∃ k, MplsMore ["label1", "label2", "label3"] k (ts.drop 9) ∧ 9 + 4 * k = n

/-- There are no more further labels than names for them. -/
theorem MplsMore.le_length {names ts : List String} {k : ℕ} (h : MplsMore names k ts) :
    k ≤ names.length := by
  induction names generalizing k ts with
  | nil => exact Nat.le_of_eq h
  | cons name names ih =>
    rcases h with ⟨-, rfl⟩ | ⟨j, rfl, -, h⟩
    · exact Nat.zero_le _
    · exact Nat.succ_le_succ (ih h)

/-- The labels are read up to the first name that is not there. -/
theorem parseMplsMore_ok {names : List String} {k : ℕ} :
    (∃ more, parseMplsMore names tokens = .ok more ∧ more.length = k) ↔
      MplsMore names k tokens := by
  induction names generalizing tokens k with
  | nil => simp [parseMplsMore, MplsMore, eq_comm]
  | cons name names ih =>
    have hhead : tokens.head? = some name ↔ At tokens 0 (Is name) := by
      rw [at_is, List.head?_eq_getElem?]
    rw [parseMplsMore, MplsMore]
    by_cases hname : At tokens 0 (Is name)
    · rw [if_neg (not_not.mpr (hhead.mpr hname))]
      have hpattern : Starts (Is name :: mplsPattern) tokens ↔
          ∃ label, readMplsLabel tokens 1 = .ok label := by
        rw [readMplsLabel_ok, mplsPattern, starts_cons, starts_cons, starts_cons, starts_cons]
        simp only [starts_nil, at_drop, List.drop_drop, Nat.reduceAdd, hname, true_and, and_true]
      simp only [bind_eq_ok, ensure_eq_ok, decide_eq_true_eq, Except.ok.injEq, hname, not_true,
        false_and, false_or, hpattern, ← ih]
      constructor
      · rintro ⟨-, ⟨-, -, label, hlabel, more, hmore, rfl⟩, rfl⟩
        exact ⟨more.length, rfl, ⟨label, hlabel⟩, more, hmore, rfl⟩
      · rintro ⟨-, rfl, ⟨label, hlabel⟩, more, hmore, rfl⟩
        have hlen : 4 ≤ tokens.length := (readMplsLabel_ok.mp ⟨label, hlabel⟩).2.2.lt
        exact ⟨_, ⟨(), hlen, label, hlabel, more, hmore, rfl⟩, rfl⟩
    · rw [if_pos (fun h => hname (hhead.mp h))]
      simp [starts_cons, hname, eq_comm]

/-- What is taken with the further labels. -/
theorem takes_mplsMore {E : ∀ more : List MplsHdr, more.length ≤ 3 → EncapParams} {c : ℕ} :
    (∃ more, parseMplsMore ["label1", "label2", "label3"] tokens = .ok more ∧
      Takes n (if h : more.length ≤ 3 then .ok (E more h, c + 4 * more.length)
        else .error .silent : Parse (EncapParams × ℕ))) ↔
      ∃ k, MplsMore ["label1", "label2", "label3"] k tokens ∧ c + 4 * k = n := by
  simp only [← parseMplsMore_ok]
  constructor
  · rintro ⟨more, hmore, h⟩
    split_ifs at h with hle
    · exact ⟨_, ⟨more, hmore, rfl⟩, takes_ok.mp h⟩
    · exact (takes_error h).elim
  · rintro ⟨-, ⟨more, hmore, rfl⟩, hn⟩
    have hle : more.length ≤ 3 := (parseMplsMore_ok.mp ⟨more, hmore, rfl⟩).le_length
    refine ⟨more, hmore, ?_⟩
    rw [dif_pos hle]
    exact takes_ok.mpr hn

/-- What `encap mpls` takes. -/
theorem takes_parseEncapMpls (hencap : At tokens 0 (Is "encap")) (hmpls : At tokens 1 (Is "mpls")) :
    Takes n (parseEncapMpls (tokens.drop 1)) ↔ MplsWhole n tokens := by
  simp only [parseEncapMpls, takes_bind, takes_ite, arg_eq_ok, ensure_eq_ok, expect_ok,
    exists_and_right, exists_const, decide_eq_true_eq, readEther_ok, readMplsLabel_ok, returns_ok,
    reduceCtorEq, takes_mplsMore, MplsWhole, mplsHead, etherPattern, mplsPattern, starts_append,
    starts_cons, starts_nil, at_drop, List.drop_drop, List.getElem?_drop, Nat.reduceAdd,
    List.length_cons, List.length_nil, List.length_drop, hencap, hmpls, true_and, false_and,
    and_false, or_false]
  grind [→ At.lt, At]

/-- A tunnel has a vlan exactly where the word stands. -/
theorem takes_parseVxlanVlan : Takes n (parseVxlanVlan tokens) ↔
    (n = 4 ∧ Starts (Is "vlan" :: vlanPattern) tokens) ∨
      (n = 0 ∧ 0 < tokens.length ∧ ¬ At tokens 0 (Is "vlan")) := by
  simp only [parseVxlanVlan, takes_bind, takes_ite, takes_ok, arg_eq_ok, ensure_eq_ok,
    exists_and_right, exists_const, decide_eq_true_eq, readVlan_ok, vlanPattern, starts_cons,
    starts_nil, at_drop, List.drop_drop, Nat.reduceAdd]
  grind [→ At.lt, At, Is]

/-- What the addresses of a tunnel take. -/
theorem takes_parseVxlanIp :
    Takes n (parseVxlanIp inet tokens) ↔ StartsAny (vxlanIpPatterns inet) n tokens := by
  simp only [parseVxlanIp, takes_bind, takes_ite, takes_ok, takes_error, arg_eq_ok, ensure_eq_ok,
    orSilent_eq_ok, exists_and_right, exists_const, decide_eq_true_eq, readSilent_ok,
    readSilent_le_ok, exists_readBy, vxlanIpPatterns, StartsAny, starts_cons, starts_nil, at_drop,
    List.drop_drop, Nat.reduceAdd, List.length_cons, List.length_nil]
  simp only [at_is]
  grind [→ At.lt]

/-- The addresses of a tunnel do not start with a vlan. -/
theorem vxlanIp_head (h : StartsAny (vxlanIpPatterns inet) n tokens) :
    0 < tokens.length ∧ ¬ At tokens 0 (Is "vlan") := by
  simp only [vxlanIpPatterns, StartsAny, starts_cons, at_is, or_false] at h
  rw [at_is]
  rcases h with ⟨-, hword, -⟩ | ⟨-, hword, -⟩ <;>
    exact ⟨(List.getElem?_eq_some_iff.mp hword).1, by simp [hword]⟩

/-- The end of a tunnel, with the comparisons of the code. -/
theorem starts_vxlanTail : Starts vxlanTail tokens ↔
    3 ≤ tokens.length ∧ At tokens 0 (Is "udp") ∧ At tokens 1 (IsUint 16) ∧ At tokens 2 (IsUint 16) ∧
      2 ≤ tokens.length - 3 ∧ At tokens 3 (Is "vxlan") ∧ At tokens 4 (IsBounded 24) := by
  simp only [vxlanTail, starts_cons, starts_nil, at_drop, List.drop_drop, Nat.reduceAdd, and_true]
  grind [→ At.lt]

/-- What `encap vxlan` takes. -/
theorem takes_parseEncapVxlan (hencap : At tokens 0 (Is "encap"))
    (hvxlan : At tokens 1 (Is "vxlan")) :
    Takes n (parseEncapVxlan inet (tokens.drop 1)) ↔ VxlanWhole inet n tokens := by
  have hhead : Starts vxlanHead tokens ↔ 3 ≤ tokens.length - 2 ∧ At tokens 2 (Is "ether") ∧
      At tokens 3 (ReadBy parseMacAddr) ∧ At tokens 4 (ReadBy parseMacAddr) := by
    simp only [vxlanHead, etherPattern, List.cons_append, List.nil_append, starts_cons,
      starts_nil, at_drop, List.drop_drop, Nat.reduceAdd, hencap, hvxlan, true_and, and_true]
    grind [→ At.lt]
  simp only [parseEncapVxlan, takes_bind, takes_ok, ensure_eq_ok, expect_ok, Prod.exists,
    exists_and_right, exists_const, decide_eq_true_eq, readEther_ok, readSilent_ok,
    readBounded_ok, exists_takes, takes_parseVxlanVlan, takes_parseVxlanIp, at_drop,
    List.drop_drop, Nat.reduceAdd, List.length_drop, VxlanWhole, hhead, starts_vxlanTail]
  constructor
  · rintro ⟨hlen, hether, ⟨hda, hsa⟩, k, hk, j, hip, hlen', hudp, hsp, hdp, -, hname, hvni, hn⟩
    refine ⟨⟨hlen, hether, hda, hsa⟩, k, ?_, j, hip, ⟨hlen', hudp, hsp, hdp, ?_, hname, hvni⟩, ?_⟩
    · rcases hk with ⟨rfl, hvlan⟩ | ⟨rfl, -⟩
      · exact .inr (.inl ⟨rfl, hvlan⟩)
      · exact .inl ⟨rfl, trivial⟩
    · have hlt := hvni.lt
      omega
    · omega
  · rintro ⟨⟨hlen, hether, hda, hsa⟩, k, hk, j, hip, ⟨hlen', hudp, hsp, hdp, -, hname, hvni⟩, hn⟩
    refine ⟨hlen, hether, ⟨hda, hsa⟩, k, ?_, j, hip, hlen', hudp, hsp, hdp, ?_, hname, hvni, ?_⟩
    · rcases hk with ⟨rfl, -⟩ | ⟨rfl, hvlan⟩ | ⟨⟨⟩⟩
      · obtain ⟨hpos, hvlan⟩ := vxlanIp_head hip
        rw [List.length_drop] at hpos
        exact .inr ⟨rfl, hpos, fun h => hvlan (at_drop.mpr h)⟩
      · exact .inl ⟨rfl, hvlan⟩
    · have hlt := hvni.lt
      omega
    · omega

variable (inet) in
/-- A whole `encap`. -/
def EncapWhole (n : ℕ) (ts : List String) : Prop :=
  StartsAny encapPatterns n ts ∨ MplsWhole n ts ∨ VxlanWhole inet n ts

/-- A whole label stack starts with its words. -/
theorem MplsWhole.head (h : MplsWhole n tokens) :
    At tokens 0 (Is "encap") ∧ At tokens 1 (Is "mpls") :=
  ⟨starts_iff.mp h.1 0 _ rfl, starts_iff.mp h.1 1 _ rfl⟩

/-- A whole tunnel starts with its words. -/
theorem VxlanWhole.head (h : VxlanWhole inet n tokens) :
    At tokens 0 (Is "encap") ∧ At tokens 1 (Is "vxlan") :=
  ⟨starts_iff.mp h.1 0 _ rfl, starts_iff.mp h.1 1 _ rfl⟩

/-- A whole encapsulation starts with its word and a kind. -/
theorem EncapWhole.head (h : EncapWhole inet n tokens) :
    At tokens 0 (Is "encap") ∧ 1 < tokens.length := by
  rcases h with h | h | h
  · have hencap : At tokens 0 (Is "encap") := h.at (by simp [encapPatterns])
    simp only [encapPatterns, StartsAny, List.cons_append, starts_cons, at_drop] at h
    rcases h with ⟨-, -, h, -⟩ | ⟨-, -, h, -⟩ | ⟨-, -, h, -⟩ | ⟨-, -, h, -⟩ | ⟨-, -, h, -⟩ | ⟨⟨⟩⟩ <;>
      exact ⟨hencap, h.lt⟩
  · exact ⟨h.head.1, h.head.2.lt⟩
  · exact ⟨h.head.1, h.head.2.lt⟩

/-- The further labels are four tokens each. -/
theorem MplsMore.length_le {names : List String} {k : ℕ} (h : MplsMore names k tokens) :
    4 * k ≤ tokens.length := by
  induction names generalizing k tokens with
  | nil =>
    obtain rfl : k = 0 := h
    exact Nat.zero_le _
  | cons name names ih =>
    rcases h with ⟨-, rfl⟩ | ⟨j, rfl, hlabel, h⟩
    · exact Nat.zero_le _
    · have hle : 4 ≤ tokens.length := hlabel.length_le
      have hrest := ih h
      rw [List.length_drop] at hrest
      omega

/-- A whole encapsulation is no longer than its tokens. -/
theorem EncapWhole.le_length (h : EncapWhole inet n tokens) : n ≤ tokens.length := by
  rcases h with h | ⟨hhead, k, hmore, rfl⟩ | ⟨-, k, -, j, -, htail, rfl⟩
  · exact h.le_length
  · have hle : 9 ≤ tokens.length := hhead.length_le
    have hrest := hmore.length_le
    rw [List.length_drop] at hrest
    omega
  · have hle : 5 + k + j + 5 ≤ tokens.length := htail.le_of_drop (Nat.succ_pos _)
    omega

/-- **What `parse_table_action_encap` takes**. -/
theorem takes_parseTableActionEncap :
    Takes n (parseTableActionEncap inet tokens) ↔ EncapWhole inet n tokens := by
  by_cases hhead : At tokens 0 (Is "encap") ∧ 1 < tokens.length
  · obtain ⟨hencap, hlt⟩ := hhead
    obtain ⟨kind, hkind⟩ : ∃ kind, tokens[1]? = some kind := ⟨_, List.getElem?_eq_getElem hlt⟩
    have hmpls : kind = "mpls" →
        (Takes n (parseEncapMpls (tokens.drop 1)) ↔ MplsWhole n tokens) :=
      fun h => takes_parseEncapMpls hencap (at_is.mpr (h ▸ hkind))
    have hvxlan : kind = "vxlan" →
        (Takes n (parseEncapVxlan inet (tokens.drop 1)) ↔ VxlanWhole inet n tokens) :=
      fun h => takes_parseEncapVxlan hencap (at_is.mpr (h ▸ hkind))
    have hmpls' : MplsWhole n tokens → kind = "mpls" :=
      fun h => Option.some.inj (hkind.symm.trans (at_is.mp h.head.2))
    have hvxlan' : VxlanWhole inet n tokens → kind = "vxlan" :=
      fun h => Option.some.inj (hkind.symm.trans (at_is.mp h.head.2))
    simp only [parseTableActionEncap, takes_bind, takes_ite, takes_ok, takes_error,
      ensure_eq_ok, expect_ok, List.head?_drop, hkind, hencap, exists_and_right, exists_const,
      decide_eq_true_eq, readEther_ok, readVlan_ok, readSilent_ok, at_drop, List.length_drop,
      Nat.reduceAdd, true_and, EncapWhole, encapPatterns, etherPattern, vlanPattern, StartsAny,
      List.cons_append, List.nil_append, starts_cons, starts_nil, List.drop_drop,
      List.length_cons, List.length_nil]
    simp only [at_is, hkind, Option.some.injEq]
    -- one kind of encapsulation after the other
    obtain rfl | rfl | rfl | rfl | rfl | rfl | rfl | hother : kind = "ether" ∨ kind = "vlan" ∨
        kind = "qinq" ∨ kind = "qinq_pppoe" ∨ kind = "pppoe" ∨ kind = "mpls" ∨ kind = "vxlan" ∨
        kind ∉ ["ether", "vlan", "qinq", "qinq_pppoe", "pppoe", "mpls", "vxlan"] := by
      simp only [List.mem_cons, List.not_mem_nil, or_false]
      tauto
    iterate 7
      · simp only [String.reduceEq, true_and, false_and, not_true, not_false_iff, or_false,
          false_or, and_false, and_true]
        grind [→ At.lt]
    · simp only [List.mem_cons, List.not_mem_nil, or_false, not_or] at hother
      grind
  · refine iff_of_false (fun h => hhead ?_) fun h => hhead h.head
    simp only [parseTableActionEncap, takes_bind, ensure_eq_ok, expect_ok, exists_const,
      List.head?_drop] at h
    obtain ⟨-, hencap, h⟩ := h
    cases hkind : tokens[1]? with
    | none =>
      rw [hkind] at h
      exact (takes_error h).elim
    | some kind => exact ⟨hencap, (List.getElem?_eq_some_iff.mp hkind).1⟩

/-! ### `sym_crypto` -/

section SymCrypto

variable (algos : CryptoAlgos) (maxKeyLen : ℕ)

/-- The tokens of `sym_crypto` up to the kind of its transform. -/
def cryptoHead (kind : String) : Pattern String :=
  [Is "sym_crypto", fun _ => True, Is "type", Is kind]

/-- The tokens of a cipher after the kind. -/
def cipherPattern : Pattern String :=
  [Is "cipher_algo", ReadBy algos.cipher, Is "cipher_key", ReadBy (keyBytes maxKeyLen),
    Is "cipher_iv", ReadBy hexBytes]

/-- The tokens of an authentication behind those of its cipher. -/
def authPattern : Pattern String :=
  [Is "auth_algo", ReadBy algos.auth, Is "auth_key", ReadBy (keyBytes maxKeyLen),
    Is "digest_size", IsUint 16]

/-- The tokens of an authenticated cipher after the kind. -/
def aeadPattern : Pattern String :=
  [Is "aead_algo", ReadBy algos.aead, Is "aead_key", ReadBy (keyBytes maxKeyLen), Is "aead_iv",
    ReadBy hexBytes, Is "aead_aad", ReadBy hexBytes, Is "digest_size", IsUint 16]

/-- A cipher with an authentication: its key may fill what the other key leaves. -/
def CipherAuthStarts (ts : List String) : Prop :=
  ∃ key, At ts 9 (fun t => keyBytes maxKeyLen t = some key) ∧
    Starts (cipherPattern algos (maxKeyLen - key.length) ++ authPattern algos maxKeyLen) ts

variable {algos maxKeyLen} {encrypt : Bool}

/-- What `parse_table_action_cipher` takes. -/
theorem takes_parseTableActionCipher :
    Takes n (parseTableActionCipher algos maxKeyLen encrypt tokens) ↔
      7 = n ∧ Starts (cipherPattern algos maxKeyLen) (tokens.drop 1) := by
  simp only [parseTableActionCipher, takes_bind, takes_ok, ensure_eq_ok, expect_ok, readOption_ok,
    exists_and_right, exists_const, decide_eq_true_eq, cipherPattern, starts_cons, starts_nil,
    at_drop, List.drop_drop, Nat.reduceAdd]
  grind [→ At.lt]

/-- What `parse_table_action_cipher_auth` takes. -/
theorem takes_parseTableActionCipherAuth :
    Takes n (parseTableActionCipherAuth algos maxKeyLen encrypt tokens) ↔
      13 = n ∧ CipherAuthStarts algos maxKeyLen (tokens.drop 1) := by
  simp only [parseTableActionCipherAuth, takes_bind, takes_ok, ensure_eq_ok, expect_ok,
    readOption_eq_ok, exists_at_read, readSilent_ok, Prod.exists, exists_takes,
    takes_parseTableActionCipher, exists_and_left, exists_and_right, exists_const,
    decide_eq_true_eq, CipherAuthStarts, cipherPattern, authPattern, List.cons_append,
    List.nil_append, starts_cons, starts_nil, at_drop, at_take, List.drop_drop, Nat.reduceAdd,
    Nat.reduceLT, true_and, and_true]
  constructor
  · rintro ⟨-, hauth, hname, hdigest, halgo, key, hkey, -, hsize, k, ⟨rfl, hcipher⟩, rfl⟩
    obtain ⟨h1, h2, h3, h4, h5, h6⟩ := hcipher
    exact ⟨rfl, key, hkey, h1, h2, h3, h4, h5, h6, hauth, halgo, hname,
      exists_at_read.mp ⟨key, hkey⟩, hdigest, hsize⟩
  · rintro ⟨rfl, key, hkey, h1, h2, h3, h4, h5, h6, hauth, halgo, hname, -, hdigest, hsize⟩
    exact ⟨hsize.lt, hauth, hname, hdigest, halgo, key, hkey, hdigest, hsize, 7,
      ⟨rfl, h1, h2, h3, h4, h5, h6⟩, rfl⟩

/-- What `parse_table_action_aead` takes. -/
theorem takes_parseTableActionAead :
    Takes n (parseTableActionAead algos maxKeyLen encrypt tokens) ↔
      11 = n ∧ Starts (aeadPattern algos maxKeyLen) (tokens.drop 1) := by
  simp only [parseTableActionAead, takes_bind, takes_ok, ensure_eq_ok, expect_ok, readOption_ok,
    readSilent_ok, exists_and_right, exists_const, decide_eq_true_eq, aeadPattern, starts_cons,
    starts_nil, at_drop, List.drop_drop, Nat.reduceAdd]
  grind [→ At.lt]

variable (algos) in
/-- The array begins with the tokens of `sym_crypto` up to the end of the transform. -/
def CryptoStarts (n : ℕ) (ts : List String) : Prop :=
  (10 = n ∧ Starts (cryptoHead "cipher") ts ∧
      Starts (cipherPattern algos symCryptoMaxKeySize) (ts.drop 4)) ∨
    (16 = n ∧ Starts (cryptoHead "cipher_auth") ts ∧
      CipherAuthStarts algos symCryptoMaxKeySize (ts.drop 4)) ∨
    (14 = n ∧ Starts (cryptoHead "aead") ts ∧
      Starts (aeadPattern algos symCryptoMaxKeySize) (ts.drop 4))

/-- The head of a cryptography, token by token. -/
theorem starts_cryptoHead {kind : String} : Starts (cryptoHead kind) tokens ↔
    At tokens 0 (Is "sym_crypto") ∧ At tokens 2 (Is "type") ∧ At tokens 3 (Is kind) := by
  simp only [cryptoHead, starts_cons, starts_nil, at_drop, at_true, List.drop_drop, Nat.reduceAdd,
    and_true]
  grind [→ At.lt]

/-- What `sym_crypto` names as its kind is there. -/
theorem takes_parseSymCryptoXform {kind : String} (hname : At tokens 0 (Is "sym_crypto"))
    (htype : At tokens 2 (Is "type")) (hkind : tokens[3]? = some kind) :
    Takes n (parseSymCryptoXform algos encrypt kind (tokens.drop 3)) ↔
      CryptoStarts algos (n + 3) tokens := by
  simp only [parseSymCryptoXform, takes_ite, takes_bind, takes_ok, takes_error, Prod.exists,
    exists_takes, takes_parseTableActionCipher, takes_parseTableActionCipherAuth,
    takes_parseTableActionAead, List.drop_drop, Nat.reduceAdd, CryptoStarts, starts_cryptoHead,
    at_is, hkind]
  rw [at_is] at hname htype
  grind

/-- A cryptography starts with its words and a kind. -/
theorem CryptoStarts.head (h : CryptoStarts algos n tokens) :
    At tokens 0 (Is "sym_crypto") ∧ At tokens 2 (Is "type") ∧ 3 < tokens.length := by
  rcases h with ⟨-, h, -⟩ | ⟨-, h, -⟩ | ⟨-, h, -⟩ <;>
    exact (starts_cryptoHead.mp h).imp_right (And.imp_right At.lt)

/-- The last token of an authenticated transform is its digest size. -/
theorem CryptoStarts.last (h : CryptoStarts algos n tokens) (hn : 12 ≤ n) :
    At tokens (n - 1) (IsUint 16) := by
  rcases h with ⟨rfl, -⟩ | ⟨rfl, -, key, -, h⟩ | ⟨rfl, -, h⟩
  · omega
  · exact at_drop.mp (starts_iff.mp h 11 _ rfl)
  · exact at_drop.mp (starts_iff.mp h 9 _ rfl)

/-- A cryptography is no longer than its tokens. -/
theorem CryptoStarts.le_length (h : CryptoStarts algos n tokens) : n ≤ tokens.length := by
  rcases h with ⟨rfl, -, h⟩ | ⟨rfl, -, key, -, h⟩ | ⟨rfl, -, h⟩
  · exact h.le_of_drop (Nat.succ_pos _)
  · exact h.le_of_drop (Nat.succ_pos _)
  · exact h.le_of_drop (Nat.succ_pos _)

end SymCrypto

/-! ### The row of parts -/

/-- The parts in front of `encap`. -/
def partsToTm : List (Phrase String) :=
  [⟨"fwd", StartsAny fwdPatterns⟩, ⟨"balance", StartsAny [balancePattern]⟩,
    ⟨"meter", MeterWhole⟩, ⟨"tm", StartsAny [tmPattern]⟩]

variable (inet) in
/-- The parts in front of `sym_crypto`, from `encap` on. -/
def partsToTime : List (Phrase String) :=
  [⟨"encap", EncapWhole inet⟩, ⟨"nat", StartsAny (natPatterns inet)⟩,
    ⟨"ttl", StartsAny ttlPatterns⟩, ⟨"stats", StartsAny [[Is "stats"]]⟩,
    ⟨"time", StartsAny [[Is "time"]]⟩]

/-- What the block of a part leaves. -/
theorem actionPart_after {α : Type} {f : Phrase String} {part : List String → Parse (α × ℕ)}
    (h : ∀ {n}, Takes n (part tokens) ↔ f.Whole n tokens) {left : List String} :
    (∃ o, actionPart f.name part tokens = .ok (o, left)) ↔ f.After tokens left := by
  unfold actionPart Phrase.After
  by_cases hname : tokens.head? = some f.name
  · simp only [hname, if_true, ne_eq, not_true, false_and, false_or, true_and, ← h]
    cases hpart : part tokens with
    | error e =>
      refine iff_of_false ?_ ?_
      · rintro ⟨o, ho⟩
        cases e <;> cases ho
      · rintro ⟨n, ⟨a, ha⟩, -⟩
        cases ha
    | ok x =>
      constructor
      · rintro ⟨o, ho⟩
        exact ⟨x.2, ⟨x.1, rfl⟩, (congrArg Prod.snd (Except.ok.inj ho)).symm⟩
      · rintro ⟨n, ⟨a, ha⟩, rfl⟩
        obtain rfl := Except.ok.inj ha
        exact ⟨some a, rfl⟩
  · simp [hname, eq_comm]

end Addresses

end Rids.Pipeline
