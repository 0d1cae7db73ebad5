import Rids.Pipeline.RuleText

/-!
# The words of a rule

The line of a rule is a list of words with blanks, `ruleWords`: what the printer writes without a
blank in between is one word. Every line fits into the buffer of the reader and has few enough
tokens, whatever the rule is.

* `Fits` — a list of words with bounds on its text and its length.
* `ruleShow_eq`, `fits_ruleWords` — the line of a rule.
* `ruleList_tableRuleShow` — the file of a table loads exactly when each of its lines does.
-/

namespace Rids.Pipeline

open Rids.Lib.ByteMem

/-! ### Words that fit -/

/-- A word of at most `n` characters. -/
structure FitsWord (n : ℕ) (w : String) : Prop where
  isWord : IsWord w
  length_le : w.length ≤ n

/-- At most `k` words, with `n` characters of text. -/
structure Fits (n k : ℕ) (ws : List String) : Prop where
  allWords : AllWords ws
  textLength_le : textLength ws ≤ n
  length_le : ws.length ≤ k

/-- Two words written together. -/
theorem FitsWord.append {n n' : ℕ} {w w' : String} (h : FitsWord n w) (h' : FitsWord n' w') :
    FitsWord (n + n') (w ++ w') where
  isWord := h.isWord.append h'.isWord
  length_le := by
    rw [String.length_append]
    exact Nat.add_le_add h.length_le h'.length_le

/-! Words that are written out are checked by evaluation. -/

instance (n : ℕ) (w : String) : Decidable (FitsWord n w) :=
  decidable_of_iff (IsWord w ∧ w.length ≤ n) ⟨fun h => ⟨h.1, h.2⟩, fun h => ⟨h.1, h.2⟩⟩

instance (n k : ℕ) (ws : List String) : Decidable (Fits n k ws) :=
  decidable_of_iff (AllWords ws ∧ textLength ws ≤ n ∧ ws.length ≤ k)
    ⟨fun h => ⟨h.1, h.2.1, h.2.2⟩, fun h => ⟨h.1, h.2, h.3⟩⟩

/-- No words. -/
theorem Fits.nil : Fits 0 0 [] := ⟨allWords_nil, le_rfl, le_rfl⟩

/-- One word and the blank behind it. -/
theorem Fits.singleton {n : ℕ} {w : String} (h : FitsWord n w) : Fits (n + 1) 1 [w] where
  allWords := allWords_cons.mpr ⟨h.isWord, allWords_nil⟩
  textLength_le := by
    rw [textLength_cons]
    exact Nat.succ_le_succ h.length_le
  length_le := le_rfl

/-- Two groups of words. -/
theorem Fits.append {n k n' k' : ℕ} {ws ws' : List String} (h : Fits n k ws)
    (h' : Fits n' k' ws') : Fits (n + n') (k + k') (ws ++ ws') where
  allWords := allWords_append.mpr ⟨h.allWords, h'.allWords⟩
  textLength_le := by
    rw [textLength_append]
    exact Nat.add_le_add h.textLength_le h'.textLength_le
  length_le := by
    rw [List.length_append]
    exact Nat.add_le_add h.length_le h'.length_le

/-- A word in front of others. -/
theorem Fits.cons {n n' k : ℕ} {w : String} {ws : List String} (h : FitsWord n w)
    (hws : Fits n' k ws) : Fits (n + 1 + n') (1 + k) (w :: ws) :=
  (Fits.singleton h).append hws

/-- A bound may be larger. -/
theorem Fits.mono {n k n' k' : ℕ} {ws : List String} (h : Fits n k ws) (hn : n ≤ n')
    (hk : k ≤ k') : Fits n' k' ws :=
  ⟨h.allWords, h.textLength_le.trans hn, h.length_le.trans hk⟩

/-- A part that may be absent. -/
theorem Fits.partWords {α : Type} {f : α → List String} {n k : ℕ} (h : ∀ a, Fits n k (f a))
    (o : Option α) : Fits n k (partWords f o) := by
  cases o with
  | none => exact Fits.nil.mono (Nat.zero_le _) (Nat.zero_le _)
  | some a => exact h a

/-- One of two groups of words. -/
theorem Fits.ite {p : Prop} [Decidable p] {n k : ℕ} {ws ws' : List String} (h : Fits n k ws)
    (h' : Fits n k ws') : Fits n k (if p then ws else ws') := by
  split_ifs
  · exact h
  · exact h'

/-- A word for each element of a list. -/
theorem Fits.map {α : Type} {f : α → String} {n : ℕ} (h : ∀ x, FitsWord n (f x)) (xs : List α) :
    Fits (xs.length * (n + 1)) xs.length (xs.map f) := by
  induction xs with
  | nil => exact Fits.nil.mono (Nat.zero_le _) le_rfl
  | cons x xs ih =>
    have hsum : n + 1 + xs.length * (n + 1) = (xs.length + 1) * (n + 1) :=
      (Nat.add_comm _ _).trans (Nat.succ_mul _ _).symm
    exact (Fits.cons (h x) ih).mono hsum.le (Nat.add_comm 1 _).le

/-! ### Numbers and addresses -/

/-- A number of `w` bits. -/
theorem fitsWord_showUint {n w : ℕ} (h : n < 2 ^ w) : FitsWord (w / 3 + 1) (showUint n) where
  isWord := isWord_showUint n
  length_le := by
    apply length_showUint_le (Nat.succ_pos _)
    calc n < 2 ^ w := h
      _ ≤ 2 ^ (3 * (w / 3 + 1)) := Nat.pow_le_pow_right (by decide) (by omega)
      _ = 8 ^ (w / 3 + 1) := Nat.pow_mul 2 3 _
      _ ≤ 10 ^ (w / 3 + 1) := Nat.pow_le_pow_left (by decide) _

/-- A number of `w` bits has at most `w / 3 + 1` digits. -/
theorem fitsWord_toNat {w : ℕ} (v : BitVec w) : FitsWord (w / 3 + 1) (showUint v.toNat) :=
  fitsWord_showUint v.isLt

/-- The value of a field, bounded by its bits. -/
theorem get_lt_two_pow (m : Mem) (f : Field) : m.get f < 2 ^ (8 * f.len) := by
  rw [Nat.pow_mul]
  exact m.get_lt f

/-- The decimal text of a field. -/
theorem fitsWord_get (m : Mem) (f : Field) : FitsWord (8 * f.len / 3 + 1) (showUint (m.get f)) :=
  fitsWord_showUint (get_lt_two_pow m f)

/-- A text of word characters is a word. -/
theorem fitsWord_ofList {n : ℕ} {cs : List Char} (h : ∀ c ∈ cs, isWordChar c = true)
    (hlen : cs.length ≤ n) : FitsWord n (.ofList cs) where
  isWord := by
    intro c hc
    rw [String.toList_ofList] at hc
    exact h c hc
  length_le := by
    rw [String.length_ofList]
    exact hlen

/-- Bytes with colons between them. -/
theorem fitsWord_intercalate (bs : List (BitVec 8)) :
    FitsWord (3 * bs.length) (.ofList (List.intercalate [':'] (bs.map showByte))) := by
  have hbytes : (∀ c ∈ List.intercalate [':'] (bs.map showByte), isWordChar c = true) ∧
      (List.intercalate [':'] (bs.map showByte)).length ≤ 3 * bs.length := by
    induction bs with
    | nil => exact ⟨fun c hc => absurd hc List.not_mem_nil, le_rfl⟩
    | cons b bs ih =>
      cases bs with
      | nil =>
        rw [List.map_singleton, List.intercalate_singleton]
        exact ⟨isWordChar_of_mem_showByte b, Nat.le_succ 2⟩
      | cons b' bs =>
        rw [List.map_cons, List.map_cons, List.intercalate_cons_cons, ← List.map_cons]
        constructor
        · intro c hc
          rcases List.mem_append.mp hc with hc | hc
          · rcases List.mem_append.mp hc with hc | hc
            · exact isWordChar_of_mem_showByte b c hc
            · rw [List.mem_singleton.mp hc]
              rfl
          · exact ih.1 c hc
        · have hle := ih.2
          rw [List.length_append, List.length_append, List.length_cons (a := b)]
          change 2 + 1 + _ ≤ _
          omega
  exact fitsWord_ofList hbytes.1 hbytes.2

/-- The text of an Ethernet address. -/
theorem fitsWord_etherAddrShow (addr : EtherAddr) : FitsWord 18 (etherAddrShow addr) := by
  have h := fitsWord_intercalate addr.bytes
  rw [addr.length_bytes] at h
  exact h

/-- The text of an IPv4 address. -/
theorem fitsWord_ipv4AddrShow {addr : ℕ} (h : addr < 2 ^ 32) :
    FitsWord 15 (ipv4AddrShow addr) := by
  have hdot : FitsWord 1 "." := ⟨by decide, le_rfl⟩
  have hbyte (n : ℕ) : FitsWord 3 (showUint (n % 256)) :=
    fitsWord_showUint (Nat.mod_lt n (by decide : 0 < 2 ^ 8))
  have htop : FitsWord 3 (showUint (addr / 2 ^ 24)) :=
    fitsWord_showUint (Nat.div_lt_of_lt_mul h : addr / 2 ^ 24 < 2 ^ 8)
  exact (((((htop.append hdot).append (hbyte _)).append hdot).append (hbyte _)).append hdot).append
    (hbyte _)

/-- The text of an IPv6 address. -/
theorem fitsWord_ipv6AddrShow (addr : Mem) : FitsWord 40 (ipv6AddrShow addr) := by
  apply fitsWord_ofList
  · intro c hc
    obtain ⟨i, -, hc⟩ := List.mem_flatMap.mp hc
    rcases List.mem_append.mp hc with hc | hc
    · rcases List.mem_append.mp hc with hc | hc
      · exact isWordChar_of_mem_showByte _ c hc
      · exact isWordChar_of_mem_showByte _ c hc
    · rw [List.mem_singleton.mp hc]
      rfl
  · rw [List.length_flatMap]
    exact le_rfl

/-- A number of four bytes is an address. -/
theorem fitsWord_ipv4AddrShow_get (m : Mem) {f : Field} (hf : f.len = 4) :
    FitsWord 15 (ipv4AddrShow (m.get f)) := by
  have h := get_lt_two_pow m f
  rw [hf] at h
  exact fitsWord_ipv4AddrShow h

/-! ### The parts of an action -/

/-- The words of a forward action. -/
theorem fits_fwdWords (a : FwdAction) : Fits 22 3 (fwdWords a) := by
  have hport : Fits 9 2 ["fwd", "port"] := by decide
  have htable : Fits 10 2 ["fwd", "table"] := by decide
  cases a with
  | drop => exact (by decide : Fits 9 2 ["fwd", "drop"]).mono (by decide) (by decide)
  | port id => exact (hport.append (.singleton (fitsWord_toNat id))).mono (by decide) le_rfl
  | portMeta => exact (by decide : Fits 9 2 ["fwd", "meta"]).mono (by decide) (by decide)
  | table id => exact htable.append (.singleton (fitsWord_toNat id))

/-- The words of a load balance. -/
theorem fits_lbWords (lb : LbParams) : Fits 104 9 (lbWords lb) := by
  have hname : FitsWord 7 "balance" := by decide
  have hout := Fits.map (fun id => fitsWord_toNat id) lb.out
  rw [lb.length_out] at hout
  exact .cons hname hout

/-- The letter of a policer. -/
theorem fitsWord_policerActionString (p : Policer) : FitsWord 1 (policerActionString p) := by
  cases p <;> exact ⟨by decide, le_rfl⟩

/-- The words of a meter. -/
theorem fits_mtrWords (mtr : MtrParams) : Fits 172 41 (mtrWords mtr) := by
  have hname : FitsWord 3 "mtr" := by decide
  have htc (p : MtrTcParams) {i : ℕ} (hi : i < 2 ^ 2) :
      Fits 42 10 ["tc" ++ showUint i, "meter", showUint p.meterProfileId.toNat, "policer",
        "g", policerActionString p.green, "y", policerActionString p.yellow,
        "r", policerActionString p.red] := by
    have htc : FitsWord 2 "tc" := by decide
    have hmeter : FitsWord 5 "meter" := by decide
    have hpolicer : Fits 10 2 ["policer", "g"] := by decide
    have hy : FitsWord 1 "y" := by decide
    have hr : FitsWord 1 "r" := by decide
    exact .cons (htc.append (fitsWord_showUint hi)) (.cons hmeter
      (.cons (fitsWord_toNat p.meterProfileId) (hpolicer.append
        (.cons (fitsWord_policerActionString p.green) (.cons hy
          (.cons (fitsWord_policerActionString p.yellow) (.cons hr
            (.singleton (fitsWord_policerActionString p.red)))))))))
  cases mtr with
  | one a => exact (Fits.cons hname (htc a (by decide : 0 < 2 ^ 2))).mono (by decide) (by decide)
  | four a b c d =>
    exact (Fits.cons hname ((htc a (by decide : 0 < 2 ^ 2)).append
      ((htc b (by decide : 1 < 2 ^ 2)).append ((htc c (by decide : 2 < 2 ^ 2)).append
        (htc d (by decide : 3 < 2 ^ 2)))))).mono (by decide) (by decide)

/-- The words of a traffic manager. -/
theorem fits_tmWords (tm : TmParams) : Fits 40 5 (tmWords tm) := by
  have hname : Fits 11 2 ["tm", "subport"] := by decide
  have hpipe : FitsWord 4 "pipe" := by decide
  exact hname.append (.cons (fitsWord_toNat tm.subportId) (.cons hpipe
    (.singleton (fitsWord_toNat tm.pipeId))))

/-- The words of an Ethernet header. -/
theorem fits_etherWords2 (hdr : EtherHdr) : Fits 38 2 (etherWords2 hdr) :=
  .cons (fitsWord_etherAddrShow hdr.da) (.singleton (fitsWord_etherAddrShow hdr.sa))

/-- The words of a vlan tag. -/
theorem fits_vlanWords (vlan : VlanHdr) : Fits 23 6 (vlanWords vlan) := by
  have hpcp : FitsWord 3 "pcp" := by decide
  have hdei : FitsWord 3 "dei" := by decide
  have hvid : FitsWord 3 "vid" := by decide
  exact .cons hpcp (.cons (fitsWord_toNat vlan.pcp) (.cons hdei (.cons (fitsWord_toNat vlan.dei)
    (.cons hvid (.singleton (fitsWord_toNat vlan.vid))))))

/-- The words of a label stack. -/
theorem fits_mplsWords {ls : List MplsHdr} {i : ℕ} (h : i + ls.length ≤ 4) :
    Fits (ls.length * 22) (ls.length * 4) (mplsWords i ls) := by
  induction ls generalizing i with
  | nil => exact Fits.nil.mono (Nat.zero_le _) (Nat.zero_le _)
  | cons l ls ih =>
    rw [List.length_cons] at h
    have hi : i < 2 ^ 2 := by omega
    have hname : FitsWord 5 "label" := by decide
    have hlabel : Fits 22 4 ["label" ++ showUint i, showUint l.label.toNat, showUint l.tc.toNat,
        showUint l.ttl.toNat] :=
      .cons (hname.append (fitsWord_showUint hi)) (.cons (fitsWord_toNat l.label)
        (.cons (fitsWord_toNat l.tc) (.singleton (fitsWord_toNat l.ttl))))
    exact (hlabel.append (ih (by omega))).mono (by rw [List.length_cons]; omega)
      (by rw [List.length_cons]; omega)

/-- The words of a tunnel. -/
theorem fits_vxlanWords (ap : ActionProfile) (vlan : VlanHdr) (ip : Mem) (sp dp : BitVec 16)
    (vni : BitVec 24) : Fits 172 21 (vxlanWords ap vlan ip sp dp vni) := by
  have hname : FitsWord 4 "vlan" := by decide
  have hempty : FitsWord 0 "" := by decide
  have hipv4 : FitsWord 4 "ipv4" := by decide
  have hipv6 : FitsWord 4 "ipv6" := by decide
  have hudp : Fits 5 2 ["", "udp"] := by decide
  have hvxlan : FitsWord 5 "vxlan" := by decide
  have hvlan : Fits 29 8 (if ap.vxlanVlan then "vlan" :: vlanWords vlan ++ [""] else []) :=
    .ite ((Fits.cons hname (fits_vlanWords vlan)).append (.singleton hempty))
      (Fits.nil.mono (Nat.zero_le _) (Nat.zero_le _))
  have hfour : Fits 143 13 ["ipv4", ipv4AddrShow (ip.get VxlanIp.ipv4Sa),
      ipv4AddrShow (ip.get VxlanIp.ipv4Da), showUint (ip.get VxlanIp.ipv4Dscp),
      showUint (ip.get VxlanIp.ipv4Ttl)] :=
    (Fits.cons hipv4 (.cons (fitsWord_ipv4AddrShow_get ip rfl)
      (.cons (fitsWord_ipv4AddrShow_get ip rfl) (.cons (fitsWord_get ip VxlanIp.ipv4Dscp)
        (.singleton (fitsWord_get ip VxlanIp.ipv4Ttl)))))).mono (by decide) (by decide)
  have hsix : Fits 143 13 ["ipv6", ipv6AddrShow (ip.drop VxlanIp.ipv6Sa),
      ipv6AddrShow (ip.drop VxlanIp.ipv6Da), showUint (ip.get VxlanIp.ipv6FlowLabel),
      showUint (ip.get VxlanIp.ipv6Dscp), showUint (ip.get VxlanIp.ipv6HopLimit), "", "udp",
      showUint sp.toNat, showUint dp.toNat, "vxlan", showUint vni.toNat] :=
    (Fits.cons hipv6 (.cons (fitsWord_ipv6AddrShow _) (.cons (fitsWord_ipv6AddrShow _)
      (.cons (fitsWord_get ip VxlanIp.ipv6FlowLabel) (.cons (fitsWord_get ip VxlanIp.ipv6Dscp)
        (.cons (fitsWord_get ip VxlanIp.ipv6HopLimit) (hudp.append
          (.cons (fitsWord_toNat sp) (.cons (fitsWord_toNat dp) (.cons hvxlan
            (.singleton (fitsWord_toNat vni)))))))))))).mono (by decide) (by decide)
  exact hvlan.append (.ite hfour hsix)

/-- The words of an encapsulation. -/
theorem fits_encapWords (ap : ActionProfile) (e : EncapParams) :
    Fits 228 26 (encapWords ap e) := by
  cases e with
  | ether hdr =>
    have hname : Fits 12 2 ["encap", "ether"] := by decide
    exact (hname.append (fits_etherWords2 hdr)).mono (by decide) (by decide)
  | vlan hdr vlan =>
    have hname : Fits 11 2 ["encap", "vlan"] := by decide
    exact ((hname.append (fits_etherWords2 hdr)).append (fits_vlanWords vlan)).mono
      (by decide) (by decide)
  | qinq hdr svlan cvlan =>
    have hname : Fits 11 2 ["encap", "qinq"] := by decide
    exact (((hname.append (fits_etherWords2 hdr)).append (fits_vlanWords svlan)).append
      (fits_vlanWords cvlan)).mono (by decide) (by decide)
  | qinqPppoe hdr svlan cvlan sessionId =>
    exact (by decide : Fits 14 2 ["encap", "unknown"]).mono (by decide) (by decide)
  | mpls unicast hdr labels =>
    have hname : Fits 22 4 ["encap", "mpls", if unicast then "unicast" else "multicast", ""] := by
      cases unicast <;> decide
    have hlabels : Fits (labels.all.length * 22) (labels.all.length * 4)
        (mplsWords 0 labels.all) := by
      apply fits_mplsWords
      rw [MplsLabels.all, List.length_cons, Nat.zero_add]
      exact Nat.succ_le_succ labels.length_more
    have hle : labels.all.length ≤ 4 := Nat.succ_le_succ labels.length_more
    exact ((hname.append (fits_etherWords2 hdr)).append hlabels).mono (by omega) (by omega)
  | pppoe hdr sessionId =>
    have hname : Fits 12 2 ["encap", "pppoe"] := by decide
    exact ((hname.append (fits_etherWords2 hdr)).append
      (.singleton (fitsWord_toNat sessionId))).mono (by decide) (by decide)
  | vxlan hdr vlan ip sp dp vni =>
    have hname : Fits 18 3 ["encap", "vxlan", "ether"] := by decide
    exact (hname.append (fits_etherWords2 hdr)).append (fits_vxlanWords ap vlan ip sp dp vni)

/-- The words of an address translation. -/
theorem fits_natWords (nat : NatParams) : Fits 59 5 (natWords nat) := by
  cases nat with
  | ipv4 addr port =>
    have hname : Fits 10 3 ["nat", "ipv4", ""] := by decide
    exact (hname.append (.cons (fitsWord_ipv4AddrShow addr.isLt)
      (.singleton (fitsWord_toNat port)))).mono (by decide) (by decide)
  | ipv6 addr port =>
    have hname : Fits 10 3 ["nat", "ipv6", ""] := by decide
    exact (hname.append (.cons (fitsWord_ipv6AddrShow _)
      (.singleton (fitsWord_toNat port)))).mono (by decide) (by decide)

/-- The words of a time to live. -/
theorem fits_ttlWords (decrement : Bool) : Fits 9 2 (ttlWords decrement) := by
  cases decrement <;> decide

/-- The words of a tag. -/
theorem fits_tagWords (tag : BitVec 32) : Fits 16 2 (tagWords tag) := by
  have hname : FitsWord 3 "tag" := by decide
  exact .cons hname (.singleton (fitsWord_toNat tag))

/-- The words of a decapsulation. -/
theorem fits_decapWords (n : BitVec 16) : Fits 13 2 (decapWords n) := by
  have hname : FitsWord 5 "decap" := by decide
  exact .cons hname (.singleton (fitsWord_toNat n))

/-- A part that is one word. -/
theorem fits_flagWords {name : String} {n : ℕ} (h : FitsWord n name) (b : Bool) :
    Fits (n + 1) 1 (flagWords name b) :=
  .ite (.singleton h) (Fits.nil.mono (Nat.zero_le _) (Nat.zero_le _))

/-- The words of an action stay below 700 characters and 100 words. -/
theorem fits_actionWords {S : Type} (ap : ActionProfile) (a : TableRuleAction S) :
    Fits 700 100 (actionWords ap a) := by
  have hstats : FitsWord 5 "stats" := by decide
  have htime : FitsWord 4 "time" := by decide
  have hcrypto : FitsWord 10 "sym_crypto" := by decide
  exact ((Fits.partWords fits_fwdWords a.fwd).append ((Fits.partWords fits_lbWords a.lb).append
    ((Fits.partWords fits_mtrWords a.mtr).append ((Fits.partWords fits_tmWords a.tm).append
    ((Fits.partWords (fits_encapWords ap) a.encap).append
    ((Fits.partWords fits_natWords a.nat).append ((Fits.partWords fits_ttlWords a.ttl).append
    ((fits_flagWords hstats a.stats).append ((fits_flagWords htime a.time).append
    ((fits_flagWords hcrypto a.symCrypto.isSome).append
    ((Fits.partWords fits_tagWords a.tag).append
    (Fits.partWords fits_decapWords a.decap)))))))))))).mono (by decide) (by decide)

/-! ### The line of a rule -/

/-- The address of an acl rule as the printer writes it. -/
def aclAddrShow (m : Mem) (ipv4 : Field) (ipv6 : ℕ) : String :=
  if m.get Acl.ipVersion = 1 then ipv4AddrShow (m.get ipv4) else ipv6AddrShow (m.drop ipv6)

/-- Two addresses, their depths and the first port, with no blank in between. -/
def aclGlued (m : Mem) : String :=
  aclAddrShow m Acl.ipv4Sa Acl.ipv6Sa ++ showUint (m.get Acl.saDepth) ++
    aclAddrShow m Acl.ipv4Da Acl.ipv6Da ++ showUint (m.get Acl.daDepth) ++
    showUint (m.get Acl.sp0)

/-- An address and its depth, with no blank in between. -/
def lpmGlued (m : Mem) : String :=
  (if m.get Acl.ipVersion ≠ 0 then ipv4AddrShow (m.get Lpm.ipv4)
    else ipv6AddrShow (m.drop Lpm.ipv6)) ++ showUint (m.get Lpm.depth)

/-- The words of a line up to `action`, which a raw match has no blank in front of. -/
def matchWords (keySize : ℕ) (m : TableRuleMatch) : List String :=
  match m.matchType with
  | .acl =>
    ["acl", "priority", showUint (m.mem.get Acl.priority)] ++
      if m.mem.get Acl.ipVersion = 2 then ["rawaction"]
      else
        [if m.mem.get Acl.ipVersion ≠ 0 then "ipv4" else "ipv6", aclGlued m.mem,
          showUint (m.mem.get Acl.sp1), showUint (m.mem.get Acl.dp0),
          showUint (m.mem.get Acl.dp1), showUint (m.mem.get Acl.proto), "action"]
  | .array => ["array", showUint (m.mem.get ArrayKey.pos), "action"]
  | .hash => ["hash", "raw", .ofList ((m.mem.bytes keySize).flatMap showByte), "action"]
  | .lpm => ["lpm", if m.mem.get Lpm.ipVersion ≠ 0 then "ipv4" else "ipv6", lpmGlued m.mem,
      "action"]
  | .stub => ["unknown", "action"]

/-- The text of an address of an acl match. -/
theorem fitsWord_aclAddrShow (m : Mem) {ipv4 : Field} (hf : ipv4.len = 4) (ipv6 : ℕ) :
    FitsWord 40 (aclAddrShow m ipv4 ipv6) := by
  unfold aclAddrShow
  split_ifs
  · have h := fitsWord_ipv4AddrShow_get m hf
    exact ⟨h.isWord, h.length_le.trans (by decide)⟩
  · exact fitsWord_ipv6AddrShow _

/-- The words of an acl match that are written without a blank. -/
theorem fitsWord_aclGlued (m : Mem) : FitsWord 108 (aclGlued m) :=
  ((((fitsWord_aclAddrShow m rfl _).append (fitsWord_get m Acl.saDepth)).append
    (fitsWord_aclAddrShow m rfl _)).append (fitsWord_get m Acl.daDepth)).append
    (fitsWord_get m Acl.sp0)

/-- The words of an lpm match that are written without a blank. -/
theorem fitsWord_lpmGlued (m : Mem) : FitsWord 43 (lpmGlued m) := by
  have hdepth := fitsWord_get m Lpm.depth
  unfold lpmGlued
  split_ifs
  · have h := (fitsWord_ipv4AddrShow_get m (rfl : Lpm.ipv4.len = 4)).append hdepth
    exact ⟨h.isWord, h.length_le.trans (by decide)⟩
  · exact (fitsWord_ipv6AddrShow _).append hdepth

/-- A hash key has an even number of bytes, at most 64. -/
theorem keySize_spec (keySize : HashKeySize) :
    0 < keySize.val ∧ keySize.val ≤ 64 ∧ keySize.val % 2 = 0 := by
  have hall : ∀ n ∈ [8, 16, 24, 32, 40, 48, 56, 64], 0 < n ∧ n ≤ 64 ∧ n % 2 = 0 := by decide
  exact hall keySize.val keySize.property

/-- The words of a match stay below 210 characters and 10 words. -/
theorem fits_matchWords (keySize : HashKeySize) (m : TableRuleMatch) :
    Fits 210 10 (matchWords keySize m) := by
  have haction : FitsWord 6 "action" := by decide
  unfold matchWords
  cases m.matchType with
  | acl =>
    have hname : Fits 13 2 ["acl", "priority"] := by decide
    have hraw : Fits 150 7 ["rawaction"] := by decide
    have hversion : FitsWord 4 (if m.mem.get Acl.ipVersion ≠ 0 then "ipv4" else "ipv6") := by
      split_ifs <;> decide
    exact ((hname.append (.singleton (fitsWord_get m.mem Acl.priority))).append (.ite hraw
      (Fits.mono (.cons hversion (.cons (fitsWord_aclGlued m.mem)
        (.cons (fitsWord_get m.mem Acl.sp1) (.cons (fitsWord_get m.mem Acl.dp0)
          (.cons (fitsWord_get m.mem Acl.dp1) (.cons (fitsWord_get m.mem Acl.proto)
            (.singleton haction))))))) (by decide) (by decide)))).mono (by decide) (by decide)
  | array =>
    have hname : FitsWord 5 "array" := by decide
    exact (Fits.cons hname (.cons (fitsWord_get m.mem ArrayKey.pos)
      (.singleton haction))).mono (by decide) (by decide)
  | hash =>
    have hname : Fits 9 2 ["hash", "raw"] := by decide
    have hkey : FitsWord 128 (.ofList ((m.mem.bytes keySize).flatMap showByte)) := by
      refine ⟨isWord_flatMap_showByte _, ?_⟩
      rw [String.length_ofList, length_flatMap_showByte, Mem.length_bytes]
      exact Nat.mul_le_mul_left 2 (keySize_spec keySize).2.1
    exact (hname.append (.cons hkey (.singleton haction))).mono (by decide) (by decide)
  | lpm =>
    have hname : FitsWord 3 "lpm" := by decide
    have hversion : FitsWord 4 (if m.mem.get Lpm.ipVersion ≠ 0 then "ipv4" else "ipv6") := by
      split_ifs <;> decide
    exact (Fits.cons hname (.cons hversion (.cons (fitsWord_lpmGlued m.mem)
      (.singleton haction)))).mono (by decide) (by decide)
  | stub => exact (by decide : Fits 15 2 ["unknown", "action"]).mono (by decide) (by decide)

section Line

variable {S D : Type} (keySize : HashKeySize) (ap : ActionProfile)

/-- The words of a line after `match`. -/
def ruleWords (r : TableRule (TableRuleAction S) D) : List String :=
  matchWords keySize r.ruleMatch ++ actionWords ap r.action

/-- The words of a rule stay below 910 characters and 110 words. -/
theorem fits_ruleWords (r : TableRule (TableRuleAction S) D) :
    Fits 910 110 (ruleWords keySize ap r) :=
  (fits_matchWords keySize r.ruleMatch).append (fits_actionWords ap r.action)

/-- The match and the word `action`. -/
theorem matchShow_eq (m : TableRuleMatch) (ws : List String) :
    matchShow keySize m ++ spaced ("action" :: ws) =
      spaced ("match" :: matchWords keySize m ++ ws) := by
  unfold matchShow matchWords
  cases m.matchType with
  | acl =>
    by_cases hraw : m.mem.get Acl.ipVersion = 2
    · have hglued : "rawaction" = "raw" ++ "action" := by decide
      simp only [hraw, if_true, hglued, spaced_cons, spaced_nil, List.append_assoc,
        List.cons_append, List.nil_append, String.toList_append]
    · simp only [hraw, if_false, spaced_cons, spaced_nil, List.append_assoc, List.cons_append,
        List.nil_append, aclGlued, aclAddrShow, String.toList_append]
  | array =>
    simp only [spaced_cons, spaced_nil, List.append_assoc, List.cons_append, List.nil_append]
  | hash =>
    simp only [spaced_cons, spaced_nil, List.append_assoc, List.cons_append, List.nil_append]
  | lpm =>
    simp only [spaced_cons, spaced_nil, List.append_assoc, List.cons_append, List.nil_append,
      lpmGlued, String.toList_append]
  | stub =>
    simp only [spaced_cons, spaced_nil, List.append_assoc, List.cons_append, List.nil_append]

/-- The line of a rule is the line of its words. -/
theorem ruleShow_eq (r : TableRule (TableRuleAction S) D) :
    ruleShow keySize ap r = spaced ("match" :: ruleWords keySize ap r) ++ ['\n'] := by
  rw [ruleShow, matchShow_eq]
  rfl

end Line

/-! ### The file of a table -/

/-- The words of the line of the default rule. -/
def defaultWords (ruleDefault : Option FwdAction) : List String :=
  ["#", "match", "default", "action"] ++ fwdWords (ruleDefault.getD .drop)

/-- The words of the default rule. -/
theorem fits_defaultWords (ruleDefault : Option FwdAction) :
    Fits 45 7 (defaultWords ruleDefault) := by
  have hname : Fits 23 4 ["#", "match", "default", "action"] := by decide
  exact hname.append (fits_fwdWords _)

section File

variable {S D : Type} (keySize : HashKeySize) (ap : ActionProfile) {inet : InetPton}
  {symCrypto : List String → Parse (S × ℕ)}

/-- The tokens of the line of a rule. -/
def ruleTokens (r : TableRule (TableRuleAction S) D) : List String :=
  "match" :: tokensOf (ruleWords keySize ap r)

/-- A printed rule is read as its words are parsed. -/
theorem readRuleLine_ruleShow (r : TableRule (TableRuleAction S) D) :
    readRuleLine inet symCrypto (ruleShow keySize ap r) =
      (parseFileRule inet symCrypto (ruleTokens keySize ap r)).map some := by
  have hfits := fits_ruleWords keySize ap r
  have hmatch : IsWord "match" := by decide
  rw [ruleShow_eq]
  exact readRuleLine_spaced (allWords_cons.mpr ⟨hmatch, hfits.allWords⟩)
    (hfits.length_le.trans_lt (by decide))

/-- The printed default rule is a comment to the reader. -/
theorem readRuleLine_defaultShow (ruleDefault : Option FwdAction) :
    readRuleLine inet symCrypto (defaultShow ruleDefault) = .ok none := by
  have hline : defaultShow ruleDefault = spaced (defaultWords ruleDefault) ++ ['\n'] := rfl
  have hcomment : isComment (spaced (defaultWords ruleDefault) ++ ['\n']) = true := rfl
  unfold readRuleLine
  rw [hline, cString_spaced (fits_defaultWords ruleDefault).allWords]
  simp only [hcomment, if_true]

/-- The file is cut into its lines. -/
theorem messages_tableRuleShow (rules : List (TableRule (TableRuleAction S) D))
    (ruleDefault : Option FwdAction) :
    messages ruleLineLenMax ruleLineLenMax (tableRuleShow keySize ap rules ruleDefault) =
      rules.map (ruleShow keySize ap) ++ [defaultShow ruleDefault] := by
  have hline {n k : ℕ} {ws : List String} (h : Fits n k ws) (hn : n < ruleLineLenMax) :
      '\n' ∉ spaced ws ∧ (spaced ws).length < ruleLineLenMax := by
    constructor
    · intro hmem
      exact (mem_spaced h.allWords hmem).1 rfl
    · rw [length_spaced]
      exact h.textLength_le.trans_lt hn
  have hmatch : FitsWord 5 "match" := by decide
  let lines := rules.map (fun r => spaced ("match" :: ruleWords keySize ap r)) ++
    [spaced (defaultWords ruleDefault)]
  have hlines : ∀ line ∈ lines, '\n' ∉ line ∧ line.length < ruleLineLenMax := by
    intro line hmem
    rcases List.mem_append.mp hmem with hmem | hmem
    · obtain ⟨r, -, rfl⟩ := List.mem_map.mp hmem
      exact hline (.cons hmatch (fits_ruleWords keySize ap r)) (by decide)
    · obtain rfl := List.mem_singleton.mp hmem
      exact hline (fits_defaultWords ruleDefault) (by decide)
  have hfile : tableRuleShow keySize ap rules ruleDefault = lines.flatMap (· ++ ['\n']) := by
    rw [List.flatMap_append, List.flatMap_map, List.flatMap_singleton, tableRuleShow,
      funext (ruleShow_eq keySize ap)]
    rfl
  rw [hfile, messages_lines hlines, List.map_append, List.map_map]
  apply congrArg (· ++ [defaultShow ruleDefault])
  apply List.map_congr_left
  intro r _
  exact (ruleShow_eq keySize ap r).symm

/-- The file of a table loads exactly when each of its lines is read as a rule. -/
theorem ruleList_tableRuleShow {rules : List (TableRule (TableRuleAction S) D)}
    {ruleDefault : Option FwdAction} {l : List (FileRule S)} :
    (cliRuleFileProcess inet symCrypto (tableRuleShow keySize ap rules ruleDefault)).ruleList =
        some l ↔
      List.Forall₂ (fun r x => parseFileRule inet symCrypto (ruleTokens keySize ap r) = .ok x)
        rules l := by
  unfold cliRuleFileProcess
  rw [messages_tableRuleShow, ruleList_readRuleLines (readRuleLine_ruleShow keySize ap)
    (readRuleLine_defaultShow ruleDefault)]
  constructor
  · rintro ⟨l', hl', rfl⟩
    exact hl'
  · intro hl
    exact ⟨l, hl, rfl⟩

end File

end Rids.Pipeline
