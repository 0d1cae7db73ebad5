import Rids.Pipeline.AclCommand
import Rids.Pipeline.RuleWords

/-!
# The text of an action read back

Each part of an action that the printer writes in the words of the parser reads as itself; a
meter, a tunnel or VLAN encapsulation and the address of a NAT over ipv6 are written in other
words.

* `InetPton.Standard` — what is assumed of `inet_pton`.
* `parseTableActionEncap_encapWords`, `parseTableActionEncap_encapWords_ne` — an encapsulation is
  read back exactly when it is `Printable`; so is the address of a NAT.
-/

namespace Rids.Pipeline

open Rids.Lib.ByteMem

/-- What `inet_pton` does with the addresses that the printers write: four decimal bytes with dots
are an IPv4 address, and no IPv6 address ends with a single colon. -/
structure InetPton.Standard (inet : InetPton) : Prop where
  af4_dotted : ∀ a b c d : BitVec 8, ∃ m : Mem,
    inet.af4 (showUint a.toNat ++ "." ++ showUint b.toNat ++ "." ++ showUint c.toNat ++ "." ++
      showUint d.toNat) = some m ∧ m.bytes 4 = [a, b, c, d]
  af6_colon : ∀ s : List Char, s.getLast? ≠ some ':' → inet.af6 (.ofList (s ++ [':'])) = none

/-! ### Steps of the parser -/

section Steps

variable {α β : Type}

/-- A result passes its value on. -/
@[simp] theorem ok_bind (a : α) (f : α → Parse β) : ((.ok a : Parse α) >>= f) = f a := rfl

/-- An error stops. -/
@[simp] theorem error_bind (e : ParseError) (f : α → Parse β) :
    ((.error e : Parse α) >>= f) = .error e := rfl

/-- A check that holds. -/
@[simp] theorem ensure_true (e : ParseError) : ensure true e = .ok () := rfl

/-- One computation returns one pair. -/
theorem eq_of_ok {x : Parse (α × β)} {a a' : α} {b b' : β} (h : x = .ok (a, b))
    (h' : x = .ok (a', b')) : a = a' ∧ b = b' :=
  Prod.mk.inj (Except.ok.inj (h.symm.trans h'))

/-- A check in front of the same error. -/
theorem ensure_bind_error (b : Bool) (e : ParseError) :
    (ensure b e >>= fun _ => (.error e : Parse α)) = .error e := by
  cases b <;> rfl

/-- An expected word is read where it stands. -/
theorem expect_eq_ok {tokens : List String} {i : ℕ} {name : String} {u : Unit} :
    expect tokens i name = .ok u ↔ tokens[i]? = some name := by
  simp [expect, bind_eq_ok, arg_eq_ok, ensure_eq_ok]

/-- A number that was printed is read back. -/
theorem readToken_showUint {w : ℕ} (hw : w ≤ 64) (v : BitVec w) :
    readToken (parserReadUint w) (showUint v.toNat) = .ok v := by
  unfold readToken
  rw [parserReadUint_showUint hw]

/-- A number of at most 32 bits. -/
theorem readBounded_eq {tokens : List String} {i w : ℕ} (hw : w ≤ 32) (v : BitVec w)
    (h : tokens[i]? = some (showUint v.toNat)) : readBounded tokens i w = .ok v := by
  have hlt : v.toNat < 2 ^ 32 := v.isLt.trans_le (Nat.pow_le_pow_right (by decide) hw)
  have hnat : (v.setWidth 32).toNat = v.toNat := by
    rw [BitVec.toNat_setWidth, Nat.mod_eq_of_lt hlt]
  have hread : readToken parserReadUint32 (showUint v.toNat) = .ok (v.setWidth 32) := by
    rw [← hnat]
    exact readToken_showUint (by decide) _
  have hle : v.toNat ≤ 2 ^ w - 1 := Nat.le_sub_one_of_lt v.isLt
  unfold readBounded readSilent
  rw [arg_eq_ok.mpr h, ok_bind, hread, ok_bind, hnat, decide_eq_true hle, ensure_true, ok_bind,
    BitVec.setWidth_setWidth_of_le v hw, BitVec.setWidth_eq]

/-- An Ethernet header is read back from its two words. -/
theorem readEther_eq {tokens : List String} {i : ℕ} (hdr : EtherHdr)
    (hda : tokens[i]? = some (etherAddrShow hdr.da))
    (hsa : tokens[i + 1]? = some (etherAddrShow hdr.sa)) : readEther tokens i = .ok hdr := by
  unfold readEther
  rw [arg_eq_ok.mpr hda, arg_eq_ok.mpr hsa]
  simp only [ok_bind, parseMacAddr_etherAddrShow, orSilent]

/-- A label is read back from its three words. -/
theorem readMplsLabel_eq {tokens : List String} {i : ℕ} (l : MplsHdr)
    (hlabel : tokens[i]? = some (showUint l.label.toNat))
    (htc : tokens[i + 1]? = some (showUint l.tc.toNat))
    (httl : tokens[i + 2]? = some (showUint l.ttl.toNat)) : readMplsLabel tokens i = .ok l := by
  unfold readMplsLabel
  rw [readBounded_eq (by decide) l.label hlabel, readBounded_eq (by decide) l.tc htc,
    readBounded_eq (by decide) l.ttl httl]
  rfl

end Steps

/-! ### The parts that read as themselves -/

section Parts

variable (rest : List String)

/-- No word of a forward action is empty. -/
theorem tokensOf_fwdWords (a : FwdAction) : tokensOf (fwdWords a) = fwdWords a := by
  cases a <;> simp [tokensOf, fwdWords, showUint_ne_empty]

/-- A forward action is read back. -/
theorem parseTableActionFwd_fwdWords (a : FwdAction) :
    parseTableActionFwd (fwdWords a ++ rest) = .ok (a, (fwdWords a).length) := by
  cases a with
  | drop => simp [parseTableActionFwd, fwdWords, expect, arg]
  | port id => simp [parseTableActionFwd, fwdWords, expect, arg, readSilent, readToken_showUint]
  | portMeta => simp [parseTableActionFwd, fwdWords, expect, arg]
  | table id => simp [parseTableActionFwd, fwdWords, expect, arg, readSilent, readToken_showUint]

/-- Printed numbers are read back. -/
theorem mapM_readToken (out : List (BitVec 32)) :
    (out.map fun id => showUint id.toNat).mapM (readToken parserReadUint32) = .ok out := by
  induction out with
  | nil => rfl
  | cons id out ih =>
    rw [List.map_cons, List.mapM_cons, readToken_showUint (by decide), ih]
    rfl

/-- No word of a load balance is empty. -/
theorem tokensOf_lbWords (lb : LbParams) : tokensOf (lbWords lb) = lbWords lb := by
  simp [tokensOf, lbWords, showUint_ne_empty]

/-- A load balance is read back. -/
theorem parseTableActionBalance_lbWords (lb : LbParams) :
    parseTableActionBalance (lbWords lb ++ rest) = .ok (lb, (lbWords lb).length) := by
  obtain ⟨out, hout⟩ := lb
  have htake : ((out.map fun id => showUint id.toNat) ++ rest).take 8 =
      out.map fun id => showUint id.toNat :=
    List.take_left' (by rw [List.length_map, hout])
  have hlen : 9 ≤ ("balance" :: ((out.map fun id => showUint id.toNat) ++ rest)).length := by
    simp [hout]
  have hpos : 1 ≤ ("balance" :: ((out.map fun id => showUint id.toNat) ++ rest)).length :=
    Nat.le_trans (by decide) hlen
  have hcount : ("balance" :: out.map fun id => showUint id.toNat).length = 9 := by
    simp [hout]
  unfold parseTableActionBalance lbWords
  rw [hcount]
  simp only [List.cons_append, List.drop_succ_cons, List.drop_zero, htake, mapM_readToken, hlen,
    hpos, hout, expect, arg, List.getElem?_cons_zero, ok_bind, decide_true, ensure_true, dite_true]

/-- No word of a traffic manager is empty. -/
theorem tokensOf_tmWords (tm : TmParams) : tokensOf (tmWords tm) = tmWords tm := by
  simp [tokensOf, tmWords, showUint_ne_empty]

/-- A traffic manager is read back. -/
theorem parseTableActionTm_tmWords (tm : TmParams) :
    parseTableActionTm (tmWords tm ++ rest) = .ok (tm, (tmWords tm).length) := by
  simp [parseTableActionTm, tmWords, expect, arg, readSilent, readToken_showUint]

/-- No word of a time to live is empty. -/
theorem tokensOf_ttlWords (decrement : Bool) :
    tokensOf (ttlWords decrement) = ttlWords decrement := by
  cases decrement <;> rfl

/-- A time to live is read back. -/
theorem parseTableActionTtl_ttlWords (decrement : Bool) :
    parseTableActionTtl (ttlWords decrement ++ rest) =
      .ok (decrement, (ttlWords decrement).length) := by
  cases decrement <;> simp [parseTableActionTtl, ttlWords, expect, arg]

/-- A part that is one word is read back. -/
theorem parseTableActionFlag_word (name : String) :
    parseTableActionFlag name (name :: rest) = .ok ((), 1) := by
  simp [parseTableActionFlag, expect, arg]

/-- No word of a tag is empty. -/
theorem tokensOf_tagWords (tag : BitVec 32) : tokensOf (tagWords tag) = tagWords tag := by
  simp [tokensOf, tagWords, showUint_ne_empty]

/-- A tag is read back. -/
theorem parseTableActionTag_tagWords (tag : BitVec 32) :
    parseTableActionTag (tagWords tag ++ rest) = .ok (tag, (tagWords tag).length) := by
  simp [parseTableActionTag, parseTableActionUint, tagWords, expect, arg, readSilent,
    readToken_showUint]

/-- No word of a decapsulation is empty. -/
theorem tokensOf_decapWords (n : BitVec 16) : tokensOf (decapWords n) = decapWords n := by
  simp [tokensOf, decapWords, showUint_ne_empty]

/-- A decapsulation is read back. -/
theorem parseTableActionDecap_decapWords (n : BitVec 16) :
    parseTableActionDecap (decapWords n ++ rest) = .ok (n, (decapWords n).length) := by
  simp [parseTableActionDecap, parseTableActionUint, decapWords, expect, arg, readSilent,
    readToken_showUint]

end Parts

/-! ### Encapsulations -/

section Encap

variable {inet : InetPton} {rest : List String}

/-- The names of the labels from number `i` on. -/
def labelNames (i n : ℕ) : List String := (List.range' i n).map fun j => "label" ++ showUint j

/-- The further labels are read back where no other label follows. -/
theorem parseMplsMore_mplsWords {ls : List MplsHdr} {i n : ℕ} (hle : ls.length ≤ n)
    (hrest : ∀ t ∈ rest.head?, t ∉ labelNames i n) :
    parseMplsMore (labelNames i n) (mplsWords i ls ++ rest) = .ok ls := by
  induction ls generalizing i n with
  | nil =>
    cases n with
    | zero => rfl
    | succ n =>
      have hne : rest.head? ≠ some ("label" ++ showUint i) := by
        intro h
        exact hrest _ h List.mem_cons_self
      change (if rest.head? ≠ some ("label" ++ showUint i) then _ else _) = _
      rw [if_pos hne]
  | cons l ls ih =>
    obtain ⟨n, rfl⟩ := Nat.exists_eq_add_of_le' (Nat.succ_le_of_lt (Nat.zero_lt_of_lt hle))
    have hmore := ih (Nat.le_of_succ_le_succ hle) (i := i + 1) fun t ht hmem =>
      hrest t ht (List.mem_cons_of_mem _ hmem)
    have hname : labelNames i (n + 1) = ("label" ++ showUint i) :: labelNames (i + 1) n := rfl
    have hread : readMplsLabel (mplsWords i (l :: ls) ++ rest) 1 = .ok l :=
      readMplsLabel_eq l rfl rfl rfl
    have hlen : 4 ≤ (mplsWords i (l :: ls) ++ rest).length := by
      simp [mplsWords]
    have hhead : (mplsWords i (l :: ls) ++ rest).head? = some ("label" ++ showUint i) := rfl
    have hdrop : (mplsWords i (l :: ls) ++ rest).drop 4 = mplsWords (i + 1) ls ++ rest := rfl
    rw [hname, parseMplsMore, hhead, if_neg (not_not.mpr rfl), hread, hdrop, hmore,
      decide_eq_true hlen]
    rfl

/-- A label is four words. -/
theorem length_mplsWords (i : ℕ) (ls : List MplsHdr) :
    (mplsWords i ls).length = 4 * ls.length := by
  induction ls generalizing i with
  | nil => rfl
  | cons l ls ih =>
    rw [mplsWords, List.length_append, ih]
    simp only [List.length_cons, List.length_nil]
    omega

/-- No word of a label stack is empty. -/
theorem tokensOf_mplsWords (i : ℕ) (ls : List MplsHdr) :
    tokensOf (mplsWords i ls) = mplsWords i ls := by
  induction ls generalizing i with
  | nil => rfl
  | cons l ls ih =>
    rw [mplsWords, tokensOf_append, ih]
    apply congrArg (· ++ mplsWords (i + 1) ls)
    simp [tokensOf, showUint_ne_empty]

/-- An Ethernet address has a text. -/
theorem etherAddrShow_ne_empty (addr : EtherAddr) : etherAddrShow addr ≠ "" := by
  intro h
  have hread := parseMacAddr_etherAddrShow addr
  rw [h] at hread
  cases hread

/-- No word of an Ethernet header is empty. -/
theorem tokensOf_etherWords2 (hdr : EtherHdr) : tokensOf (etherWords2 hdr) = etherWords2 hdr := by
  simp [tokensOf, etherWords2, etherAddrShow_ne_empty]

/-- The labels of a rule, where the token after them is not a label. -/
theorem parseEncapMpls_words (unicast : Bool) (hdr : EtherHdr) (labels : MplsLabels)
    (hrest : ∀ t ∈ rest.head?, t ∉ labelNames 1 3) :
    parseEncapMpls (["mpls", if unicast then "unicast" else "multicast"] ++
        (etherWords2 hdr ++ (mplsWords 0 labels.all ++ rest))) =
      .ok (.mpls unicast hdr labels, 1 + 8 + 4 * labels.more.length) := by
  obtain ⟨first, more, hlen⟩ := labels
  have hmore := parseMplsMore_mplsWords hlen hrest
  rw [show labelNames 1 3 = ["label1", "label2", "label3"] by decide] at hmore
  generalize htokens : ["mpls", if unicast then "unicast" else "multicast"] ++
    (etherWords2 hdr ++ (mplsWords 0 (MplsLabels.mk first more hlen).all ++ rest)) = tokens
  have hcount : 8 ≤ tokens.length := by
    rw [← htokens]
    simp [etherWords2, MplsLabels.all, mplsWords]
  have hkind : arg tokens 1 = .ok (if unicast then "unicast" else "multicast") := htokens ▸ rfl
  have hether : readEther tokens 2 = .ok hdr := htokens ▸ readEther_eq hdr rfl rfl
  have hname : expect tokens 4 "label0" = .ok () := htokens ▸ rfl
  have hlabel : readMplsLabel tokens 5 = .ok first := htokens ▸ readMplsLabel_eq first rfl rfl rfl
  have hdrop : tokens.drop 8 = mplsWords 1 more ++ rest := htokens ▸ rfl
  unfold parseEncapMpls
  rw [decide_eq_true hcount, hkind, hether, hname, hlabel, hdrop, hmore]
  cases unicast <;> simp [hlen]

/-- An encapsulation that is printed in the words of the parser. -/
def EncapParams.Printable (e : EncapParams) : Prop := e.type ∈ [.ether, .mpls, .pppoe]

instance (e : EncapParams) : Decidable e.Printable :=
  inferInstanceAs (Decidable (e.type ∈ [.ether, .mpls, .pppoe]))

variable (inet) in
/-- A printable encapsulation is read back. -/
theorem parseTableActionEncap_encapWords (ap : ActionProfile) {e : EncapParams}
    (he : e.Printable) (hrest : ∀ t ∈ rest.head?, t ∉ labelNames 1 3) :
    parseTableActionEncap inet (tokensOf (encapWords ap e) ++ rest) =
      .ok (e, (tokensOf (encapWords ap e)).length) := by
  cases e with
  | ether hdr =>
    have hwords : tokensOf (encapWords ap (.ether hdr)) =
        ["encap", "ether"] ++ etherWords2 hdr := by
      rw [encapWords, tokensOf_append, tokensOf_etherWords2]
      rfl
    have hether : readEther ("ether" :: (etherWords2 hdr ++ rest)) 1 = .ok hdr :=
      readEther_eq hdr rfl rfl
    rw [hwords]
    simp only [parseTableActionEncap, List.cons_append, List.nil_append, List.drop_succ_cons,
      List.drop_zero, List.head?_cons, if_true, hether, expect, arg, List.getElem?_cons_zero,
      ok_bind, decide_true, ensure_true]
    simp [etherWords2]
  | mpls unicast hdr labels =>
    have hwords : tokensOf (encapWords ap (.mpls unicast hdr labels)) =
        "encap" :: (["mpls", if unicast then "unicast" else "multicast"] ++ (etherWords2 hdr ++
          mplsWords 0 labels.all)) := by
      rw [encapWords, tokensOf_append, tokensOf_append, tokensOf_etherWords2, tokensOf_mplsWords,
        List.append_assoc]
      cases unicast <;> rfl
    have hmpls := parseEncapMpls_words unicast hdr labels hrest
    rw [hwords]
    simp only [parseTableActionEncap, List.append_assoc, List.cons_append, List.nil_append,
      List.drop_succ_cons, List.drop_zero, List.head?_cons, expect, arg,
      List.getElem?_cons_zero, ok_bind, decide_true, ensure_true] at hmpls ⊢
    rw [hmpls]
    simp [length_mplsWords, MplsLabels.all, etherWords2]
    omega
  | pppoe hdr sessionId =>
    have hwords : tokensOf (encapWords ap (.pppoe hdr sessionId)) =
        ["encap", "pppoe"] ++ (etherWords2 hdr ++ [showUint sessionId.toNat]) := by
      rw [encapWords, tokensOf_append, tokensOf_append, tokensOf_etherWords2, List.append_assoc]
      simp [tokensOf, showUint_ne_empty]
    have hether : readEther ("pppoe" :: (etherWords2 hdr ++ showUint sessionId.toNat :: rest)) 1 =
      .ok hdr := readEther_eq hdr rfl rfl
    rw [hwords]
    simp only [parseTableActionEncap, List.append_assoc, List.cons_append, List.nil_append,
      List.drop_succ_cons, List.drop_zero, List.head?_cons, if_true, hether, expect, arg,
      List.getElem?_cons_zero, ok_bind, decide_true, ensure_true]
    simp [etherWords2, readSilent, arg, readToken_showUint]
  | vlan hdr vlan => exact absurd he (by simp [EncapParams.Printable, EncapParams.type])
  | qinq hdr svlan cvlan => exact absurd he (by simp [EncapParams.Printable, EncapParams.type])
  | qinqPppoe hdr svlan cvlan sessionId =>
    exact absurd he (by simp [EncapParams.Printable, EncapParams.type])
  | vxlan hdr vlan ip sp dp vni =>
    exact absurd he (by simp [EncapParams.Printable, EncapParams.type])

/-- The name of a VLAN field stands where its value is read. -/
theorem readVlan_pcp {tokens : List String} {i : ℕ} (h : tokens[i]? = some "pcp") :
    readVlan tokens i = .error .silent := by
  have hread : readToken parserReadUint32 "pcp" = .error .silent := rfl
  unfold readVlan readBounded readSilent
  rw [arg_eq_ok.mpr h, ok_bind, hread]
  rfl

/-- The vlan of a tunnel is printed with words that its reader does not know. -/
theorem parseVxlanVlan_vlanWords (vlan : VlanHdr) (rest : List String) :
    parseVxlanVlan ("vlan" :: (vlanWords vlan ++ rest)) = .error .silent := by
  have hvlan : readVlan ("vlan" :: (vlanWords vlan ++ rest)) 1 = .error .silent :=
    readVlan_pcp rfl
  unfold parseVxlanVlan
  simp only [arg, List.getElem?_cons_zero, ok_bind, if_true, hvlan]
  simp [vlanWords]

/-- The tunnel of the two addresses takes five tokens. -/
theorem parseVxlanIp_ipv4 {tokens : List String} {m : Mem} {n : ℕ}
    (h : parseVxlanIp inet ("ipv4" :: tokens) = .ok (m, n)) : n = 5 := by
  unfold parseVxlanIp at h
  simp only [arg, List.getElem?_cons_zero, ok_bind, if_true, bind_eq_ok, Except.ok.injEq,
    Prod.mk.injEq] at h
  obtain ⟨-, -, -, -, -, -, -, -, -, -, -, -, -, -, -, -, -, hn⟩ := h
  exact hn.symm

/-- An IPv4 address has a text. -/
theorem ipv4AddrShow_ne_empty (addr : ℕ) : ipv4AddrShow addr ≠ "" := by
  simp [ipv4AddrShow, showUint_ne_empty]

/-- An IPv6 address has a text. -/
theorem ipv6AddrShow_ne_empty (addr : Mem) : ipv6AddrShow addr ≠ "" := by
  intro h
  have hnil := congrArg String.toList h
  rw [ipv6AddrShow, String.toList_ofList] at hnil
  cases hnil

/-- Eight groups, each with a colon after it, are not an address. -/
theorem parseIpv6Addr_ipv6AddrShow (hinet : inet.Standard) (addr : Mem) :
    parseIpv6Addr inet (ipv6AddrShow addr) = none := by
  generalize hgroups : ((List.range 7).flatMap fun i =>
    showByte (addr (2 * i)) ++ showByte (addr (2 * i + 1)) ++ [':']) ++
      (showByte (addr 14) ++ showByte (addr 15)) = groups
  have hshow : ipv6AddrShow addr = .ofList (groups ++ [':']) := hgroups ▸ rfl
  have hlast : groups.getLast? = some ((addr 15).toNat % 16).digitChar := by
    rw [← hgroups, List.getLast?_append, List.getLast?_append]
    rfl
  have hcolon : groups.getLast? ≠ some ':' := by
    rw [hlast]
    intro h
    have hdigit := isHexDigit_digitChar (low_lt (addr 15))
    rw [Option.some.inj h] at hdigit
    exact absurd hdigit (by decide)
  unfold parseIpv6Addr
  rw [hshow, hinet.af6_colon _ hcolon, ite_self]

/-- The addresses of a tunnel over ipv6 are not read. -/
theorem parseVxlanIp_ipv6 (hinet : inet.Standard) (addr : Mem) (tokens : List String) :
    parseVxlanIp inet ("ipv6" :: ipv6AddrShow addr :: tokens) = .error .silent := by
  have haddr := parseIpv6Addr_ipv6AddrShow hinet addr
  unfold parseVxlanIp
  simp only [arg, List.getElem?_cons_zero, List.getElem?_cons_succ, ok_bind, haddr, orSilent]
  simp [ensure_bind_error]

/-- No word of a vlan tag is empty. -/
theorem tokensOf_vlanWords (vlan : VlanHdr) : tokensOf (vlanWords vlan) = vlanWords vlan := by
  simp [tokensOf, vlanWords, showUint_ne_empty]

/-- What a tunnel that is read has after its header. -/
theorem parseEncapVxlan_ok {hdr : EtherHdr} {tokens : List String} {x : EncapParams × ℕ}
    (h : parseEncapVxlan inet ("vxlan" :: "ether" :: (etherWords2 hdr ++ tokens)) = .ok x) :
    ∃ vlan n, parseVxlanVlan tokens = .ok (vlan, n) ∧
      ∃ ip n', parseVxlanIp inet (tokens.drop n) = .ok (ip, n') ∧
        ((tokens.drop n).drop n').head? = some "udp" := by
  have hdrop : ("ether" :: (etherWords2 hdr ++ tokens)).drop 3 = tokens := rfl
  unfold parseEncapVxlan at h
  simp only [List.drop_succ_cons, List.drop_zero, hdrop, bind_eq_ok, expect_eq_ok] at h
  obtain ⟨-, -, -, -, -, -, ⟨vlan, n⟩, hvlan, ⟨ip, n'⟩, hip, -, -, -, hudp, -⟩ := h
  refine ⟨vlan, n, hvlan, ip, n', hip, ?_⟩
  rw [List.head?_eq_getElem?]
  exact hudp

/-- The first words of a tunnel after its header. -/
theorem tokensOf_vxlanWords (ap : ActionProfile) (vlan : VlanHdr) (ip : Mem) (sp dp : BitVec 16)
    (vni : BitVec 24) :
    (∃ ws, tokensOf (vxlanWords ap vlan ip sp dp vni) = "vlan" :: (vlanWords vlan ++ ws)) ∨
      (∃ ws, ws.length = 4 ∧ tokensOf (vxlanWords ap vlan ip sp dp vni) = "ipv4" :: ws) ∨
      ∃ addr ws, tokensOf (vxlanWords ap vlan ip sp dp vni) =
        "ipv6" :: ipv6AddrShow addr :: ws := by
  have hvlan : tokensOf ("vlan" :: vlanWords vlan ++ [""]) = "vlan" :: vlanWords vlan := by
    rw [tokensOf_append, show tokensOf ("vlan" :: vlanWords vlan) = "vlan" ::
      tokensOf (vlanWords vlan) from rfl, tokensOf_vlanWords]
    exact List.append_nil _
  unfold vxlanWords
  by_cases hap : ap.vxlanVlan = true
  · rw [if_pos hap, tokensOf_append, hvlan]
    exact .inl ⟨_, rfl⟩
  · rw [if_neg hap, List.nil_append]
    by_cases hip : ap.vxlanIpv4 = true
    · rw [if_pos hip]
      refine .inr (.inl ⟨[ipv4AddrShow (ip.get VxlanIp.ipv4Sa),
        ipv4AddrShow (ip.get VxlanIp.ipv4Da), showUint (ip.get VxlanIp.ipv4Dscp),
        showUint (ip.get VxlanIp.ipv4Ttl)], rfl, ?_⟩)
      simp [tokensOf, ipv4AddrShow_ne_empty, showUint_ne_empty]
    · rw [if_neg hip]
      refine .inr (.inr ⟨ip.drop VxlanIp.ipv6Sa, tokensOf (ipv6AddrShow (ip.drop VxlanIp.ipv6Da) ::
        [showUint (ip.get VxlanIp.ipv6FlowLabel), showUint (ip.get VxlanIp.ipv6Dscp),
        showUint (ip.get VxlanIp.ipv6HopLimit), "", "udp", showUint sp.toNat, showUint dp.toNat,
        "vxlan", showUint vni.toNat]), ?_⟩)
      simp [tokensOf, ipv6AddrShow_ne_empty]

/-- A printed tunnel is not read back. -/
theorem parseEncapVxlan_vxlanWords_ne (hinet : inet.Standard) (ap : ActionProfile) (hdr : EtherHdr)
    (vlan : VlanHdr) (ip : Mem) (sp dp : BitVec 16) (vni : BitVec 24)
    (hrest : rest.head? ≠ some "udp") (x : EncapParams × ℕ) :
    parseEncapVxlan inet ("vxlan" :: "ether" :: (etherWords2 hdr ++
      (tokensOf (vxlanWords ap vlan ip sp dp vni) ++ rest))) ≠ .ok x := by
  intro h
  obtain ⟨_, n, hvlan, ip', n', hip, hudp⟩ := parseEncapVxlan_ok h
  rcases tokensOf_vxlanWords ap vlan ip sp dp vni with ⟨ws, hws⟩ | ⟨ws, hlen, hws⟩ | ⟨addr, ws, hws⟩
  · rw [hws, List.cons_append, List.append_assoc, parseVxlanVlan_vlanWords] at hvlan
    cases hvlan
  · -- the ports of the tunnel are looked for behind its five words
    rw [hws] at hvlan hip hudp
    obtain rfl : 0 = n := congrArg Prod.snd (Except.ok.inj hvlan)
    obtain rfl : n' = 5 := parseVxlanIp_ipv4 hip
    have hdrop : (ws ++ rest).drop 4 = rest := List.drop_left' hlen
    change ((ws ++ rest).drop 4).head? = some "udp" at hudp
    rw [hdrop] at hudp
    exact hrest hudp
  · rw [hws] at hvlan hip
    obtain rfl : 0 = n := congrArg Prod.snd (Except.ok.inj hvlan)
    have herror := parseVxlanIp_ipv6 hinet addr (ws ++ rest)
    rw [show ("ipv6" :: ipv6AddrShow addr :: ws ++ rest).drop 0 =
      "ipv6" :: ipv6AddrShow addr :: (ws ++ rest) from rfl, herror] at hip
    cases hip

/-- A tunnel goes to its own reader. -/
theorem parseTableActionEncap_vxlan (tokens : List String) :
    parseTableActionEncap inet ("encap" :: "vxlan" :: tokens) =
      parseEncapVxlan inet ("vxlan" :: tokens) := by
  simp [parseTableActionEncap, expect, arg]

/-- The name of the first field of a VLAN stands where its value is read. -/
theorem parseTableActionEncap_pcp {kind : String} (hkind : kind = "vlan" ∨ kind = "qinq")
    (hdr : EtherHdr) (tokens : List String) (x : EncapParams × ℕ) :
    parseTableActionEncap inet ("encap" :: kind :: (etherWords2 hdr ++ "pcp" :: tokens)) ≠
      .ok x := by
  have hvlan : readVlan (kind :: (etherWords2 hdr ++ "pcp" :: tokens)) 3 = .error .silent :=
    readVlan_pcp rfl
  have hether : readEther (kind :: (etherWords2 hdr ++ "pcp" :: tokens)) 1 = .ok hdr :=
    readEther_eq hdr rfl rfl
  rcases hkind with rfl | rfl
  · simp only [parseTableActionEncap, List.drop_succ_cons, List.drop_zero, List.head?_cons, hether,
      hvlan, expect, arg, List.getElem?_cons_zero, ok_bind, error_bind, decide_true, ensure_true]
    simp [ensure_bind_error]
  · simp only [parseTableActionEncap, List.drop_succ_cons, List.drop_zero, List.head?_cons, hether,
      hvlan, expect, arg, List.getElem?_cons_zero, ok_bind, error_bind, decide_true, ensure_true]
    simp [ensure_bind_error]

/-- An encapsulation that is printed in other words is not read. -/
theorem parseTableActionEncap_encapWords_ne (hinet : inet.Standard) (ap : ActionProfile)
    {e : EncapParams} (he : ¬ e.Printable) (hrest : rest.head? ≠ some "udp") (x : EncapParams × ℕ) :
    parseTableActionEncap inet (tokensOf (encapWords ap e) ++ rest) ≠ .ok x := by
  cases e with
  | ether hdr => exact absurd (by simp [EncapParams.Printable, EncapParams.type]) he
  | mpls unicast hdr labels => exact absurd (by simp [EncapParams.Printable, EncapParams.type]) he
  | pppoe hdr sessionId => exact absurd (by simp [EncapParams.Printable, EncapParams.type]) he
  | vlan hdr vlan =>
    have hwords : tokensOf (encapWords ap (.vlan hdr vlan)) ++ rest =
        "encap" :: "vlan" :: (etherWords2 hdr ++ (vlanWords vlan ++ rest)) := by
      rw [encapWords, tokensOf_append, tokensOf_append, tokensOf_etherWords2, tokensOf_vlanWords,
        List.append_assoc, List.append_assoc]
      rfl
    rw [hwords]
    exact parseTableActionEncap_pcp (.inl rfl) hdr _ x
  | qinq hdr svlan cvlan =>
    have hwords : tokensOf (encapWords ap (.qinq hdr svlan cvlan)) ++ rest =
        "encap" :: "qinq" ::
          (etherWords2 hdr ++ (vlanWords svlan ++ (vlanWords cvlan ++ rest))) := by
      rw [encapWords, tokensOf_append, tokensOf_append, tokensOf_append, tokensOf_etherWords2,
        tokensOf_vlanWords, tokensOf_vlanWords, List.append_assoc, List.append_assoc,
        List.append_assoc]
      rfl
    rw [hwords]
    exact parseTableActionEncap_pcp (.inr rfl) hdr _ x
  | qinqPppoe hdr svlan cvlan sessionId =>
    have hwords : tokensOf (encapWords ap (.qinqPppoe hdr svlan cvlan sessionId)) =
      ["encap", "unknown"] := by rfl
    rw [hwords]
    simp [parseTableActionEncap, expect, arg]
  | vxlan hdr vlan ip sp dp vni =>
    have hwords : tokensOf (encapWords ap (.vxlan hdr vlan ip sp dp vni)) =
        ["encap", "vxlan", "ether"] ++ (etherWords2 hdr ++
          tokensOf (vxlanWords ap vlan ip sp dp vni)) := by
      rw [encapWords, tokensOf_append, tokensOf_append, tokensOf_etherWords2, List.append_assoc]
      rfl
    rw [hwords]
    simp only [List.append_assoc, List.cons_append, List.nil_append]
    rw [parseTableActionEncap_vxlan]
    exact parseEncapVxlan_vxlanWords_ne hinet ap hdr vlan ip sp dp vni hrest x

end Encap

/-! ### Addresses of a NAT -/

section Nat

variable {inet : InetPton} {rest : List String}

/-- A dotted address reads as itself. -/
theorem parseIpv4Addr_ipv4AddrShow (hinet : inet.Standard) (addr : BitVec 32) :
    ∃ m, parseIpv4Addr inet (ipv4AddrShow addr.toNat) = some m ∧
      bswap32 (m.load 0 4) = addr.toNat := by
  have hlt := addr.isLt
  have hbyte (n : ℕ) : (BitVec.ofNat 8 n).toNat = n % 256 := BitVec.toNat_ofNat n 8
  obtain ⟨m, hm, hbytes⟩ := hinet.af4_dotted (.ofNat 8 (addr.toNat / 2 ^ 24))
    (.ofNat 8 (addr.toNat / 2 ^ 16)) (.ofNat 8 (addr.toNat / 2 ^ 8)) (.ofNat 8 addr.toNat)
  have htop : addr.toNat / 2 ^ 24 % 256 = addr.toNat / 2 ^ 24 := Nat.mod_eq_of_lt (by omega)
  simp only [hbyte, htop] at hm
  refine ⟨m, ?_, ?_⟩
  · have hlen := (fitsWord_ipv4AddrShow hlt).length_le
    unfold parseIpv4Addr
    rw [if_neg (by omega)]
    exact hm
  · have hlist : [m 0, m 1, m 2, m 3] = _ := hbytes
    simp only [List.cons.injEq, and_true] at hlist
    obtain ⟨h0, h1, h2, h3⟩ := hlist
    rw [bswap32_load]
    simp only [Mem.beLoad, Mem.drop_apply, Nat.zero_add, h0, h1, h2, h3, hbyte]
    omega

/-- An address that is printed in the words of the parser. -/
def NatParams.Printable : NatParams → Prop
  | .ipv4 _ _ => True
  | .ipv6 _ _ => False

instance : (nat : NatParams) → Decidable nat.Printable
  | .ipv4 _ _ => inferInstanceAs (Decidable True)
  | .ipv6 _ _ => inferInstanceAs (Decidable False)

/-- A printable address translation is read back. -/
theorem parseTableActionNat_natWords (hinet : inet.Standard) {nat : NatParams}
    (hnat : nat.Printable) :
    parseTableActionNat inet (tokensOf (natWords nat) ++ rest) =
      .ok (nat, (tokensOf (natWords nat)).length) := by
  cases nat with
  | ipv4 addr port =>
    have hwords : tokensOf (natWords (.ipv4 addr port)) =
        ["nat", "ipv4", ipv4AddrShow addr.toNat, showUint port.toNat] := by
      simp [tokensOf, natWords, ipv4AddrShow_ne_empty, showUint_ne_empty]
    obtain ⟨m, hm, hload⟩ := parseIpv4Addr_ipv4AddrShow hinet addr
    rw [hwords]
    simp [parseTableActionNat, expect, arg, readSilent, readToken_showUint, hm, hload, orSilent]
  | ipv6 addr port => exact absurd hnat id

/-- An address over ipv6 is printed with a colon too many and is not read. -/
theorem parseTableActionNat_natWords_ne (hinet : inet.Standard) {nat : NatParams}
    (hnat : ¬ nat.Printable) (x : NatParams × ℕ) :
    parseTableActionNat inet (tokensOf (natWords nat) ++ rest) ≠ .ok x := by
  cases nat with
  | ipv4 addr port => exact absurd trivial hnat
  | ipv6 addr port =>
    have hwords : tokensOf (natWords (.ipv6 addr port)) =
        ["nat", "ipv6", ipv6AddrShow fun i => addr.getD i 0, showUint port.toNat] := by
      simp [tokensOf, natWords, ipv6AddrShow_ne_empty, showUint_ne_empty]
    have haddr := parseIpv6Addr_ipv6AddrShow hinet fun i => addr.getD i 0
    rw [hwords]
    generalize (ipv6AddrShow fun i => addr.getD i 0) = t at haddr
    simp [parseTableActionNat, expect, arg, haddr, orSilent]

end Nat

end Rids.Pipeline
