import Rids.Pipeline.ParseMatch

/-!
# Rule actions and their parser (`pipeline.h`, `cli.c`, `thread.c`)

`TableRuleAction` is `struct table_rule_action` as `parse_table_action` leaves it: a part of it is
`some` when its bit of `action_mask` is set, and all zero otherwise. What the parser accepts fits
the types: a label of 20 bits, one to four labels, eight outputs.

`parseTableAction` is `parse_table_action` with all its parts but `sym_crypto`, which is a
parameter (`SymCrypto.lean` has its parser): its algorithms are named by DPDK.
-/

namespace Rids.Pipeline

open Rids.Lib.ByteMem

/-! ### The structs -/

/-- Where a rule sends a packet. -/
inductive FwdAction
  | drop
  | port (id : BitVec 32)
  | portMeta
  | table (id : BitVec 32)
deriving DecidableEq, Repr

/-- The outputs of load balancing, `RTE_TABLE_ACTION_LB_TABLE_SIZE` of them. -/
structure LbParams where
  out : List (BitVec 32)
  length_out : out.length = 8
deriving DecidableEq, Repr

/-- Source: DPDK `enum rte_table_action_policer`. Kind: D -/
inductive Policer
  | green | yellow | red | drop
deriving DecidableEq, Repr

/-- A meter of one traffic class, with what is done to packets of each color. -/
structure MtrTcParams where
  meterProfileId : BitVec 32
  green : Policer
  yellow : Policer
  red : Policer
deriving DecidableEq, Repr

/-- The meters of the traffic classes, by `tc_mask`: 1 or 0xF. -/
inductive MtrParams
  | one (tc0 : MtrTcParams)
  | four (tc0 tc1 tc2 tc3 : MtrTcParams)
deriving DecidableEq, Repr

/-- `mtr.tc_mask`. -/
def MtrParams.tcMask : MtrParams → ℕ
  | one _ => 1
  | four _ _ _ _ => 0xF

/-- The meters with their bit set. -/
def MtrParams.tcs : MtrParams → List MtrTcParams
  | one tc0 => [tc0]
  | four tc0 tc1 tc2 tc3 => [tc0, tc1, tc2, tc3]

/-- Source: DPDK `struct rte_table_action_tm_params`. Kind: D -/
structure TmParams where
  subportId : BitVec 32
  pipeId : BitVec 32
deriving DecidableEq, Repr

/-- Source: DPDK `struct rte_ether_addr`. Kind: D -/
structure EtherAddr where
  bytes : List (BitVec 8)
  length_bytes : bytes.length = 6
deriving DecidableEq, Repr

/-- Source: DPDK `struct rte_table_action_ether_hdr`. Kind: D -/
structure EtherHdr where
  da : EtherAddr
  sa : EtherAddr
deriving DecidableEq, Repr

/-- Source: DPDK `struct rte_table_action_vlan_hdr`. Kind: D -/
structure VlanHdr where
  pcp : BitVec 3
  dei : BitVec 1
  vid : BitVec 12
deriving DecidableEq, Repr

/-- Source: DPDK `struct rte_table_action_mpls_hdr`. Kind: D -/
structure MplsHdr where
  label : BitVec 20
  tc : BitVec 3
  ttl : BitVec 6
deriving DecidableEq, Repr

/-- The labels of an encapsulation, and their number `mpls_count`. -/
structure MplsLabels where
  first : MplsHdr
  more : List MplsHdr
  length_more : more.length ≤ 3
deriving DecidableEq, Repr

/-- The labels from the first on. -/
def MplsLabels.all (l : MplsLabels) : List MplsHdr := l.first :: l.more

/-! The two arms of the union `ipv4`, `ipv6` of DPDK's `struct rte_table_action_encap_vxlan_params`,
which nothing tells apart but the profile of the table. -/
namespace VxlanIp

def ipv4Sa : Field := ⟨0, 4⟩
def ipv4Da : Field := ⟨4, 4⟩
def ipv4Dscp : Field := ⟨8, 1⟩
def ipv4Ttl : Field := ⟨9, 1⟩
def ipv6Sa : ℕ := 0
def ipv6Da : ℕ := 16
def ipv6FlowLabel : Field := ⟨32, 4⟩
def ipv6Dscp : Field := ⟨36, 1⟩
def ipv6HopLimit : Field := ⟨37, 1⟩

end VxlanIp

/-- Source: DPDK `enum rte_table_action_encap_type`. Kind: D -/
inductive EncapType
  | ether | vlan | qinq | mpls | pppoe | vxlan | qinqPppoe
deriving DecidableEq, Repr

/-- Source: DPDK `struct rte_table_action_encap_params`. Kind: D -/
inductive EncapParams
  | ether (hdr : EtherHdr)
  | vlan (hdr : EtherHdr) (vlan : VlanHdr)
  | qinq (hdr : EtherHdr) (svlan cvlan : VlanHdr)
  | qinqPppoe (hdr : EtherHdr) (svlan cvlan : VlanHdr) (sessionId : BitVec 16)
  | mpls (unicast : Bool) (hdr : EtherHdr) (labels : MplsLabels)
  | pppoe (hdr : EtherHdr) (sessionId : BitVec 16)
  | vxlan (hdr : EtherHdr) (vlan : VlanHdr) (ip : Mem) (sp dp : BitVec 16) (vni : BitVec 24)

/-- `encap.type`. -/
def EncapParams.type : EncapParams → EncapType
  | ether _ => .ether
  | vlan _ _ => .vlan
  | qinq _ _ _ => .qinq
  | qinqPppoe _ _ _ _ => .qinqPppoe
  | mpls _ _ _ => .mpls
  | pppoe _ _ => .pppoe
  | vxlan _ _ _ _ _ _ => .vxlan

/-- Source: DPDK `struct rte_table_action_nat_params`, by `ip_version`. Kind: D -/
inductive NatParams
  | ipv4 (addr : BitVec 32) (port : BitVec 16)
  | ipv6 (addr : List (BitVec 8)) (port : BitVec 16)
deriving DecidableEq, Repr

/-- The time stamp that `parse_table_action_time` takes from the clock is left out.
Source: `pipeline.h` `struct table_rule_action`
Kind: D -/
structure TableRuleAction (S : Type) where
  fwd : Option FwdAction
  lb : Option LbParams
  mtr : Option MtrParams
  tm : Option TmParams
  encap : Option EncapParams
  nat : Option NatParams
  ttl : Option Bool
  stats : Bool
  time : Bool
  symCrypto : Option S
  tag : Option (BitVec 32)
  decap : Option (BitVec 16)

/-! ### Reading arguments -/

section Readers

variable (tokens : List String) (i : ℕ)

/-- `strcmp(tokens[i], name)` makes the function return 0. -/
def expect (name : String) : Parse Unit := do
  let t ← arg tokens i
  ensure (t = name) .silent

/-- A reader that fails makes the function return 0. -/
def orSilent {α : Type} : Option α → Parse α
  | some a => .ok a
  | none => .error .silent

/-- `parser_read_uint32` and its siblings on one token. -/
def readToken {w : ℕ} (read : String → Except Errno (BitVec w)) (t : String) : Parse (BitVec w) :=
  match read t with
  | .ok v => .ok v
  | .error _ => .error .silent

/-- A number of 8, 16 or 32 bits. -/
def readSilent {w : ℕ} (read : String → Except Errno (BitVec w)) : Parse (BitVec w) := do
  let t ← arg tokens i
  readToken read t

/-- A number of 32 bits that is not above a bound `2 ^ w - 1`. -/
def readBounded (w : ℕ) : Parse (BitVec w) := do
  let v ← readSilent tokens i parserReadUint32
  ensure (v.toNat ≤ 2 ^ w - 1) .silent
  .ok (v.setWidth w)

end Readers

/-! ### Ethernet addresses -/

/-- The value of a run of hexadecimal digits. -/
def hexadecimal (ds : List Char) : ℕ := ds.foldl (fun n c => n * 16 + getHexVal c) 0

/-- The sign and the rest. -/
def strtoulSign : List Char → Bool × List Char
  | '-' :: p => (true, p)
  | '+' :: p => (false, p)
  | p => (false, p)

/-- `0x` is skipped where a digit follows it. -/
def strtoulHexPrefix (p : List Char) : List Char :=
  match p with
  | '0' :: x :: d :: q => if (x = 'x' ∨ x = 'X') ∧ isHexDigit d then d :: q else p
  | _ => p

/-- Base 16: the value and what is left, `none` without a digit or where `errno` is set.
Source: `<stdlib.h>` `strtoul`
Kind: D -/
def strtoul16 (p : List Char) : Option (BitVec 64 × List Char) :=
  let (negative, p) := strtoulSign (skipWhiteSpaces p)
  let p := strtoulHexPrefix p
  let digits := p.takeWhile isHexDigit
  let val := hexadecimal digits
  if digits = [] ∨ 2 ^ 64 ≤ val then none
  else some (if negative then -.ofNat 64 val else .ofNat 64 val, p.dropWhile isHexDigit)

/-- The loop of `my_ether_aton`, where `n` words still fit into `o`. -/
def etherWords : ℕ → List Char → Option (List (BitVec 64))
  | 0, _ => none
  | n + 1, a =>
    match strtoul16 a with
    | none => none
    | some (o, []) => some [o]
    | some (o, c :: a) => if c = ':' ∧ n ≠ 0 then (etherWords n a).map (o :: ·) else none

/-- Six bytes, or three words of two bytes.
Source: `parser.c` `my_ether_aton`, `parse_mac_addr`
Kind: D -/
def parseMacAddr (token : String) : Option EtherAddr :=
  match etherWords 6 token.toList with
  | none => none
  | some o =>
    if h : o.length = 6 then
      if o.all fun x => x.toNat ≤ 0xff then
        some ⟨o.map fun x => x.setWidth 8, by rw [List.length_map, h]⟩
      else none
    else if h : o.length = 3 then
      if o.all fun x => x.toNat ≤ 0xffff then
        some ⟨o.flatMap fun (x : BitVec 64) => [(x >>> 8).setWidth 8, x.setWidth 8], by
          simp [List.length_flatMap, List.map_const', h]⟩
      else none
    else none

/-- The two addresses of a header. -/
def readEther (tokens : List String) (i : ℕ) : Parse EtherHdr := do
  let da ← arg tokens i
  let da ← orSilent (parseMacAddr da)
  let sa ← arg tokens (i + 1)
  let sa ← orSilent (parseMacAddr sa)
  .ok ⟨da, sa⟩

/-! ### The parts of an action -/

section Parts

variable (inet : InetPton) (tokens : List String)

/-- Source: `cli.c` `parse_table_action_fwd`. Kind: D -/
def parseTableActionFwd : Parse (FwdAction × ℕ) := do
  ensure (1 ≤ tokens.length) .silent
  expect tokens 0 "fwd"
  ensure (2 ≤ tokens.length) .silent
  let kind ← arg tokens 1
  if kind = "drop" then .ok (.drop, 2)
  else if kind = "port" then do
    ensure (3 ≤ tokens.length) .silent
    let id ← readSilent tokens 2 parserReadUint32
    .ok (.port id, 3)
  else if kind = "meta" then .ok (.portMeta, 2)
  else if kind = "table" then do
    ensure (3 ≤ tokens.length) .silent
    let id ← readSilent tokens 2 parserReadUint32
    .ok (.table id, 3)
  else .error .silent

/-- Source: `cli.c` `parse_table_action_balance`. Kind: D -/
def parseTableActionBalance : Parse (LbParams × ℕ) := do
  ensure (1 ≤ tokens.length) .silent
  expect tokens 0 "balance"
  ensure (9 ≤ tokens.length) .silent
  let out ← ((tokens.drop 1).take 8).mapM (readToken parserReadUint32)
  if h : out.length = 8 then .ok (⟨out, h⟩, 9) else .error .silent

/-- Source: `cli.c` `parse_policer_action`. Kind: D -/
def parsePolicerAction (token : String) : Option Policer :=
  if token = "g" then some .green
  else if token = "y" then some .yellow
  else if token = "r" then some .red
  else if token = "drop" then some .drop
  else none

/-- What is done to packets of a color: the name of the color, then the policer. -/
def readPolicer (i : ℕ) (name : String) : Parse Policer := do
  expect tokens i name
  let t ← arg tokens (i + 1)
  orSilent (parsePolicerAction t)

/-- Source: `cli.c` `parse_table_action_meter_tc`. Kind: D -/
def parseTableActionMeterTc (tokens : List String) : Parse MtrTcParams := do
  ensure (9 ≤ tokens.length) .silent
  expect tokens 0 "meter"
  let id ← readSilent tokens 1 parserReadUint32
  expect tokens 2 "policer"
  let g ← readPolicer tokens 3 "g"
  let y ← readPolicer tokens 5 "y"
  let r ← readPolicer tokens 7 "r"
  .ok ⟨id, g, y, r⟩

/-- One traffic class, or four.
Source: `cli.c` `parse_table_action_meter`
Kind: D -/
def parseTableActionMeter : Parse (MtrParams × ℕ) := do
  ensure (1 ≤ tokens.length) .silent
  expect tokens 0 "meter"
  ensure (11 ≤ tokens.length) .silent
  expect tokens 1 "tc0"
  let tc0 ← parseTableActionMeterTc (tokens.drop 2)
  let tokens := tokens.drop 11
  if tokens.head? ≠ some "tc1" then .ok (.one tc0, 11)
  else do
    ensure (30 ≤ tokens.length) .silent
    let tc1 ← parseTableActionMeterTc (tokens.drop 1)
    expect tokens 10 "tc2"
    let tc2 ← parseTableActionMeterTc (tokens.drop 11)
    expect tokens 20 "tc3"
    let tc3 ← parseTableActionMeterTc (tokens.drop 21)
    .ok (.four tc0 tc1 tc2 tc3, 41)

/-- Source: `cli.c` `parse_table_action_tm`. Kind: D -/
def parseTableActionTm : Parse (TmParams × ℕ) := do
  ensure (5 ≤ tokens.length) .silent
  expect tokens 0 "tm"
  expect tokens 1 "subport"
  let subportId ← readSilent tokens 2 parserReadUint32
  expect tokens 3 "pipe"
  let pipeId ← readSilent tokens 4 parserReadUint32
  .ok (⟨subportId, pipeId⟩, 5)

/-- `<pcp> <dei> <vid>`. -/
def readVlan (i : ℕ) : Parse VlanHdr := do
  let pcp ← readBounded tokens i 3
  let dei ← readBounded tokens (i + 1) 1
  let vid ← readBounded tokens (i + 2) 12
  .ok ⟨pcp, dei, vid⟩

/-- `<label> <tc> <ttl>`. -/
def readMplsLabel (i : ℕ) : Parse MplsHdr := do
  let label ← readBounded tokens i 20
  let tc ← readBounded tokens (i + 1) 3
  let ttl ← readBounded tokens (i + 2) 6
  .ok ⟨label, tc, ttl⟩

/-- The labels after the first, as long as their names stand in front of them. -/
def parseMplsMore : List String → List String → Parse (List MplsHdr)
  | [], _ => .ok []
  | name :: names, tokens =>
    if tokens.head? ≠ some name then .ok []
    else do
      ensure (4 ≤ tokens.length) .silent
      let label ← readMplsLabel tokens 1
      let more ← parseMplsMore names (tokens.drop 4)
      .ok (label :: more)

/-- Source: `cli.c` `parse_table_action_encap`, `mpls`. Kind: D -/
def parseEncapMpls : Parse (EncapParams × ℕ) := do
  ensure (8 ≤ tokens.length) .silent
  let kind ← arg tokens 1
  let unicast ←
    if kind = "unicast" then .ok true
    else if kind = "multicast" then .ok false
    else .error .silent
  let hdr ← readEther tokens 2
  expect tokens 4 "label0"
  let label0 ← readMplsLabel tokens 5
  let more ← parseMplsMore ["label1", "label2", "label3"] (tokens.drop 8)
  if h : more.length ≤ 3 then
    .ok (.mpls unicast hdr ⟨label0, more, h⟩, 1 + 8 + 4 * more.length)
  else .error .silent

/-- The header of a tunnel and the number of its tokens.
Source: `cli.c` `parse_table_action_encap`, `ipv4 .. | ipv6 ..`
Kind: D -/
def parseVxlanIp : Parse (Mem × ℕ) := do
  let kind ← arg tokens 0
  if kind = "ipv4" then do
    ensure (5 ≤ tokens.length) .silent
    let sa ← arg tokens 1
    let sa ← orSilent (parseIpv4Addr inet sa)
    let da ← arg tokens 2
    let da ← orSilent (parseIpv4Addr inet da)
    let dscp ← readSilent tokens 3 parserReadUint8
    ensure (dscp.toNat ≤ 64) .silent
    let ttl ← readSilent tokens 4 parserReadUint8
    .ok ((((Mem.zero.set VxlanIp.ipv4Sa (bswap32 (sa.load 0 4))).set VxlanIp.ipv4Da
      (bswap32 (da.load 0 4))).set VxlanIp.ipv4Dscp dscp.toNat).set VxlanIp.ipv4Ttl ttl.toNat, 5)
  else if kind = "ipv6" then do
    ensure (6 ≤ tokens.length) .silent
    let sa ← arg tokens 1
    let sa ← orSilent (parseIpv6Addr inet sa)
    let da ← arg tokens 2
    let da ← orSilent (parseIpv6Addr inet da)
    let flowLabel ← readSilent tokens 3 parserReadUint32
    let dscp ← readSilent tokens 4 parserReadUint8
    ensure (dscp.toNat ≤ 64) .silent
    let hopLimit ← readSilent tokens 5 parserReadUint8
    .ok (((((Mem.zero.copy VxlanIp.ipv6Sa 16 sa).copy VxlanIp.ipv6Da 16 da).set
      VxlanIp.ipv6FlowLabel flowLabel.toNat).set VxlanIp.ipv6Dscp dscp.toNat).set
      VxlanIp.ipv6HopLimit hopLimit.toNat, 6)
  else .error .silent

/-- The optional vlan and the number of its tokens. -/
def parseVxlanVlan : Parse (VlanHdr × ℕ) := do
  let kind ← arg tokens 0
  if kind = "vlan" then do
    ensure (4 ≤ tokens.length) .silent
    let vlan ← readVlan tokens 1
    .ok (vlan, 4)
  else .ok (⟨0, 0, 0⟩, 0)

/-- Source: `cli.c` `parse_table_action_encap`, `vxlan`. Kind: D -/
def parseEncapVxlan : Parse (EncapParams × ℕ) := do
  let tokens := tokens.drop 1
  ensure (3 ≤ tokens.length) .silent
  expect tokens 0 "ether"
  let hdr ← readEther tokens 1
  let tokens := tokens.drop 3
  let (vlan, nVlan) ← parseVxlanVlan tokens
  let tokens := tokens.drop nVlan
  let (ip, nIp) ← parseVxlanIp inet tokens
  let tokens := tokens.drop nIp
  ensure (3 ≤ tokens.length) .silent
  expect tokens 0 "udp"
  let sp ← readSilent tokens 1 parserReadUint16
  let dp ← readSilent tokens 2 parserReadUint16
  let tokens := tokens.drop 3
  ensure (2 ≤ tokens.length) .silent
  expect tokens 0 "vxlan"
  let vni ← readBounded tokens 1 24
  .ok (.vxlan hdr vlan ip sp dp vni, 1 + (1 + 3 + nVlan + nIp + 3 + 2))

/-- Source: `cli.c` `parse_table_action_encap`. Kind: D -/
def parseTableActionEncap : Parse (EncapParams × ℕ) := do
  ensure (1 ≤ tokens.length) .silent
  expect tokens 0 "encap"
  let tokens := tokens.drop 1
  match tokens.head? with
  | none => .error .silent
  | some kind =>
    if kind = "ether" then do
      ensure (3 ≤ tokens.length) .silent
      let hdr ← readEther tokens 1
      .ok (.ether hdr, 1 + 3)
    else if kind = "vlan" then do
      ensure (6 ≤ tokens.length) .silent
      let hdr ← readEther tokens 1
      let vlan ← readVlan tokens 3
      .ok (.vlan hdr vlan, 1 + 6)
    else if kind = "qinq" then do
      ensure (9 ≤ tokens.length) .silent
      let hdr ← readEther tokens 1
      let svlan ← readVlan tokens 3
      let cvlan ← readVlan tokens 6
      .ok (.qinq hdr svlan cvlan, 1 + 9)
    else if kind = "qinq_pppoe" then do
      ensure (10 ≤ tokens.length) .silent
      let hdr ← readEther tokens 1
      let svlan ← readVlan tokens 3
      let cvlan ← readVlan tokens 6
      let sessionId ← readSilent tokens 9 parserReadUint16
      .ok (.qinqPppoe hdr svlan cvlan sessionId, 1 + 10)
    else if kind = "mpls" then parseEncapMpls tokens
    else if kind = "pppoe" then do
      ensure (4 ≤ tokens.length) .silent
      let hdr ← readEther tokens 1
      let sessionId ← readSilent tokens 3 parserReadUint16
      .ok (.pppoe hdr sessionId, 1 + 4)
    else if kind = "vxlan" then parseEncapVxlan inet tokens
    else .error .silent

/-- Source: `cli.c` `parse_table_action_nat`. Kind: D -/
def parseTableActionNat : Parse (NatParams × ℕ) := do
  ensure (4 ≤ tokens.length) .silent
  expect tokens 0 "nat"
  let version ← arg tokens 1
  let addr ← arg tokens 2
  if version = "ipv4" then do
    let addr ← orSilent (parseIpv4Addr inet addr)
    let port ← readSilent tokens 3 parserReadUint16
    .ok (.ipv4 (.ofNat 32 (bswap32 (addr.load 0 4))) port, 4)
  else if version = "ipv6" then do
    let addr ← orSilent (parseIpv6Addr inet addr)
    let port ← readSilent tokens 3 parserReadUint16
    .ok (.ipv6 (addr.bytes 16) port, 4)
  else .error .silent

/-- `ttl.decrement`.
Source: `cli.c` `parse_table_action_ttl`
Kind: D -/
def parseTableActionTtl : Parse (Bool × ℕ) := do
  ensure (2 ≤ tokens.length) .silent
  expect tokens 0 "ttl"
  let kind ← arg tokens 1
  if kind = "dec" then .ok (true, 2)
  else if kind = "keep" then .ok (false, 2)
  else .error .silent

/-- The common text of `parse_table_action_stats` and `parse_table_action_time`. -/
def parseTableActionFlag (name : String) (tokens : List String) : Parse (Unit × ℕ) := do
  ensure (1 ≤ tokens.length) .silent
  expect tokens 0 name
  .ok ((), 1)

/-- Source: `cli.c` `parse_table_action_stats`. Kind: D -/
def parseTableActionStats := parseTableActionFlag "stats"
/-- Source: `cli.c` `parse_table_action_time`. Kind: D -/
def parseTableActionTime := parseTableActionFlag "time"

/-- The common text of `parse_table_action_tag` and `parse_table_action_decap`. -/
def parseTableActionUint {w : ℕ} (name : String) (read : String → Except Errno (BitVec w))
    (tokens : List String) : Parse (BitVec w × ℕ) := do
  ensure (2 ≤ tokens.length) .silent
  expect tokens 0 name
  let v ← readSilent tokens 1 read
  .ok (v, 2)

/-- Source: `cli.c` `parse_table_action_tag`. Kind: D -/
def parseTableActionTag := parseTableActionUint "tag" parserReadUint32
/-- Source: `cli.c` `parse_table_action_decap`. Kind: D -/
def parseTableActionDecap := parseTableActionUint "decap" parserReadUint16

end Parts

/-! ### `parse_table_action` -/

/-- One of the twelve blocks of `parse_table_action`: the part, where its name is the next token,
and the tokens after it. -/
def actionPart {α : Type} (name : String) (part : List String → Parse (α × ℕ))
    (tokens : List String) : Parse (Option α × List String) :=
  if tokens.head? = some name then
    match part tokens with
    | .ok (a, n) => .ok (some a, tokens.drop n)
    | .error (.unread i) => .error (.unread i)
    | .error _ => .error (.argInvalid ("action " ++ name))
  else .ok (none, tokens)

section Action

variable {S : Type} (inet : InetPton) (symCrypto : List String → Parse (S × ℕ))
  (tokens : List String)

/-- The block of `sym_crypto` does not return where its part fails.
Source: `cli.c` `parse_table_action`, `sym_crypto`
Kind: D -/
def actionPartSymCrypto : Parse (Option S × List String) :=
  if tokens.head? = some "sym_crypto" then
    match symCrypto tokens with
    | .ok (a, n) => .ok (some a, tokens.drop n)
    | .error (.unread i) => .error (.unread i)
    | .error _ => .ok (none, tokens)
  else .ok (none, tokens)

/-- The parsed action and the number of tokens it took.
Source: `cli.c` `parse_table_action`
Kind: D -/
def parseTableAction : Parse (TableRuleAction S × ℕ) := do
  ensure (2 ≤ tokens.length) .silent
  expect tokens 0 "action"
  let (fwd, left) ← actionPart "fwd" parseTableActionFwd (tokens.drop 1)
  let (lb, left) ← actionPart "balance" parseTableActionBalance left
  let (mtr, left) ← actionPart "meter" parseTableActionMeter left
  let (tm, left) ← actionPart "tm" parseTableActionTm left
  let (encap, left) ← actionPart "encap" (parseTableActionEncap inet) left
  let (nat, left) ← actionPart "nat" (parseTableActionNat inet) left
  let (ttl, left) ← actionPart "ttl" parseTableActionTtl left
  let (stats, left) ← actionPart "stats" parseTableActionStats left
  let (time, left) ← actionPart "time" parseTableActionTime left
  let (crypto, left) ← actionPartSymCrypto symCrypto left
  let (tag, left) ← actionPart "tag" parseTableActionTag left
  let (decap, left) ← actionPart "decap" parseTableActionDecap left
  ensure (tokens.length - left.length ≠ 1) (.argInvalid "action")
  .ok (⟨fwd, lb, mtr, tm, encap, nat, ttl, stats.isSome, time.isSome, crypto, tag, decap⟩,
    tokens.length - left.length)

end Action

/-! ### `action_check` -/

/-- What an action is checked against, and what a printer of rules reads besides the rule.
Source: DPDK `struct rte_table_action_*_config`, as `action.h` `struct table_action_profile_params`
holds them
Kind: D -/
structure ActionProfile where
  /-- The bits of `action_mask`, in the order of the parts of an action. -/
  actionMask : List Bool
  /-- `common.ip_version` is not 0: the table is for ipv4. -/
  ipv4 : Bool
  nTc : ℕ
  nSubportsPerPort : ℕ
  nPipesPerSubport : ℕ
  encapMask : List EncapType
  /-- `encap.vxlan.vlan`. -/
  vxlanVlan : Bool
  /-- `encap.vxlan.ip_version` is not 0. -/
  vxlanIpv4 : Bool

/-- The bits of `action_mask`. -/
def TableRuleAction.actionMask {S : Type} (a : TableRuleAction S) : List Bool :=
  [a.fwd.isSome, a.lb.isSome, a.mtr.isSome, a.tm.isSome, a.encap.isSome, a.nat.isSome,
    a.ttl.isSome, a.stats, a.time, a.symCrypto.isSome, a.tag.isSome, a.decap.isSome]

/-- The port or the table is there.
Source: `thread.c` `action_check`, `action_default_check`
Kind: D -/
def fwdCheck (nPortsOut nTables : ℕ) : FwdAction → Bool
  | .port id => id.toNat < nPortsOut
  | .table id => id.toNat < nTables
  | .drop => true
  | .portMeta => true

/-- The action is fit for the table: 0 of `action_check` is `true`.
Source: `thread.c` `action_check`
Kind: D -/
def actionCheck {S : Type} (ap : ActionProfile) (nPortsOut nTables : ℕ) (a : TableRuleAction S) :
    Bool :=
  a.actionMask = ap.actionMask &&
    a.fwd.all (fwdCheck nPortsOut nTables) &&
    (a.mtr.all fun mtr => mtr.tcMask = 2 ^ ap.nTc - 1) &&
    (a.tm.all fun tm =>
      tm.subportId.toNat < ap.nSubportsPerPort && tm.pipeId.toNat < ap.nPipesPerSubport) &&
    (a.encap.all fun encap => encap.type ∈ ap.encapMask) &&
    a.nat.all fun
      | .ipv4 _ _ => ap.ipv4
      | .ipv6 _ _ => !ap.ipv4

end Rids.Pipeline
