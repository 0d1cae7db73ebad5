import Rids.Pipeline.CommandLine
import Rids.Pipeline.RuleStore
import Rids.Pipeline.TableAction

/-!
# Rule files: show and load (`cli.c`)

`table_rule_show` writes the rules of a table to a file, `cli_rule_file_process` reads a file of
rules. The printer writes words with a blank after each (`spaced`); where it misses a blank, two
words are written as one, where it has one too many, the empty word stands for it.
-/

namespace Rids.Pipeline

open Rids.Lib.ByteMem

/-! ### Writing -/

/-- Each word with a blank after it. -/
def spaced (ws : List String) : List Char := ws.flatMap fun w => w.toList ++ [' ']

/-- `%u`. -/
def showUint (n : ℕ) : String := n.repr

/-- `%02x` of a byte. -/
def showByte (b : BitVec 8) : List Char := [(b.toNat / 16).digitChar, (b.toNat % 16).digitChar]

/-- Source: `cli.c` `ether_addr_show`. Kind: D -/
def etherAddrShow (addr : EtherAddr) : String :=
  .ofList (List.intercalate [':'] (addr.bytes.map showByte))

/-- Source: `cli.c` `ipv4_addr_show`. Kind: D -/
def ipv4AddrShow (addr : ℕ) : String :=
  showUint (addr / 2 ^ 24) ++ "." ++ showUint (addr / 2 ^ 16 % 256) ++ "." ++
    showUint (addr / 2 ^ 8 % 256) ++ "." ++ showUint (addr % 256)

/-- Every group of four digits has a colon after it, the last one too.
Source: `cli.c` `ipv6_addr_show`
Kind: D -/
def ipv6AddrShow (addr : Mem) : String :=
  .ofList ((List.range 8).flatMap fun i =>
    showByte (addr (2 * i)) ++ showByte (addr (2 * i + 1)) ++ [':'])

/-- Source: `cli.c` `policer_action_string`. Kind: D -/
def policerActionString : Policer → String
  | .green => "G"
  | .yellow => "Y"
  | .red => "R"
  | .drop => "D"

/-- The sizes of a key that `pipeline_table_create` accepts.
Source: `pipeline.c` `pipeline_table_create`, `TABLE_HASH`
Kind: D -/
abbrev HashKeySize := {n : ℕ // n ∈ [8, 16, 24, 32, 40, 48, 56, 64]}

/-- The match of a rule, where `keySize` is the size of a key of the table if it is a hash table.
There are no blanks around the addresses, and none behind `raw`.
Source: `cli.c` `table_rule_show`, `m->match_type`
Kind: D -/
def matchShow (keySize : ℕ) (m : TableRuleMatch) : List Char :=
  spaced ["match"] ++
    match m.matchType with
    | .acl =>
      spaced ["acl", "priority", showUint (m.mem.get Acl.priority)] ++
        if m.mem.get Acl.ipVersion = 2 then "raw".toList
        else
          let addr (ipv4 : Field) (ipv6 : ℕ) : String :=
            if m.mem.get Acl.ipVersion = 1 then ipv4AddrShow (m.mem.get ipv4)
            else ipv6AddrShow (m.mem.drop ipv6)
          spaced [if m.mem.get Acl.ipVersion ≠ 0 then "ipv4" else "ipv6"] ++
            (addr Acl.ipv4Sa Acl.ipv6Sa).toList ++ (showUint (m.mem.get Acl.saDepth)).toList ++
            (addr Acl.ipv4Da Acl.ipv6Da).toList ++ (showUint (m.mem.get Acl.daDepth)).toList ++
            spaced [showUint (m.mem.get Acl.sp0), showUint (m.mem.get Acl.sp1),
              showUint (m.mem.get Acl.dp0), showUint (m.mem.get Acl.dp1),
              showUint (m.mem.get Acl.proto)]
    | .array => spaced ["array", showUint (m.mem.get ArrayKey.pos)]
    | .hash =>
      spaced ["hash", "raw", .ofList ((m.mem.bytes keySize).flatMap showByte)]
    | .lpm =>
      spaced ["lpm", if m.mem.get Lpm.ipVersion ≠ 0 then "ipv4" else "ipv6"] ++
        (if m.mem.get Acl.ipVersion ≠ 0 then ipv4AddrShow (m.mem.get Lpm.ipv4)
          else ipv6AddrShow (m.mem.drop Lpm.ipv6)).toList ++
        spaced [showUint (m.mem.get Lpm.depth)]
    | .stub => spaced ["unknown"]

/-- Source: `cli.c` `table_rule_show`, `RTE_TABLE_ACTION_FWD`. Kind: D -/
def fwdWords : FwdAction → List String
  | .drop => ["fwd", "drop"]
  | .port id => ["fwd", "port", showUint id.toNat]
  | .portMeta => ["fwd", "meta"]
  | .table id => ["fwd", "table", showUint id.toNat]

/-- Source: `cli.c` `table_rule_show`, `RTE_TABLE_ACTION_LB`. Kind: D -/
def lbWords (lb : LbParams) : List String := "balance" :: lb.out.map fun id => showUint id.toNat

/-- Source: `cli.c` `table_rule_show`, `RTE_TABLE_ACTION_MTR`. Kind: D -/
def mtrWords (mtr : MtrParams) : List String :=
  "mtr" :: mtr.tcs.zipIdx.flatMap fun (p, i) =>
    ["tc" ++ showUint i, "meter", showUint p.meterProfileId.toNat, "policer",
      "g", policerActionString p.green, "y", policerActionString p.yellow,
      "r", policerActionString p.red]

/-- Source: `cli.c` `table_rule_show`, `RTE_TABLE_ACTION_TM`. Kind: D -/
def tmWords (tm : TmParams) : List String :=
  ["tm", "subport", showUint tm.subportId.toNat, "pipe", showUint tm.pipeId.toNat]

/-- The two addresses of a header. -/
def etherWords2 (hdr : EtherHdr) : List String := [etherAddrShow hdr.da, etherAddrShow hdr.sa]

/-- `pcp %u dei %u vid %u`. -/
def vlanWords (vlan : VlanHdr) : List String :=
  ["pcp", showUint vlan.pcp.toNat, "dei", showUint vlan.dei.toNat, "vid",
    showUint vlan.vid.toNat]

/-- The labels, the first of them number `i`. -/
def mplsWords : ℕ → List MplsHdr → List String
  | _, [] => []
  | i, l :: ls =>
    ["label" ++ showUint i, showUint l.label.toNat, showUint l.tc.toNat, showUint l.ttl.toNat] ++
      mplsWords (i + 1) ls

/-- Nothing is written for the ports and the network identifier of a tunnel over ipv4.
Source: `cli.c` `table_rule_show`, `RTE_TABLE_ACTION_ENCAP_VXLAN`
Kind: D -/
def vxlanWords (ap : ActionProfile) (vlan : VlanHdr) (ip : Mem) (sp dp : BitVec 16)
    (vni : BitVec 24) : List String :=
  (if ap.vxlanVlan then "vlan" :: vlanWords vlan ++ [""] else []) ++
    if ap.vxlanIpv4 then
      ["ipv4", ipv4AddrShow (ip.get VxlanIp.ipv4Sa), ipv4AddrShow (ip.get VxlanIp.ipv4Da),
        showUint (ip.get VxlanIp.ipv4Dscp), showUint (ip.get VxlanIp.ipv4Ttl)]
    else
      ["ipv6", ipv6AddrShow (ip.drop VxlanIp.ipv6Sa), ipv6AddrShow (ip.drop VxlanIp.ipv6Da),
        showUint (ip.get VxlanIp.ipv6FlowLabel), showUint (ip.get VxlanIp.ipv6Dscp),
        showUint (ip.get VxlanIp.ipv6HopLimit), "", "udp", showUint sp.toNat, showUint dp.toNat,
        "vxlan", showUint vni.toNat]

/-- Source: `cli.c` `table_rule_show`, `RTE_TABLE_ACTION_ENCAP`. Kind: D -/
def encapWords (ap : ActionProfile) : EncapParams → List String
  | .ether hdr => ["encap", "ether"] ++ etherWords2 hdr
  | .vlan hdr vlan => ["encap", "vlan"] ++ etherWords2 hdr ++ vlanWords vlan
  | .qinq hdr svlan cvlan =>
    ["encap", "qinq"] ++ etherWords2 hdr ++ vlanWords svlan ++ vlanWords cvlan
  | .qinqPppoe _ _ _ _ => ["encap", "unknown"]
  | .mpls unicast hdr labels =>
    ["encap", "mpls", if unicast then "unicast" else "multicast", ""] ++ etherWords2 hdr ++
      mplsWords 0 labels.all
  | .pppoe hdr sessionId => ["encap", "pppoe"] ++ etherWords2 hdr ++ [showUint sessionId.toNat]
  | .vxlan hdr vlan ip sp dp vni =>
    ["encap", "vxlan", "ether"] ++ etherWords2 hdr ++ vxlanWords ap vlan ip sp dp vni

/-- Source: `cli.c` `table_rule_show`, `RTE_TABLE_ACTION_NAT`. Kind: D -/
def natWords : NatParams → List String
  | .ipv4 addr port => ["nat", "ipv4", "", ipv4AddrShow addr.toNat, showUint port.toNat]
  | .ipv6 addr port =>
    ["nat", "ipv6", "", ipv6AddrShow fun i => addr.getD i 0, showUint port.toNat]

/-- Source: `cli.c` `table_rule_show`, `RTE_TABLE_ACTION_TTL`. Kind: D -/
def ttlWords (decrement : Bool) : List String := ["ttl", if decrement then "dec" else "keep"]

/-- Source: `cli.c` `table_rule_show`, `RTE_TABLE_ACTION_TAG`. Kind: D -/
def tagWords (tag : BitVec 32) : List String := ["tag", showUint tag.toNat]

/-- Source: `cli.c` `table_rule_show`, `RTE_TABLE_ACTION_DECAP`. Kind: D -/
def decapWords (n : BitVec 16) : List String := ["decap", showUint n.toNat]

/-- The words of a part that is there. -/
def partWords {α : Type} (f : α → List String) : Option α → List String
  | some a => f a
  | none => []

/-- The word of a part that has no arguments, or whose arguments are not printed. -/
def flagWords (name : String) (b : Bool) : List String := if b then [name] else []

section Show

variable {S D : Type} (keySize : HashKeySize) (ap : ActionProfile)

/-- The parts of an action after `action`.
Source: `cli.c` `table_rule_show`, `a->action_mask`
Kind: D -/
def actionWords (a : TableRuleAction S) : List String :=
  partWords fwdWords a.fwd ++
    (partWords lbWords a.lb ++
    (partWords mtrWords a.mtr ++
    (partWords tmWords a.tm ++
    (partWords (encapWords ap) a.encap ++
    (partWords natWords a.nat ++
    (partWords ttlWords a.ttl ++
    (flagWords "stats" a.stats ++
    (flagWords "time" a.time ++
    (flagWords "sym_crypto" a.symCrypto.isSome ++
    (partWords tagWords a.tag ++
    partWords decapWords a.decap))))))))))

/-- The line of a rule.
Source: `cli.c` `table_rule_show`
Kind: D -/
def ruleShow (r : TableRule (TableRuleAction S) D) : List Char :=
  matchShow keySize r.ruleMatch ++ spaced ("action" :: actionWords ap r.action) ++ ['\n']

/-- The line of the default rule, a comment.
Source: `cli.c` `table_rule_show`, `table->rule_default`
Kind: D -/
def defaultShow (ruleDefault : Option FwdAction) : List Char :=
  spaced (["#", "match", "default", "action"] ++ fwdWords (ruleDefault.getD .drop)) ++ ['\n']

/-- The file of a table.
Source: `cli.c` `table_rule_show`
Kind: D -/
def tableRuleShow (rules : List (TableRule (TableRuleAction S) D))
    (ruleDefault : Option FwdAction) : List Char :=
  rules.flatMap (ruleShow keySize ap) ++ defaultShow ruleDefault

end Show

/-! ### Reading -/

section Load

variable {S : Type} (inet : InetPton) (symCrypto : List String → Parse (S × ℕ))

/-- A rule as a file holds it. -/
abbrev FileRule (S : Type) := TableRuleMatch × TableRuleAction S

/-- The rule of the tokens of a line.
Source: `cli.c` `cli_rule_file_process`, from `Rule match` on
Kind: D -/
def parseFileRule (tokens : List String) : Parse (FileRule S) := do
  let (m, n) ← parseMatch inet tokens
  let (a, n') ← parseTableAction inet symCrypto (tokens.drop n)
  ensure (tokens.length ≤ n + n') .silent
  .ok (m, a)

/-- A line: a rule, nothing, or an error with the message it prints.
Source: `cli.c` `cli_rule_file_process`, the loop
Kind: D -/
def readRuleLine (line : List Char) : Parse (Option (FileRule S)) :=
  let s := cString line
  if isComment s then .ok none
  else
    match parseTokenizeString s with
    | none => .error .silent
    | some [] => .ok none
    | some tokens => (parseFileRule inet symCrypto tokens).map some

/-- `status`, `rule_list`, `n_rules`, `line_number` and what is printed. -/
structure RuleFileResult (S : Type) where
  status : Int
  ruleList : Option (List (FileRule S))
  nRules : ℕ
  lineNumber : ℕ
  message : Option ParseError

/-- The loop, with the number of the line it is at and the rules it has read. -/
def readRuleLines : List (List Char) → ℕ → List (FileRule S) → RuleFileResult S
  | [], lineId, rules => ⟨0, some rules, rules.length, lineId, none⟩
  | line :: lines, lineId, rules =>
    match readRuleLine inet symCrypto line with
    | .error e => ⟨-22, none, rules.length, lineId, some e⟩
    | .ok none => readRuleLines lines (lineId + 1) rules
    | .ok (some r) => readRuleLines lines (lineId + 1) (rules ++ [r])

/-- The `line_len_max` of `cmd_pipeline_table_rule_add_bulk`. -/
def ruleLineLenMax : ℕ := 1024

/-- Source: `cli.c` `cli_rule_file_process`. Kind: D -/
def cliRuleFileProcess (text : List Char) : RuleFileResult S :=
  readRuleLines inet symCrypto (messages ruleLineLenMax ruleLineLenMax text) 1 []

variable {inet symCrypto}

/-- The status is 0 exactly when there is a list of rules. -/
theorem status_readRuleLines (lines : List (List Char)) (lineId : ℕ) (rules : List (FileRule S)) :
    (readRuleLines inet symCrypto lines lineId rules).status = 0 ↔
      (readRuleLines inet symCrypto lines lineId rules).ruleList.isSome = true := by
  induction lines generalizing lineId rules with
  | nil => exact ⟨fun _ => rfl, fun _ => rfl⟩
  | cons line lines ih =>
    unfold readRuleLines
    cases readRuleLine inet symCrypto line with
    | error e => exact ⟨fun h => absurd h (by decide : ¬ (-22 : Int) = 0), fun h => by cases h⟩
    | ok r =>
      cases r with
      | none => exact ih _ _
      | some r => exact ih _ _

/-- A file of rules that ends with a comment is read exactly when each of its rules is. -/
theorem ruleList_readRuleLines {α : Type} {line : α → List Char} {rule : α → Parse (FileRule S)}
    (hline : ∀ a, readRuleLine inet symCrypto (line a) = (rule a).map some) {comment : List Char}
    (hcomment : readRuleLine inet symCrypto comment = .ok none) {as : List α} {lineId : ℕ}
    {rules l : List (FileRule S)} :
    (readRuleLines inet symCrypto (as.map line ++ [comment]) lineId rules).ruleList = some l ↔
      ∃ l', List.Forall₂ (fun a x => rule a = .ok x) as l' ∧ rules ++ l' = l := by
  induction as generalizing lineId rules with
  | nil =>
    rw [List.map_nil, List.nil_append]
    unfold readRuleLines
    rw [hcomment]
    simp [readRuleLines]
  | cons a as ih =>
    rw [List.map_cons, List.cons_append]
    unfold readRuleLines
    rw [hline]
    cases hrule : rule a with
    | error e =>
      constructor
      · intro h
        cases h
      · rintro ⟨l', hl', -⟩
        obtain ⟨x, xs, hx, -, -⟩ := List.forall₂_cons_left_iff.mp hl'
        rw [hrule] at hx
        cases hx
    | ok x =>
      change (readRuleLines inet symCrypto (as.map line ++ [comment]) (lineId + 1)
        (rules ++ [x])).ruleList = some l ↔ _
      rw [ih]
      constructor
      · rintro ⟨l', hl', rfl⟩
        exact ⟨x :: l', .cons hrule hl', (List.append_assoc rules [x] l').symm⟩
      · rintro ⟨l', hl', rfl⟩
        obtain ⟨x', xs, hx, hxs, rfl⟩ := List.forall₂_cons_left_iff.mp hl'
        obtain rfl := Except.ok.inj (hrule.symm.trans hx)
        exact ⟨xs, hxs, List.append_assoc rules [x] xs⟩

end Load

end Rids.Pipeline
