import Rids.Cli.DeviceCommands

/-!
# Commands on action profiles (`cli.c`)

A profile is a row of parts, each announced by its name, in a fixed order; each may be missing.
-/

namespace Rids.Cli

open Rids.Lib.ByteMem Rids.Pipeline

/-! ### Reading the parts of a profile -/

/-- The part, where its name is the next token, and the tokens after it. -/
def optionalPart {α : Type} (name : String) (part : List String → Parse (α × ℕ))
    (tokens : List String) : Parse (Option α × List String) :=
  if tokens.head? = some name then do
    let (a, n) ← part tokens
    .ok (some a, tokens.drop n)
  else .ok (none, tokens)

/-- A part that is its name. -/
def flagPart (_ : List String) : Parse (Unit × ℕ) := .ok ((), 1)

section Readers

variable (tokens : List String) (i : ℕ)

/-- The bytes of a hex string of at most `size` bytes, and their number. -/
def readHex (name : String) (size : ℕ) : Parse (Mem × ℕ) := do
  let t ← arg tokens i
  match parseHexString t size with
  | some x => .ok x
  | none => .error (.argInvalid name)

/-- The bytes of a hex string of `size` bytes. -/
def readHexFull (name : String) (size : ℕ) : Parse Mem := do
  let (bytes, n) ← readHex tokens i name size
  ensure (n = size) (.argInvalid name)
  .ok bytes

/-- The counters that are kept, `none`, `pkts`, `bytes` or `both` of them. -/
def readCounters (e : ParseError) (noneToo : Bool) : Parse (Bool × Bool) := do
  let t ← arg tokens i
  if noneToo ∧ t = "none" then .ok (false, false)
  else if t = "pkts" then .ok (true, false)
  else if t = "bytes" then .ok (false, true)
  else if t = "both" then .ok (true, true)
  else .error e

end Readers

/-! ### `port in action profile` -/

/-- `RTE_PORT_IN_ACTION_FLTR_KEY_SIZE`. -/
def fltrKeySize : ℕ := 16

/-- `RTE_PORT_IN_ACTION_LB_KEY_SIZE_MAX`. -/
def lbKeySizeMax : ℕ := 64

section PortIn

variable (tokens : List String)

/-- Source: `cli.c` `cmd_port_in_action_profile`, `filter`. Kind: D -/
def portInFilter : Parse (FltrConfig × ℕ) := do
  ensure (10 ≤ tokens.length) (.argMismatch "port in action profile filter")
  let filterOnMatch ←
    readSwitch tokens 1 "match" "mismatch" (.argInvalid "match or mismatch")
  let keyOffset ← readNamed tokens 2 "offset" "key_offset" parserReadUint32
  keyword tokens 4 "mask"
  let keyMask ← readHexFull tokens 5 "key_mask" fltrKeySize
  keyword tokens 6 "key"
  let key ← readHexFull tokens 7 "key_value" fltrKeySize
  let portId ← readNamed tokens 8 "port" "port_id" parserReadUint32
  .ok (⟨filterOnMatch, keyOffset, keyMask, key, portId⟩, 10)

/-- Source: `cli.c` `cmd_port_in_action_profile`, `balance`. Kind: D -/
def portInBalance : Parse (PortInLbConfig × ℕ) := do
  ensure (22 ≤ tokens.length) (.argMismatch "port in action profile balance")
  let keyOffset ← readNamed tokens 1 "offset" "key_offset" parserReadUint32
  keyword tokens 3 "mask"
  let (keyMask, keySize) ← readHex tokens 4 "key_mask" lbKeySizeMax
  keyword tokens 5 "port"
  let portId ← readUints tokens 6 16 "port_id" parserReadUint32
  .ok (⟨keyOffset, keyMask, keySize, portId⟩, 22)

/-- Source: `cli.c` `cmd_port_in_action_profile`. Kind: D -/
def cmdPortInActionProfile : Parse (String × PortInActionProfileParams) := do
  ensure (5 ≤ tokens.length) (mismatch tokens)
  keyword tokens 1 "in"
  keyword tokens 2 "action"
  keyword tokens 3 "profile"
  let name ← arg tokens 4
  let (fltr, left) ← optionalPart "filter" portInFilter (tokens.drop 5)
  let (lb, left) ← optionalPart "balance" portInBalance left
  ensure left.isEmpty (mismatch tokens)
  .ok (name, ⟨fltr, lb⟩)

end PortIn

/-! ### `table action profile` -/

section Table

variable (cryptodevFind : String → Option Cryptodev) (tokens : List String)

/-- Source: `cli.c` `cmd_table_action_profile`, `balance`. Kind: D -/
def tableBalance : Parse (LbConfig × ℕ) := do
  ensure (7 ≤ tokens.length) (.argMismatch "table action profile balance")
  let keyOffset ← readNamed tokens 1 "offset" "key_offset" parserReadUint32
  keyword tokens 3 "mask"
  let (keyMask, keySize) ← readHex tokens 4 "key_mask" lbKeySizeMax
  let outOffset ← readNamed tokens 5 "outoffset" "out_offset" parserReadUint32
  .ok (⟨keyOffset, keyMask, keySize, outOffset⟩, 7)

/-- Source: `cli.c` `cmd_table_action_profile`, `meter`. Kind: D -/
def tableMeter : Parse (MtrConfig × ℕ) := do
  ensure (6 ≤ tokens.length) (.argMismatch "table action profile meter")
  let srtcm ← readSwitch tokens 1 "srtcm" "trtcm" (.argNotFound "srtcm or trtcm")
  let nTc ← readNamed tokens 2 "tc" "n_tc" parserReadUint32
  keyword tokens 4 "stats"
  let (nPackets, nBytes) ←
    readCounters tokens 5 (.argNotFound "none or pkts or bytes or both") true
  .ok (⟨if srtcm then .srtcm else .trtcm, nTc, nPackets, nBytes⟩, 6)

/-- Source: `cli.c` `cmd_table_action_profile`, `tm`. Kind: D -/
def tableTm : Parse (TmConfig × ℕ) := do
  ensure (5 ≤ tokens.length) (.argMismatch "table action profile tm")
  let nSubportsPerPort ← readNamed tokens 1 "spp" "n_subports_per_port" parserReadUint32
  let nPipesPerSubport ← readNamed tokens 3 "pps" "n_pipes_per_subport" parserReadUint32
  .ok (⟨nSubportsPerPort, nPipesPerSubport⟩, 5)

/-- Source: `cli.c` `cmd_table_action_profile`, `encap vxlan`. Kind: D -/
def tableEncapVxlan : Parse VxlanConfig := do
  ensure (7 ≤ tokens.length) (.argMismatch "action profile encap vxlan")
  let offset ← arg tokens 2
  ensure (offset = "offset") (.argNotFound "vxlan: offset")
  let dataOffset ← readUint tokens 3 "vxlan: ether_offset" parserReadUint32
  let ipv4 ← readSwitch tokens 4 "ipv4" "ipv6" (.argInvalid "vxlan: ipv4 or ipv6")
  let vlan ← arg tokens 5
  ensure (vlan = "vlan") (.argNotFound "vxlan: vlan")
  let vlan ← readSwitch tokens 6 "on" "off" (.argInvalid "vxlan: on or off")
  .ok ⟨dataOffset, ipv4, vlan⟩

/-- Source: `cli.c` `cmd_table_action_profile`, `encap`. Kind: D -/
def tableEncap : Parse (EncapConfig × ℕ) := do
  ensure (2 ≤ tokens.length) (.argMismatch "action profile encap")
  let kind ← arg tokens 1
  if kind = "ether" then .ok (⟨.ether, ⟨0, false, false⟩⟩, 2)
  else if kind = "vlan" then .ok (⟨.vlan, ⟨0, false, false⟩⟩, 2)
  else if kind = "qinq" then .ok (⟨.qinq, ⟨0, false, false⟩⟩, 2)
  else if kind = "mpls" then .ok (⟨.mpls, ⟨0, false, false⟩⟩, 2)
  else if kind = "pppoe" then .ok (⟨.pppoe, ⟨0, false, false⟩⟩, 2)
  else if kind = "vxlan" then do
    let vxlan ← tableEncapVxlan tokens
    .ok (⟨.vxlan, vxlan⟩, 2 + 5)
  else if kind = "qinq_pppoe" then .ok (⟨.qinqPppoe, ⟨0, false, false⟩⟩, 2)
  else .error (.argMismatch "encap")

/-- Source: `cli.c` `cmd_table_action_profile`, `nat`. Kind: D -/
def tableNat : Parse (NatConfig × ℕ) := do
  ensure (4 ≤ tokens.length) (.argMismatch "table action profile nat")
  let sourceNat ← readSwitch tokens 1 "src" "dst" (.argNotFound "src or dst")
  keyword tokens 2 "proto"
  let tcp ← readSwitch tokens 3 "tcp" "udp" (.argNotFound "tcp or udp")
  .ok (⟨sourceNat, if tcp then 0x06 else 0x11⟩, 4)

/-- Source: `cli.c` `cmd_table_action_profile`, `ttl`. Kind: D -/
def tableTtl : Parse (TtlConfig × ℕ) := do
  ensure (4 ≤ tokens.length) (.argMismatch "table action profile ttl")
  let drop ← readSwitch tokens 1 "drop" "fwd" (.argNotFound "drop or fwd")
  keyword tokens 2 "stats"
  let nPackets ← readSwitch tokens 3 "pkts" "none" (.argNotFound "none or pkts")
  .ok (⟨drop, nPackets⟩, 4)

/-- Source: `cli.c` `cmd_table_action_profile`, `stats`. Kind: D -/
def tableStats : Parse (StatsConfig × ℕ) := do
  ensure (2 ≤ tokens.length) (.argMismatch "table action profile stats")
  let (nPackets, nBytes) ← readCounters tokens 1 (.argNotFound "pkts or bytes or both") false
  .ok (⟨nPackets, nBytes⟩, 2)

/-- Source: `cli.c` `cmd_table_action_profile`, `sym_crypto`. Kind: D -/
def tableSymCrypto : Parse (SymCryptoConfig × ℕ) := do
  ensure (5 ≤ tokens.length) (.argMismatch "table action profile sym_crypto")
  let dev ← arg tokens 1
  ensure (dev = "dev") (.argMismatch "table action profile sym_crypto")
  let offset ← arg tokens 3
  ensure (offset = "offset") (.argMismatch "table action profile sym_crypto")
  let devName ← arg tokens 2
  match cryptodevFind devName with
  | none => .error (.argInvalid "table action profile sym_crypto")
  | some cryptodev => do
    let opOffset ← readUint tokens 4 "table action profile sym_crypto" parserReadUint32
    .ok (⟨cryptodev.devId, opOffset, cryptodev.mpCreate, cryptodev.mpInit⟩, 5)

/-- Source: `cli.c` `cmd_table_action_profile`. Kind: D -/
def cmdTableActionProfile : Parse (String × TableActionProfileParams) := do
  ensure (8 ≤ tokens.length) (mismatch tokens)
  keyword tokens 1 "action"
  keyword tokens 2 "profile"
  let name ← arg tokens 3
  let ipv4 ← readSwitch tokens 4 "ipv4" "ipv6" (.argInvalid "ipv4 or ipv6")
  let ipOffset ← readNamed tokens 5 "offset" "ip_offset" parserReadUint32
  keyword tokens 7 "fwd"
  let (lb, left) ← optionalPart "balance" tableBalance (tokens.drop 8)
  let (mtr, left) ← optionalPart "meter" tableMeter left
  let (tm, left) ← optionalPart "tm" tableTm left
  let (encap, left) ← optionalPart "encap" tableEncap left
  let (nat, left) ← optionalPart "nat" tableNat left
  let (ttl, left) ← optionalPart "ttl" tableTtl left
  let (stats, left) ← optionalPart "stats" tableStats left
  let (time, left) ← optionalPart "time" flagPart left
  let (symCrypto, left) ← optionalPart "sym_crypto" (tableSymCrypto cryptodevFind) left
  let (tag, left) ← optionalPart "tag" flagPart left
  let (decap, left) ← optionalPart "decap" flagPart left
  ensure left.isEmpty (mismatch tokens)
  .ok (name, ⟨ipv4, ipOffset, lb, mtr, tm, encap, nat, ttl, stats, time.isSome, symCrypto,
    tag.isSome, decap.isSome⟩)

end Table

end Rids.Cli
