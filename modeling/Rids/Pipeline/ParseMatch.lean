import Rids.Pipeline.Parser

/-!
# Rule matches and their parser (`pipeline.h`, `cli.c`)

`TableRuleMatch` is `struct table_rule_match`: a type and a union whose arms are views of one
memory. The raw arm overlays the acl arm: `origin[8]` and `origin[9]` lie where `sa_depth` and
`da_depth` are, `origin[13]` where `priority` is.

`parseMatch` is `parse_match` with all its branches; an error is the message the source prints.
A token the source reads past the end of its array is the error `unread`.
-/

namespace Rids.Pipeline

open Rids.Lib.ByteMem

/-! ### The structs -/

/-- Source: `pipeline.h` `enum table_type`. Kind: D -/
inductive TableType
  | acl | array | hash | lpm | stub
deriving DecidableEq, Repr

/-- The union `match` of a rule match, as bytes, with the type that names its arm.
Source: `pipeline.h` `struct table_rule_match`
Kind: D -/
structure TableRuleMatch where
  matchType : TableType
  mem : Mem

/-- The size of the union: that of its raw arm. -/
def matchUnionSize : ℕ := 532

/-- `TABLE_RULE_MATCH_SIZE_MAX`. -/
def tableRuleMatchSizeMax : ℕ := 256

namespace TableRuleMatch

/-- What `memset(m, 0, sizeof(*m))` leaves. -/
def zero : TableRuleMatch := ⟨.acl, Mem.zero⟩

/-- `memcmp` of two whole structs is 0.
Source: `pipeline.c` `table_rule_find`
Kind: D -/
def Same (m m' : TableRuleMatch) : Prop :=
  m.matchType = m'.matchType ∧ Mem.EqOn matchUnionSize m.mem m'.mem

instance (m m' : TableRuleMatch) : Decidable (m.Same m') := inferInstanceAs (Decidable (_ ∧ _))

end TableRuleMatch

/-! Source: `pipeline.h` `struct table_rule_match_acl` -/
namespace Acl

def ipVersion : Field := ⟨0, 4⟩
def ipv4Sa : Field := ⟨4, 4⟩
def ipv4Da : Field := ⟨8, 4⟩
def ipv6Sa : ℕ := 4
def ipv6Da : ℕ := 20
def saDepth : Field := ⟨36, 4⟩
def daDepth : Field := ⟨40, 4⟩
def sp0 : Field := ⟨44, 2⟩
def sp1 : Field := ⟨46, 2⟩
def dp0 : Field := ⟨48, 2⟩
def dp1 : Field := ⟨50, 2⟩
def proto : Field := ⟨52, 1⟩
def protoMask : Field := ⟨53, 1⟩
def priority : Field := ⟨56, 4⟩

end Acl

/-! Source: `pipeline.h` `struct table_rule_match_acl_raw` -/
namespace Raw

def origin (i : ℕ) : Field := ⟨4 + 4 * i, 4⟩
def mask (i : ℕ) : Field := ⟨260 + 4 * i, 4⟩
def nFilter : Field := ⟨516, 4⟩
def categoryMask : Field := ⟨520, 4⟩
def proto : Field := ⟨524, 1⟩
def protoMask : Field := ⟨525, 1⟩
def priority : Field := ⟨528, 4⟩

end Raw

/-! Source: `pipeline.h` `struct table_rule_match_array`, `struct table_rule_match_lpm` -/
namespace ArrayKey

def pos : Field := ⟨0, 4⟩

end ArrayKey

namespace Lpm

def ipVersion : Field := ⟨0, 4⟩
def ipv4 : Field := ⟨4, 4⟩
def ipv6 : ℕ := 4
def depth : Field := ⟨20, 1⟩

end Lpm

/-! ### Reading arguments -/

/-- Why `parse_match` returns 0: the message it prints, if any, or a read past the tokens. -/
inductive ParseError
  | silent
  | argNotFound (name : String)
  | argMismatch (name : String)
  | argInvalid (name : String)
  | unread (index : ℕ)
deriving DecidableEq, Repr

/-- A computation of the parser. -/
abbrev Parse := Except ParseError

section Readers

variable (tokens : List String) (i : ℕ) (name : String)

/-- `tokens[i]`. -/
def arg : Parse String :=
  match tokens[i]? with
  | some t => .ok t
  | none => .error (.unread i)

/-- `if (!b) { error; return 0; }` -/
def ensure (b : Bool) (e : ParseError) : Parse Unit := if b then .ok () else .error e

/-- `strcmp(tokens[i], name) != 0` is an error. -/
def keyword : Parse Unit := do
  let t ← arg tokens i
  ensure (t = name) (.argNotFound name)

/-- The calls of `parser_read_uint32` and its siblings: a reader of the widths, on token `i`. -/
def readUint {w : ℕ} (read : String → Except Errno (BitVec w)) : Parse ℕ := do
  let t ← arg tokens i
  match read t with
  | .ok v => .ok v.toNat
  | .error _ => .error (.argInvalid name)

/-- The calls of `parse_ipv4_addr` and `parse_ipv6_addr`. -/
def readAddr (parse : String → Option Mem) : Parse Mem := do
  let t ← arg tokens i
  match parse t with
  | some a => .ok a
  | none => .error (.argInvalid name)

end Readers

/-! ### `parse_match` -/

/-- The number of origin/mask pairs of a raw rule. -/
def nFilterRaw : ℕ := 60

/-- One turn of the loop over the origin/mask pairs. -/
def parseRawPair (tokens : List String) (m : Mem) (i : ℕ) : Parse Mem := do
  let origin ← readUint tokens (6 + i * 2) "origin" parserReadUint32
  let mask ← readUint tokens (7 + i * 2) "mask" parserReadUint32
  .ok ((m.set (Raw.origin i) origin).set (Raw.mask i) mask)

/-- Source: `cli.c` `parse_match`, `acl .. raw`. Kind: D -/
def parseMatchRaw (tokens : List String) (m : Mem) : Parse (Mem × ℕ) := do
  let m := m.set Acl.ipVersion 2
  let categoryMask ← readUint tokens 5 "origin" parserReadUint32
  let m ← (List.range nFilterRaw).foldlM (parseRawPair tokens) m
  let priority ← readUint tokens 3 "priority" parserReadUint32
  let m := m.set Raw.priority priority
  let proto ← readUint tokens (6 + nFilterRaw * 2) "proto" parserReadUint8
  let m := m.set Raw.proto proto
  let protoMask ← readUint tokens (7 + nFilterRaw * 2) "proto_mask" parserReadUint8
  let m := m.set Raw.protoMask protoMask
  let m := m.set Raw.nFilter nFilterRaw
  let m := m.set Raw.categoryMask categoryMask
  .ok (m, nFilterRaw * 2 + 8)

/-- Source: `cli.c` `parse_match`, `acl .. ipv4 <sa> .. <da>`. Kind: D -/
def parseMatchIpv4 (inet : InetPton) (tokens : List String) (m : Mem) : Parse Mem := do
  let m := m.set Acl.ipVersion 1
  let saddr ← readAddr tokens 5 "sa" (parseIpv4Addr inet)
  let m := m.set Acl.ipv4Sa (bswap32 (saddr.load 0 4))
  let daddr ← readAddr tokens 7 "da" (parseIpv4Addr inet)
  .ok (m.set Acl.ipv4Da (bswap32 (daddr.load 0 4)))

/-- Source: `cli.c` `parse_match`, `acl .. ipv6 <sa> .. <da>`. Kind: D -/
def parseMatchIpv6 (inet : InetPton) (tokens : List String) (m : Mem) : Parse Mem := do
  let m := m.set Acl.ipVersion 0
  let saddr ← readAddr tokens 5 "sa" (parseIpv6Addr inet)
  let m := m.copy Acl.ipv6Sa 16 saddr
  let daddr ← readAddr tokens 7 "da" (parseIpv6Addr inet)
  .ok (m.copy Acl.ipv6Da 16 daddr)

/-- Depths, ports and protocol of an IP rule. `proto_mask` is set to 0.
Source: `cli.c` `parse_match`, from `sa_depth` on
Kind: D -/
def parseMatchIpRest (tokens : List String) (m : Mem) : Parse Mem := do
  let saDepth ← readUint tokens 6 "sa_depth" parserReadUint32
  let m := m.set Acl.saDepth saDepth
  let daDepth ← readUint tokens 8 "da_depth" parserReadUint32
  let m := m.set Acl.daDepth daDepth
  let sp0 ← readUint tokens 9 "sp0" parserReadUint16
  let m := m.set Acl.sp0 sp0
  let sp1 ← readUint tokens 10 "sp1" parserReadUint16
  let m := m.set Acl.sp1 sp1
  let dp0 ← readUint tokens 11 "dp0" parserReadUint16
  let m := m.set Acl.dp0 dp0
  let dp1 ← readUint tokens 12 "dp1" parserReadUint16
  let m := m.set Acl.dp1 dp1
  let proto ← readUint tokens 13 "proto" parserReadUint8
  let m := m.set Acl.proto proto
  .ok (m.set Acl.protoMask 0x00)

/-- The branches of an acl match, from its fifth token on.
Source: `cli.c` `parse_match`, `acl priority <priority> raw|ipv4|ipv6 ..`
Kind: D -/
def parseMatchAclVersion (inet : InetPton) (tokens : List String) (m : Mem) (version : String) :
    Parse (TableRuleMatch × ℕ) :=
  if version = "raw" then do
    let (m, n) ← parseMatchRaw tokens m
    .ok (⟨.acl, m⟩, n)
  else if version = "ipv4" then do
    let m ← parseMatchIpv4 inet tokens m
    let m ← parseMatchIpRest tokens m
    .ok (⟨.acl, m⟩, 14)
  else if version = "ipv6" then do
    let m ← parseMatchIpv6 inet tokens m
    let m ← parseMatchIpRest tokens m
    .ok (⟨.acl, m⟩, 14)
  else .error (.argNotFound "ipv4 or ipv6")

/-- Source: `cli.c` `parse_match`, `acl`. Kind: D -/
def parseMatchAcl (inet : InetPton) (tokens : List String) : Parse (TableRuleMatch × ℕ) := do
  ensure (14 ≤ tokens.length) (.argMismatch "match")
  keyword tokens 2 "priority"
  let priority ← readUint tokens 3 "priority" parserReadUint32
  let version ← arg tokens 4
  parseMatchAclVersion inet tokens (Mem.zero.set Acl.priority priority) version

/-- Source: `cli.c` `parse_match`, `array`. Kind: D -/
def parseMatchArray (tokens : List String) : Parse (TableRuleMatch × ℕ) := do
  ensure (3 ≤ tokens.length) (.argMismatch "match")
  let pos ← readUint tokens 2 "pos" parserReadUint32
  .ok (⟨.array, Mem.zero.set ArrayKey.pos pos⟩, 3)

/-- Source: `cli.c` `struct pkt_key_ipv4_5tuple`, `parse_match`, `hash ipv4_5tuple`. Kind: D -/
def parseMatchIpv4Tuple (inet : InetPton) (tokens : List String) :
    Parse (TableRuleMatch × ℕ) := do
  ensure (8 ≤ tokens.length) (.argMismatch "match")
  let saddr ← readAddr tokens 3 "sa" (parseIpv4Addr inet)
  let daddr ← readAddr tokens 4 "da" (parseIpv4Addr inet)
  let sp ← readUint tokens 5 "sp" parserReadUint16
  let dp ← readUint tokens 6 "dp" parserReadUint16
  let proto ← readUint tokens 7 "proto" parserReadUint8
  let m := (Mem.zero.copy 4 4 saddr).copy 8 4 daddr
  let m := ((m.set ⟨12, 2⟩ (bswap16 sp)).set ⟨14, 2⟩ (bswap16 dp)).set ⟨1, 1⟩ proto
  .ok (⟨.hash, m⟩, 8)

/-- Source: `cli.c` `struct pkt_key_ipv6_5tuple`, `parse_match`, `hash ipv6_5tuple`. Kind: D -/
def parseMatchIpv6Tuple (inet : InetPton) (tokens : List String) :
    Parse (TableRuleMatch × ℕ) := do
  ensure (8 ≤ tokens.length) (.argMismatch "match")
  let saddr ← readAddr tokens 3 "sa" (parseIpv6Addr inet)
  let daddr ← readAddr tokens 4 "da" (parseIpv6Addr inet)
  let sp ← readUint tokens 5 "sp" parserReadUint16
  let dp ← readUint tokens 6 "dp" parserReadUint16
  let proto ← readUint tokens 7 "proto" parserReadUint8
  let m := (Mem.zero.copy 4 16 saddr).copy 20 16 daddr
  let m := ((m.set ⟨36, 2⟩ (bswap16 sp)).set ⟨38, 2⟩ (bswap16 dp)).set ⟨2, 1⟩ proto
  .ok (⟨.hash, m⟩, 8)

/-- Source: `cli.c` `struct pkt_key_qinq`, `parse_match`, `hash qinq`. Kind: D -/
def parseMatchQinq (tokens : List String) : Parse (TableRuleMatch × ℕ) := do
  ensure (5 ≤ tokens.length) (.argMismatch "match")
  let svlan ← readUint tokens 3 "svlan" parserReadUint16
  ensure (svlan ≤ 0xFFF) (.argInvalid "svlan")
  let cvlan ← readUint tokens 4 "cvlan" parserReadUint16
  ensure (cvlan ≤ 0xFFF) (.argInvalid "cvlan")
  .ok (⟨.hash, (Mem.zero.set ⟨2, 2⟩ (bswap16 svlan)).set ⟨6, 2⟩ (bswap16 cvlan)⟩, 5)

/-- Source: `cli.c` `parse_match`, `hash`. Kind: D -/
def parseMatchHash (inet : InetPton) (tokens : List String) : Parse (TableRuleMatch × ℕ) := do
  ensure (3 ≤ tokens.length) (.argMismatch "match")
  let kind ← arg tokens 2
  if kind = "raw" then
    ensure (4 ≤ tokens.length) (.argMismatch "match")
    let key ← arg tokens 3
    match parseHexString key tableRuleMatchSizeMax with
    | some (bytes, n) => .ok (⟨.hash, Mem.zero.copy 0 n bytes⟩, 4)
    | none => .error (.argInvalid "key")
  else if kind = "ipv4_5tuple" then parseMatchIpv4Tuple inet tokens
  else if kind = "ipv6_5tuple" then parseMatchIpv6Tuple inet tokens
  else if kind = "ipv4_addr" then
    ensure (4 ≤ tokens.length) (.argMismatch "match")
    let addr ← readAddr tokens 3 "addr" (parseIpv4Addr inet)
    .ok (⟨.hash, Mem.zero.copy 0 4 addr⟩, 4)
  else if kind = "ipv6_addr" then
    ensure (4 ≤ tokens.length) (.argMismatch "match")
    let addr ← readAddr tokens 3 "addr" (parseIpv6Addr inet)
    .ok (⟨.hash, Mem.zero.copy 0 16 addr⟩, 4)
  else if kind = "qinq" then parseMatchQinq tokens
  else .error (.argMismatch "match")

/-- Source: `cli.c` `parse_match`, `lpm`. Kind: D -/
def parseMatchLpm (inet : InetPton) (tokens : List String) : Parse (TableRuleMatch × ℕ) := do
  ensure (5 ≤ tokens.length) (.argMismatch "match")
  let version ← arg tokens 2
  let m ←
    if version = "ipv4" then do
      let addr ← readAddr tokens 3 "addr" (parseIpv4Addr inet)
      .ok ((Mem.zero.set Lpm.ipVersion 1).set Lpm.ipv4 (bswap32 (addr.load 0 4)))
    else if version = "ipv6" then do
      let addr ← readAddr tokens 3 "addr" (parseIpv6Addr inet)
      .ok ((Mem.zero.set Lpm.ipVersion 0).copy Lpm.ipv6 16 addr)
    else .error (.argMismatch "ipv4 or ipv6")
  let depth ← readUint tokens 4 "depth" parserReadUint8
  .ok (⟨.lpm, m.set Lpm.depth depth⟩, 5)

/-- The parsed match and the number of tokens it took.
Source: `cli.c` `parse_match`
Kind: D -/
def parseMatch (inet : InetPton) (tokens : List String) : Parse (TableRuleMatch × ℕ) := do
  ensure (2 ≤ tokens.length) .silent
  keyword tokens 0 "match"
  let kind ← arg tokens 1
  if kind = "acl" then parseMatchAcl inet tokens
  else if kind = "array" then parseMatchArray tokens
  else if kind = "hash" then parseMatchHash inet tokens
  else if kind = "lpm" then parseMatchLpm inet tokens
  else .error (.argMismatch "acl or array or hash or lpm")

end Rids.Pipeline
