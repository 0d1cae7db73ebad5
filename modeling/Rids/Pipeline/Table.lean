import Rids.Pipeline.ParseMatch

/-!
# Tables: parameters, field formats, creation, match check (`pipeline.c`, `cli.c`, `thread.c`)

* `parseTableAcl` — the `acl` arguments of the command that creates a table.
* `tableAclFieldFormatIpv4`, `..Ipv6`, `..Raw` — the three field formats; `aclFormat` is the one
  `pipeline_table_create` hands to the library, with the header offset added to the first two.
* `matchCheck` — the test every rule passes before it is converted.

`AclFormat` is the abstract view: a table has one of three formats, `TableAclParams.format`, and a
rule is converted in one of three branches, `TableRuleMatch.branch`.
-/

namespace Rids.Pipeline

open Rids.Lib.ByteMem

/-! ### Parameters -/

/-- Source: `pipeline.h` `struct table_acl_params`. Kind: D -/
structure TableAclParams where
  nRules : BitVec 32
  ipHeaderOffset : BitVec 32
  ipVersion : BitVec 32
deriving DecidableEq, Repr

/-- The parameters of a table that rule matches are checked against. What `pipeline_table_create`
needs of arrays, hashes and LPM besides is left out.
Source: `pipeline.h` `struct table_params`
Kind: D -/
inductive TableParams
  | acl (acl : TableAclParams)
  | array
  | hash
  | lpm (keySize : BitVec 32)
  | stub
deriving DecidableEq, Repr

/-- `params.match_type`. -/
def TableParams.matchType : TableParams → TableType
  | acl _ => .acl
  | array => .array
  | hash => .hash
  | lpm _ => .lpm
  | stub => .stub

/-- `acl ipv4|ipv6|raw offset <ip_header_offset> size <n_rules>`, from token `t0` on.
Source: `cli.c` `cmd_pipeline_table`, `acl`
Kind: D -/
def parseTableAcl (tokens : List String) (t0 : ℕ) : Parse TableAclParams := do
  ensure (t0 + 6 ≤ tokens.length) (.argMismatch "pipeline table acl")
  let version ← arg tokens (t0 + 1)
  let ipVersion ←
    if version = "ipv4" then .ok 1
    else if version = "ipv6" then .ok 0
    else if version = "raw" then .ok 2
    else .error (.argNotFound "ipv4 or ipv6")
  keyword tokens (t0 + 2) "offset"
  let ipHeaderOffset ← readUint tokens (t0 + 3) "ip_header_offset" parserReadUint32
  keyword tokens (t0 + 4) "size"
  let nRules ← readUint tokens (t0 + 5) "n_rules" parserReadUint32
  .ok ⟨.ofNat 32 nRules, .ofNat 32 ipHeaderOffset, ipVersion⟩

/-! ### Field formats -/

/-- The field types of the ACL library. -/
inductive AclFieldType
  | bitmask | mask | range
deriving DecidableEq, Repr

/-- Source: DPDK `struct rte_acl_field_def`, as `pipeline.c` fills it. Kind: D -/
structure AclFieldDef where
  type : AclFieldType
  size : ℕ
  fieldIndex : ℕ
  inputIndex : ℕ
  offset : BitVec 32
deriving DecidableEq, Repr

/-- Protocol, addresses and ports of an IPv4 header without options.
Source: `pipeline.c` `table_acl_field_format_ipv4`
Kind: D -/
def tableAclFieldFormatIpv4 : List AclFieldDef :=
  [⟨.bitmask, 1, 0, 0, 9⟩, ⟨.mask, 4, 1, 1, 12⟩, ⟨.mask, 4, 2, 2, 16⟩, ⟨.range, 2, 3, 3, 20⟩,
    ⟨.range, 2, 4, 3, 22⟩]

/-- Protocol, the eight address words and the ports of an IPv6 header.
Source: `pipeline.c` `table_acl_field_format_ipv6`
Kind: D -/
def tableAclFieldFormatIpv6 : List AclFieldDef :=
  [⟨.bitmask, 1, 0, 0, 6⟩, ⟨.mask, 4, 1, 1, 8⟩, ⟨.mask, 4, 2, 2, 12⟩, ⟨.mask, 4, 3, 3, 16⟩,
    ⟨.mask, 4, 4, 4, 20⟩, ⟨.mask, 4, 5, 5, 24⟩, ⟨.mask, 4, 6, 6, 28⟩, ⟨.mask, 4, 7, 7, 32⟩,
    ⟨.mask, 4, 8, 8, 36⟩, ⟨.range, 2, 9, 9, 40⟩, ⟨.range, 2, 10, 9, 42⟩]

/-- The 61 entries written out in the source: entry `i` is a range of one byte at offset `i`, and
the inputs after the first take four fields each.
Source: `pipeline.c` `table_acl_field_format_raw`
Kind: D -/
def tableAclFieldFormatRaw : List AclFieldDef :=
  (List.range 61).map fun i => ⟨.range, 1, i, (i + 3) / 4, .ofNat 32 i⟩

/-- The three formats a table can be created with. -/
inductive AclFormat
  | ipv4 | ipv6 | raw
deriving DecidableEq, Repr

/-- The format that an `ip_version` selects: 1, 2, and anything else.
Source: `pipeline.c` `pipeline_table_create`; `thread.c` `match_convert`
Kind: D -/
def AclFormat.ofIpVersion (ipVersion : ℕ) : AclFormat :=
  if ipVersion = 1 then .ipv4 else if ipVersion = 2 then .raw else .ipv6

/-- The `ip_version` that `cmd_pipeline_table` and `parse_match` write for a format. -/
def AclFormat.ipVersion : AclFormat → ℕ
  | ipv4 => 1
  | ipv6 => 0
  | raw => 2

/-- `n_rule_fields` of a format. -/
def AclFormat.nFields : AclFormat → ℕ
  | ipv4 => 5
  | ipv6 => 11
  | raw => 61

/-- The format a table is created with. -/
def TableAclParams.format (t : TableAclParams) : AclFormat := .ofIpVersion t.ipVersion.toNat

/-- The branch of `match_convert` that a match takes. -/
def TableRuleMatch.branch (m : TableRuleMatch) : AclFormat := .ofIpVersion (m.mem.get Acl.ipVersion)

/-- `field_format` of the created table; `none` when the creation fails. `dataStart` is
`sizeof(struct rte_mbuf) + RTE_PKTMBUF_HEADROOM`. The raw format ignores the header offset.
Source: `pipeline.c` `pipeline_table_create`, `TABLE_ACL`
Kind: D -/
def aclFormat (dataStart : BitVec 32) (params : TableAclParams) : Option (List AclFieldDef) :=
  let ipHeaderOffset := params.ipHeaderOffset - dataStart
  let shift (fields : List AclFieldDef) :=
    fields.map fun f => { f with offset := f.offset + ipHeaderOffset }
  if params.nRules = 0 then none
  else
    match params.format with
    | .ipv4 => some (shift tableAclFieldFormatIpv4)
    | .raw => some tableAclFieldFormatRaw
    | .ipv6 => some (shift tableAclFieldFormatIpv6)

/-- A format has as many fields as it says. -/
theorem nFields_eq_length {dataStart : BitVec 32} {params : TableAclParams}
    {fields : List AclFieldDef} (h : aclFormat dataStart params = some fields) :
    fields.length = params.format.nFields := by
  unfold aclFormat at h
  split_ifs at h
  cases hf : params.format <;> rw [hf] at h <;> cases h <;> rfl

/-! ### `match_check` -/

/-- The match is fit for the table: 0 of `match_check` is `true`. Versions are compared as
booleans.
Source: `thread.c` `match_check`
Kind: D -/
def matchCheck (m : TableRuleMatch) (t : TableParams) : Bool :=
  if m.matchType ≠ t.matchType then false
  else
    match t with
    | .acl t =>
      let ipVersion := m.mem.get Acl.ipVersion
      if (ipVersion ≠ 0 ∧ t.ipVersion = 0) ∨ (ipVersion = 0 ∧ t.ipVersion ≠ 0) then false
      else
        let depthMax := if ipVersion ≠ 0 then 32 else 128
        m.mem.get Acl.saDepth ≤ depthMax && m.mem.get Acl.daDepth ≤ depthMax
    | .array => true
    | .hash => true
    | .lpm keySize =>
      let ipVersion := m.mem.get Lpm.ipVersion
      if (ipVersion ≠ 0 ∧ keySize ≠ 4) ∨ (ipVersion = 0 ∧ keySize ≠ 16) then false
      else m.mem.get Lpm.depth ≤ if ipVersion ≠ 0 then 32 else 128
    | .stub => false

/-- What `match_check` grants for an ACL table. -/
theorem matchCheck_acl_iff {m : TableRuleMatch} {t : TableAclParams} :
    matchCheck m (.acl t) = true ↔
      m.matchType = .acl ∧ (m.mem.get Acl.ipVersion = 0 ↔ t.ipVersion = 0) ∧
        m.mem.get Acl.saDepth ≤ (if m.mem.get Acl.ipVersion ≠ 0 then 32 else 128) ∧
        m.mem.get Acl.daDepth ≤ (if m.mem.get Acl.ipVersion ≠ 0 then 32 else 128) := by
  unfold matchCheck
  by_cases htype : m.matchType = .acl
  · by_cases hm : m.mem.get Acl.ipVersion = 0 <;> by_cases ht : t.ipVersion = 0 <;>
      simp [htype, TableParams.matchType, hm, ht]
  · simp [htype, TableParams.matchType]

end Rids.Pipeline
