import Rids.Pipeline.AclCommand

/-!
# Table formats and conversion branches

A table has one of three formats and a rule is converted in one of three branches. `match_check`
compares the two versions as booleans, so a rule of one non-zero version passes the check of a
table of the other.

* `slots_aclAssigns` — the fields a conversion fills, branch by branch.
* `branch_eq_format_iff` — a rule that passes the check is converted in the branch of the table's
  format, and fills the fields of that format, exactly when its version is the table's and, for
  the raw format, it carries 60 pairs.
-/

namespace Rids.Pipeline

open Rids.Lib.ByteMem

/-! ### The fields a conversion fills -/

/-- The index of the field an assignment writes to. -/
def LValue.slot : LValue → Option ℕ
  | fieldValue _ j _ => some j
  | _ => none

/-- The indices of the fields a conversion fills. -/
def slots (as : List Assign) : List ℕ := as.filterMap (·.lhs.slot)

/-- The fields of two groups of assignments. -/
theorem slots_append (as bs : List Assign) : slots (as ++ bs) = slots as ++ slots bs :=
  List.filterMap_append

/-- The IPv4 branch writes five fields. -/
theorem mem_slots_ipv4 (arm : Arm) (m : Mem) (j : ℕ) : j ∈ slots (ipv4Assigns arm m) ↔ j < 5 := by
  have : slots (ipv4Assigns arm m) = [0, 0, 1, 1, 2, 2, 3, 3, 4, 4] := rfl
  rw [this]
  simp only [List.mem_cons, List.not_mem_nil, or_false]
  omega

/-- The IPv6 branch writes eleven fields. -/
theorem mem_slots_ipv6 (arm : Arm) (m : Mem) (d d' : ℕ → ℕ) (j : ℕ) :
    j ∈ slots (ipv6Assigns arm m d d') ↔ j < 11 := by
  have : slots (ipv6Assigns arm m d d') =
      [0, 0, 1, 1, 2, 2, 3, 3, 4, 4, 5, 5, 6, 6, 7, 7, 8, 8, 9, 9, 10, 10] := rfl
  rw [this]
  simp only [List.mem_cons, List.not_mem_nil, or_false]
  omega

/-- The loop of the raw branch writes a field for each filter. -/
theorem mem_slots_rawLoop (m : Mem) (j : ℕ) :
    j ∈ slots (rawLoopAssigns m) ↔ 0 < j ∧ j ≤ m.get Raw.nFilter := by
  simp only [slots, rawLoopAssigns, List.filterMap_flatMap, List.mem_flatMap, List.mem_range]
  constructor
  · rintro ⟨i, hi, hj⟩
    have : j = i + 1 := by simpa [fieldAssigns, LValue.assign, LValue.slot] using hj
    omega
  · rintro ⟨hpos, hle⟩
    refine ⟨j - 1, by omega, ?_⟩
    simp only [fieldAssigns, LValue.assign, LValue.slot, List.filterMap_cons, List.filterMap_nil,
      List.mem_cons]
    omega

/-- The protocol of the raw branch is field 0. -/
theorem mem_slots_rawProto (arm : Arm) (m : Mem) (j : ℕ) :
    j ∈ slots (rawProtoAssigns arm m) ↔ j = 0 := by
  have : slots (rawProtoAssigns arm m) = [0, 0] := rfl
  simp [this]

/-- The number of fields the branch of a match fills, when the conversion succeeds. -/
def TableRuleMatch.nSlots (m : TableRuleMatch) : ℕ :=
  match m.branch with
  | .ipv4 => 5
  | .ipv6 => 11
  | .raw => m.mem.get Raw.nFilter + 1

/-- The conversion of an ACL match that passed the check succeeds, and fills the fields below
`nSlots`. -/
theorem slots_aclAssigns {m : TableRuleMatch} {t : TableAclParams} (add : Bool)
    (hcheck : matchCheck m (.acl t) = true) :
    ∃ as, matchConvertAssigns m add = some as ∧ ∀ j, j ∈ slots as ↔ j < m.nSlots := by
  obtain ⟨htype, -, hsa, hda⟩ := matchCheck_acl_iff.mp hcheck
  have hcat (v j : ℕ) : j ∉ slots [LValue.categoryMask.assign 4 v] := by
    simp [slots, LValue.assign, LValue.slot]
  have hprio (v j : ℕ) : j ∉ slots [LValue.priority.assign 4 v] := by
    simp [slots, LValue.assign, LValue.slot]
  rw [matchConvertAssigns, htype]
  unfold TableRuleMatch.nSlots TableRuleMatch.branch AclFormat.ofIpVersion aclAssigns
  by_cases h1 : m.mem.get Acl.ipVersion = 1
  · cases add <;>
      simp only [h1, if_true, if_false, Bool.false_eq_true, Option.some.injEq, exists_eq_left',
        ipv4AddAssigns, ipv4DeleteAssigns, slots_append, List.mem_append, hcat, hprio,
        mem_slots_ipv4, false_or, or_false, implies_true]
  by_cases h2 : m.mem.get Acl.ipVersion = 2
  · cases add <;>
      simp only [h2, OfNat.ofNat_ne_one, if_true, if_false, Bool.false_eq_true, Option.some.injEq,
        exists_eq_left', rawAddAssigns, rawDeleteAssigns, slots_append, List.mem_append, hcat,
        hprio, mem_slots_rawProto, mem_slots_rawLoop, or_false] <;>
      intro j <;> omega
  · have hle (d : ℕ) (hd : d ≤ if m.mem.get Acl.ipVersion ≠ 0 then 32 else 128) : d ≤ 128 := by
      split_ifs at hd <;> omega
    obtain ⟨sa32, hsa32, -⟩ := matchConvertIpv6Depth_eq (hle _ hsa)
    obtain ⟨da32, hda32, -⟩ := matchConvertIpv6Depth_eq (hle _ hda)
    cases add <;>
      simp only [h1, h2, if_true, if_false, hsa32, hda32, Option.bind_eq_bind, Option.bind_some,
        Bool.false_eq_true, Option.some.injEq, exists_eq_left', ipv6AddAssigns, ipv6DeleteAssigns,
        slots_append, List.mem_append, hcat, hprio, mem_slots_ipv6, false_or, or_false,
        implies_true]

/-! ### Formats and branches -/

/-- The IPv4 format is that of version 1. -/
theorem ofIpVersion_eq_ipv4_iff (v : ℕ) : AclFormat.ofIpVersion v = .ipv4 ↔ v = 1 := by
  unfold AclFormat.ofIpVersion
  split_ifs <;> simp_all

/-- The raw format is that of version 2. -/
theorem ofIpVersion_eq_raw_iff (v : ℕ) : AclFormat.ofIpVersion v = .raw ↔ v = 2 := by
  unfold AclFormat.ofIpVersion
  split_ifs <;> simp_all

/-- The entry points through which a rule reaches `match_convert`. -/
inductive RuleOp
  | add | addBulk | delete
deriving DecidableEq, Repr

/-- The flag `add` that an entry point passes to `match_convert`. -/
def RuleOp.addFlag : RuleOp → Bool
  | add => true
  | addBulk => true
  | delete => false

/-- The rule is converted in the branch of the table's format, and the conversion fills exactly
the fields of that format. -/
def ConvertsAsFormat (m : TableRuleMatch) (t : TableAclParams) (fields : List AclFieldDef)
    (op : RuleOp) : Prop :=
  m.branch = t.format ∧
    ∃ as, matchConvertAssigns m op.addFlag = some as ∧
      ∀ j, j ∈ slots as ↔ ∃ f ∈ fields, f.fieldIndex = j

/-- The fields of a created table are numbered from 0. -/
theorem fieldIndex_aclFormat {dataStart : BitVec 32} {t : TableAclParams}
    {fields : List AclFieldDef} (h : aclFormat dataStart t = some fields) (j : ℕ) :
    (∃ f ∈ fields, f.fieldIndex = j) ↔ j < t.format.nFields := by
  have hmap : fields.map (·.fieldIndex) = List.range t.format.nFields := by
    unfold aclFormat at h
    split_ifs at h
    cases hf : t.format <;> rw [hf] at h <;> cases h <;> rfl
  rw [← List.mem_range, ← hmap, List.mem_map]

/-- The versions `cmd_pipeline_table` writes. -/
theorem parseTableAcl_ipVersion {tokens : List String} {t0 : ℕ} {t : TableAclParams}
    (h : parseTableAcl tokens t0 = .ok t) :
    t.ipVersion = 0 ∨ t.ipVersion = 1 ∨ t.ipVersion = 2 := by
  simp only [parseTableAcl, bind_eq_ok] at h
  obtain ⟨-, -, version, -, h⟩ := h
  split_ifs at h
  · simp only [bind_eq_ok, Except.ok.injEq] at h
    obtain ⟨_, rfl, -, -, offset, -, -, -, nRules, -, rfl⟩ := h
    exact .inr (.inl rfl)
  · simp only [bind_eq_ok, Except.ok.injEq] at h
    obtain ⟨_, rfl, -, -, offset, -, -, -, nRules, -, rfl⟩ := h
    exact .inl rfl
  · simp only [bind_eq_ok, Except.ok.injEq] at h
    obtain ⟨_, rfl, -, -, offset, -, -, -, nRules, -, rfl⟩ := h
    exact .inr (.inr rfl)
  · simp only [bind_eq_ok] at h
    obtain ⟨_, hversion, -⟩ := h
    cases hversion

/-- **When a rule is converted in the format of its table.** -/
theorem branch_eq_format_iff {tokens : List String} {t0 : ℕ} {m : TableRuleMatch}
    {t : TableAclParams} {dataStart : BitVec 32} {fields : List AclFieldDef} (op : RuleOp)
    (hparse : parseTableAcl tokens t0 = .ok t) (hcreate : aclFormat dataStart t = some fields)
    (hcheck : matchCheck m (.acl t) = true) :
    ConvertsAsFormat m t fields op ↔
      m.mem.get Acl.ipVersion = t.ipVersion.toNat ∧
        (t.format = .raw → m.mem.get Raw.nFilter = 60) := by
  obtain ⟨as, hconv, hslots⟩ := slots_aclAssigns op.addFlag hcheck
  obtain ⟨-, hversion, -, -⟩ := matchCheck_acl_iff.mp hcheck
  have hfill : ConvertsAsFormat m t fields op ↔
      m.branch = t.format ∧ m.nSlots = t.format.nFields := by
    unfold ConvertsAsFormat
    simp only [hconv, Option.some.injEq, exists_eq_left', hslots, fieldIndex_aclFormat hcreate]
    refine and_congr_right fun _ => ⟨fun h => ?_, fun h j => by rw [h]⟩
    have h1 := h m.nSlots
    have h2 := h t.format.nFields
    omega
  rw [hfill]
  rcases parseTableAcl_ipVersion hparse with h0 | h1 | h2
  · -- an ipv6 table takes rules of version 0 only
    have hm : m.mem.get Acl.ipVersion = 0 := hversion.mpr h0
    have hfmt : t.format = .ipv6 := by rw [TableAclParams.format, h0]; rfl
    have hbranch : m.branch = .ipv6 := by rw [TableRuleMatch.branch, hm]; rfl
    simp [TableRuleMatch.nSlots, hfmt, hbranch, hm, h0, AclFormat.nFields]
  · have hfmt : t.format = .ipv4 := by rw [TableAclParams.format, h1]; rfl
    have hbranch : m.branch = .ipv4 ↔ m.mem.get Acl.ipVersion = 1 := ofIpVersion_eq_ipv4_iff _
    rw [hfmt, hbranch, h1]
    refine ⟨fun h => ⟨h.1, by simp⟩, fun h => ⟨h.1, ?_⟩⟩
    rw [TableRuleMatch.nSlots, hbranch.mpr h.1]
    rfl
  · have hfmt : t.format = .raw := by rw [TableAclParams.format, h2]; rfl
    have hbranch : m.branch = .raw ↔ m.mem.get Acl.ipVersion = 2 := ofIpVersion_eq_raw_iff _
    rw [hfmt, hbranch, h2]
    refine and_congr_right fun hm => ?_
    rw [TableRuleMatch.nSlots, hbranch.mpr hm]
    simp [AclFormat.nFields]

/-- The command that creates a table of a format. -/
def createTable (version : String) : List String := ["acl", version, "offset", "270", "size", "1"]

/-- A command for IPv4 on a table for IPv4. -/
theorem anyTcp_branch_eq_format_iff :
    ∃ m t fields, parseMatch .unspecified anyTcp = .ok (m, 14) ∧
      parseTableAcl (createTable "ipv4") 0 = .ok t ∧ aclFormat 256 t = some fields ∧
      (ConvertsAsFormat m t fields .add ↔
        m.mem.get Acl.ipVersion = t.ipVersion.toNat ∧
          (t.format = .raw → m.mem.get Raw.nFilter = 60)) :=
  ⟨_, _, _, rfl, rfl, rfl,
    branch_eq_format_iff .add (show parseTableAcl (createTable "ipv4") 0 = _ from rfl)
      (show aclFormat 256 _ = _ from rfl) (by decide +kernel)⟩

/-- An ipv4 rule in a raw table. -/
theorem anyTcp_not_convertsAsFormat_raw :
    ∃ m t fields, parseMatch .unspecified anyTcp = .ok (m, 14) ∧
      parseTableAcl (createTable "raw") 0 = .ok t ∧ aclFormat 256 t = some fields ∧
      matchCheck m (.acl t) = true ∧ ¬ ConvertsAsFormat m t fields .add :=
  ⟨_, _, _, rfl, rfl, rfl, by decide +kernel, fun h => absurd h.1 (by decide +kernel)⟩

end Rids.Pipeline
