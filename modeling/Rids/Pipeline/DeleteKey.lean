import Rids.Pipeline.AclCommand
import Rids.Pipeline.RuleStore

/-!
# The key of a delete

A delete should name the rule that an add installed: the field values it writes through
`acl_delete` should be those the add wrote through `acl_add`. But the delete branches write
`category_mask` through `acl_add`, into the first field value of `acl_delete`; and the loop over
the pairs of a raw rule writes through `acl_add`, 8 bytes away.

* `fieldValues_delete_eq_add_iff` — the keys are equal exactly for raw rules whose category mask
  and pairs are all 0.
* `removed_iff_onlyProto`, `deleteNamesAdded_iff` — hence an add followed by a delete removes only
  such rules.
-/

namespace Rids.Pipeline

open Rids.Lib.ByteMem Rids.Lib

/-- A raw match whose category mask, origins and masks are 0. -/
def TableRuleMatch.OnlyProto (m : TableRuleMatch) : Prop :=
  m.branch = .raw ∧ m.mem.get Raw.categoryMask = 0 ∧
    ∀ i < nFilterRaw, m.mem.get (Raw.origin i) = 0 ∧ m.mem.get (Raw.mask i) = 0

/-- Two field values agree byte by byte, 8 bytes apart. -/
theorem fieldValues_eq_iff {n : ℕ} {addMl deleteMl : Mem} :
    fieldValues .aclDelete n deleteMl = fieldValues .aclAdd n addMl ↔
      ∀ a < 16 * n, deleteMl a = addMl (8 + a) := by
  rw [fieldValues, fieldValues, Mem.bytes_eq_iff]
  simp only [Mem.EqOn, Mem.drop_apply, Arm.fieldValueOff, Nat.zero_add]

/-- Words of equal keys. -/
theorem load_eq_of_fieldValues_eq {n : ℕ} {addMl deleteMl : Mem}
    (h : fieldValues .aclDelete n deleteMl = fieldValues .aclAdd n addMl) (off : ℕ)
    (hoff : off + 4 ≤ 16 * n) : deleteMl.load off 4 = addMl.load (8 + off) 4 := by
  refine load_congr fun i hi => ?_
  rw [fieldValues_eq_iff.mp h (off + i) (by omega), Nat.add_assoc]

/-- A word outside the windows of the assignments is 0. -/
theorem load_runAssigns_eq_zero {as : List Assign} {off : ℕ}
    (h : ∀ x ∈ spans as, x.1 + x.2 ≤ off ∨ off + 4 ≤ x.1) : (runAssigns as).load off 4 = 0 := by
  refine load_eq_zero fun i hi => runAssigns_apply_of_not_mem_spans fun x hx => ?_
  have := h x hx
  omega

/-- The category mask of a delete lies in the first field value, where an add leaves 0. -/
theorem categoryMask_eq_zero {add delete : List Assign} {n c : ℕ} (hn : 0 < n) (hc : c < 256 ^ 4)
    (hapart : Apart delete) (hmem : LValue.categoryMask.assign 4 c ∈ delete)
    (hout : ∀ x ∈ spans add, x.1 + x.2 ≤ 12 ∨ 16 ≤ x.1)
    (h : fieldValues .aclDelete n (runAssigns delete) = fieldValues .aclAdd n (runAssigns add)) :
    c = 0 := by
  have hdelete : (runAssigns delete).load LValue.categoryMask.off 4 = c % 256 ^ 4 :=
    load_runAssigns hapart hmem
  have hadd : (runAssigns add).load (8 + 4) 4 = 0 := load_runAssigns_eq_zero hout
  rw [LValue.off, load_eq_of_fieldValues_eq h 4 (by omega), hadd, Nat.mod_eq_of_lt hc] at hdelete
  exact hdelete.symm

/-! ### IP rules -/

/-- The delete of an ipv4 rule has a 1 where the add has a 0. -/
theorem fieldValues_ipv4_ne (m : Mem) :
    fieldValues .aclDelete 5 (runAssigns (ipv4DeleteAssigns m)) ≠
      fieldValues .aclAdd 5 (runAssigns (ipv4AddAssigns m)) := by
  intro h
  have hout : ∀ x ∈ spans (ipv4AddAssigns m), x.1 + x.2 ≤ 12 ∨ 16 ≤ x.1 := by
    rw [spans_ipv4AddAssigns]
    decide
  have hmem : LValue.categoryMask.assign 4 1 ∈ ipv4DeleteAssigns m := List.mem_cons_self
  exact absurd (categoryMask_eq_zero (by decide) (by decide) (apart_ipv4DeleteAssigns m) hmem hout h)
    (by decide)

/-- So has the delete of an ipv6 rule. -/
theorem fieldValues_ipv6_ne (m : Mem) (d d' : ℕ → ℕ) :
    fieldValues .aclDelete 11 (runAssigns (ipv6DeleteAssigns m d d')) ≠
      fieldValues .aclAdd 11 (runAssigns (ipv6AddAssigns m d d')) := by
  intro h
  have hout : ∀ x ∈ spans (ipv6AddAssigns m d d'), x.1 + x.2 ≤ 12 ∨ 16 ≤ x.1 := by
    rw [spans_ipv6AddAssigns]
    decide
  have hmem : LValue.categoryMask.assign 4 1 ∈ ipv6DeleteAssigns m d d' := List.mem_cons_self
  exact absurd (categoryMask_eq_zero (by decide) (by decide) (apart_ipv6DeleteAssigns m d d') hmem
    hout h) (by decide)

/-! ### Raw rules -/

/-- The pairs of a raw rule, as the loop writes them for a delete, chain up with the pairs of the
add: the delete's origin lies at the add's mask, its mask at the add's next origin. -/
theorem onlyProto_of_chain {origin mask : ℕ → ℕ} {n : ℕ} (hfirst : 0 < n → origin 0 = 0)
    (hmask : ∀ i < n, origin i = mask i) (hnext : ∀ i, i + 1 < n → mask i = origin (i + 1)) :
    ∀ i < n, origin i = 0 ∧ mask i = 0 := by
  intro i hi
  induction i with
  | zero => exact ⟨hfirst hi, hmask 0 hi ▸ hfirst hi⟩
  | succ i ih =>
    have horigin : origin (i + 1) = 0 := (hnext i hi).symm.trans (ih (by omega)).2
    exact ⟨horigin, (hmask _ hi).symm.trans horigin⟩

section Raw

variable {m : Mem} (hn : m.get Raw.nFilter = nFilterRaw)
include hn

/-- The words of a raw rule, where the loop puts them for an add and for a delete. -/
theorem load_rawLoop {as : List Assign} (hapart : Apart as) (hloop : rawLoopAssigns m ⊆ as)
    {i : ℕ} (hi : i < nFilterRaw) :
    (runAssigns as).load (8 + 16 * (i + 1)) 4 = m.get (Raw.origin i) ∧
      (runAssigns as).load (8 + 16 * (i + 1) + 8) 4 = m.get (Raw.mask i) := by
  obtain ⟨hvalue, hmask⟩ := mem_rawLoopAssigns (hn.symm ▸ hi : i < m.get Raw.nFilter)
  have hload {lhs : LValue} {off : ℕ} {f : Field} (hoff : lhs.off = off) (hlen : f.len = 4)
      (hmem : lhs.assign 4 (m.get f) ∈ rawLoopAssigns m) :
      (runAssigns as).load off 4 = m.get f := by
    rw [← hoff, load_runAssigns hapart (hloop hmem)]
    exact Nat.mod_eq_of_lt (hlen ▸ Mem.get_lt m f)
  exact ⟨hload rfl rfl hvalue, hload rfl rfl hmask⟩

/-- Equal keys force the category mask and all pairs to 0. -/
theorem zero_of_fieldValues_raw_eq
    (h : fieldValues .aclDelete 61 (runAssigns (rawDeleteAssigns m)) =
      fieldValues .aclAdd 61 (runAssigns (rawAddAssigns m))) :
    m.get Raw.categoryMask = 0 ∧
      ∀ i < nFilterRaw, m.get (Raw.origin i) = 0 ∧ m.get (Raw.mask i) = 0 := by
  have hloop {x : ℕ × ℕ} (hx : x ∈ rawLoopSpans) : 24 ≤ x.1 := rawLoopSpans_off hx
  constructor
  · have hmem : LValue.categoryMask.assign 4 (m.get Raw.categoryMask) ∈ rawDeleteAssigns m := by
      simp [rawDeleteAssigns]
    refine categoryMask_eq_zero (by decide) (Mem.get_lt m Raw.categoryMask)
      (apart_rawDeleteAssigns hn) hmem (fun x hx => ?_) h
    have hfix : ∀ x ∈ [(8, 1), (16, 1), (4, 4), (0, 4)], x.1 + x.2 ≤ 12 ∨ 16 ≤ x.1 := by decide
    rw [spans_rawAddAssigns hn, List.mem_append, List.mem_append] at hx
    rcases hx with (hx | hx) | hx
    · exact hfix x (List.mem_append_left [(0, 4)] hx)
    · exact .inr ((by decide : 16 ≤ 24).trans (hloop hx))
    · exact hfix x (List.mem_append_right [(8, 1), (16, 1), (4, 4)] hx)
  · have hadd {i : ℕ} (hi : i < nFilterRaw) :=
      load_rawLoop hn (apart_rawAddAssigns hn) (rawLoopAssigns_subset_add m) hi
    have hdelete {i : ℕ} (hi : i < nFilterRaw) :=
      load_rawLoop hn (apart_rawDeleteAssigns hn) (rawLoopAssigns_subset_delete m) hi
    refine onlyProto_of_chain (fun hpos => ?_) (fun i hi => ?_) (fun i hi => ?_)
    · have hzero : (runAssigns (rawDeleteAssigns m)).load 16 4 = 0 := by
        refine load_runAssigns_eq_zero fun x hx => ?_
        have hfix : ∀ x ∈ [(0, 1), (8, 1), (4, 4)], x.1 + x.2 ≤ 16 := by decide
        rw [spans_rawDeleteAssigns hn, List.mem_append] at hx
        rcases hx with hx | hx
        · exact .inl (hfix x hx)
        · exact .inr ((by decide : 20 ≤ 24).trans (hloop hx))
      have heq := load_eq_of_fieldValues_eq h 16 (by decide)
      rw [hzero] at heq
      exact (hadd hpos).1.symm.trans heq.symm
    · have hi60 : i < 60 := hi
      have heq := load_eq_of_fieldValues_eq h (8 + 16 * (i + 1)) (by omega)
      rw [(hdelete hi).1, Nat.add_comm 8 (8 + 16 * (i + 1)), (hadd hi).2] at heq
      exact heq
    · have hi60 : i + 1 < 60 := hi
      have heq := load_eq_of_fieldValues_eq h (8 + 16 * (i + 1) + 8) (by omega)
      rw [(hdelete (Nat.lt_of_succ_lt hi)).2,
        show 8 + (8 + 16 * (i + 1) + 8) = 8 + 16 * (i + 1 + 1) by ring, (hadd hi).1] at heq
      exact heq

omit hn in
/-- Assigning 0 writes zero bytes. -/
theorem byteAt_assign_zero (lhs : LValue) (len a : ℕ) :
    (lhs.assign len 0).write.byteAt a = 0 := by
  simp [LValue.assign, Assign.write, Write.byteAt, leBytes]

/-- With the category mask and all pairs 0, only the protocol is left, at equal places. -/
theorem fieldValues_raw_eq_of_zero (hcategory : m.get Raw.categoryMask = 0)
    (hpairs : ∀ i < nFilterRaw, m.get (Raw.origin i) = 0 ∧ m.get (Raw.mask i) = 0) :
    fieldValues .aclDelete 61 (runAssigns (rawDeleteAssigns m)) =
      fieldValues .aclAdd 61 (runAssigns (rawAddAssigns m)) := by
  have hloop (x : Assign) (hx : x ∈ rawLoopAssigns m) (a : ℕ) : x.write.byteAt a = 0 := by
    obtain ⟨i, hi, hx⟩ := List.mem_flatMap.mp hx
    obtain ⟨horigin, hmask⟩ := hpairs i (hn ▸ List.mem_range.mp hi)
    rw [horigin, hmask] at hx
    simp only [fieldAssigns, List.mem_cons, List.not_mem_nil, or_false] at hx
    rcases hx with rfl | rfl <;> exact byteAt_assign_zero _ _ _
  -- the protocol and its mask, of one byte each
  have hbyte {as : List Assign} (hapart : Apart as) {lhs : LValue} {v : ℕ}
      (hmem : lhs.assign 1 v ∈ as) : (runAssigns as lhs.off).toNat = v % 256 := by
    have hload := load_runAssigns hapart hmem
    simpa only [Mem.load, Nat.mul_zero, Nat.add_zero, Nat.pow_one] using hload
  have hproto (part : Part) (v : ℕ)
      (hdelete : (LValue.fieldValue .aclDelete 0 part).assign 1 v ∈ rawDeleteAssigns m)
      (hadd : (LValue.fieldValue .aclAdd 0 part).assign 1 v ∈ rawAddAssigns m) :
      runAssigns (rawDeleteAssigns m) (LValue.fieldValue .aclDelete 0 part).off =
        runAssigns (rawAddAssigns m) (LValue.fieldValue .aclAdd 0 part).off := by
    refine BitVec.eq_of_toNat_eq ?_
    rw [hbyte (apart_rawDeleteAssigns hn) hdelete, hbyte (apart_rawAddAssigns hn) hadd]
  rw [fieldValues_eq_iff]
  intro a ha
  by_cases h0 : a = 0
  · subst h0
    exact hproto .value (m.get Raw.proto)
      (by simp [rawDeleteAssigns, rawProtoAssigns, fieldAssigns])
      (by simp [rawAddAssigns, rawProtoAssigns, fieldAssigns])
  by_cases h8 : a = 8
  · subst h8
    exact hproto .maskRange (m.get Raw.protoMask)
      (by simp [rawDeleteAssigns, rawProtoAssigns, fieldAssigns])
      (by simp [rawAddAssigns, rawProtoAssigns, fieldAssigns])
  have hdelete : runAssigns (rawDeleteAssigns m) a = 0 := by
    refine runAssigns_apply_eq_zero fun x hx hc => ?_
    simp only [rawDeleteAssigns, rawProtoAssigns, fieldAssigns, hcategory, List.mem_append,
      List.mem_cons, List.not_mem_nil, or_false] at hx
    rcases hx with ((rfl | rfl) | rfl) | hx
    · exact absurd (show 0 ≤ a ∧ a < 0 + 1 from hc) (by omega)
    · exact absurd (show 8 ≤ a ∧ a < 8 + 1 from hc) (by omega)
    · exact byteAt_assign_zero _ _ _
    · exact hloop x hx a
  have hadd : runAssigns (rawAddAssigns m) (8 + a) = 0 := by
    refine runAssigns_apply_eq_zero fun x hx hc => ?_
    simp only [rawAddAssigns, rawProtoAssigns, fieldAssigns, hcategory, List.mem_append,
      List.mem_cons, List.not_mem_nil, or_false] at hx
    rcases hx with (((rfl | rfl) | rfl) | hx) | rfl
    · exact absurd (show 8 ≤ 8 + a ∧ 8 + a < 8 + 1 from hc) (by omega)
    · exact absurd (show 16 ≤ 8 + a ∧ 8 + a < 16 + 1 from hc) (by omega)
    · exact byteAt_assign_zero _ _ _
    · exact hloop x hx _
    · exact absurd (show 0 ≤ 8 + a ∧ 8 + a < 0 + 4 from hc) (by omega)
  rw [hdelete, hadd]

end Raw

/-! ### From the command to the delete -/

section Accepted

variable {inet : InetPton} {tokens : List String} {m : TableRuleMatch} {n : ℕ}
  {t : TableAclParams}

/-- **The key of a delete.** -/
theorem fieldValues_delete_eq_add_iff (hparse : parseMatch inet tokens = .ok (m, n))
    (hacl : tokens[1]? = some "acl") (hcheck : matchCheck m (.acl t) = true) :
    ∃ addMl deleteMl, matchConvert m true = some addMl ∧ matchConvert m false = some deleteMl ∧
      (fieldValues .aclDelete m.branch.nFields deleteMl =
        fieldValues .aclAdd m.branch.nFields addMl ↔ m.OnlyProto) := by
  obtain ⟨f, hversion, hn⟩ := parseMatch_acl_version hparse hacl
  obtain ⟨htype, -, hsd, hdd⟩ := matchCheck_acl_iff.mp hcheck
  have hbranch : m.branch = f := by
    rw [TableRuleMatch.branch, hversion]
    cases f <;> rfl
  rw [TableRuleMatch.OnlyProto, hbranch]
  have hconvert (add : Bool) : matchConvert m add = (aclAssigns m.mem add).map runAssigns := by
    rw [matchConvert, matchConvertAssigns, htype]
  simp only [hconvert, aclAssigns, hversion]
  cases f with
  | ipv4 =>
    refine ⟨_, _, rfl, rfl, iff_of_false (fieldValues_ipv4_ne m.mem) ?_⟩
    rintro ⟨hraw, -⟩
    cases hraw
  | raw =>
    refine ⟨_, _, rfl, rfl, ?_⟩
    constructor
    · intro h
      exact ⟨rfl, zero_of_fieldValues_raw_eq (hn rfl) h⟩
    · rintro ⟨-, hcategory, hpairs⟩
      exact fieldValues_raw_eq_of_zero (hn rfl) hcategory hpairs
  | ipv6 =>
    rw [hversion] at hsd hdd
    obtain ⟨sa32, hsa32, -⟩ := matchConvertIpv6Depth_eq hsd
    obtain ⟨da32, hda32, -⟩ := matchConvertIpv6Depth_eq hdd
    simp only [hsa32, hda32]
    refine ⟨_, _, rfl, rfl, iff_of_false (fieldValues_ipv6_ne m.mem sa32 da32) ?_⟩
    rintro ⟨hraw, -⟩
    cases hraw

/-- What an add of the match installed is removed by a delete of it, exactly when the match is raw
and its category mask and pairs are 0. -/
theorem removed_iff_onlyProto {nFields : ℕ} (hparse : parseMatch inet tokens = .ok (m, n))
    (hacl : tokens[1]? = some "acl") (hnFields : nFields = m.branch.nFields) {A E D : Type}
    {place : List (LlEntry E D) → Mem → E → Option D} {deleteMissing : Int} {ops : ActionOps A E}
    {s s' : TableState (.acl nFields place deleteMissing) A} {action : A} {addMl : Mem}
    (hadd : pipelineTableRuleAdd ops (.acl t) s m action = (0, s'))
    (haddMl : matchConvert m true = some addMl) :
    (pipelineTableRuleDelete (.acl t) s' m).2.Removed m addMl ↔ m.OnlyProto := by
  obtain ⟨hcheck, -⟩ := pipelineTableRuleAdd_eq_zero hadd
  obtain ⟨addMl', deleteMl, haddMl', hdeleteMl, hkeys⟩ :=
    fieldValues_delete_eq_add_iff hparse hacl hcheck
  obtain rfl : addMl = addMl' := Option.some.inj (haddMl.symm.trans haddMl')
  rw [removed_iff hadd haddMl hdeleteMl, ← hkeys, ← hnFields]
  rfl

/-- In a table of `nFields` fields, a delete of the match names the rule that an add of it
installs: the field values are equal through the two arms, and from every state of the table, an
add that succeeds and then a delete remove the rule from both sides. -/
def DeleteNamesAdded (t : TableAclParams) (nFields : ℕ) (m : TableRuleMatch) : Prop :=
  ∃ addMl deleteMl, matchConvert m true = some addMl ∧ matchConvert m false = some deleteMl ∧
    fieldValues .aclDelete nFields deleteMl = fieldValues .aclAdd nFields addMl ∧
    ∀ {A E D : Type} (place : List (LlEntry E D) → Mem → E → Option D) (deleteMissing : Int)
      (ops : ActionOps A E) (s s' : TableState (.acl nFields place deleteMissing) A) (action : A),
      pipelineTableRuleAdd ops (.acl t) s m action = (0, s') →
      (pipelineTableRuleDelete (.acl t) s' m).2.Removed m addMl

/-- **When a delete names the rule that add installed.** -/
theorem deleteNamesAdded_iff {dataStart : BitVec 32} {fields : List AclFieldDef}
    (hparse : parseMatch inet tokens = .ok (m, n)) (hacl : tokens[1]? = some "acl")
    (hcreate : aclFormat dataStart t = some fields) (hcheck : matchCheck m (.acl t) = true)
    (hformat : m.branch = t.format) : DeleteNamesAdded t fields.length m ↔ m.OnlyProto := by
  have hnFields : fields.length = m.branch.nFields := hformat ▸ nFields_eq_length hcreate
  obtain ⟨addMl, deleteMl, haddMl, hdeleteMl, hkeys⟩ :=
    fieldValues_delete_eq_add_iff hparse hacl hcheck
  rw [← hnFields] at hkeys
  constructor
  · rintro ⟨addMl', deleteMl', haddMl', hdeleteMl', heq, -⟩
    obtain rfl : addMl = addMl' := Option.some.inj (haddMl.symm.trans haddMl')
    obtain rfl : deleteMl = deleteMl' := Option.some.inj (hdeleteMl.symm.trans hdeleteMl')
    exact hkeys.mp heq
  · intro honly
    refine ⟨addMl, deleteMl, haddMl, hdeleteMl, hkeys.mpr honly, ?_⟩
    intro A E D place deleteMissing ops s s' action hadd
    exact (removed_iff_onlyProto hparse hacl hnFields hadd haddMl).mpr honly

end Accepted

/-- A command that matches a protocol and nothing else. -/
theorem anyTcp_deleteNamesAdded_iff :
    ∃ m fields, parseMatch .unspecified anyTcp = .ok (m, 14) ∧
      aclFormat 256 ethernetIpv4 = some fields ∧
      (DeleteNamesAdded ethernetIpv4 fields.length m ↔ m.OnlyProto) :=
  ⟨_, _, rfl, rfl,
    deleteNamesAdded_iff (show parseMatch .unspecified anyTcp = .ok (_, 14) from rfl) rfl
      (show aclFormat 256 ethernetIpv4 = _ from rfl) (by decide +kernel) rfl⟩

/-- A table of the library that numbers its entries, and takes a delete of a missing rule for a
success. -/
def numbered : LowLevel (List (BitVec 8)) Unit ℕ := .acl 5 (fun ll _ _ => some ll.length) 0

/-- The rule for TCP, added to an empty table and deleted: `table->rules` is empty and the table
of the library holds the rule. -/
theorem anyTcp_not_deleteNamesAdded :
    ∃ m, parseMatch .unspecified anyTcp = .ok (m, 14) ∧
      matchCheck m (.acl ethernetIpv4) = true ∧ m.branch = ethernetIpv4.format ∧
      aclFormat 256 ethernetIpv4 ≠ none ∧ ¬ DeleteNamesAdded ethernetIpv4 5 m ∧
      ∃ s' : TableState numbered Unit,
        pipelineTableRuleAdd ⟨fun _ => true, some⟩ (.acl ethernetIpv4) .empty m () = (0, s') ∧
        (pipelineTableRuleDelete (.acl ethernetIpv4) s' m).1 = 0 ∧
        (pipelineTableRuleDelete (.acl ethernetIpv4) s' m).2.rules.length = 0 ∧
        (pipelineTableRuleDelete (.acl ethernetIpv4) s' m).2.ll.length = 1 := by
  refine ⟨_, rfl, by decide +kernel, rfl, by decide, ?_, _, rfl, by decide +kernel,
    by decide +kernel, by decide +kernel⟩
  rintro ⟨addMl, deleteMl, haddMl, hdeleteMl, heq, -⟩
  obtain rfl := Option.some.inj (haddMl.symm.trans rfl)
  obtain rfl := Option.some.inj (hdeleteMl.symm.trans rfl)
  exact fieldValues_ipv4_ne _ heq

end Rids.Pipeline
