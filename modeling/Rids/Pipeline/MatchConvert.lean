import Mathlib.Tactic.IntervalCases
import Rids.Pipeline.Table

/-!
# From a rule match to the low-level key (`thread.c`)

`match_convert` fills `union table_rule_match_low_level` by assignments through two of its arms:
`acl_add`, whose `field_value` array begins after `priority` and `category_mask`, and
`acl_delete`, whose array begins at offset 0. `matchConvertAssigns` is the list of its assignments
in order; an `LValue` names the arm and the field as the source does, and `LValue.off` is the
place this arm gives it. `matchConvert` runs the list on the zeroed union.

* `matchConvertIpv6Depth_eq` — the four depths of a 128-bit prefix are the parts of it that lie in
  the four words.
* `load_runAssigns`, `runAssigns_apply_eq_zero` — what is read back from the converted rule.
-/

namespace Rids.Pipeline

open Rids.Lib.ByteMem

/-! ### The union -/

/-- The two arms of the union that carry ACL fields.
Source: `thread.c` `union table_rule_match_low_level`
Kind: D -/
inductive Arm
  | aclAdd | aclDelete
deriving DecidableEq, Repr

/-- The two halves of `struct rte_acl_field`. -/
inductive Part
  | value | maskRange
deriving DecidableEq, Repr

/-- What an assignment of `match_convert` assigns to. -/
inductive LValue
  | priority
  | categoryMask
  | fieldValue (arm : Arm) (j : ℕ) (part : Part)
  | bytes (off : ℕ)
deriving DecidableEq, Repr

/-- The offset of `field_value` in its struct: `acl_add` is `{int32_t priority; uint32_t
category_mask; field_value[]}`, `acl_delete` is `{field_value[]}`. -/
def Arm.fieldValueOff : Arm → ℕ
  | aclAdd => 8
  | aclDelete => 0

/-- The offset of a half of `struct rte_acl_field`: two unions of 8 bytes. -/
def Part.off : Part → ℕ
  | value => 0
  | maskRange => 8

/-- The place of an assignment in the union. -/
def LValue.off : LValue → ℕ
  | priority => 0
  | categoryMask => 4
  | fieldValue arm j part => arm.fieldValueOff + 16 * j + part.off
  | bytes off => off

/-- An assignment: `len` bytes of `src` go to `lhs`. -/
structure Assign where
  lhs : LValue
  len : ℕ
  src : Mem

/-- The assignment of an unsigned integer of `len` bytes. -/
def LValue.assign (lhs : LValue) (len v : ℕ) : Assign := ⟨lhs, len, leBytes v⟩

/-- The write an assignment makes. -/
def Assign.write (a : Assign) : Write := ⟨a.lhs.off, a.len, a.src⟩

/-! ### `match_convert` -/

/-- The depths of the four words of a prefix; `none` is the error.
Source: `thread.c` `match_convert_ipv6_depth`
Kind: D -/
def matchConvertIpv6Depth (depth : ℕ) : Option (ℕ → ℕ) :=
  if 128 < depth then none
  else
    match depth / 32 with
    | 0 => some fun j => [depth, 0, 0, 0].getD j 0
    | 1 => some fun j => [32, depth - 32, 0, 0].getD j 0
    | 2 => some fun j => [32, 32, depth - 64, 0].getD j 0
    | 3 => some fun j => [32, 32, 32, depth - 96].getD j 0
    | 4 => some fun j => [32, 32, 32, 32].getD j 0
    | _ => none

/-- A depth of at most 128 is spread over four words. -/
theorem matchConvertIpv6Depth_eq {depth : ℕ} (h : depth ≤ 128) :
    ∃ depth32, matchConvertIpv6Depth depth = some depth32 ∧
      ∀ w < 4, depth32 w = wordLen depth w := by
  have hdiv : depth / 32 = 0 ∨ depth / 32 = 1 ∨ depth / 32 = 2 ∨ depth / 32 = 3 ∨
      depth / 32 = 4 := by omega
  have hle : ¬ 128 < depth := by omega
  rcases hdiv with hd | hd | hd | hd | hd <;>
    simp only [matchConvertIpv6Depth, hle, if_false, hd, Option.some.injEq, exists_eq_left'] <;>
    intro w hw <;> interval_cases w <;> simp [wordLen] <;> omega

section Fields

variable (arm : Arm) (m : Mem)

/-- The value and the mask or range of field `j`, both of `len` bytes. -/
def fieldAssigns (j len value maskRange : ℕ) : List Assign :=
  [(LValue.fieldValue arm j .value).assign len value,
    (LValue.fieldValue arm j .maskRange).assign len maskRange]

/-- The fields of an IPv4 rule. The branches for add and delete both write these, each through
its own arm.
Source: `thread.c` `match_convert`, `ip_version == 1`
Kind: D -/
def ipv4Assigns : List Assign :=
  fieldAssigns arm 0 1 (m.get Acl.proto) (m.get Acl.protoMask) ++
  fieldAssigns arm 1 4 (m.get Acl.ipv4Sa) (m.get Acl.saDepth) ++
  fieldAssigns arm 2 4 (m.get Acl.ipv4Da) (m.get Acl.daDepth) ++
  fieldAssigns arm 3 2 (m.get Acl.sp0) (m.get Acl.sp1) ++
  fieldAssigns arm 4 2 (m.get Acl.dp0) (m.get Acl.dp1)

/-- Word `w` of an address, in host order. -/
def addrWord (off w : ℕ) : ℕ := bswap32 (m.load (off + 4 * w) 4)

/-- The fields of an IPv6 rule, in both branches.
Source: `thread.c` `match_convert`, the last branch
Kind: D -/
def ipv6Assigns (sa32Depth da32Depth : ℕ → ℕ) : List Assign :=
  fieldAssigns arm 0 1 (m.get Acl.proto) (m.get Acl.protoMask) ++
  fieldAssigns arm 1 4 (addrWord m Acl.ipv6Sa 0) (sa32Depth 0) ++
  fieldAssigns arm 2 4 (addrWord m Acl.ipv6Sa 1) (sa32Depth 1) ++
  fieldAssigns arm 3 4 (addrWord m Acl.ipv6Sa 2) (sa32Depth 2) ++
  fieldAssigns arm 4 4 (addrWord m Acl.ipv6Sa 3) (sa32Depth 3) ++
  fieldAssigns arm 5 4 (addrWord m Acl.ipv6Da 0) (da32Depth 0) ++
  fieldAssigns arm 6 4 (addrWord m Acl.ipv6Da 1) (da32Depth 1) ++
  fieldAssigns arm 7 4 (addrWord m Acl.ipv6Da 2) (da32Depth 2) ++
  fieldAssigns arm 8 4 (addrWord m Acl.ipv6Da 3) (da32Depth 3) ++
  fieldAssigns arm 9 2 (m.get Acl.sp0) (m.get Acl.sp1) ++
  fieldAssigns arm 10 2 (m.get Acl.dp0) (m.get Acl.dp1)

/-- The protocol of a raw rule. -/
def rawProtoAssigns : List Assign :=
  fieldAssigns arm 0 1 (m.get Raw.proto) (m.get Raw.protoMask)

/-- The loop over the pairs of a raw rule. Both branches run it through `acl_add`. -/
def rawLoopAssigns : List Assign :=
  (List.range (m.get Raw.nFilter)).flatMap fun i =>
    fieldAssigns .aclAdd (i + 1) 4 (m.get (Raw.origin i)) (m.get (Raw.mask i))

/-- Source: `thread.c` `match_convert`, `ip_version == 1`, add. Kind: D -/
def ipv4AddAssigns : List Assign :=
  [LValue.categoryMask.assign 4 1] ++ ipv4Assigns .aclAdd m ++
    [LValue.priority.assign 4 (m.get Acl.priority)]

/-- Source: `thread.c` `match_convert`, `ip_version == 1`, delete. Kind: D -/
def ipv4DeleteAssigns : List Assign :=
  [LValue.categoryMask.assign 4 1] ++ ipv4Assigns .aclDelete m

/-- Source: `thread.c` `match_convert`, `ip_version == 2`, add. Kind: D -/
def rawAddAssigns : List Assign :=
  rawProtoAssigns .aclAdd m ++ [LValue.categoryMask.assign 4 (m.get Raw.categoryMask)] ++
    rawLoopAssigns m ++ [LValue.priority.assign 4 (m.get Raw.priority)]

/-- Source: `thread.c` `match_convert`, `ip_version == 2`, delete. Kind: D -/
def rawDeleteAssigns : List Assign :=
  rawProtoAssigns .aclDelete m ++ [LValue.categoryMask.assign 4 (m.get Raw.categoryMask)] ++
    rawLoopAssigns m

/-- Source: `thread.c` `match_convert`, the last branch, add. Kind: D -/
def ipv6AddAssigns (sa32Depth da32Depth : ℕ → ℕ) : List Assign :=
  [LValue.categoryMask.assign 4 1] ++ ipv6Assigns .aclAdd m sa32Depth da32Depth ++
    [LValue.priority.assign 4 (m.get Acl.priority)]

/-- Source: `thread.c` `match_convert`, the last branch, delete. Kind: D -/
def ipv6DeleteAssigns (sa32Depth da32Depth : ℕ → ℕ) : List Assign :=
  [LValue.categoryMask.assign 4 1] ++ ipv6Assigns .aclDelete m sa32Depth da32Depth

end Fields

/-- The assignments of the three ACL branches; `none` is an error.
Source: `thread.c` `match_convert`, `TABLE_ACL`
Kind: D -/
def aclAssigns (m : Mem) (add : Bool) : Option (List Assign) :=
  let ipVersion := m.get Acl.ipVersion
  if ipVersion = 1 then some (if add then ipv4AddAssigns m else ipv4DeleteAssigns m)
  else if ipVersion = 2 then some (if add then rawAddAssigns m else rawDeleteAssigns m)
  else do
    let sa32Depth ← matchConvertIpv6Depth (m.get Acl.saDepth)
    let da32Depth ← matchConvertIpv6Depth (m.get Acl.daDepth)
    some (if add then ipv6AddAssigns m sa32Depth da32Depth
      else ipv6DeleteAssigns m sa32Depth da32Depth)

/-- The assignments of `match_convert`; `none` when it returns an error.
Source: `thread.c` `match_convert`
Kind: D -/
def matchConvertAssigns (mh : TableRuleMatch) (add : Bool) : Option (List Assign) :=
  match mh.matchType with
  | .acl => aclAssigns mh.mem add
  | .array => some [(LValue.bytes 0).assign 4 (mh.mem.get ArrayKey.pos)]
  | .hash => some [⟨.bytes 0, tableRuleMatchSizeMax, mh.mem⟩]
  | .lpm =>
    if mh.mem.get Lpm.ipVersion ≠ 0 then
      some [(LValue.bytes 0).assign 4 (mh.mem.get Lpm.ipv4),
        (LValue.bytes 4).assign 1 (mh.mem.get Lpm.depth)]
    else
      some [⟨.bytes 0, 16, mh.mem.drop Lpm.ipv6⟩,
        (LValue.bytes 16).assign 1 (mh.mem.get Lpm.depth)]
  | .stub => none

/-- The union after a list of assignments. -/
def runAssigns (as : List Assign) : Mem := exec Mem.zero (as.map Assign.write)

/-- Source: `thread.c` `match_convert`. Kind: D -/
def matchConvert (mh : TableRuleMatch) (add : Bool) : Option Mem :=
  (matchConvertAssigns mh add).map runAssigns

/-! ### Reading the union back -/

/-- The value, or the mask or range, of field `j` as an arm sees it, in `size` bytes. -/
def fieldOf (ml : Mem) (arm : Arm) (j : ℕ) (part : Part) (size : ℕ) : ℕ :=
  ml.load (LValue.fieldValue arm j part).off size

/-- The windows of a list of assignments. -/
def spans (as : List Assign) : List (ℕ × ℕ) := as.map fun a => (a.lhs.off, a.len)

/-- The windows of the assignments share no byte. -/
def Apart (as : List Assign) : Prop :=
  (spans as).Pairwise fun x y => x.1 + x.2 ≤ y.1 ∨ y.1 + y.2 ≤ x.1

/-- Assignments with windows apart can be read back. -/
theorem load_runAssigns {as : List Assign} (hapart : Apart as) {lhs : LValue} {len v : ℕ}
    (hmem : lhs.assign len v ∈ as) : (runAssigns as).load lhs.off len = v % 256 ^ len := by
  refine load_exec_of_separate ?_ (List.mem_map_of_mem hmem)
  rwa [Separate, List.map_map]

/-- In apart assignments a field holds what was assigned to it. -/
theorem fieldOf_runAssigns {as : List Assign} (hapart : Apart as) {arm : Arm} {j : ℕ}
    {part : Part} {len v : ℕ} (hmem : (LValue.fieldValue arm j part).assign len v ∈ as) :
    fieldOf (runAssigns as) arm j part len = v % 256 ^ len :=
  load_runAssigns hapart hmem

/-- A byte is 0 when every assignment that covers it puts 0 there. -/
theorem runAssigns_apply_eq_zero {as : List Assign} {a : ℕ}
    (h : ∀ x ∈ as, x.write.Covers a → x.write.byteAt a = 0) : runAssigns as a = 0 := by
  have hwrites : ∀ w ∈ as.map Assign.write, w.Covers a → w.byteAt a = 0 := by
    simpa only [List.forall_mem_map] using h
  by_cases hcovered : ∃ w ∈ as.map Assign.write, w.Covers a
  · exact exec_apply_of_covered hcovered hwrites
  · exact exec_apply_of_not_covered fun w hw hc => hcovered ⟨w, hw, hc⟩

/-- A byte outside the windows of the assignments is 0. -/
theorem runAssigns_apply_of_not_mem_spans {as : List Assign} {a : ℕ}
    (h : ∀ x ∈ spans as, ¬ (x.1 ≤ a ∧ a < x.1 + x.2)) : runAssigns as a = 0 := by
  refine runAssigns_apply_eq_zero fun x hx hc => ?_
  exact absurd hc (h _ (List.mem_map_of_mem hx))

/-! ### The windows of each branch -/

/-- The windows of the loop over 60 pairs. -/
def rawLoopSpans : List (ℕ × ℕ) :=
  (List.range 60).flatMap fun i => [(8 + 16 * (i + 1), 4), (8 + 16 * (i + 1) + 8, 4)]

section Windows

variable (m : Mem)

/-- The places the IPv4 branch of an add writes. -/
theorem spans_ipv4AddAssigns : spans (ipv4AddAssigns m) =
    [(4, 4), (8, 1), (16, 1), (24, 4), (32, 4), (40, 4), (48, 4), (56, 2), (64, 2), (72, 2),
      (80, 2), (0, 4)] :=
  rfl

/-- The places the IPv4 branch of a delete writes. -/
theorem spans_ipv4DeleteAssigns : spans (ipv4DeleteAssigns m) =
    [(4, 4), (0, 1), (8, 1), (16, 4), (24, 4), (32, 4), (40, 4), (48, 2), (56, 2), (64, 2),
      (72, 2)] :=
  rfl

/-- The places the IPv6 branch of an add writes. -/
theorem spans_ipv6AddAssigns (d d' : ℕ → ℕ) : spans (ipv6AddAssigns m d d') =
    [(4, 4), (8, 1), (16, 1), (24, 4), (32, 4), (40, 4), (48, 4), (56, 4), (64, 4), (72, 4),
      (80, 4), (88, 4), (96, 4), (104, 4), (112, 4), (120, 4), (128, 4), (136, 4), (144, 4),
      (152, 2), (160, 2), (168, 2), (176, 2), (0, 4)] :=
  rfl

/-- The places the IPv6 branch of a delete writes. -/
theorem spans_ipv6DeleteAssigns (d d' : ℕ → ℕ) : spans (ipv6DeleteAssigns m d d') =
    [(4, 4), (0, 1), (8, 1), (16, 4), (24, 4), (32, 4), (40, 4), (48, 4), (56, 4), (64, 4),
      (72, 4), (80, 4), (88, 4), (96, 4), (104, 4), (112, 4), (120, 4), (128, 4), (136, 4),
      (144, 2), (152, 2), (160, 2), (168, 2)] :=
  rfl

/-- The IPv4 branch of an add writes no place twice. -/
theorem apart_ipv4AddAssigns : Apart (ipv4AddAssigns m) := by
  rw [Apart, spans_ipv4AddAssigns]
  decide

/-- The IPv4 branch of a delete writes no place twice. -/
theorem apart_ipv4DeleteAssigns : Apart (ipv4DeleteAssigns m) := by
  rw [Apart, spans_ipv4DeleteAssigns]
  decide

/-- The IPv6 branch of an add writes no place twice. -/
theorem apart_ipv6AddAssigns (d d' : ℕ → ℕ) : Apart (ipv6AddAssigns m d d') := by
  rw [Apart, spans_ipv6AddAssigns]
  decide

/-- The IPv6 branch of a delete writes no place twice. -/
theorem apart_ipv6DeleteAssigns (d d' : ℕ → ℕ) : Apart (ipv6DeleteAssigns m d d') := by
  rw [Apart, spans_ipv6DeleteAssigns]
  decide

variable {m}

/-- The places the loop of the raw branch writes. -/
theorem spans_rawLoopAssigns (h : m.get Raw.nFilter = nFilterRaw) :
    spans (rawLoopAssigns m) = rawLoopSpans := by
  simp only [spans, rawLoopAssigns, h, List.map_flatMap]
  rfl

/-- The places the raw branch of an add writes. -/
theorem spans_rawAddAssigns (h : m.get Raw.nFilter = nFilterRaw) :
    spans (rawAddAssigns m) = [(8, 1), (16, 1), (4, 4)] ++ rawLoopSpans ++ [(0, 4)] := by
  rw [← spans_rawLoopAssigns h]
  simp only [spans, rawAddAssigns, List.map_append]
  rfl

/-- The places the raw branch of a delete writes. -/
theorem spans_rawDeleteAssigns (h : m.get Raw.nFilter = nFilterRaw) :
    spans (rawDeleteAssigns m) = [(0, 1), (8, 1), (4, 4)] ++ rawLoopSpans := by
  rw [← spans_rawLoopAssigns h]
  simp only [spans, rawDeleteAssigns, List.map_append]
  rfl

/-- The loop writes no place twice. -/
theorem pairwise_rawLoopSpans :
    rawLoopSpans.Pairwise fun x y => x.1 + x.2 ≤ y.1 ∨ y.1 + y.2 ≤ x.1 := by
  rw [rawLoopSpans, List.pairwise_flatMap]
  refine ⟨fun i _ => ?_, List.pairwise_lt_range.imp fun {i j} hij x hx y hy => ?_⟩
  · simp only [List.pairwise_cons, List.mem_singleton, forall_eq]
    exact ⟨.inl (by omega), by simp⟩
  · simp only [List.mem_cons, List.not_mem_nil, or_false] at hx hy
    rcases hx with rfl | rfl <;> rcases hy with rfl | rfl <;> simp only <;> omega

/-- The loop writes behind the protocol. -/
theorem rawLoopSpans_off {x : ℕ × ℕ} (hx : x ∈ rawLoopSpans) : 24 ≤ x.1 := by
  obtain ⟨i, -, hi⟩ := List.mem_flatMap.mp hx
  simp only [List.mem_cons, List.not_mem_nil, or_false] at hi
  rcases hi with rfl | rfl <;> simp only <;> omega

/-- The raw branch of a delete writes no place twice. -/
theorem apart_rawDeleteAssigns (h : m.get Raw.nFilter = nFilterRaw) :
    Apart (rawDeleteAssigns m) := by
  rw [Apart, spans_rawDeleteAssigns h, List.pairwise_append]
  refine ⟨by decide, pairwise_rawLoopSpans, fun x hx y hy => .inl ?_⟩
  have hle : ∀ x ∈ [(0, 1), (8, 1), (4, 4)], x.1 + x.2 ≤ 24 := by decide
  exact (hle x hx).trans (rawLoopSpans_off hy)

/-- The raw branch of an add writes no place twice. -/
theorem apart_rawAddAssigns (h : m.get Raw.nFilter = nFilterRaw) : Apart (rawAddAssigns m) := by
  rw [Apart, spans_rawAddAssigns h, List.pairwise_append, List.pairwise_append]
  have hle : ∀ x ∈ [(8, 1), (16, 1), (4, 4)], 4 ≤ x.1 ∧ x.1 + x.2 ≤ 24 := by decide
  refine ⟨⟨by decide, pairwise_rawLoopSpans, fun x hx y hy => .inl ?_⟩, by decide,
    fun x hx y hy => .inr ?_⟩
  · exact (hle x hx).2.trans (rawLoopSpans_off hy)
  · obtain rfl := List.mem_singleton.mp hy
    rcases List.mem_append.mp hx with hx | hx
    · exact (hle x hx).1
    · exact (by decide : 4 ≤ 24).trans (rawLoopSpans_off hx)

end Windows

/-- The assignments of one turn of the loop. -/
theorem mem_rawLoopAssigns {m : Mem} {i : ℕ} (hi : i < m.get Raw.nFilter) :
    (LValue.fieldValue .aclAdd (i + 1) .value).assign 4 (m.get (Raw.origin i)) ∈
        rawLoopAssigns m ∧
      (LValue.fieldValue .aclAdd (i + 1) .maskRange).assign 4 (m.get (Raw.mask i)) ∈
        rawLoopAssigns m := by
  have hloop (a : Assign) (ha : a ∈ fieldAssigns .aclAdd (i + 1) 4 (m.get (Raw.origin i))
      (m.get (Raw.mask i))) : a ∈ rawLoopAssigns m :=
    List.mem_flatMap.mpr ⟨i, List.mem_range.mpr hi, ha⟩
  exact ⟨hloop _ List.mem_cons_self, hloop _ (List.mem_cons_of_mem _ List.mem_cons_self)⟩

/-- The loop is part of an add. -/
theorem rawLoopAssigns_subset_add (m : Mem) : rawLoopAssigns m ⊆ rawAddAssigns m :=
  List.subset_append_of_subset_left _ (List.subset_append_right _ _)

/-- The loop is part of a delete. -/
theorem rawLoopAssigns_subset_delete (m : Mem) : rawLoopAssigns m ⊆ rawDeleteAssigns m :=
  List.subset_append_right _ _

end Rids.Pipeline
