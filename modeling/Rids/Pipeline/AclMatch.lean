import Rids.Pipeline.MatchConvert

/-!
# What a converted rule matches

The semantics of the ACL library's fields, for a rule that `match_convert` left in the `acl_add`
arm: of every field the declared number of bytes is read, from the rule in host order and from
the packet in network order, and compared as its type says.

* `aclMatches_shift` — under a format whose offsets are moved by a header offset, a rule reads the
  header as it reads the packet under the format as written.
* `mask_matches_iff` — a mask field compares a bit prefix.
-/

namespace Rids.Pipeline

open Rids.Lib.ByteMem

/-! ### Field semantics -/

/-- A field of a rule against a packet. A bitmask compares under the mask, a mask compares the
leading bits its value counts, a range is an inclusive interval. -/
def AclFieldDef.Matches (f : AclFieldDef) (ml pkt : Mem) : Prop :=
  let value := fieldOf ml .aclAdd f.fieldIndex .value f.size
  let maskRange := fieldOf ml .aclAdd f.fieldIndex .maskRange f.size
  let x := (pkt.drop f.offset.toNat).beLoad f.size
  match f.type with
  | .bitmask => x &&& maskRange = value &&& maskRange
  | .mask => x / 2 ^ (8 * f.size - maskRange) = value / 2 ^ (8 * f.size - maskRange)
  | .range => value ≤ x ∧ x ≤ maskRange

instance (f : AclFieldDef) (ml pkt : Mem) : Decidable (f.Matches ml pkt) := by
  unfold AclFieldDef.Matches
  cases f.type <;> infer_instance

/-- A rule matches a packet when all its fields do. -/
def aclMatches (fields : List AclFieldDef) (ml pkt : Mem) : Prop :=
  ∀ f ∈ fields, f.Matches ml pkt

instance (fields : List AclFieldDef) (ml pkt : Mem) : Decidable (aclMatches fields ml pkt) :=
  inferInstanceAs (Decidable (∀ f ∈ fields, f.Matches ml pkt))

/-! ### Header offsets -/

/-- A packet whose bytes are addressed by 32-bit offsets from the start of its data, as the
offsets of a format are. -/
abbrev PacketAt := BitVec 32 → BitVec 8

/-- The bytes at increasing offsets. -/
def PacketAt.bytes (p : PacketAt) : Mem := fun a => p (.ofNat 32 a)

/-- The header that begins at offset `base`. -/
def PacketAt.header (p : PacketAt) (base : BitVec 32) : Mem := fun j => p (base + .ofNat 32 j)

/-- The header of a packet at the offset a table was created with. `dataStart` is the distance of
the packet data from the start of its buffer, which the created table's offset counts. -/
def TableAclParams.header (t : TableAclParams) (dataStart : BitVec 32) (p : PacketAt) : Mem :=
  p.header (t.ipHeaderOffset - dataStart)

/-- Moving the offsets of a format by `base` is reading the header at `base`. -/
theorem aclMatches_shift (fields : List AclFieldDef) (base : BitVec 32) (ml : Mem) (p : PacketAt) :
    aclMatches (fields.map fun f => { f with offset := f.offset + base }) ml p.bytes ↔
      aclMatches fields ml (p.header base) := by
  have hfield (f : AclFieldDef) :
      ({ f with offset := f.offset + base } : AclFieldDef).Matches ml p.bytes ↔
        f.Matches ml (p.header base) := by
    have hx : (Mem.drop p.bytes (f.offset + base).toNat).beLoad f.size =
        (Mem.drop (p.header base) f.offset.toNat).beLoad f.size := by
      refine beLoad_congr fun i _ => ?_
      simp only [Mem.drop_apply, PacketAt.bytes, PacketAt.header, BitVec.ofNat_add,
        BitVec.ofNat_toNat, BitVec.setWidth_eq]
      rw [← BitVec.add_assoc, BitVec.add_comm f.offset base]
    unfold AclFieldDef.Matches
    simp only [hx]
  simp only [aclMatches, List.forall_mem_map, hfield]

/-! ### The three field types -/

section Fields

variable {ml pkt : Mem} {j k : ℕ} {off : BitVec 32}

/-- A bitmask of 0 matches everything. -/
theorem bitmask_zero_matches {size : ℕ} (h : fieldOf ml .aclAdd j .maskRange size = 0) :
    (AclFieldDef.mk .bitmask size j k off).Matches ml pkt := by
  simp [AclFieldDef.Matches, h]

/-- A mask field of a word compares a bit prefix of the address word it holds. -/
theorem mask_matches_iff {a : Mem} {len : ℕ}
    (hvalue : fieldOf ml .aclAdd j .value 4 = a.beLoad 4)
    (hmask : fieldOf ml .aclAdd j .maskRange 4 = len) (hlen : len ≤ 32) :
    (AclFieldDef.mk .mask 4 j k off).Matches ml pkt ↔ BitPrefix len (pkt.drop off.toNat) a := by
  simp only [AclFieldDef.Matches, hvalue, hmask]
  exact beLoad_div_eq_iff _ _ (by omega)

/-- A range field compares with the two ends of the rule. -/
theorem range_matches_iff {size lo hi : ℕ} (hlo : fieldOf ml .aclAdd j .value size = lo)
    (hhi : fieldOf ml .aclAdd j .maskRange size = hi) :
    (AclFieldDef.mk .range size j k off).Matches ml pkt ↔
      lo ≤ (pkt.drop off.toNat).beLoad size ∧ (pkt.drop off.toNat).beLoad size ≤ hi := by
  simp only [AclFieldDef.Matches, hlo, hhi]

end Fields

end Rids.Pipeline
