import Rids.Lib.Box
import Rids.Lib.FieldSets
import Rids.Pipeline.AclCommand
import Rids.Pipeline.AclMatch

/-!
# What a raw rule matches, end to end

The command of a raw rule gives a value and a mask for each of 61 bytes. The fields that
`match_convert` fills are read as one-byte ranges at the start of the packet data, whatever the
offset of the table. Both readings are boxes over the addresses of a packet.

* `aclMatches_raw_iff` — the converted rule is a box of ranges, from the low byte of a value to
  the low byte of its mask.
* `box_range_eq_box_masked_iff` — the two boxes are equal exactly when both are empty.
* `raw_rule_iff` — hence no accepted raw rule means what its command says, unless both match
  nothing.
* `raw_accepted_iff` — a raw rule passes `match_check` exactly when the values for its ninth and
  tenth origin, which lie where `sa_depth` and `da_depth` are read, are at most 32.
-/

namespace Rids.Pipeline

open Rids.Lib Rids.Lib.ByteMem Rids.Lib.Box

/-! ### What the command says -/

namespace RawRule

variable (v : RawRule)

/-- The value for byte `j`: the protocol, then the origins. -/
def value : ℕ → ℕ
  | 0 => v.proto.toNat
  | k + 1 => (v.origin k).toNat

/-- The mask for byte `j`: the protocol mask, then the masks. -/
def maskAt : ℕ → ℕ
  | 0 => v.protoMask.toNat
  | k + 1 => (v.mask k).toNat

/-- What the command says: every byte agrees with its value under its mask. -/
def Matches (hdr : Mem) : Prop :=
  ∀ j < 61, (hdr j).toNat &&& v.maskAt j = v.value j &&& v.maskAt j

/-- The bytes that agree with value `j` under mask `j`. -/
def masked (j : ℕ) : Set (BitVec 8) := FieldSets.masked 8 (v.value j) (v.maskAt j)

/-- The bytes between the low bytes of value `j` and mask `j`. -/
def range (j : ℕ) : Set (BitVec 8) :=
  FieldSets.interval 8 (v.value j % 2 ^ 8) (v.maskAt j % 2 ^ 8)

end RawRule

/-! ### The converted rule -/

/-- The library reads the low bytes of the values and masks. -/
theorem fieldOf_rawAddAssigns {v : RawRule} {m : Mem} (hv : v.StoredIn m) {j : ℕ} (hj : j < 61) :
    fieldOf (runAssigns (rawAddAssigns m)) .aclAdd j .value 1 = v.value j % 256 ∧
      fieldOf (runAssigns (rawAddAssigns m)) .aclAdd j .maskRange 1 = v.maskAt j % 256 := by
  have hapart := apart_rawAddAssigns hv.nFilter
  have hread {part : Part} {len n : ℕ} (hlen : 1 ≤ len)
      (hmem : (LValue.fieldValue .aclAdd j part).assign len n ∈ rawAddAssigns m) :
      fieldOf (runAssigns (rawAddAssigns m)) .aclAdd j part 1 = n % 256 := by
    have h := fieldOf_runAssigns hapart hmem
    rw [fieldOf, ← load_mod_pow _ _ hlen, ← fieldOf, h, Nat.pow_one]
    exact Nat.mod_mod_of_dvd n (dvd_pow_self 256 (by omega))
  cases j with
  | zero =>
    rw [RawRule.value, RawRule.maskAt, ← hv.proto, ← hv.protoMask]
    constructor <;> refine hread (le_refl 1) ?_ <;>
      simp [rawAddAssigns, rawProtoAssigns, fieldAssigns]
  | succ k =>
    have hk : k < nFilterRaw := Nat.lt_of_succ_lt_succ hj
    obtain ⟨hvalue, hmask⟩ := mem_rawLoopAssigns (hv.nFilter.symm ▸ hk : k < m.get Raw.nFilter)
    rw [RawRule.value, RawRule.maskAt, ← hv.origin k hk, ← hv.mask k hk]
    exact ⟨hread (by decide : 1 ≤ 4) (rawLoopAssigns_subset_add m hvalue),
      hread (by decide : 1 ≤ 4) (rawLoopAssigns_subset_add m hmask)⟩

/-! ### Two boxes -/

/-- The address of byte `j` of a header that begins at `base`. -/
def place (base : BitVec 32) (j : ℕ) : BitVec 32 := base + .ofNat 32 j

/-- The place of a filter, with the wrap-around of the offset. -/
theorem place_toNat (base : BitVec 32) (j : ℕ) :
    (place base j).toNat = (base.toNat + j) % 2 ^ 32 := by
  rw [place, BitVec.toNat_add, BitVec.toNat_ofNat, Nat.add_mod_mod]

/-- Different filters look at different places. -/
theorem place_inj {base : BitVec 32} : Set.InjOn (place base) (Set.Iio 61) := by
  intro i hi j hj h
  simp only [Set.mem_Iio] at hi hj
  have hmod := congrArg BitVec.toNat h
  rw [place_toNat, place_toNat] at hmod
  omega

/-- A filter looks at the place of another one counted from 0. -/
theorem place_eq_place_zero_iff {base : BitVec 32} {i j : ℕ} (hi : i < 61) :
    place base j = place 0 i ↔ (base.toNat + j) % 2 ^ 32 = i := by
  have hzero : (place 0 i).toNat = i := by
    rw [place_toNat, BitVec.ofNat_eq_ofNat, BitVec.toNat_zero, Nat.zero_add,
      Nat.mod_eq_of_lt (by omega)]
  rw [← BitVec.toNat_inj, hzero, place_toNat]

/-- The converted rule is a box of ranges at the start of the packet data. -/
theorem aclMatches_raw_iff {v : RawRule} {m : Mem} (hv : v.StoredIn m) (p : PacketAt) :
    aclMatches tableAclFieldFormatRaw (runAssigns (rawAddAssigns m)) p.bytes ↔
      p ∈ box (Set.Iio 61) (place 0) v.range := by
  simp only [aclMatches, tableAclFieldFormatRaw, List.forall_mem_map, List.mem_range, mem_box,
    Set.mem_Iio]
  refine forall₂_congr fun j hj => ?_
  obtain ⟨hvalue, hmask⟩ := fieldOf_rawAddAssigns hv hj
  rw [range_matches_iff hvalue hmask]
  have hbyte : (Mem.drop p.bytes (BitVec.ofNat 32 j).toNat).beLoad 1 = (p (place 0 j)).toNat := by
    simp only [Mem.beLoad, Mem.drop_apply, PacketAt.bytes, place, Nat.zero_mul, Nat.zero_add,
      Nat.add_zero, BitVec.ofNat_toNat, BitVec.setWidth_eq, BitVec.ofNat_eq_ofNat, BitVec.zero_add]
  rw [hbyte]
  rfl

/-- The command is a box of masked bytes at the table's offset. -/
theorem matches_header_iff (v : RawRule) (t : TableAclParams) (dataStart : BitVec 32)
    (p : PacketAt) : v.Matches (t.header dataStart p) ↔
      p ∈ box (Set.Iio 61) (place (t.ipHeaderOffset - dataStart)) v.masked :=
  Iff.rfl

/-! ### One byte -/

section Bytes

variable {v : RawRule} {i j : ℕ}

/-- The range of field `j` is all bytes. -/
def RawRule.Full (v : RawRule) (j : ℕ) : Prop :=
  v.value j % 2 ^ 8 = 0 ∧ v.maskAt j % 2 ^ 8 = 2 ^ 8 - 1

/-- The range of field `j` is the byte 0. -/
def RawRule.Zero (v : RawRule) (j : ℕ) : Prop := v.value j % 2 ^ 8 = 0 ∧ v.maskAt j % 2 ^ 8 = 0

/-- A filter is not both full and zero. -/
theorem not_full_and_zero : ¬ (v.Full j ∧ v.Zero j) := by
  rintro ⟨⟨-, hfull⟩, -, hzero⟩
  omega

/-- The range of a filter has an element exactly when its ends are in order. -/
theorem range_nonempty_iff : (v.range j).Nonempty ↔ v.value j % 2 ^ 8 ≤ v.maskAt j % 2 ^ 8 :=
  FieldSets.interval_nonempty_iff (Nat.mod_lt _ (by decide))

/-- The masked reading has an element exactly when the high bits do not ask for one. -/
theorem masked_nonempty_iff : (v.masked j).Nonempty ↔ v.value j &&& v.maskAt j < 2 ^ 8 :=
  FieldSets.masked_nonempty_iff

/-- Only the full range holds every byte. -/
theorem full_of_range_eq_univ (h : v.range j = Set.univ) : v.Full j :=
  FieldSets.interval_eq_univ (Nat.mod_lt _ (by decide)) h

/-- Only the zero mask holds every byte. -/
theorem zero_of_masked_eq_univ (hv : (v.masked j).Nonempty) (hne : (v.range j).Nonempty)
    (h : v.masked j = Set.univ) : v.Zero j := by
  have hmask := FieldSets.masked_eq_univ (masked_nonempty_iff.mp hv) h
  have hle := range_nonempty_iff.mp hne
  exact ⟨by omega, hmask⟩

/-- The fields that a field is compared with by turns: a full one with a zero one. -/
theorem full_zero_of_range_eq_masked (hv : (v.masked j).Nonempty) (hne : (v.range i).Nonempty)
    (h : v.range i = v.masked j) : (v.Full j → v.Zero i) ∧ (v.Zero j → v.Full i) := by
  have hlt : v.maskAt i % 2 ^ 8 < 2 ^ 8 := Nat.mod_lt _ (by decide)
  constructor
  · rintro ⟨hvalue, hmask⟩
    exact FieldSets.interval_eq_masked_all (masked_nonempty_iff.mp hv) (range_nonempty_iff.mp hne)
      hlt hvalue hmask h
  · rintro ⟨-, hmask⟩
    exact FieldSets.interval_eq_masked_none (masked_nonempty_iff.mp hv) hlt hmask h

end Bytes

/-! ### The boxes are never equal and inhabited -/

/-- Two kinds of cells that change from each cell to the one `d` further, the first `d` of one
kind and the last `d` of the other, cannot fill 61 cells. -/
theorem not_alternating {F Z : ℕ → Prop} {d : ℕ} (hpos : 0 < d) (hlt : d < 61)
    (hex : ∀ a, ¬ (F a ∧ Z a)) (hfirst : ∀ a < d, F a)
    (hstep : ∀ a, a + d < 61 → (F a → Z (a + d)) ∧ (Z a → F (a + d)))
    (hlast : ∀ a < 61, 61 ≤ a + d → Z a) : False := by
  have hblock (a : ℕ) (ha : a < 61) : (a / d % 2 = 0 → F a) ∧ (a / d % 2 = 1 → Z a) := by
    induction a using Nat.strong_induction_on with
    | _ a ih =>
      by_cases had : a < d
      · rw [Nat.div_eq_of_lt had]
        exact ⟨fun _ => hfirst a had, fun h => absurd h (by decide)⟩
      · obtain ⟨b, rfl⟩ : ∃ b, a = b + d := ⟨a - d, by omega⟩
        obtain ⟨heven, hodd⟩ := ih b (by omega) (by omega)
        obtain ⟨hFZ, hZF⟩ := hstep b ha
        rw [Nat.add_div_right b hpos]
        exact ⟨fun h => hZF (hodd (by omega)), fun h => hFZ (heven (by omega))⟩
  -- an even block among the last `d` cells
  have hmeet : ∀ d < 61, 0 < d → 60 / d % 2 = 0 ∨ (61 - d) / d % 2 = 0 := by decide
  rcases hmeet d hlt hpos with h | h
  · exact hex 60 ⟨(hblock 60 (by omega)).1 h, hlast 60 (by omega) (by omega)⟩
  · exact hex (61 - d) ⟨(hblock _ (by omega)).1 h, hlast _ (by omega) (by omega)⟩

section Boxes

variable {v : RawRule} {base : BitVec 32}

/-- At every address the sides of two equal boxes with a member are equal. -/
theorem sides_of_box_eq (hne : (box (Set.Iio 61) (place 0) v.range).Nonempty)
    (heq : box (Set.Iio 61) (place 0) v.range = box (Set.Iio 61) (place base) v.masked) :
    (∀ i < 61, (∀ j < 61, (base.toNat + j) % 2 ^ 32 ≠ i) → v.range i = Set.univ) ∧
      (∀ j < 61, 61 ≤ (base.toNat + j) % 2 ^ 32 → v.masked j = Set.univ) ∧
      ∀ i < 61, ∀ j < 61, (base.toNat + j) % 2 ^ 32 = i → v.range i = v.masked j := by
  obtain ⟨p, hp⟩ := hne
  have hplace := box_place_iff hp heq
  refine ⟨fun i hi hout => ?_, fun j hj hout => ?_, fun i hi j hj hij => ?_⟩
  · refine Set.eq_univ_of_forall fun x => ?_
    refine (hplace (place 0 i) x).mpr (fun j hj h => ?_) i hi rfl
    exact absurd ((place_eq_place_zero_iff hi).mp h) (hout j hj)
  · refine Set.eq_univ_of_forall fun x => ?_
    refine (hplace (place base j) x).mp (fun i hi h => ?_) j hj rfl
    have := (place_eq_place_zero_iff hi).mp h.symm
    simp only [Set.mem_Iio] at hi
    omega
  · have hat : place base j = place 0 i := (place_eq_place_zero_iff hi).mpr hij
    ext x
    constructor
    · intro hx
      refine (hplace (place 0 i) x).mp (fun i' hi' h => ?_) j hj hat
      rwa [place_inj hi' hi h]
    · intro hx
      refine (hplace (place 0 i) x).mpr (fun j' hj' h => ?_) i hi rfl
      rwa [place_inj hj' hj (h.trans hat.symm)]

/-- A rule whose `origin[8]` passes the depth check has no inhabited box that is its command's. -/
theorem box_range_ne_box_masked (horigin : (v.origin 8).toNat ≤ 32)
    (hne : (box (Set.Iio 61) (place 0) v.range).Nonempty) :
    box (Set.Iio 61) (place 0) v.range ≠ box (Set.Iio 61) (place base) v.masked := by
  intro heq
  obtain ⟨honly, hheader, hboth⟩ := sides_of_box_eq hne heq
  have hrange (j : ℕ) (hj : j < 61) : (v.range j).Nonempty :=
    (box_nonempty_iff place_inj).mp hne j hj
  have hmask (j : ℕ) (hj : j < 61) : (v.masked j).Nonempty :=
    (box_nonempty_iff place_inj).mp (heq ▸ hne) j hj
  have hfull (i : ℕ) (hi : i < 61) (h : ∀ j < 61, (base.toNat + j) % 2 ^ 32 ≠ i) : v.Full i :=
    full_of_range_eq_univ (honly i hi h)
  have hzero (j : ℕ) (hj : j < 61) (h : 61 ≤ (base.toNat + j) % 2 ^ 32) : v.Zero j :=
    zero_of_masked_eq_univ (hmask j hj) (hrange j hj) (hheader j hj h)
  have hchange (i j : ℕ) (hi : i < 61) (hj : j < 61) (h : (base.toNat + j) % 2 ^ 32 = i) :
      (v.Full j → v.Zero i) ∧ (v.Zero j → v.Full i) :=
    full_zero_of_range_eq_masked (hmask j hj) (hrange i hi) (hboth i hi j hj h)
  have hlt := base.isLt
  have hcases : base.toNat = 0 ∨ (0 < base.toNat ∧ base.toNat < 61) ∨
      (61 ≤ base.toNat ∧ base.toNat + 61 ≤ 2 ^ 32) ∨ 2 ^ 32 < base.toNat + 61 := by omega
  rcases hcases with h0 | ⟨hpos, hlow⟩ | ⟨hlow, hhigh⟩ | hhigh
  · -- no offset: every range is its own mask
    have h9 : (v.origin 8).toNat % 2 ^ 8 = 2 ^ 8 - 1 :=
      FieldSets.interval_eq_masked_self (masked_nonempty_iff.mp (hmask 9 (by decide)))
        (range_nonempty_iff.mp (hrange 9 (by decide)))
        (hboth 9 (by decide) 9 (by decide) (by omega))
    omega
  · -- the header begins among the bytes the rule reads
    refine not_alternating (F := v.Full) (Z := v.Zero) hpos hlow (fun a => not_full_and_zero)
      (fun a ha => ?_) (fun a ha => ?_) (fun a ha hout => ?_)
    · exact hfull a (by omega) fun j hj => by omega
    · exact hchange (a + base.toNat) a ha (by omega) (by omega)
    · exact hzero a ha (by omega)
  · -- the header and the bytes the rule reads are apart
    exact not_full_and_zero ⟨hfull 0 (by decide) fun j hj => by omega,
      hzero 0 (by decide) (by omega)⟩
  · -- the header begins before the packet data: the cells are counted from the end
    refine not_alternating (F := fun a => v.Full (60 - a)) (Z := fun a => v.Zero (60 - a))
      (d := 2 ^ 32 - base.toNat) (by omega) (by omega) (fun a => not_full_and_zero)
      (fun a ha => ?_) (fun a ha => ?_) (fun a ha hout => ?_)
    · exact hfull (60 - a) (by omega) fun j hj => by omega
    · exact hchange _ (60 - a) (by omega) (by omega) (by omega)
    · exact hzero (60 - a) (by omega) (by omega)

/-- Some converted range is empty. -/
def RawRule.HasEmptyRange (v : RawRule) : Prop := ∃ j < 61, v.maskAt j % 2 ^ 8 < v.value j % 2 ^ 8

/-- Some masked origin has a bit above its low byte. -/
def RawRule.HasHighBit (v : RawRule) : Prop :=
  ∃ k < nFilterRaw, 2 ^ 8 ≤ (v.origin k).toNat &&& (v.mask k).toNat

/-- A high bit, filter by filter. -/
theorem hasHighBit_iff : v.HasHighBit ↔ ∃ j < 61, 2 ^ 8 ≤ v.value j &&& v.maskAt j := by
  constructor
  · rintro ⟨k, hk, h⟩
    exact ⟨k + 1, Nat.succ_lt_succ hk, h⟩
  · rintro ⟨j, hj, h⟩
    cases j with
    | zero =>
      have hle : v.value 0 &&& v.maskAt 0 ≤ v.value 0 := Nat.and_le_left
      have hlt : v.value 0 < 2 ^ 8 := v.proto.isLt
      omega
    | succ k => exact ⟨k, Nat.lt_of_succ_lt_succ hj, h⟩

/-- **Two boxes.** The packets a converted rule matches are those of its command exactly when
there are none of either. -/
theorem box_range_eq_box_masked_iff (horigin : (v.origin 8).toNat ≤ 32) :
    box (Set.Iio 61) (place 0) v.range = box (Set.Iio 61) (place base) v.masked ↔
      v.HasEmptyRange ∧ v.HasHighBit := by
  have hrange : (box (Set.Iio 61) (place 0) v.range).Nonempty ↔ ¬ v.HasEmptyRange := by
    rw [box_nonempty_iff place_inj]
    simp only [Set.mem_Iio, range_nonempty_iff, RawRule.HasEmptyRange, not_exists, not_and, not_lt]
  have hmasked : (box (Set.Iio 61) (place base) v.masked).Nonempty ↔ ¬ v.HasHighBit := by
    rw [box_nonempty_iff place_inj, hasHighBit_iff]
    simp only [Set.mem_Iio, masked_nonempty_iff, not_exists, not_and, not_le]
  constructor
  · intro heq
    have hempty : v.HasEmptyRange := by
      by_contra h
      exact box_range_ne_box_masked horigin (hrange.mpr h) heq
    refine ⟨hempty, ?_⟩
    by_contra h
    exact hrange.mp (heq ▸ hmasked.mpr h) hempty
  · rintro ⟨hempty, hhigh⟩
    rw [Set.not_nonempty_iff_eq_empty.mp fun h => hrange.mp h hempty,
      Set.not_nonempty_iff_eq_empty.mp fun h => hmasked.mp h hhigh]

end Boxes

/-! ### From the command to the packet -/

/-- The fields, as the library reads them, have the values and masks of the command. -/
def RawRule.Unnarrowed (v : RawRule) (ml : Mem) : Prop :=
  ∀ j < 61, fieldOf ml .aclAdd j .value 1 = v.value j ∧
    fieldOf ml .aclAdd j .maskRange 1 = v.maskAt j

section Accepted

variable {v : RawRule} {inet : InetPton} {tokens : List String} {m : TableRuleMatch} {n : ℕ}
  {t : TableAclParams} {dataStart : BitVec 32} {fields : List AclFieldDef}

/-- A raw match is converted by the raw branch. -/
theorem matchConvert_raw (hv : v.StoredIn m.mem) (htype : m.matchType = .acl) :
    matchConvert m true = some (runAssigns (rawAddAssigns m.mem)) := by
  rw [matchConvert, matchConvertAssigns, htype]
  simp only [aclAssigns, hv.ipVersion]
  rfl

/-- The depth check reads `origin[8]` and `origin[9]`, which the arms of the union overlay with
`sa_depth` and `da_depth`. -/
theorem matchCheck_raw_iff (hv : v.StoredIn m.mem) :
    matchCheck m (.acl t) = true ↔ m.matchType = .acl ∧ t.ipVersion ≠ 0 ∧
      (v.origin 8).toNat ≤ 32 ∧ (v.origin 9).toNat ≤ 32 := by
  have h8 : m.mem.get Acl.saDepth = (v.origin 8).toNat := hv.origin 8 (by decide)
  have h9 : m.mem.get Acl.daDepth = (v.origin 9).toNat := hv.origin 9 (by decide)
  have hraw : m.mem.get Acl.ipVersion ≠ 0 := by
    rw [hv.ipVersion]
    decide
  rw [matchCheck_acl_iff, if_pos hraw, h8, h9, iff_false_left hraw]

/-- The check reads the ninth origin as a depth. -/
theorem origin_8_le_of_matchCheck (hv : v.StoredIn m.mem) (hcheck : matchCheck m (.acl t) = true) :
    (v.origin 8).toNat ≤ 32 :=
  ((matchCheck_raw_iff hv).mp hcheck).2.2.1

/-- An origin with a high bit is narrowed. -/
theorem not_unnarrowed_of_hasHighBit {ml : Mem} (h : v.HasHighBit) : ¬ v.Unnarrowed ml := by
  obtain ⟨k, hk, hhigh⟩ := h
  intro hfields
  have hvalue := (hfields (k + 1) (Nat.succ_lt_succ hk)).1
  have hlt : fieldOf ml .aclAdd (k + 1) .value 1 < 256 ^ 1 := load_lt ml _ 1
  have hle : (v.origin k).toNat &&& (v.mask k).toNat ≤ (v.origin k).toNat := Nat.and_le_left
  rw [hvalue, RawRule.value] at hlt
  omega

/-- **When a raw rule means what its command says.** Over all packets, only when a range of the
converted rule is empty and an origin of the command cannot be matched by a byte; and then that
origin is narrowed. -/
theorem raw_rule_iff (hparse : parseMatch inet tokens = .ok (m, n))
    (hacl : tokens[1]? = some "acl") (hversion : tokens[4]? = some "raw")
    (ht : t.format = .raw) (hcreate : aclFormat dataStart t = some fields)
    (hcheck : matchCheck m (.acl t) = true) :
    ∃ (v : RawRule) (ml : Mem), v.Denoted tokens ∧ matchConvert m true = some ml ∧
      ((∀ p : PacketAt, aclMatches fields ml p.bytes ↔ v.Matches (t.header dataStart p)) ↔
        v.HasEmptyRange ∧ v.HasHighBit) ∧
      ¬ ((∀ p : PacketAt, aclMatches fields ml p.bytes ↔ v.Matches (t.header dataStart p)) ∧
        v.Unnarrowed ml) := by
  obtain ⟨v, hdenoted, hstored⟩ := parseMatch_raw hparse hacl hversion
  obtain ⟨htype, -⟩ := matchCheck_acl_iff.mp hcheck
  have hfields : fields = tableAclFieldFormatRaw := by
    unfold aclFormat at hcreate
    split_ifs at hcreate
    rw [ht] at hcreate
    exact (Option.some.inj hcreate).symm
  have hiff : (∀ p : PacketAt, aclMatches fields (runAssigns (rawAddAssigns m.mem)) p.bytes ↔
      v.Matches (t.header dataStart p)) ↔ v.HasEmptyRange ∧ v.HasHighBit := by
    simp only [hfields, aclMatches_raw_iff hstored, matches_header_iff]
    rw [← Set.ext_iff]
    exact box_range_eq_box_masked_iff (origin_8_le_of_matchCheck hstored hcheck)
  refine ⟨v, _, hdenoted, matchConvert_raw hstored htype, hiff, ?_⟩
  rintro ⟨hmatch, hfields⟩
  exact not_unnarrowed_of_hasHighBit (hiff.mp hmatch).2 hfields

/-- **Which raw rules are accepted.** A raw rule that `parse_match` accepts passes the check of a
raw table exactly when two of its 60 values are at most 32. -/
theorem raw_accepted_iff (hparse : parseMatch inet tokens = .ok (m, n))
    (hacl : tokens[1]? = some "acl") (hversion : tokens[4]? = some "raw") (ht : t.format = .raw) :
    ∃ v : RawRule, v.Denoted tokens ∧
      (matchCheck m (.acl t) = true ↔ (v.origin 8).toNat ≤ 32 ∧ (v.origin 9).toNat ≤ 32) := by
  obtain ⟨v, hdenoted, hstored⟩ := parseMatch_raw hparse hacl hversion
  obtain ⟨priority, word, -, -, hbranch⟩ := parseMatch_acl hparse hacl
  have htype : m.matchType = .acl := matchType_parseMatchAclVersion hbranch
  have ht0 : t.ipVersion ≠ 0 := by
    intro h0
    rw [TableAclParams.format, h0] at ht
    exact absurd ht (by decide)
  refine ⟨v, hdenoted, ?_⟩
  rw [matchCheck_raw_iff hstored, and_iff_right htype, and_iff_right ht0]

end Accepted

/-- The raw rule for a header of 61 bytes that begins with 6 and is 0 else. -/
def sixThenZeros : List String := rawOf "0" "0" "255" "6" "255"

/-- A command with a six and zeros. -/
theorem sixThenZeros_raw_rule_iff :
    ∃ m n fields, parseMatch .unspecified sixThenZeros = .ok (m, n) ∧
      matchCheck m (.acl ethernetRaw) = true ∧ aclFormat 256 ethernetRaw = some fields ∧
      ∃ (v : RawRule) (ml : Mem), v.Denoted sixThenZeros ∧ matchConvert m true = some ml ∧
        ((∀ p : PacketAt, aclMatches fields ml p.bytes ↔ v.Matches (ethernetRaw.header 256 p)) ↔
          v.HasEmptyRange ∧ v.HasHighBit) ∧
        ¬ ((∀ p : PacketAt, aclMatches fields ml p.bytes ↔
          v.Matches (ethernetRaw.header 256 p)) ∧ v.Unnarrowed ml) := by
  have haccepted : (acceptedMatch .unspecified sixThenZeros ethernetRaw).isSome := by
    decide +kernel
  obtain ⟨m, hm⟩ := Option.isSome_iff_exists.mp haccepted
  obtain ⟨n, hparse, hcheck⟩ := acceptedMatch_eq_some.mp hm
  exact ⟨m, n, _, hparse, hcheck, rfl, raw_rule_iff hparse rfl rfl rfl rfl hcheck⟩

/-- A command with a six and zeros. -/
theorem sixThenZeros_raw_accepted_iff :
    ∃ m n, parseMatch .unspecified sixThenZeros = .ok (m, n) ∧
      ∃ v : RawRule, v.Denoted sixThenZeros ∧
        (matchCheck m (.acl ethernetRaw) = true ↔
          (v.origin 8).toNat ≤ 32 ∧ (v.origin 9).toNat ≤ 32) := by
  have haccepted : (acceptedMatch .unspecified sixThenZeros ethernetRaw).isSome := by
    decide +kernel
  obtain ⟨m, hm⟩ := Option.isSome_iff_exists.mp haccepted
  obtain ⟨n, hparse, -⟩ := acceptedMatch_eq_some.mp hm
  exact ⟨m, n, hparse, raw_accepted_iff hparse rfl rfl rfl⟩

/-- A rule with the value 33 for every byte is parsed, and refused. -/
theorem thirtyThrees_not_accepted :
    ∃ m n, parseMatch .unspecified (rawOf "0" "33" "255" "6" "255") = .ok (m, n) ∧
      ethernetRaw.format = .raw ∧ matchCheck m (.acl ethernetRaw) = false := by
  have hrefused : (match parseMatch .unspecified (rawOf "0" "33" "255" "6" "255") with
      | .ok (m, _) => !matchCheck m (.acl ethernetRaw)
      | .error _ => false) = true := by
    decide +kernel
  cases hparse : parseMatch .unspecified (rawOf "0" "33" "255" "6" "255") with
  | error e => simp [hparse] at hrefused
  | ok r =>
    obtain ⟨m, n⟩ := r
    simp only [hparse, Bool.not_eq_true'] at hrefused
    exact ⟨m, n, rfl, rfl, hrefused⟩

/-- The rule takes a packet of bytes 7. -/
theorem sixThenZeros_matches_sevens :
    ∃ (m : TableRuleMatch) (n : ℕ) (v : RawRule) (ml : Mem),
      parseMatch .unspecified sixThenZeros = .ok (m, n) ∧
      matchCheck m (.acl ethernetRaw) = true ∧
      aclFormat 256 ethernetRaw = some tableAclFieldFormatRaw ∧
      v.Denoted sixThenZeros ∧ matchConvert m true = some ml ∧
      ¬ (aclMatches tableAclFieldFormatRaw ml (PacketAt.bytes fun _ => 7) ↔
        v.Matches (ethernetRaw.header 256 fun _ => 7)) := by
  have haccepted : (acceptedMatch .unspecified sixThenZeros ethernetRaw).isSome := by
    decide +kernel
  obtain ⟨m, hm⟩ := Option.isSome_iff_exists.mp haccepted
  obtain ⟨n, hparse, hcheck⟩ := acceptedMatch_eq_some.mp hm
  obtain ⟨v, hdenoted, hstored⟩ := parseMatch_raw hparse rfl rfl
  obtain ⟨htype, -⟩ := matchCheck_acl_iff.mp hcheck
  refine ⟨m, n, v, _, hparse, hcheck, rfl, hdenoted, matchConvert_raw hstored htype, ?_⟩
  have hproto : v.proto = 6 := hdenoted.proto.unique ⟨"6", rfl, rfl⟩
  have hprotoMask : v.protoMask = 255 := hdenoted.protoMask.unique ⟨"255", rfl, rfl⟩
  have hzeros : ∀ i < nFilterRaw, sixThenZeros[6 + i * 2]? = some "0" := by decide +kernel
  have hones : ∀ i < nFilterRaw, sixThenZeros[7 + i * 2]? = some "255" := by decide +kernel
  have horigin (i : ℕ) (hi : i < nFilterRaw) : v.origin i = 0 :=
    (hdenoted.origin i hi).unique ⟨"0", hzeros i hi, rfl⟩
  have hmask (i : ℕ) (hi : i < nFilterRaw) : v.mask i = 255 :=
    (hdenoted.mask i hi).unique ⟨"255", hones i hi, rfl⟩
  intro hiff
  have hmatch : v.Matches (ethernetRaw.header 256 fun _ => 7) := by
    refine hiff.mp ((aclMatches_raw_iff hstored _).mpr fun j hj => ?_)
    cases j with
    | zero =>
      simp only [RawRule.range, RawRule.value, RawRule.maskAt, hproto, hprotoMask]
      exact ⟨by decide, by decide⟩
    | succ k =>
      have hk : k < nFilterRaw := Nat.lt_of_succ_lt_succ hj
      simp only [RawRule.range, RawRule.value, RawRule.maskAt, horigin k hk, hmask k hk]
      exact ⟨by decide, by decide⟩
  have h0 := hmatch 0 (by decide)
  simp only [RawRule.value, RawRule.maskAt, hproto, hprotoMask] at h0
  exact absurd h0 (by decide)

end Rids.Pipeline
