import Mathlib.Algebra.Order.Group.Abs
import Mathlib.Algebra.Order.Ring.Int
import Mathlib.Data.Int.ConditionallyCompleteOrder
import Mathlib.Data.Int.Interval
import Mathlib.Data.Set.Card
import Mathlib.Tactic.Ring

/-!
# Histograms (`histogram.cpp`)

A value is counted in the bucket of the nearest multiple of `bucket_size`. The buckets with their
counts are kept in ascending order.

* `runUpdates_spec`, `update_spec` — after any values, the buckets that are there are those of the
  values, each with the number of its values, in ascending order.
* `bucket_spec` — a bucket is a multiple of `bucket_size`, at most half of it away from the value;
  each bucket is that of `bucket_size` values, but the one for 0 has one value less when
  `bucket_size` is even.

The values are numbers of `int64_t` that are at least half a bucket away from its limits
(`Size.Fits`): the sum of any other value and half a bucket overflows, which leaves the source
without a meaning. Mean and variance are floating point numbers and left out.
-/

namespace Rids.Generator.Histogram

/-! ### The source -/

/-- A bucket size that the constructor accepts, a `uint32_t` that is not 0; `bucketHalf` is half of
it. -/
structure Size where
  bucketSize : ℤ
  pos : 0 < bucketSize
  lt : bucketSize < 2 ^ 32

/-- Source: `histogram.cpp` `Histogram::Histogram`. Kind: D -/
def Size.new (bucketSize : BitVec 32) : Option Size :=
  if h : 0 < bucketSize.toNat then
    some ⟨bucketSize.toNat, Int.natCast_pos.mpr h, Int.ofNat_lt.mpr bucketSize.isLt⟩
  else none

/-- `bucket_half`. -/
def Size.bucketHalf (z : Size) : ℤ := z.bucketSize.tdiv 2

/-- A number of type `int64_t`. -/
def IsInt64 (v : ℤ) : Prop := -2 ^ 63 ≤ v ∧ v < 2 ^ 63

/-- A value to or from which half a bucket can be added or taken without overflow. -/
def Size.Fits (z : Size) (v : ℤ) : Prop := IsInt64 (v - z.bucketHalf) ∧ IsInt64 (v + z.bucketHalf)

/-- The bucket of a value that fits; integer division drops the fraction.
Source: `histogram.cpp` `Histogram::update`
Kind: D -/
def bucket (z : Size) (newVal : ℤ) : ℤ :=
  let newVal :=
    if 0 < newVal then newVal + z.bucketHalf
    else if newVal < 0 then newVal - z.bucketHalf
    else newVal
  newVal.tdiv z.bucketSize * z.bucketSize

/-- `++storage[key]` in a map that is kept in ascending order. -/
def increment (key : ℤ) : List (ℤ × BitVec 32) → List (ℤ × BitVec 32)
  | [] => [(key, 1)]
  | (key', n) :: storage =>
    if key < key' then (key, 1) :: (key', n) :: storage
    else if key = key' then (key', n + 1) :: storage
    else (key', n) :: increment key storage

/-- Source: `histogram.cpp` `class Histogram`. Kind: D -/
structure State where
  count : BitVec 64
  storage : List (ℤ × BitVec 32)

/-- The state, and whether the value is not negative.
Source: `histogram.cpp` `Histogram::update`
Kind: D -/
def update (z : Size) (s : State) (newVal : ℤ) : State × Bool :=
  (⟨s.count + 1, increment (bucket z newVal) s.storage⟩, !decide (newVal < 0))

/-- The lines of the file.
Source: `histogram.cpp` `Histogram::write_to_file`
Kind: D -/
def writeToFile (s : State) : List (ℤ × BitVec 32) := s.storage

/-- The state after a list of values. -/
def runUpdates (z : Size) (vals : List ℤ) : State :=
  vals.foldl (fun s newVal => (update z s newVal).1) ⟨0, []⟩

/-! ### The buckets -/

variable {z : Size} {v k : ℤ}

/-- The buckets on the two sides of 0 mirror each other. -/
theorem bucket_neg (z : Size) (v : ℤ) : bucket z (-v) = -bucket z v := by
  unfold bucket
  dsimp only
  rcases lt_trichotomy v 0 with hneg | rfl | hpos
  · have h1 : 0 < -v := by omega
    have h2 : ¬0 < v := by omega
    have h3 : -v + z.bucketHalf = -(v - z.bucketHalf) := by ring
    rw [if_pos h1, if_neg h2, if_pos hneg, h3, Int.neg_tdiv, neg_mul]
  · simp
  · have h1 : ¬0 < -v := by omega
    have h2 : -v < 0 := by omega
    have h3 : -v - z.bucketHalf = -(v + z.bucketHalf) := by ring
    rw [if_neg h1, if_pos h2, if_pos hpos, h3, Int.neg_tdiv, neg_mul]

/-- Half a bucket, rounded down. -/
theorem bucketHalf_eq (z : Size) : z.bucketHalf = z.bucketSize / 2 :=
  Int.tdiv_eq_ediv_of_nonneg (le_of_lt z.pos)

/-- The values of a bucket above 0, and those of the bucket for 0 that are not negative. -/
theorem bucket_eq_iff_of_nonneg (hv : 0 ≤ v) (hk : 0 ≤ k) :
    bucket z v = k * z.bucketSize ↔
      k * z.bucketSize - z.bucketHalf ≤ v ∧ v < k * z.bucketSize - z.bucketHalf + z.bucketSize := by
  have hsize := z.pos
  have hhalf := bucketHalf_eq z
  have hcancel : ∀ a : ℤ, a * z.bucketSize = k * z.bucketSize ↔ a = k := fun a =>
    Int.mul_eq_mul_right_iff (ne_of_gt hsize)
  have hmul : 0 ≤ k * z.bucketSize := mul_nonneg hk (le_of_lt hsize)
  unfold bucket
  dsimp only
  rcases lt_or_eq_of_le hv with hpos | rfl
  · rw [if_pos hpos, Int.tdiv_eq_ediv_of_nonneg (by omega), hcancel, Int.ediv_eq_iff_of_pos hsize]
    constructor
    · rintro ⟨hlow, hhigh⟩
      omega
    · rintro ⟨hlow, hhigh⟩
      omega
  · simp only [lt_irrefl, if_false, Int.zero_tdiv, zero_mul]
    constructor
    · intro h
      rw [← h]
      omega
    · rintro ⟨hlow, -⟩
      have hlt : k * z.bucketSize < 1 * z.bucketSize := by omega
      have hk1 : k < 1 := lt_of_mul_lt_mul_right hlt (le_of_lt hsize)
      obtain rfl : k = 0 := by omega
      exact (zero_mul _).symm

/-- A bucket is a multiple of the size. -/
theorem dvd_bucket (z : Size) (v : ℤ) : z.bucketSize ∣ bucket z v := Int.dvd_mul_left _ _

/-- The bucket of a value that is not negative is not negative. -/
theorem bucket_nonneg (hv : 0 ≤ v) : 0 ≤ bucket z v := by
  have hsize := z.pos
  have hhalf : 0 ≤ z.bucketHalf := by
    rw [bucketHalf_eq]
    omega
  unfold bucket
  dsimp only
  rcases lt_or_eq_of_le hv with hpos | rfl
  · rw [if_pos hpos]
    exact mul_nonneg (Int.tdiv_nonneg (by omega) (le_of_lt hsize)) (le_of_lt hsize)
  · simp

/-- The bucket of a value that is not negative, as a multiple of the size. -/
theorem exists_bucket_eq (z : Size) (hv : 0 ≤ v) : ∃ k, 0 ≤ k ∧ bucket z v = k * z.bucketSize := by
  obtain ⟨k, hk⟩ := dvd_bucket z v
  refine ⟨k, ?_, by rw [hk, mul_comm]⟩
  have hnonneg : 0 ≤ z.bucketSize * k := hk ▸ bucket_nonneg hv
  exact nonneg_of_mul_nonneg_right hnonneg z.pos

/-- The nearest multiple, for a value that is not negative. -/
theorem two_mul_abs_le_of_nonneg (hv : 0 ≤ v) : 2 * |v - bucket z v| ≤ z.bucketSize := by
  obtain ⟨k, hk, hbucket⟩ := exists_bucket_eq z hv
  have hhalf := bucketHalf_eq z
  have hrange := (bucket_eq_iff_of_nonneg hv hk).mp hbucket
  rw [hbucket]
  rcases abs_cases (v - k * z.bucketSize) with ⟨habs, -⟩ | ⟨habs, -⟩
  · rw [habs]
    omega
  · rw [habs]
    omega

/-- **The nearest multiple.** -/
theorem two_mul_abs_le (z : Size) (v : ℤ) : 2 * |v - bucket z v| ≤ z.bucketSize := by
  rcases le_total 0 v with hv | hv
  · exact two_mul_abs_le_of_nonneg hv
  · have hneg := two_mul_abs_le_of_nonneg (z := z) (Int.neg_nonneg_of_nonpos hv)
    rwa [bucket_neg, neg_sub_neg, abs_sub_comm] at hneg

/-- The bucket of a value that fits is a number of `int64_t`. -/
theorem isInt64_bucket (hv : z.Fits v) : IsInt64 (bucket z v) := by
  have hhalf := bucketHalf_eq z
  have hnear := two_mul_abs_le z v
  obtain ⟨⟨hlow, -⟩, ⟨-, hhigh⟩⟩ := hv
  rcases abs_cases (v - bucket z v) with ⟨habs, hside⟩ | ⟨habs, hside⟩
  · exact ⟨by omega, by omega⟩
  · exact ⟨by omega, by omega⟩

/-- The values of a bucket above 0. -/
theorem bucket_eq_iff_of_pos (hk : 0 < k) :
    bucket z v = k * z.bucketSize ↔
      v ∈ Finset.Icc (k * z.bucketSize - z.bucketHalf)
        (k * z.bucketSize - z.bucketHalf + z.bucketSize - 1) := by
  have hsize := z.pos
  have hhalf := bucketHalf_eq z
  have hmul : 1 * z.bucketSize ≤ k * z.bucketSize :=
    mul_le_mul_of_nonneg_right hk (le_of_lt hsize)
  rw [Finset.mem_Icc]
  rcases le_total 0 v with hv | hv
  · rw [bucket_eq_iff_of_nonneg hv (le_of_lt hk)]
    constructor
    · rintro ⟨hlow, hhigh⟩
      omega
    · rintro ⟨hlow, hhigh⟩
      omega
  · have hnonneg : 0 ≤ bucket z (-v) := bucket_nonneg (Int.neg_nonneg_of_nonpos hv)
    rw [bucket_neg] at hnonneg
    constructor
    · intro h
      omega
    · rintro ⟨hlow, -⟩
      omega

/-- The values of the bucket for 0. -/
theorem bucket_eq_zero_iff :
    bucket z v = 0 ↔ v ∈ Finset.Icc (-(z.bucketSize - z.bucketHalf - 1))
      (z.bucketSize - z.bucketHalf - 1) := by
  have hsize := z.pos
  have hhalf := bucketHalf_eq z
  rw [Finset.mem_Icc]
  rcases le_total 0 v with hv | hv
  · have hiff := bucket_eq_iff_of_nonneg (z := z) hv (le_refl 0)
    rw [zero_mul] at hiff
    rw [hiff]
    constructor
    · rintro ⟨hlow, hhigh⟩
      omega
    · rintro ⟨hlow, hhigh⟩
      omega
  · have hiff := bucket_eq_iff_of_nonneg (z := z) (Int.neg_nonneg_of_nonpos hv) (le_refl 0)
    rw [zero_mul, bucket_neg, neg_eq_zero] at hiff
    rw [hiff]
    constructor
    · rintro ⟨hlow, hhigh⟩
      omega
    · rintro ⟨hlow, hhigh⟩
      omega

/-- The values of a bucket above 0 are as many as the size says. -/
theorem ncard_bucket_of_pos (hk : 0 < k) :
    ({v | bucket z v = k * z.bucketSize}.ncard : ℤ) = z.bucketSize := by
  have hsize := z.pos
  have hset : {v | bucket z v = k * z.bucketSize} =
      (Finset.Icc (k * z.bucketSize - z.bucketHalf)
        (k * z.bucketSize - z.bucketHalf + z.bucketSize - 1) : Finset ℤ) := by
    ext v
    exact bucket_eq_iff_of_pos hk
  rw [hset, Set.ncard_coe_finset, Int.card_Icc]
  omega

/-- Those of a bucket below 0 are as many as those of its mirror image. -/
theorem ncard_bucket_neg (z : Size) (k : ℤ) :
    {v | bucket z v = -k * z.bucketSize}.ncard = {v | bucket z v = k * z.bucketSize}.ncard := by
  have hset : {v | bucket z v = -k * z.bucketSize} =
      Neg.neg '' {v | bucket z v = k * z.bucketSize} := by
    ext v
    constructor
    · intro hv
      refine ⟨-v, ?_, neg_neg v⟩
      change bucket z (-v) = k * z.bucketSize
      rw [bucket_neg, show bucket z v = -k * z.bucketSize from hv, neg_mul, neg_neg]
    · rintro ⟨w, hw, rfl⟩
      change bucket z (-w) = -k * z.bucketSize
      rw [bucket_neg, neg_mul]
      exact congrArg Neg.neg hw
  rw [hset, Set.ncard_image_of_injective _ neg_injective]

/-- The bucket for 0 has one value less when the size is even. -/
theorem ncard_bucket_zero (z : Size) :
    ({v | bucket z v = 0 * z.bucketSize}.ncard : ℤ) =
      if 2 ∣ z.bucketSize then z.bucketSize - 1 else z.bucketSize := by
  have hsize := z.pos
  have hhalf := bucketHalf_eq z
  have hset : {v | bucket z v = 0 * z.bucketSize} =
      (Finset.Icc (-(z.bucketSize - z.bucketHalf - 1))
        (z.bucketSize - z.bucketHalf - 1) : Finset ℤ) := by
    ext v
    change bucket z v = 0 * z.bucketSize ↔ _
    rw [zero_mul]
    exact bucket_eq_zero_iff
  rw [hset, Set.ncard_coe_finset, Int.card_Icc]
  split_ifs with heven
  · omega
  · omega

/-- All values of a bucket that is not below 0 fit, if the next multiple of the size is a number of
`int64_t` too, or the first beyond. -/
theorem fits_of_bucket_eq_of_nonneg (hk : 0 ≤ k) (hnext : (k + 1) * z.bucketSize ≤ 2 ^ 63)
    (hv : bucket z v = k * z.bucketSize) :
    -2 ^ 63 < v - z.bucketHalf ∧ v + z.bucketHalf < 2 ^ 63 := by
  have hsize := z.pos
  have hhalf := bucketHalf_eq z
  have hlt := z.lt
  rw [add_mul, one_mul] at hnext
  rcases lt_or_eq_of_le hk with hpos | rfl
  · have hrange := Finset.mem_Icc.mp ((bucket_eq_iff_of_pos hpos).mp hv)
    have hmul : 0 ≤ k * z.bucketSize := mul_nonneg hk (le_of_lt hsize)
    exact ⟨by omega, by omega⟩
  · rw [zero_mul] at hv
    have hrange := Finset.mem_Icc.mp (bucket_eq_zero_iff.mp hv)
    exact ⟨by omega, by omega⟩

/-- All values of a bucket fit, the one for `k` as its mirror image. -/
theorem fits_of_bucket_eq (hnext : (|k| + 1) * z.bucketSize ≤ 2 ^ 63)
    (hv : bucket z v = k * z.bucketSize) : z.Fits v := by
  have hhalf : 0 ≤ z.bucketHalf := by
    rw [bucketHalf_eq]
    exact Int.ediv_nonneg (le_of_lt z.pos) (by decide)
  rcases le_total 0 k with hk | hk
  · rw [abs_of_nonneg hk] at hnext
    obtain ⟨hlow, hhigh⟩ := fits_of_bucket_eq_of_nonneg hk hnext hv
    exact ⟨⟨by omega, by omega⟩, ⟨by omega, by omega⟩⟩
  · rw [abs_of_nonpos hk] at hnext
    have hneg : bucket z (-v) = -k * z.bucketSize := by rw [bucket_neg, hv, neg_mul]
    obtain ⟨hlow, hhigh⟩ := fits_of_bucket_eq_of_nonneg (Int.neg_nonneg_of_nonpos hk) hnext hneg
    exact ⟨⟨by omega, by omega⟩, ⟨by omega, by omega⟩⟩

/-- **The buckets.** A bucket is a multiple of the size, at most half of it away from the value, and
no addition overflows for a value that fits. Each bucket whose values are numbers of `int64_t` is
that of as many values as the size says; only the one for 0 has one value less when the size is
even. -/
theorem bucket_spec (z : Size) :
    (∀ v, z.Fits v →
      IsInt64 (bucket z v) ∧ z.bucketSize ∣ bucket z v ∧ 2 * |v - bucket z v| ≤ z.bucketSize) ∧
      ∀ k, (|k| + 1) * z.bucketSize ≤ 2 ^ 63 →
        ({v | z.Fits v ∧ bucket z v = k * z.bucketSize}.ncard : ℤ) =
          if k = 0 ∧ 2 ∣ z.bucketSize then z.bucketSize - 1 else z.bucketSize := by
  refine ⟨fun v hv => ⟨isInt64_bucket hv, dvd_bucket z v, two_mul_abs_le z v⟩, fun k hk => ?_⟩
  have hall : {v | z.Fits v ∧ bucket z v = k * z.bucketSize} =
      {v | bucket z v = k * z.bucketSize} := by
    ext v
    exact and_iff_right_of_imp (fits_of_bucket_eq hk)
  rw [hall]
  rcases lt_trichotomy k 0 with hneg | rfl | hpos
  · rw [if_neg fun h => (ne_of_lt hneg) h.1, ← ncard_bucket_neg, ncard_bucket_of_pos (by omega)]
  · simp only [true_and]
    exact ncard_bucket_zero z
  · rw [if_neg fun h => (ne_of_gt hpos) h.1, ncard_bucket_of_pos hpos]

/-- Buckets of ten. -/
def sizeTen : Size := ⟨10, by decide, by decide⟩

/-- Buckets of ten. -/
theorem bucket_spec_sizeTen :
    (IsInt64 (bucket sizeTen (-15)) ∧ 10 ∣ bucket sizeTen (-15) ∧
        2 * |-15 - bucket sizeTen (-15)| ≤ 10) ∧
      ({v | sizeTen.Fits v ∧ bucket sizeTen v = 0 * 10}.ncard : ℤ) = 9 := by
  refine ⟨(bucket_spec sizeTen).1 (-15) ⟨⟨by decide, by decide⟩, ⟨by decide, by decide⟩⟩, ?_⟩
  exact ((bucket_spec sizeTen).2 0 (by decide)).trans (if_pos ⟨rfl, by decide⟩)

/-! ### The counts -/

section Counts

variable {key key' : ℤ} {n : BitVec 32} {storage : List (ℤ × BitVec 32)}

/-- The keys are in ascending order. -/
def Ascending (storage : List (ℤ × BitVec 32)) : Prop := storage.Pairwise fun a b => a.1 < b.1

/-- Another bucket keeps its count. -/
theorem mem_increment_of_ne (hne : key' ≠ key) :
    (key', n) ∈ increment key storage ↔ (key', n) ∈ storage := by
  induction storage with
  | nil => simp [increment, hne]
  | cons entry storage ih =>
    obtain ⟨key₀, n₀⟩ := entry
    rw [increment]
    split_ifs with hlt heq
    · simp [hne]
    · subst heq
      simp [hne]
    · rw [List.mem_cons, List.mem_cons, ih]

/-- The bucket is counted once more, or comes in with the count 1. -/
theorem mem_increment_self (h : Ascending storage) :
    (key, n) ∈ increment key storage ↔
      ((∀ m, (key, m) ∉ storage) ∧ n = 1) ∨ ∃ m, (key, m) ∈ storage ∧ n = m + 1 := by
  induction storage with
  | nil => simp [increment]
  | cons entry storage ih =>
    obtain ⟨key₀, n₀⟩ := entry
    obtain ⟨hfirst, hrest⟩ := List.pairwise_cons.mp h
    have hlater : ∀ m, key ≤ key₀ → (key, m) ∉ storage := by
      intro m hle hmem
      have hlt : key₀ < key := hfirst (key, m) hmem
      omega
    rw [increment]
    split_ifs with hlt heq
    · have hne : key ≠ key₀ := ne_of_lt hlt
      simp [hne, fun m => hlater m (le_of_lt hlt)]
    · subst heq
      simp [fun m => hlater m (le_refl key)]
    · rw [List.mem_cons, ih hrest]
      simp [heq]

/-- A bucket comes in at its place. -/
theorem Ascending.increment (h : Ascending storage) (key : ℤ) :
    Ascending (increment key storage) := by
  induction storage with
  | nil => exact List.pairwise_singleton _ _
  | cons entry storage ih =>
    obtain ⟨key₀, n₀⟩ := entry
    obtain ⟨hfirst, hrest⟩ := List.pairwise_cons.mp h
    rw [Histogram.increment]
    split_ifs with hlt heq
    · refine List.pairwise_cons.mpr ⟨?_, h⟩
      intro entry hentry
      rcases List.mem_cons.mp hentry with rfl | hentry
      · exact hlt
      · exact lt_trans hlt (hfirst entry hentry)
    · exact List.pairwise_cons.mpr ⟨hfirst, hrest⟩
    · refine List.pairwise_cons.mpr ⟨?_, ih hrest⟩
      rintro ⟨key', n⟩ hentry
      by_cases hkey : key' = key
      · subst hkey
        dsimp only
        omega
      · exact hfirst _ ((mem_increment_of_ne hkey).mp hentry)

/-- After any values the buckets that are there are those of the values, each with the number of its
values. -/
theorem runUpdates_spec (z : Size) (vals : List ℤ) :
    Ascending (runUpdates z vals).storage ∧
      (∀ key n, (key, n) ∈ (runUpdates z vals).storage ↔
        (∃ v ∈ vals, bucket z v = key) ∧
          n = BitVec.ofNat 32 (vals.countP fun v => bucket z v = key)) ∧
      (runUpdates z vals).count = BitVec.ofNat 64 vals.length := by
  induction vals using List.reverseRecOn with
  | nil => exact ⟨List.Pairwise.nil, by simp [runUpdates], rfl⟩
  | append_singleton vals v ih =>
    obtain ⟨hascending, hmem, hcount⟩ := ih
    have hrun : runUpdates z (vals ++ [v]) = (update z (runUpdates z vals) v).1 := by
      rw [runUpdates, List.foldl_append]
      rfl
    rw [hrun]
    refine ⟨hascending.increment _, ?_, ?_⟩
    · intro key n
      change (key, n) ∈ increment (bucket z v) (runUpdates z vals).storage ↔ _
      rw [List.countP_append, List.countP_singleton]
      by_cases hkey : key = bucket z v
      · subst hkey
        rw [mem_increment_self hascending]
        have hv : ∃ w ∈ vals ++ [v], bucket z w = bucket z v := ⟨v, by simp, rfl⟩
        have hone : (if decide (bucket z v = bucket z v) = true then 1 else 0) = 1 := by simp
        rw [and_iff_right hv, hone, BitVec.ofNat_add]
        by_cases hex : ∃ w ∈ vals, bucket z w = bucket z v
        · constructor
          · rintro (⟨hnone, -⟩ | ⟨m, hm, rfl⟩)
            · exact absurd ((hmem _ _).mpr ⟨hex, rfl⟩) (hnone _)
            · rw [((hmem _ _).mp hm).2]
              rfl
          · rintro rfl
            exact .inr ⟨_, (hmem _ _).mpr ⟨hex, rfl⟩, rfl⟩
        · have hzero : vals.countP (fun w => bucket z w = bucket z v) = 0 := by
            rw [List.countP_eq_zero]
            intro w hw heq
            exact hex ⟨w, hw, of_decide_eq_true heq⟩
          rw [hzero]
          constructor
          · rintro (⟨-, rfl⟩ | ⟨m, hm, -⟩)
            · rfl
            · exact absurd ((hmem _ _).mp hm).1 hex
          · rintro rfl
            exact .inl ⟨fun m hm => hex ((hmem _ _).mp hm).1, rfl⟩
      · have hkey' : ¬bucket z v = key := fun h => hkey h.symm
        rw [mem_increment_of_ne hkey, hmem]
        simp [hkey']
    · change (runUpdates z vals).count + 1 = _
      rw [hcount, List.length_append, BitVec.ofNat_add]
      rfl

/-- **The counts.** After any values that fit, the file lists in ascending order the buckets of the
values, numbers of `int64_t`, each with the number of its values. -/
theorem update_spec (z : Size) (vals : List ℤ) (hvals : ∀ v ∈ vals, z.Fits v) :
    Ascending (writeToFile (runUpdates z vals)) ∧
      (∀ key n, (key, n) ∈ writeToFile (runUpdates z vals) → IsInt64 key) ∧
      (∀ key n, (key, n) ∈ writeToFile (runUpdates z vals) ↔
        (∃ v ∈ vals, bucket z v = key) ∧
          n = BitVec.ofNat 32 (vals.countP fun v => bucket z v = key)) ∧
      (runUpdates z vals).count = BitVec.ofNat 64 vals.length := by
  obtain ⟨hascending, hmem, hcount⟩ := runUpdates_spec z vals
  refine ⟨hascending, fun key n hline => ?_, hmem, hcount⟩
  obtain ⟨⟨v, hv, rfl⟩, -⟩ := (hmem key n).mp hline
  exact isInt64_bucket (hvals v hv)

/-- Four updates with buckets of ten. -/
theorem update_spec_sizeTen :
    Ascending (writeToFile (runUpdates sizeTen [3, 14, -7, 12])) ∧
      (∀ key n, (key, n) ∈ writeToFile (runUpdates sizeTen [3, 14, -7, 12]) → IsInt64 key) ∧
      (∀ key n, (key, n) ∈ writeToFile (runUpdates sizeTen [3, 14, -7, 12]) ↔
        (∃ v ∈ [3, 14, -7, 12], bucket sizeTen v = key) ∧
          n = BitVec.ofNat 32 ([3, 14, -7, 12].countP fun v => bucket sizeTen v = key)) ∧
      (runUpdates sizeTen [3, 14, -7, 12]).count = BitVec.ofNat 64 4 := by
  apply update_spec sizeTen [3, 14, -7, 12]
  simp only [List.forall_mem_cons, List.not_mem_nil, false_imp_iff, implies_true, and_true]
  unfold Size.Fits IsInt64
  decide

end Counts

end Rids.Generator.Histogram
