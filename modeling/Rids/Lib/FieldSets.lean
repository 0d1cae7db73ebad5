import Mathlib.Data.Nat.Bitwise
import Mathlib.Data.Set.Basic

/-!
# What a field of a match rule admits

Two kinds of fields over words of `w` bits: an interval, given by its ends, and a masked value.
Ends, values and masks are naturals, which may be wider than the word.

* `interval_nonempty_iff`, `masked_nonempty_iff` — when a field admits something.
* `mem_masked_iff` — a masked value with no bit above the word is compared under the low bits of
  its mask.
* `interval_eq_univ`, `masked_eq_univ`, `interval_eq_masked_all`, `interval_eq_masked_none`,
  `interval_eq_masked_self` — what follows when an interval is everything or a masked value.
-/

namespace Rids.Lib.FieldSets

variable {w : ℕ}

/-- The words from `lo` to `hi`. -/
def interval (w lo hi : ℕ) : Set (BitVec w) := {x | lo ≤ x.toNat ∧ x.toNat ≤ hi}

/-- The words that agree with `v` under the mask `m`. -/
def masked (w v m : ℕ) : Set (BitVec w) := {x | x.toNat &&& m = v &&& m}

variable {lo hi v m : ℕ}

/-- An interval admits a word exactly when its ends are in order. -/
theorem interval_nonempty_iff (hlo : lo < 2 ^ w) : (interval w lo hi).Nonempty ↔ lo ≤ hi := by
  constructor
  · rintro ⟨x, hx, hx'⟩
    exact hx.trans hx'
  · intro h
    refine ⟨.ofNat w lo, ?_, ?_⟩ <;> rw [BitVec.toNat_ofNat, Nat.mod_eq_of_lt hlo]
    exact h

/-- The upper end of an interval with ends in order is in it. -/
theorem ofNat_hi_mem_interval (h : lo ≤ hi) (hhi : hi < 2 ^ w) :
    BitVec.ofNat w hi ∈ interval w lo hi := by
  refine ⟨?_, ?_⟩ <;> rw [BitVec.toNat_ofNat, Nat.mod_eq_of_lt hhi]
  exact h

/-- A masked value is that of a word exactly when it has no bit above the word. -/
theorem masked_nonempty_iff : (masked w v m).Nonempty ↔ v &&& m < 2 ^ w := by
  constructor
  · rintro ⟨x, hx⟩
    have hle : x.toNat &&& m ≤ x.toNat := Nat.and_le_left
    rw [← (show x.toNat &&& m = _ from hx)]
    exact hle.trans_lt x.isLt
  · intro h
    refine ⟨.ofNat w (v &&& m), ?_⟩
    rw [masked, Set.mem_ofPred_eq, BitVec.toNat_ofNat, Nat.mod_eq_of_lt h, Nat.and_assoc,
      Nat.and_self]

/-- With no bit above the word, a masked value is compared under the low bits of its mask. -/
theorem mem_masked_iff (h : v &&& m < 2 ^ w) (x : BitVec w) :
    x ∈ masked w v m ↔ x.toNat &&& m % 2 ^ w = v % 2 ^ w &&& m % 2 ^ w := by
  have hle : x.toNat &&& m ≤ x.toNat := Nat.and_le_left
  have hx := Nat.and_mod_two_pow (a := x.toNat) (b := m) (n := w)
  have hv := Nat.and_mod_two_pow (a := v) (b := m) (n := w)
  rw [Nat.mod_eq_of_lt (hle.trans_lt x.isLt), Nat.mod_eq_of_lt x.isLt] at hx
  rw [Nat.mod_eq_of_lt h] at hv
  exact hx ▸ hv ▸ Iff.rfl

/-- Masking with all ones keeps a number that fits. -/
theorem toNat_allOnes_and {n : ℕ} (hn : n < 2 ^ w) : (BitVec.allOnes w).toNat &&& n = n := by
  rw [BitVec.toNat_allOnes, Nat.and_comm, Nat.and_two_pow_sub_one_of_lt_two_pow hn]

/-- An interval that admits every word. -/
theorem interval_eq_univ (hhi : hi < 2 ^ w) (h : interval w lo hi = Set.univ) :
    lo = 0 ∧ hi = 2 ^ w - 1 := by
  have hzero : (0 : BitVec w) ∈ interval w lo hi := h ▸ Set.mem_univ _
  have hones : BitVec.allOnes w ∈ interval w lo hi := h ▸ Set.mem_univ _
  obtain ⟨hlo, -⟩ := hzero
  obtain ⟨-, hle⟩ := hones
  rw [BitVec.ofNat_eq_ofNat, BitVec.toNat_zero] at hlo
  rw [BitVec.toNat_allOnes] at hle
  omega

/-- A masked value that admits every word. -/
theorem masked_eq_univ (hv : v &&& m < 2 ^ w) (h : masked w v m = Set.univ) : m % 2 ^ w = 0 := by
  have hzero : (0 : BitVec w) ∈ masked w v m := h ▸ Set.mem_univ _
  have hones : BitVec.allOnes w ∈ masked w v m := h ▸ Set.mem_univ _
  rw [mem_masked_iff hv, BitVec.ofNat_eq_ofNat, BitVec.toNat_zero, Nat.zero_and] at hzero
  rw [mem_masked_iff hv, toNat_allOnes_and (Nat.mod_lt _ (Nat.two_pow_pos w)), ← hzero] at hones
  exact hones

/-- An interval that is the value 0 under the full mask. -/
theorem interval_eq_masked_all (hv : v &&& m < 2 ^ w) (hle : lo ≤ hi) (hhi : hi < 2 ^ w)
    (hvalue : v % 2 ^ w = 0) (hmask : m % 2 ^ w = 2 ^ w - 1)
    (h : interval w lo hi = masked w v m) : lo = 0 ∧ hi = 0 := by
  have hmem (x : BitVec w) : x ∈ interval w lo hi ↔ x.toNat = 0 := by
    rw [h, mem_masked_iff hv, hvalue, hmask, Nat.zero_and,
      Nat.and_two_pow_sub_one_of_lt_two_pow x.isLt]
  obtain ⟨hlo, -⟩ := (hmem 0).mpr (by rw [BitVec.ofNat_eq_ofNat, BitVec.toNat_zero])
  have htop := (hmem _).mp (ofNat_hi_mem_interval hle hhi)
  rw [BitVec.toNat_ofNat, Nat.mod_eq_of_lt hhi] at htop
  rw [BitVec.ofNat_eq_ofNat, BitVec.toNat_zero] at hlo
  exact ⟨Nat.le_zero.mp hlo, htop⟩

/-- An interval that is a value under the empty mask. -/
theorem interval_eq_masked_none (hv : v &&& m < 2 ^ w) (hhi : hi < 2 ^ w) (hmask : m % 2 ^ w = 0)
    (h : interval w lo hi = masked w v m) : lo = 0 ∧ hi = 2 ^ w - 1 := by
  refine interval_eq_univ hhi (h.trans (Set.eq_univ_of_forall fun x => ?_))
  rw [mem_masked_iff hv, hmask, Nat.and_zero, Nat.and_zero]

/-- An interval from the low bits of a value to those of its mask is that masked value only when
the low bits of the value are all ones. -/
theorem interval_eq_masked_self (hv : v &&& m < 2 ^ w) (hle : v % 2 ^ w ≤ m % 2 ^ w)
    (h : interval w (v % 2 ^ w) (m % 2 ^ w) = masked w v m) : v % 2 ^ w = 2 ^ w - 1 := by
  have hlt : m % 2 ^ w < 2 ^ w := Nat.mod_lt _ (Nat.two_pow_pos w)
  -- the mask lies in the interval, hence the value has all bits of the mask
  have hmask : m % 2 ^ w = v % 2 ^ w &&& m % 2 ^ w := by
    have hin := ofNat_hi_mem_interval hle hlt
    rwa [h, mem_masked_iff hv, BitVec.toNat_ofNat, Nat.mod_eq_of_lt hlt, Nat.and_self] at hin
  -- so the word of all ones agrees with it under the mask, and lies in the interval
  have hones : BitVec.allOnes w ∈ interval w (v % 2 ^ w) (m % 2 ^ w) := by
    rw [h, mem_masked_iff hv, toNat_allOnes_and hlt, ← hmask]
  have hhi : (BitVec.allOnes w).toNat ≤ m % 2 ^ w := hones.2
  have hand : v % 2 ^ w &&& m % 2 ^ w ≤ v % 2 ^ w := Nat.and_le_left
  rw [BitVec.toNat_allOnes] at hhi
  omega

end Rids.Lib.FieldSets
