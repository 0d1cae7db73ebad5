import Mathlib.Data.Nat.Count
import Rids.Enforcer.CurrentRun
import Rids.Enforcer.Isolation

/-!
# How often the threshold is hit

`t_check_cnt_thold` is read by `flow_cnt`, a field of 20 bits; the counter it comes from has 32.
A run of passes of one owner is counted upwards without end, so a threshold below `2 ^ 20` comes
round again after `2 ^ 20` passes.

* `count_le_one_iff` — when an interval meets a residue class at most once.
* `hitCount_hist` — the hits in a history of a slot are the numbers of that class.
* `hitOnce_iff` — the threshold is hit once exactly in runs of at most `2 ^ 20` passes from the
  first hit on.
-/

namespace Rids.Enforcer

open Rids.Lib.SlotMachine

/-! ### A residue class in an interval -/

/-- A predicate holds at most once below `n` when no two places have it. -/
theorem count_le_one_iff_forall {p : ℕ → Prop} [DecidablePred p] {n : ℕ} :
    n.count p ≤ 1 ↔ ∀ j k, j < k → k < n → p j → ¬ p k := by
  rw [Nat.count_eq_card_filter_range, Finset.card_le_one]
  simp only [Finset.mem_filter, Finset.mem_range]
  constructor
  · intro h j k hjk hk hpj hpk
    exact absurd (h j ⟨hjk.trans hk, hpj⟩ k ⟨hk, hpk⟩) hjk.ne
  · intro h j hj k hk
    rcases lt_trichotomy j k with hjk | rfl | hkj
    · exact absurd hk.2 (h j k hjk hk.1 hj.2)
    · rfl
    · exact absurd hj.2 (h k j hkj hj.1 hk.2)

/-- The places of one residue class are `m` apart. -/
theorem le_sub_of_mod_eq {a m j k : ℕ} (hjk : j < k) (h : (a + j) % m = (a + k) % m) :
    m ≤ k - j := by
  have hdvd : m ∣ a + k - (a + j) := (Nat.modEq_iff_dvd' (by omega)).mp h
  rw [Nat.add_sub_add_left] at hdvd
  exact Nat.le_of_dvd (by omega) hdvd

/-- Of `n` numbers from `a` on at most one is `t` modulo `m`, exactly when there is no second
one: `m` places after the first, which is `(t + m - a % m) % m` places after `a`. -/
theorem count_le_one_iff {a m t n : ℕ} (hm : 0 < m) :
    n.count (fun j => (a + j) % m = t) ≤ 1 ↔ (t < m → n ≤ m + (t + m - a % m) % m) := by
  have ha : a % m < m := Nat.mod_lt a hm
  have hlt : (t + m - a % m) % m < m := Nat.mod_lt _ hm
  have hhit (ht : t < m) : (a + (t + m - a % m) % m) % m = t := by
    rw [Nat.add_mod_mod, ← Nat.mod_add_mod, show a % m + (t + m - a % m) = t + m by omega,
      Nat.add_mod_right, Nat.mod_eq_of_lt ht]
  rw [count_le_one_iff_forall]
  constructor
  · intro h ht
    by_contra hn
    apply h ((t + m - a % m) % m) ((t + m - a % m) % m + m) (by omega) (by omega) (hhit ht)
    rw [← Nat.add_assoc, Nat.add_mod_right, hhit ht]
  · intro h j k hjk hk hj hkt
    have ht : t < m := hj ▸ Nat.mod_lt _ hm
    have hfar : m ≤ k - j := le_sub_of_mod_eq hjk (hj.trans hkt.symm)
    have hfirst : (t + m - a % m) % m ≤ j := by
      by_contra hbefore
      have hclose := le_sub_of_mod_eq (not_le.mp hbefore) (hj.trans (hhit ht).symm)
      omega
    have hn := h ht
    omega

/-! ### Hits in a history -/

/-- The passes of a history that got `overflow = 2`. -/
def hitCount (h : List (Pass × PassOut)) : ℕ := h.countP fun x => x.2.md.rstate.overflow = 2

/-- The passes of a history that ran the inference branch or the decision branch. -/
def branchCount (h : List (Pass × PassOut)) : ℕ :=
  h.countP fun x => .doCalcMat ∈ x.2.applied ∨ .tUpdateDecision ∈ x.2.applied

/-- Every pass of the run on slot `i` but the first saw no collision. -/
def NoLaterCollision (c : Program) (r : Registers) (i : BitVec 16) (xs : List Pass) : Prop :=
  ∀ x ∈ (slotTrace c r i xs).tail, ¬ SawCollision c x

/-- At most one pass of the run on slot `i` hits the threshold, and at most one runs the inference
or the decision branch. -/
def HitOnce (c : Program) (r : Registers) (i : BitVec 16) (xs : List Pass) : Prop :=
  hitCount (slotHist c r i xs) ≤ 1 ∧ branchCount (slotHist c r i xs) ≤ 1

/-- The 32-bit count of the first pass of the run on slot `i`. -/
def firstCount (c : Program) (r : Registers) (i : BitVec 16) (xs : List Pass) : ℕ :=
  match onSlot c i xs with
  | [] => 0
  | p :: _ => ((r.slot i).count c p).toNat

/-- The table selects `a_hit_thold` exactly for the count `t`. -/
def HitsAt (c : Program) (t : ℕ) : Prop :=
  ∀ n, c.tables.tCheckCntThold n = some .hitThold ↔ n.toNat = t

section Slot

variable {c : Program} {s : Slot} {p : Pass} {ps : List Pass} {t : ℕ}

/-- A table that hits at `t` gives class 2 to the count `t` and to no other. -/
theorem tholdClass_eq_two_iff (ht : HitsAt c t) (n : BitVec 20) :
    c.tholdClass n = 2 ↔ n.toNat = t := by
  rw [← ht n, Program.tholdClass]
  cases c.tables.tCheckCntThold n with
  | none => decide
  | some a => cases a <;> decide

/-- The class in the output of a slot. -/
theorem overflow_out : (s.out c p).md.rstate.overflow = s.overflow c p := by
  rw [rstate_out]
  rfl

/-- The inference and the decision branch are the branches of class 2. -/
theorem branch_mem_out_iff :
    (.doCalcMat ∈ (s.out c p).applied ∨ .tUpdateDecision ∈ (s.out c p).applied) ↔
      (s.out c p).md.rstate.overflow = 2 := by
  rw [overflow_out, Slot.overflow, ← one_lt_tholdClass_iff, ← Slot.overflow]
  unfold Slot.out
  split_ifs with hr h h <;> simp [h]

/-- The branch of class 2 is entered as often as the class is 2. -/
theorem branchCount_hist (s : Slot) (ps : List Pass) :
    branchCount ((slotMachine c).hist s ps) = hitCount ((slotMachine c).hist s ps) := by
  induction ps generalizing s with
  | nil => rfl
  | cons p ps ih =>
    have hhead : (.doCalcMat ∈ ((slotMachine c).out s p).applied ∨
        .tUpdateDecision ∈ ((slotMachine c).out s p).applied) ↔
          ((slotMachine c).out s p).md.rstate.overflow = 2 := branch_mem_out_iff
    have hrest := ih ((slotMachine c).step s p)
    unfold branchCount hitCount at hrest ⊢
    rw [Machine.hist_cons, List.countP_cons, List.countP_cons, hrest]
    simp only [hhead]

/-- The hits of an owner are its passes whose number is the threshold. -/
theorem hitCount_hist (ht : HitsAt c t) {F : FlowKeys} {n : ℕ} (hs : s.Counts c F n)
    (hps : ∀ p ∈ ps, c.keyOf p = c.flowHashKey F) :
    hitCount ((slotMachine c).hist s ps) =
      ps.length.count fun j => (n + 1 + j) % 2 ^ 20 = t := by
  induction ps generalizing s n with
  | nil => rfl
  | cons p ps ih =>
    rw [List.forall_mem_cons] at hps
    have hrest := ih (hs.step hps.1) hps.2
    have hclass : ((slotMachine c).out s p).md.rstate.overflow = 2 ↔ (n + 1) % 2 ^ 20 = t := by
      change (s.out c p).md.rstate.overflow = 2 ↔ _
      rw [overflow_out, hs.overflow hps.1, tholdClass_eq_two_iff ht, BitVec.toNat_ofNat]
    have hshift : (fun j => (n + 1 + (j + 1)) % 2 ^ 20 = t) =
        fun j => (n + 1 + 1 + j) % 2 ^ 20 = t := by
      funext j
      rw [Nat.add_assoc (n + 1) 1 j, Nat.add_comm 1 j]
    have hcons : hitCount ((slotMachine c).hist s (p :: ps)) =
        hitCount ((slotMachine c).hist (s.step c p) ps) +
          if ((slotMachine c).out s p).md.rstate.overflow = 2 then 1 else 0 := by
      unfold hitCount
      rw [Machine.hist_cons, List.countP_cons]
      simp only [decide_eq_true_eq]
      rfl
    rw [hcons, hrest, List.length_cons, Nat.count_succ']
    simp only [hclass, Nat.add_zero, hshift]

/-- Passes that see no collision have the key of the pass before. -/
theorem keys_of_trace
    (h : ∀ x ∈ (slotMachine c).trace (s.step c p) ps, ¬ x.1.Collides c x.2) :
    ∀ q ∈ ps, c.keyOf q = c.keyOf p := by
  induction ps generalizing s p with
  | nil => simp
  | cons q ps ih =>
    rw [Machine.trace_cons, List.forall_mem_cons] at h
    have hq : c.keyOf q = c.keyOf p := not_not.mp h.1
    rw [List.forall_mem_cons]
    refine ⟨hq, ?_⟩
    rw [← hq]
    exact ih h.2

/-- A slot is going to count a pass, and the passes of its flow after it, from the number that
the pass gets. -/
theorem exists_counts (c : Program) (s : Slot) (p : Pass) :
    ∃ n, s.Counts c p.flow n ∧ (s.count c p).toNat % 2 ^ 20 = (n + 1) % 2 ^ 20 := by
  have hmod (n : ℕ) (h : s.count c p = .ofNat 32 (n + 1)) :
      (s.count c p).toNat % 2 ^ 20 = (n + 1) % 2 ^ 20 := by
    rw [h, BitVec.toNat_ofNat]
    omega
  by_cases hcoll : s.Collides c p
  · have hs : s.Counts c p.flow 0 := .of_collides hcoll
    exact ⟨0, hs, hmod 0 (hs p rfl)⟩
  · have hs : s.Counts c p.flow s.flowCnt.toNat := by
      intro q hq
      have hkeep : ¬ s.Collides c q := by rwa [Slot.Collides, hq]
      rw [Slot.count, if_neg hkeep, BitVec.ofNat_add, BitVec.ofNat_toNat, BitVec.setWidth_eq]
      rfl
    exact ⟨_, hs, hmod _ (hs p rfl)⟩

/-- A run of a slot in which no pass but the first collides hits the threshold at the numbers of
one residue class. -/
theorem hitCount_hist_of_trace (ht : HitsAt c t)
    (h : ∀ x ∈ (slotMachine c).trace (s.step c p) ps, ¬ x.1.Collides c x.2) :
    hitCount ((slotMachine c).hist s (p :: ps)) ≤ 1 ↔
      (t < 2 ^ 20 →
        (p :: ps).length ≤ 2 ^ 20 + (t + 2 ^ 20 - (s.count c p).toNat % 2 ^ 20) % 2 ^ 20) := by
  obtain ⟨n, hs, hmod⟩ := exists_counts c s p
  have hkeys : ∀ q ∈ p :: ps, c.keyOf q = c.flowHashKey p.flow := by
    rw [List.forall_mem_cons]
    exact ⟨rfl, keys_of_trace h⟩
  rw [hitCount_hist ht hs hkeys, hmod]
  exact count_le_one_iff (by decide)

end Slot

/-! ### Runs of the switch -/

section Runs

variable {c : Program} {r : Registers} {i : BitVec 16} {xs : List Pass} {t : ℕ}

/-- The history of a slot is that of the passes on it. -/
theorem slotHist_eq (c : Program) (r : Registers) (i : BitVec 16) (xs : List Pass) :
    slotHist c r i xs = (slotMachine c).hist (r.slot i) (onSlot c i xs) :=
  (switch_slotWise c).hist_filter r xs i

/-- No later collision, said on the passes on the slot. -/
theorem noLaterCollision_iff (c : Program) (r : Registers) (i : BitVec 16) (xs : List Pass) :
    NoLaterCollision c r i xs ↔
      ∀ x ∈ ((slotMachine c).trace (r.slot i) (onSlot c i xs)).tail, ¬ x.1.Collides c x.2 := by
  have htrace := (switch_slotWise c).trace_filter r xs i
  change _ = (slotMachine c).trace (r.slot i) (onSlot c i xs) at htrace
  rw [← htrace, ← List.map_tail, List.forall_mem_map]
  refine forall₂_congr fun x hx => not_congr ?_
  have hslot : c.slotOf x.2 = i := by
    have := (List.mem_filter.mp (List.mem_of_mem_tail hx)).2
    simpa using this
  rw [SawCollision, isCollision_runPass, hslot]

/-- The two halves of `HitOnce` say the same, of the passes on the slot. -/
theorem hitOnce_iff_hist (c : Program) (r : Registers) (i : BitVec 16) (xs : List Pass) :
    HitOnce c r i xs ↔ hitCount ((slotMachine c).hist (r.slot i) (onSlot c i xs)) ≤ 1 := by
  rw [HitOnce, slotHist_eq, branchCount_hist]
  exact and_self_iff

/-- **When the threshold is hit once.** Let the table select `a_hit_thold` exactly for the count
`t`, and let no pass on slot `i` but the first see a collision. At most one pass gets
`overflow = 2`, and at most one runs the inference or the decision branch, exactly when `t` does
not fit the 20 bits of `flow_cnt`, or the passes on the slot end within `2 ^ 20` of the first one
that can be counted to `t`. -/
theorem hitOnce_iff (ht : HitsAt c t) (hkeep : NoLaterCollision c r i xs) :
    HitOnce c r i xs ↔
      (t < 2 ^ 20 → (onSlot c i xs).length ≤
        2 ^ 20 + (t + 2 ^ 20 - firstCount c r i xs % 2 ^ 20) % 2 ^ 20) := by
  rw [hitOnce_iff_hist]
  rw [noLaterCollision_iff] at hkeep
  unfold firstCount
  cases hps : onSlot c i xs with
  | nil =>
    simp only [Machine.hist_nil, List.length_nil, Nat.zero_le, implies_true, iff_true]
    exact Nat.zero_le 1
  | cons p ps =>
    rw [hps] at hkeep
    exact hitCount_hist_of_trace ht hkeep

end Runs

/-! ### A long-lived flow -/

/-- The table of the example hits at 1. -/
theorem hitsAt_sample : HitsAt (.sample (tholdAt 1)) 1 := by
  intro n
  have hlookup : (Program.sample (tholdAt 1)).tables.tCheckCntThold n = some (tholdAt 1 n) := rfl
  rw [hlookup, tholdAt]
  split_ifs with h
  · simp [h]
  · have hne : n.toNat ≠ 1 := fun hn => h (BitVec.eq_of_toNat_eq hn)
    simp [hne]

/-- Three packets of one flow are classified once. -/
theorem threePackets_hitOnce_iff :
    HitOnce (.sample (tholdAt 1)) .zero 0 [.fresh 7 1, .fresh 7 1, .fresh 7 1] ↔
      (1 < 2 ^ 20 → 3 ≤ 2 ^ 20 + (1 + 2 ^ 20 - 1 % 2 ^ 20) % 2 ^ 20) :=
  hitOnce_iff hitsAt_sample (by unfold NoLaterCollision; decide +kernel)

/-- `n` fresh packets of flow 7. -/
def longFlow (n : ℕ) : List Pass := .replicate n (.fresh 7 1)

/-- All passes of the long flow are on one slot. -/
theorem onSlot_longFlow (n : ℕ) : onSlot (.sample (tholdAt 1)) 0 (longFlow n) = longFlow n := by
  apply List.filter_eq_self.mpr
  intro p _
  rfl

/-- Passes of one flow see no collision once the flow has the slot. -/
theorem trace_longFlow {s : Slot} (h : s.flowHashKey = 7) (n : ℕ) :
    ∀ x ∈ (slotMachine (.sample (tholdAt 1))).trace s (longFlow n),
      ¬ x.1.Collides (.sample (tholdAt 1)) x.2 := by
  induction n generalizing s with
  | zero => simp [longFlow]
  | succ n ih =>
    rw [longFlow, List.replicate_succ, Machine.trace_cons, List.forall_mem_cons]
    constructor
    · intro hcoll
      exact hcoll h.symm
    · exact ih rfl

/-- The `2 ^ 20 + 1`-st packet of a flow is counted 1 again, the threshold. -/
theorem longFlow_not_hitOnce :
    HitsAt (.sample (tholdAt 1)) 1 ∧
      NoLaterCollision (.sample (tholdAt 1)) .zero 0 (longFlow (2 ^ 20 + 1)) ∧
      ¬ HitOnce (.sample (tholdAt 1)) .zero 0 (longFlow (2 ^ 20 + 1)) := by
  have hsplit : longFlow (2 ^ 20 + 1) = .fresh 7 1 :: longFlow (2 ^ 20) := List.replicate_succ
  have hkeep := trace_longFlow (s := Slot.step (.sample (tholdAt 1)) (Registers.zero.slot 0)
    (.fresh 7 1)) rfl (2 ^ 20)
  refine ⟨hitsAt_sample, ?_, ?_⟩
  · rw [noLaterCollision_iff, onSlot_longFlow, hsplit]
    exact hkeep
  · rw [hitOnce_iff_hist, onSlot_longFlow, hsplit, hitCount_hist_of_trace hitsAt_sample hkeep]
    have hcount : ((Registers.zero.slot 0).count (.sample (tholdAt 1)) (.fresh 7 1)).toNat = 1 := by
      decide
    have hlen : (Pass.fresh 7 1 :: longFlow (2 ^ 20)).length = 2 ^ 20 + 1 := by
      rw [List.length_cons, longFlow, List.length_replicate]
    rw [hcount, hlen]
    intro h
    exact absurd (h (by norm_num)) (by norm_num)

end Rids.Enforcer
