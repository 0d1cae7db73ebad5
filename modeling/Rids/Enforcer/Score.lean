import Mathlib.Algebra.BigOperators.Ring.Finset
import Mathlib.Algebra.Order.BigOperators.Group.Finset
import Mathlib.Tactic.Ring
import Rids.Enforcer.Accumulate
import Rids.Enforcer.Cell

/-!
# Eight-bit state and score

With the sign tables every pass that updates adds 1 or -1 to each of the eight accumulators, the
sign of a weight. After `n` of them an accumulator lies between `-n` and `n`, far from the ends of
a byte. The score folds six bytes, each of them up to 32 in size; it still fits a byte, because
the rows of the first half are equal but for the last, and because a gate opens only on an
accumulator that is not negative.

* `state_run_of_restart` — the accumulators of a slot that was restarted are the sums of the
  activations since.
* `sum_activation` — these sums, in the numbers of updates on each length class.
* `exactScore_bounds` — the score in these numbers, for every combination of the gates.
* `score_exact` — up to 32 updates, accumulators and score are exact.
-/

namespace Rids.Enforcer

open Rids.Lib.MatchAction
open Rids.Lib.Runs
open Rids.Lib.SlotMachine

/-- The pass updated the accumulators of its slot. -/
def Updates (c : Program) (x : Found) : Prop :=
  .doTanhAndUpdateState ∈ (runPass c x.1 x.2).applied

instance (c : Program) (x : Found) : Decidable (Updates c x) := inferInstanceAs (Decidable (_ ∈ _))

/-- The integer `m11 - m12 - m13 - m14 - m24 + m21` of the `r1` bytes, in two's complement. -/
def exactScore (md : Metadata) : ℤ :=
  (md.m1 .n1).r1.toInt - (md.m1 .n2).r1.toInt - (md.m1 .n3).r1.toInt - (md.m1 .n4).r1.toInt
    - (md.m2 .n4).r1.toInt + (md.m2 .n1).r1.toInt

/-! ### The passes of a slot and the run -/

section Trace

variable {c : Program} {r : Registers} {i : BitVec 16} {xs : List Pass}

/-- A pass of the trace of a slot is a pass of the run, found at the registers of its prefix. -/
theorem exists_prefix_of_slotTrace {y : Found} {A B : List Found}
    (h : slotTrace c r i xs = A ++ y :: B) :
    ∃ a b, xs = a ++ y.2 :: b ∧ y.1 = (switch c).run r a ∧ slotTrace c r i a = A ∧
      c.slotOf y.2 = i := by
  induction xs using List.reverseRecOn generalizing B with
  | nil => simp [slotTrace] at h
  | append_singleton xs p ih =>
    rw [slotTrace_append_singleton] at h
    by_cases hp : c.slotOf p = i
    · rw [if_pos hp] at h
      rcases List.eq_nil_or_concat B with rfl | ⟨B, z, rfl⟩
      · obtain ⟨hA, hy⟩ := List.append_inj' h rfl
        rw [List.singleton_inj] at hy
        subst hy
        exact ⟨xs, [], rfl, rfl, hA, hp⟩
      · rw [List.concat_eq_append, ← List.cons_append, ← List.append_assoc] at h
        obtain ⟨a, b, rfl, hy, hA, hi⟩ := ih (List.append_inj' h rfl).1
        exact ⟨a, b ++ [p], by simp, hy, hA, hi⟩
    · rw [if_neg hp, List.append_nil] at h
      obtain ⟨a, b, rfl, hy, hA, hi⟩ := ih h
      exact ⟨a, b ++ [p], by simp, hy, hA, hi⟩

end Trace

/-! ### Sums since a restart -/

section Restart

variable {c : Program} {r : Registers} {i : BitVec 16} {xs : List Pass}

/-- **The accumulators since a restart.** From the pass `x` on, which takes the slot and updates
the accumulator, it is the sum of the activations. -/
theorem state_run_of_restart {l : Layer} {k : Neuron} {pre h : List Found} {x : Found}
    (htrace : slotTrace c r i xs = pre ++ x :: h) (hx : SawCollision c x)
    (hact : activation c l k x ≠ 0) (hh : ∀ y ∈ h, ¬ SawCollision c y) :
    ((switch c).run r xs).state l k i = .ofInt 8 ((x :: h).map (activation c l k)).sum := by
  have hsince : sinceRestart c l k (slotTrace c r i xs) = x :: h := by
    rw [htrace]
    exact sinceLast_append_cons ⟨hx, hact⟩ (fun y hy hrestarts => hh y hy hrestarts.1) pre
  rw [state_run, if_pos ⟨x, by simp [htrace], hx, hact⟩, hsince, zero_add]

end Restart

/-! ### Activations by length class -/

/-- The weights of a layer. -/
def Layer.weight : Layer → Neuron → Neuron → ℤ
  | .s1 => weight1
  | .s2 => weight2

/-- What a sign table adds for row `k` on length class `j`: the sign of the weight, 1 for 0. -/
def Layer.signWeight (l : Layer) (k j : Neuron) : ℤ := if 0 ≤ l.weight k j then 1 else -1

/-- The number of updates on length class `j`. -/
def tally (c : Program) (j : Neuron) (h : List Found) : ℕ :=
  h.countP fun y => Updates c y ∧ c.onehot y.2.pkt = .unit j

/-- Every pass that updates has a one-hot length. -/
def OnehotUpdates (c : Program) (h : List Found) : Prop :=
  ∀ y ∈ h, Updates c y → (c.onehot y.2.pkt).IsOnehot

/-- One-hot inputs of different neurons differ. -/
theorem unit_inj {j j' : Neuron} : PktlenOnehot.unit j = .unit j' ↔ j = j' := by
  revert j j'
  decide

/-- The sign of the activation that a sign table gives. -/
theorem sign_of_byte (v : BitVec 8) :
    (if v < 0x80#8 then Activation.activate else .deactivate).sign =
      if 0 ≤ v.toInt then 1 else -1 := by
  simp only [lt_0x80_iff]
  split_ifs <;> rfl

section Activation

variable {c : Program} {y : Found} {h : List Found}

/-- Sign tables hit on every one-hot input, with the sign of the weight. -/
theorem act_of_signTables (htab : SignTables c) (l : Layer) (k : Neuron) {j : Neuron}
    {pkt : Packet} (hj : c.onehot pkt = .unit j) :
    ∃ a, c.act l pkt k = some a ∧ a.sign = l.signWeight k j := by
  cases l with
  | s1 =>
    refine ⟨_, (htab k _).1, ?_⟩
    rw [hj, sign_of_byte, calcM1_onehot]
    rfl
  | s2 =>
    refine ⟨_, (htab k _).2, ?_⟩
    rw [hj, sign_of_byte, calcM2_onehot]
    rfl

/-- A pass that updates adds the sign of its weight. -/
theorem activation_of_updates (htab : SignTables c) (hy : Updates c y) (l : Layer) (k : Neuron)
    {j : Neuron} (hj : c.onehot y.2.pkt = .unit j) : activation c l k y = l.signWeight k j := by
  obtain ⟨a, ha, hsign⟩ := act_of_signTables htab l k hj
  have hact : activation c l k y = ((c.act l y.2.pkt k).map Activation.sign).getD 0 := if_pos hy
  rw [hact, ha]
  exact hsign

/-- A pass that does not update adds nothing. -/
theorem activation_of_not_updates (hy : ¬ Updates c y) (l : Layer) (k : Neuron) :
    activation c l k y = 0 := if_neg hy

/-- A pass that updates adds 1 or -1. -/
theorem activation_ne_zero (htab : SignTables c) (hy : Updates c y)
    (hone : (c.onehot y.2.pkt).IsOnehot) (l : Layer) (k : Neuron) : activation c l k y ≠ 0 := by
  obtain ⟨j, hj⟩ := hone
  rw [activation_of_updates htab hy l k hj, Layer.signWeight]
  split_ifs <;> decide

/-- The tally of a neuron counts the updates with its input. -/
theorem tally_cons (c : Program) (j : Neuron) (y : Found) (h : List Found) :
    tally c j (y :: h) =
      tally c j h + if Updates c y ∧ c.onehot y.2.pkt = .unit j then 1 else 0 := by
  rw [tally, List.countP_cons]
  simp only [decide_eq_true_eq]
  rfl

/-- The sum of the activations, in the numbers of updates on each length class. -/
theorem sum_activation (htab : SignTables c) (hone : OnehotUpdates c h) (l : Layer) (k : Neuron) :
    (h.map (activation c l k)).sum = ∑ j, l.signWeight k j * tally c j h := by
  induction h with
  | nil => simp [tally]
  | cons y h ih =>
    obtain ⟨hy, hrest⟩ := List.forall_mem_cons.mp hone
    rw [List.map_cons, List.sum_cons, ih hrest]
    simp only [tally_cons, Nat.cast_add, mul_add, Finset.sum_add_distrib]
    rw [add_comm]
    congr 1
    by_cases hupd : Updates c y
    · obtain ⟨j, hj⟩ := hy hupd
      rw [activation_of_updates htab hupd l k hj]
      simp [hupd, hj, unit_inj]
    · simp [activation_of_not_updates hupd, hupd]

/-- The updates of one-hot length are those of the four classes. -/
theorem countP_updates (hone : OnehotUpdates c h) : h.countP (Updates c) = ∑ j, tally c j h := by
  induction h with
  | nil => simp [tally]
  | cons y h ih =>
    obtain ⟨hy, hrest⟩ := List.forall_mem_cons.mp hone
    rw [List.countP_cons, ih hrest]
    simp only [tally_cons, Finset.sum_add_distrib, decide_eq_true_eq]
    congr 1
    by_cases hupd : Updates c y
    · obtain ⟨j, hj⟩ := hy hupd
      simp [hupd, hj, unit_inj]
    · simp [hupd]

end Activation

/-! ### The score in the numbers of updates -/

/-- A sum over the neurons has four terms. -/
theorem sum_neuron (f : Neuron → ℤ) : ∑ j, f j = f .n1 + f .n2 + f .n3 + f .n4 := by
  rw [show (Finset.univ : Finset Neuron) = {.n1, .n2, .n3, .n4} from rfl]
  simp [add_assoc]

/-- With at most 32 updates an accumulator is at most 32 in size. -/
theorem accumulator_bounds {t : Neuron → ℕ} (ht : ∑ j, t j ≤ 32) (l : Layer) (k : Neuron) :
    -32 ≤ ∑ j, l.signWeight k j * t j ∧ ∑ j, l.signWeight k j * (t j : ℤ) ≤ 32 := by
  have ht' : ∑ j, (t j : ℤ) ≤ 32 := by exact_mod_cast ht
  have hle (j : Neuron) : l.signWeight k j * (t j : ℤ) ≤ t j := by
    unfold Layer.signWeight
    split_ifs <;> omega
  have hge (j : Neuron) : -(t j : ℤ) ≤ l.signWeight k j * t j := by
    unfold Layer.signWeight
    split_ifs <;> omega
  constructor
  · have hsum := Finset.sum_le_sum fun j (_ : j ∈ Finset.univ) => hge j
    rw [Finset.sum_neg_distrib] at hsum
    omega
  · exact (Finset.sum_le_sum fun j _ => hle j).trans ht'

/-- **The score fits a byte.** The first three rows of the first half are equal, so two of them
cancel; a gate lets an accumulator of the second half through only where its row of the first
half is not negative. In the worst case, 32 updates on length class 1, the score is -128. -/
theorem exactScore_bounds {t : Neuron → ℕ} (ht : ∑ j, t j ≤ 32) {m1 m2 : Neuron → ℤ}
    (h1 : ∀ k, m1 k = ∑ j, Layer.s1.signWeight k j * t j)
    (h2 : ∀ k, (0 ≤ m1 k ∧ m2 k = ∑ j, Layer.s2.signWeight k j * t j) ∨ m2 k = 1 ∨ m2 k = -1) :
    -128 ≤ m1 .n1 - m1 .n2 - m1 .n3 - m1 .n4 - m2 .n4 + m2 .n1 ∧
      m1 .n1 - m1 .n2 - m1 .n3 - m1 .n4 - m2 .n4 + m2 .n1 < 128 := by
  have ht' : (t .n1 + t .n2 + t .n3 + t .n4 : ℤ) ≤ 32 := by
    rw [← sum_neuron fun j => (t j : ℤ)]
    exact_mod_cast ht
  have h11 := h1 .n1
  have h12 := h1 .n2
  have h13 := h1 .n3
  have h14 := h1 .n4
  have h21 := h2 .n1
  have h24 := h2 .n4
  simp [sum_neuron, Layer.signWeight, Layer.weight, weight1, weight2] at h11 h12 h13 h14 h21 h24
  rcases h21 with ⟨hopen, h21⟩ | h21 | h21 <;> rcases h24 with ⟨hopen', h24⟩ | h24 | h24 <;>
    omega

/-! ### The bytes of a pass -/

section Bytes

variable {c : Program} {y : Found}

/-- A pass that updates runs the inference. -/
theorem infers_of_updates (hy : Updates c y) : (y.1.slot (c.slotOf y.2)).Infers c y.2 :=
  doTanhAndUpdateState_mem_iff.mp hy

/-- `m1k.r1` is the new first accumulator. -/
theorem m1_of_updates (htab : SignTables c) (hy : Updates c y) (k : Neuron) :
    ((runPass c y.1 y.2).md.m1 k).r1 =
      (runPass c y.1 y.2).regs.state .s1 k (c.slotOf y.2) := by
  have hinf := infers_of_updates hy
  rw [m1_runPass hinf, Registers.state, rS1State_runPass hinf]
  obtain ⟨a, hact⟩ : ∃ a, c.act1 y.2.pkt k = some a := ⟨_, (htab k _).1⟩
  rw [tanhM1_of_act hact, Slot.s1New, hact]
  rfl

/-- `m2k.r1` is the new second accumulator where the gate is open, and the activation elsewhere. -/
theorem m2_of_updates (htab : SignTables c) (hy : Updates c y) (k : Neuron) :
    (0 ≤ ((runPass c y.1 y.2).md.m1 k).r1.toInt ∧
        ((runPass c y.1 y.2).md.m2 k).r1 =
          (runPass c y.1 y.2).regs.state .s2 k (c.slotOf y.2)) ∨
      ∃ a : Activation, ((runPass c y.1 y.2).md.m2 k).r1 = a.delta := by
  have hinf := infers_of_updates hy
  obtain ⟨a, hact⟩ : ∃ a, c.act2 y.2.pkt k = some a := ⟨_, (htab k _).2⟩
  rw [← lt_0x80_iff, m1_runPass hinf, m2_runPass hinf, tanhM2_of_act hact, Registers.state,
    rS2State_runPass hinf, gated]
  split_ifs with h
  · left
    refine ⟨h.1, ?_⟩
    rw [Slot.s2New, hact]
    rfl
  · right
    exact ⟨a, rfl⟩

/-- The score is the integer score modulo 256. -/
theorem score_eq_ofInt (md : Metadata) : score md = .ofInt 8 (exactScore md) := by
  simp only [score, exactScore, sub_eq_add_neg, BitVec.ofInt_add, BitVec.ofInt_neg,
    BitVec.ofInt_toInt]
  ring

/-- A number in the range of a byte is the value of that byte. -/
theorem toInt_ofInt_byte {n : ℤ} (h : -128 ≤ n) (h' : n < 128) : (BitVec.ofInt 8 n).toInt = n := by
  rw [BitVec.toInt_ofInt]
  exact Int.bmod_eq_of_le h h'

end Bytes

/-! ### Up to 32 updates -/

section Exact

variable {c : Program} {r : Registers} {i : BitVec 16} {xs : List Pass} {pre h : List Found}
  {x : Found}

/-- The accumulators as integers. -/
theorem state_toInt (htab : SignTables c) (htrace : slotTrace c r i xs = pre ++ x :: h)
    (hx : SawCollision c x) (hupd : Updates c x) (hh : ∀ y ∈ h, ¬ SawCollision c y)
    (hone : OnehotUpdates c (x :: h)) (hn : (x :: h).countP (Updates c) ≤ 32) (l : Layer)
    (k : Neuron) :
    (((switch c).run r xs).state l k i).toInt = ((x :: h).map (activation c l k)).sum := by
  have hact := activation_ne_zero htab hupd (hone x List.mem_cons_self hupd) l k
  have hbounds := accumulator_bounds (countP_updates hone ▸ hn) l k
  rw [← sum_activation htab hone] at hbounds
  rw [state_run_of_restart htrace hx hact hh, toInt_ofInt_byte (by omega) (by omega)]

/-- The run up to a pass of the trace ends with the registers that pass left. -/
theorem exists_run_of_mem (htrace : slotTrace c r i xs = pre ++ x :: h) {y : Found}
    (hy : y ∈ x :: h) :
    ∃ zs h', slotTrace c r i zs = pre ++ x :: h' ∧ (x :: h') <+: (x :: h) ∧
      (switch c).run r zs = (runPass c y.1 y.2).regs ∧ c.slotOf y.2 = i := by
  obtain ⟨A, B, hsplit⟩ := List.append_of_mem hy
  rw [hsplit, ← List.append_assoc] at htrace
  obtain ⟨a, b, -, hfound, hA, hi⟩ := exists_prefix_of_slotTrace htrace
  have hrun : (switch c).run r (a ++ [y.2]) = (runPass c y.1 y.2).regs := by
    rw [Machine.run_append, hfound]
    rfl
  have hlast : slotTrace c r i (a ++ [y.2]) = pre ++ (A ++ [y]) := by
    rw [slotTrace_append_singleton, hA, if_pos hi, ← hfound, List.append_assoc]
  have hfirst : A ++ [y] <+: x :: h := ⟨B, by rw [hsplit, List.append_assoc]; rfl⟩
  cases A with
  | nil =>
    obtain ⟨rfl, -⟩ := List.cons.inj hsplit
    exact ⟨_, [], hlast, hfirst, hrun, hi⟩
  | cons z A =>
    obtain ⟨rfl, -⟩ := List.cons.inj hsplit
    exact ⟨_, A ++ [y], hlast, hfirst, hrun, hi⟩

/-- **Accumulators and score are exact for up to 32 updates.** Let the range tables be sign
tables, and let a pass that updates have taken slot `i`, no pass since having seen a collision.
If at most 32 passes have updated since, all of one-hot length, every accumulator read in two's
complement is the sum of its activations, and every one of these passes leaves bytes whose folded
score is the integer score, below `0x80` exactly when that is not negative. -/
theorem score_exact (htab : SignTables c) (htrace : slotTrace c r i xs = pre ++ x :: h)
    (hx : SawCollision c x) (hupd : Updates c x) (hh : ∀ y ∈ h, ¬ SawCollision c y)
    (hone : OnehotUpdates c (x :: h)) (hn : (x :: h).countP (Updates c) ≤ 32) :
    (∀ l k, (((switch c).run r xs).state l k i).toInt = ((x :: h).map (activation c l k)).sum) ∧
      ∀ y ∈ x :: h, Updates c y →
        ((doMergeResult2 (runPass c y.1 y.2).md).m1 .n1).r1.toInt =
            exactScore (runPass c y.1 y.2).md ∧
          (((doMergeResult2 (runPass c y.1 y.2).md).m1 .n1).r1 < 0x80#8 ↔
            0 ≤ exactScore (runPass c y.1 y.2).md) := by
  refine ⟨state_toInt htab htrace hx hupd hh hone hn, ?_⟩
  intro y hy hyupd
  obtain ⟨zs, h', htrace', hfirst, hrun, hi⟩ := exists_run_of_mem htrace hy
  -- the passes up to `y` meet the same hypotheses
  have hh' : ∀ z ∈ h', ¬ SawCollision c z := by
    intro z hz
    exact hh z ((List.cons_prefix_cons.mp hfirst).2.subset hz)
  have hone' : OnehotUpdates c (x :: h') := fun z hz => hone z (hfirst.subset hz)
  have hn' : (x :: h').countP (Updates c) ≤ 32 := (hfirst.sublist.countP_le).trans hn
  have hstate (l : Layer) (k : Neuron) :
      ((runPass c y.1 y.2).regs.state l k (c.slotOf y.2)).toInt =
        ∑ j, l.signWeight k j * tally c j (x :: h') := by
    rw [← sum_activation htab hone', ← hrun, hi]
    exact state_toInt htab htrace' hx hupd hh' hone' hn' l k
  have hm1 (k : Neuron) : ((runPass c y.1 y.2).md.m1 k).r1.toInt =
      ∑ j, Layer.s1.signWeight k j * tally c j (x :: h') := by
    rw [m1_of_updates htab hyupd, hstate]
  have hm2 (k : Neuron) :
      (0 ≤ ((runPass c y.1 y.2).md.m1 k).r1.toInt ∧ ((runPass c y.1 y.2).md.m2 k).r1.toInt =
        ∑ j, Layer.s2.signWeight k j * tally c j (x :: h')) ∨
      ((runPass c y.1 y.2).md.m2 k).r1.toInt = 1 ∨
        ((runPass c y.1 y.2).md.m2 k).r1.toInt = -1 := by
    rcases m2_of_updates htab hyupd k with ⟨hopen, hr1⟩ | ⟨a, hr1⟩
    · left
      exact ⟨hopen, by rw [hr1, hstate]⟩
    · right
      rw [hr1]
      cases a with
      | activate => exact Or.inl rfl
      | deactivate => exact Or.inr rfl
  have hbounds := exactScore_bounds (countP_updates hone' ▸ hn') hm1 hm2
  have hscore : ((doMergeResult2 (runPass c y.1 y.2).md).m1 .n1).r1.toInt =
      exactScore (runPass c y.1 y.2).md := by
    rw [m1_doMergeResult2, score_eq_ofInt]
    exact toInt_ofInt_byte hbounds.1 hbounds.2
  refine ⟨hscore, ?_⟩
  rw [lt_0x80_iff, hscore]

end Exact

/-- A flow's first two packets, in a slot it takes. -/
theorem firstPackets_score_exact :
    (∀ l k, (((switch (.sample tholdEvery)).run .zero [.fresh 7 1, .fresh 7 3]).state l k 0).toInt =
        ((slotTrace (.sample tholdEvery) .zero 0 [.fresh 7 1, .fresh 7 3]).map
          (activation (.sample tholdEvery) l k)).sum) ∧
      ∀ y ∈ slotTrace (.sample tholdEvery) .zero 0 [.fresh 7 1, .fresh 7 3],
        Updates (.sample tholdEvery) y →
          ((doMergeResult2 (runPass (.sample tholdEvery) y.1 y.2).md).m1 .n1).r1.toInt =
              exactScore (runPass (.sample tholdEvery) y.1 y.2).md ∧
            (((doMergeResult2 (runPass (.sample tholdEvery) y.1 y.2).md).m1 .n1).r1 < 0x80#8 ↔
              0 ≤ exactScore (runPass (.sample tholdEvery) y.1 y.2).md) := by
  have htrace : slotTrace (.sample tholdEvery) .zero 0 [.fresh 7 1, .fresh 7 3] =
      [] ++ [(.zero, .fresh 7 1),
        ((switch (.sample tholdEvery)).run .zero [.fresh 7 1], .fresh 7 3)] := rfl
  refine score_exact (signTables_sample _) htrace (by decide +kernel) (by decide +kernel)
    (by decide +kernel) ?_ (by decide +kernel)
  intro y hy _
  rcases List.mem_pair.mp hy with rfl | rfl
  · exact ⟨.n1, rfl⟩
  · exact ⟨.n3, rfl⟩

end Rids.Enforcer
