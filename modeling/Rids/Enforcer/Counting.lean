import Rids.Enforcer.Slot

/-!
# What the counter of a slot counts

The counter is restarted when a flow takes its slot and incremented by every later pass, fresh or
recirculated. `Slot.Counts c F s n` says that the slot `s` is going to count the next pass of `F`
as number `n + 1`; it is what the results on whole runs carry along.

* `flowCnt_run`, `overflow_run` — the count and the class of a pass, after any run in which `F`
  owns its slot, from the number of passes on the slot before it.
* `counts_packets_once_iff` — a run counts every packet once and classifies it once exactly when
  every fresh pass comes after a multiple of `2 ^ 20` passes on the slot that are not fresh passes
  of `F`, and the two counts a packet gets have one class.
-/

namespace Rids.Enforcer

open Rids.Lib.SlotMachine

/-! ### The law of the counter -/

/-- `s` counts the next pass with the key of `F` as number `n + 1`. -/
def Slot.Counts (c : Program) (F : FlowKeys) (s : Slot) (n : ℕ) : Prop :=
  ∀ p : Pass, c.keyOf p = c.flowHashKey F → s.count c p = .ofNat 32 (n + 1)

namespace Slot.Counts

variable {c : Program} {F : FlowKeys} {s : Slot} {n : ℕ} {p : Pass}

/-- A slot with another key is taken: its counter restarts. -/
theorem of_collides (h : c.flowHashKey F ≠ s.flowHashKey) : s.Counts c F 0 := by
  intro p hp
  have hcoll : s.Collides c p := by rwa [Slot.Collides, hp]
  simp [Slot.count, hcoll]

/-- So is a slot that has counted nothing. -/
theorem of_flowCnt_eq_zero (h : s.flowCnt = 0) : s.Counts c F 0 := by
  intro p _
  simp [Slot.count, h]

/-- A pass moves the count on by one. -/
theorem step (h : s.Counts c F n) (hp : c.keyOf p = c.flowHashKey F) :
    (s.step c p).Counts c F (n + 1) := by
  intro q hq
  have hkeep : ¬ (s.step c p).Collides c q := by simp [Slot.Collides, Slot.step, hp, hq]
  have hcnt : (s.step c p).flowCnt = .ofNat 32 (n + 1) := h p hp
  rw [Slot.count, if_neg hkeep, hcnt, BitVec.ofNat_add (n + 1) 1]
  rfl

/-- The count after a list of passes of the owner. -/
theorem run (h : s.Counts c F n) {ps : List Pass}
    (hps : ∀ p ∈ ps, c.keyOf p = c.flowHashKey F) :
    ((slotMachine c).run s ps).Counts c F (n + ps.length) := by
  induction ps generalizing s n with
  | nil => exact h
  | cons p ps ih =>
    rw [List.forall_mem_cons] at hps
    have := ih (h.step hps.1) hps.2
    rwa [List.length_cons, Nat.add_comm ps.length, ← Nat.add_assoc]

/-- The 20-bit count of the next pass. -/
theorem setWidth_count (h : s.Counts c F n) (hp : c.keyOf p = c.flowHashKey F) :
    (s.count c p).setWidth 20 = .ofNat 20 (n + 1) := by
  rw [h p hp]
  exact BitVec.setWidth_ofNat_of_le (by decide) _

/-- The class of the next pass. -/
theorem overflow (h : s.Counts c F n) (hp : c.keyOf p = c.flowHashKey F) :
    s.overflow c p = c.tholdClass (.ofNat 20 (n + 1)) := by
  rw [Slot.overflow, h.setWidth_count hp]

end Slot.Counts

/-! ### Runs in which a flow owns its slot -/

/-- At `r` the ownership of `F` begins: its slot holds another key, or has counted nothing. -/
def StartsOwning (c : Program) (r : Registers) (F : FlowKeys) : Prop :=
  c.flowHashKey F ≠ r.rFlowHashKey (c.flowHashIndex F) ∨ r.rFlowCnt (c.flowHashIndex F) = 0

/-- No pass of `xs` takes the slot of `F` from it: every pass there has the key of `F`. -/
def KeepsOwning (c : Program) (F : FlowKeys) (xs : List Pass) : Prop :=
  ∀ p ∈ xs, c.slotOf p = c.flowHashIndex F → c.keyOf p = c.flowHashKey F

/-- The number of passes on the slot of `F`. -/
def passesOnSlot (c : Program) (F : FlowKeys) (xs : List Pass) : ℕ :=
  xs.countP (c.slotOf · = c.flowHashIndex F)

/-- The number of fresh passes of `F`: of packets of `F` that have arrived. -/
def freshPasses (F : FlowKeys) (xs : List Pass) : ℕ := xs.countP fun p => p.flow = F ∧ ¬ p.Recirc

/-- The fresh passes of a flow are among the passes on its slot. -/
theorem freshPasses_le (c : Program) (F : FlowKeys) (xs : List Pass) :
    freshPasses F xs ≤ passesOnSlot c F xs := by
  refine List.countP_mono_left fun p _ hp => ?_
  simp only [decide_eq_true_eq] at hp ⊢
  rw [Program.slotOf, hp.1]

section Runs

variable {c : Program} {F : FlowKeys} {r : Registers} {xs : List Pass} {p : Pass}

/-- While `F` owns its slot, the slot has counted the passes on it. -/
theorem counts_run (hstart : StartsOwning c r F) (hxs : KeepsOwning c F xs) :
    (((switch c).run r xs).slot (c.flowHashIndex F)).Counts c F (passesOnSlot c F xs) := by
  rw [(switch_slotWise c).view_run]
  have h0 : (r.slot (c.flowHashIndex F)).Counts c F 0 := by
    rcases hstart with h | h
    · exact .of_collides h
    · exact .of_flowCnt_eq_zero h
  have hkeys : ∀ p ∈ xs.filter (c.slotOf · = c.flowHashIndex F),
      c.keyOf p = c.flowHashKey F := by
    intro p hp
    rw [List.mem_filter, decide_eq_true_eq] at hp
    exact hxs p hp.1 hp.2
  have := h0.run hkeys
  rwa [Nat.zero_add, ← List.countP_eq_length_filter] at this

/-- The count of a pass of `F`. -/
theorem flowCnt_run (hstart : StartsOwning c r F) (hxs : KeepsOwning c F xs) (hp : p.flow = F) :
    (runPass c ((switch c).run r xs) p).md.rstate.flowCnt = .ofNat 20 (passesOnSlot c F xs + 1) := by
  subst hp
  rw [flowCnt_runPass]
  exact (counts_run hstart hxs).setWidth_count rfl

/-- The class of a pass of `F`. -/
theorem overflow_run (hstart : StartsOwning c r F) (hxs : KeepsOwning c F xs) (hp : p.flow = F) :
    (runPass c ((switch c).run r xs) p).md.rstate.overflow =
      c.tholdClass (.ofNat 20 (passesOnSlot c F xs + 1)) := by
  subst hp
  rw [overflow_runPass]
  exact (counts_run hstart hxs).overflow rfl

end Runs

/-! ### Counting packets -/

/-- A pass with the number of the packet it is a pass of. -/
abbrev PacketPass := ℕ × Pass

/-- Every fresh pass of `F` reads the number of packets of `F` that have arrived, itself
included, while that number fits the 20-bit field. -/
def CountsPackets (c : Program) (r : Registers) (F : FlowKeys) (xs : List PacketPass) : Prop :=
  ∀ pre x post, xs = pre ++ x :: post → x.2.flow = F → ¬ x.2.Recirc →
    freshPasses F (pre.map (·.2)) + 1 < 2 ^ 20 →
      (runPass c ((switch c).run r (pre.map (·.2))) x.2).md.rstate.flowCnt.toNat =
        freshPasses F (pre.map (·.2)) + 1

/-- Every recirculated pass of `F` gets the class the fresh pass of its packet got. -/
def ClassifiesPackets (c : Program) (r : Registers) (F : FlowKeys) (xs : List PacketPass) : Prop :=
  ∀ pre x mid y post, xs = pre ++ x :: (mid ++ y :: post) → y.1 = x.1 →
    x.2.flow = F → y.2.flow = F → ¬ x.2.Recirc → y.2.Recirc →
      (runPass c ((switch c).run r ((pre ++ x :: mid).map (·.2))) y.2).md.rstate.overflow =
        (runPass c ((switch c).run r (pre.map (·.2))) x.2).md.rstate.overflow

/-- Before every fresh pass of `F` whose number fits the field, the passes on the slot that are
not fresh passes of `F` number a multiple of `2 ^ 20`. -/
def UncountedVanish (c : Program) (F : FlowKeys) (xs : List PacketPass) : Prop :=
  ∀ pre x post, xs = pre ++ x :: post → x.2.flow = F → ¬ x.2.Recirc →
    freshPasses F (pre.map (·.2)) + 1 < 2 ^ 20 →
      2 ^ 20 ∣ passesOnSlot c F (pre.map (·.2)) - freshPasses F (pre.map (·.2))

/-- The counts of the two passes of every packet of `F` have one class. -/
def CountsAgree (c : Program) (F : FlowKeys) (xs : List PacketPass) : Prop :=
  ∀ pre x mid y post, xs = pre ++ x :: (mid ++ y :: post) → y.1 = x.1 →
    x.2.flow = F → y.2.flow = F → ¬ x.2.Recirc → y.2.Recirc →
      c.tholdClass (.ofNat 20 (passesOnSlot c F ((pre ++ x :: mid).map (·.2)) + 1)) =
        c.tholdClass (.ofNat 20 (passesOnSlot c F (pre.map (·.2)) + 1))

/-- A count is read back in 20 bits exactly when it is off by a multiple of `2 ^ 20`. -/
theorem toNat_ofNat_eq_iff {n k : ℕ} (hk : k + 1 < 2 ^ 20) (hkn : k ≤ n) :
    (BitVec.ofNat 20 (n + 1)).toNat = k + 1 ↔ 2 ^ 20 ∣ n - k := by
  rw [BitVec.toNat_ofNat]
  omega

/-- The count is that of the packets exactly when the uncounted passes vanish. -/
theorem countsPackets_iff {c : Program} {F : FlowKeys} {r : Registers} {xs : List PacketPass}
    (hstart : StartsOwning c r F) (hxs : KeepsOwning c F (xs.map (·.2))) :
    CountsPackets c r F xs ↔ UncountedVanish c F xs := by
  refine forall₄_congr fun pre x post hsplit => forall₃_congr fun hF _ hk => ?_
  have hpre : KeepsOwning c F (pre.map (·.2)) := by
    intro p hp
    exact hxs p (by rw [hsplit, List.map_append]; exact List.mem_append_left _ hp)
  rw [flowCnt_run hstart hpre hF]
  exact toNat_ofNat_eq_iff hk (freshPasses_le c F _)

/-- The class is that of the packet count exactly when the counts agree. -/
theorem classifiesPackets_iff {c : Program} {F : FlowKeys} {r : Registers} {xs : List PacketPass}
    (hstart : StartsOwning c r F) (hxs : KeepsOwning c F (xs.map (·.2))) :
    ClassifiesPackets c r F xs ↔ CountsAgree c F xs := by
  refine forall₄_congr fun pre x mid y => forall₄_congr fun post hsplit _ hx =>
    forall₃_congr fun hy _ _ => ?_
  have hmid : KeepsOwning c F ((pre ++ x :: mid).map (·.2)) := by
    intro p hp
    refine hxs p ?_
    rw [hsplit, ← List.cons_append, ← List.append_assoc, List.map_append]
    exact List.mem_append_left _ hp
  have hpre : KeepsOwning c F (pre.map (·.2)) := by
    intro p hp
    exact hmid p (by rw [List.map_append]; exact List.mem_append_left _ hp)
  rw [overflow_run hstart hmid hy, overflow_run hstart hpre hx]

/-- **When packets are counted and classified once.** Ingress counts every pass, so a run counts
each packet of the owner once, and gives its two passes one class, exactly when the surplus
passes vanish modulo `2 ^ 20` and the two counts of each packet have one class. -/
theorem counts_packets_once_iff {c : Program} {F : FlowKeys} {r : Registers}
    {xs : List PacketPass} (hstart : StartsOwning c r F)
    (hxs : KeepsOwning c F (xs.map (·.2))) :
    CountsPackets c r F xs ∧ ClassifiesPackets c r F xs ↔
      UncountedVanish c F xs ∧ CountsAgree c F xs :=
  and_congr (countsPackets_iff hstart hxs) (classifiesPackets_iff hstart hxs)

/-- A packet goes through its two passes, then a second packet of the flow arrives. -/
def twoPackets : List PacketPass := [(0, .fresh 7 1), (0, .recirc 7 1), (1, .fresh 7 1)]

/-- Two packets, one of them recirculated. -/
theorem twoPackets_counts_once_iff :
    CountsPackets (.sample (tholdAt 1)) .zero ⟨7, 0, 6⟩ twoPackets ∧
        ClassifiesPackets (.sample (tholdAt 1)) .zero ⟨7, 0, 6⟩ twoPackets ↔
      UncountedVanish (.sample (tholdAt 1)) ⟨7, 0, 6⟩ twoPackets ∧
        CountsAgree (.sample (tholdAt 1)) ⟨7, 0, 6⟩ twoPackets :=
  counts_packets_once_iff (by unfold StartsOwning; decide) (by unfold KeepsOwning; decide)

/-- The second packet is counted 3, and the first one gets class 2 fresh and class 1
recirculated. -/
theorem twoPackets_not_counted_once :
    StartsOwning (.sample (tholdAt 1)) .zero ⟨7, 0, 6⟩ ∧
      KeepsOwning (.sample (tholdAt 1)) ⟨7, 0, 6⟩ (twoPackets.map (·.2)) ∧
      ¬ CountsPackets (.sample (tholdAt 1)) .zero ⟨7, 0, 6⟩ twoPackets ∧
      ¬ ClassifiesPackets (.sample (tholdAt 1)) .zero ⟨7, 0, 6⟩ twoPackets := by
  refine ⟨by unfold StartsOwning; decide, by unfold KeepsOwning; decide, fun h => ?_, fun h => ?_⟩
  · have hcount := h [(0, .fresh 7 1), (0, .recirc 7 1)] (1, .fresh 7 1) [] rfl rfl (by decide)
      (by decide)
    revert hcount
    decide +kernel
  · have hclass := h [] (0, .fresh 7 1) [] (0, .recirc 7 1) [(1, .fresh 7 1)] rfl rfl rfl rfl
      (by decide) (by decide)
    revert hclass
    decide +kernel

end Rids.Enforcer
