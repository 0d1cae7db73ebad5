import Rids.Enforcer.Isolation

/-!
# Slots do not interfere

Every stateful ALU of ingress is executed at `hash_index`, and a pass takes nothing from the pass
before it but the registers. `switch_slotWise` says this in one sentence; here it is read off for
runs of the switch itself.

* `Registers.slot_inj` — the eleven arrays are their slots.
* `slots_do_not_interfere` — slot `i` after a run, and what every pass on it left behind, are what
  the passes on slot `i` alone would have made; passes on different slots commute.
-/

namespace Rids.Enforcer

open Rids.Lib.SlotMachine

/-- Registers with equal slots are equal. -/
theorem Registers.slot_inj {r r' : Registers} (h : r.slot = r'.slot) : r = r' := by
  have hslot (i : BitVec 16) : r.slot i = r'.slot i := congrFun h i
  have hkey : r.rFlowHashKey = r'.rFlowHashKey := by
    funext i
    exact congrArg Slot.flowHashKey (hslot i)
  have hcnt : r.rFlowCnt = r'.rFlowCnt := by
    funext i
    exact congrArg Slot.flowCnt (hslot i)
  have hs1 : r.rS1State = r'.rS1State := by
    funext k i
    exact congrFun (congrArg Slot.s1State (hslot i)) k
  have hs2 : r.rS2State = r'.rS2State := by
    funext k i
    exact congrFun (congrArg Slot.s2State (hslot i)) k
  have hdec : r.rDecision = r'.rDecision := by
    funext i
    exact congrArg Slot.decision (hslot i)
  cases r
  cases r'
  simp only at hkey hcnt hs1 hs2 hdec
  rw [hkey, hcnt, hs1, hs2, hdec]

/-- **Slots do not interfere.** From any registers, for every run and slot `i`: the cells at `i`
after the run, and everything each pass on `i` left behind (its metadata, among them
`is_collision`, `flow_cnt`, `overflow`, `m1k`, `m2k`, `fr.decision` and the forwarding, and the
controls it applied), are those of the run of the passes on `i` alone. Two passes on different
slots can be exchanged: the registers and what either leaves behind are the same. -/
theorem slots_do_not_interfere (c : Program) (r : Registers) (ps : List Pass) :
    (∀ i, ((switch c).run r ps).slot i =
          ((switch c).run r (ps.filter (c.slotOf · = i))).slot i ∧
        slotHist c r i ps = (switch c).hist r (ps.filter (c.slotOf · = i))) ∧
      ∀ p q, c.slotOf p ≠ c.slotOf q →
        (switch c).run r [p, q] = (switch c).run r [q, p] ∧
          (switch c).out ((switch c).step r p) q = (switch c).out r q ∧
          (switch c).out ((switch c).step r q) p = (switch c).out r p := by
  have h := switch_slotWise c
  refine ⟨fun i => ⟨?_, ?_⟩, fun p q hne => ⟨?_, ?_, ?_⟩⟩
  · exact (h.view_run_filter r ps i).symm
  · exact (h.hist_filter_run r ps i).symm
  · exact h.step_comm (fun _ _ => Registers.slot_inj) r hne
  · exact h.out_step_of_ne r hne
  · exact h.out_step_of_ne r (Ne.symm hne)

/-- A program whose slots are the low half of the source address. -/
def Program.spread : Program :=
  { Program.sample tholdEvery with flowHashIndex := fun F => F.srcIp.setWidth 16 }

/-- Two flows there, interleaved. -/
theorem spread_do_not_interfere :
    (switch Program.spread).run .zero [.fresh 7 1, .fresh 9 2] =
      (switch Program.spread).run .zero [.fresh 9 2, .fresh 7 1] :=
  ((slots_do_not_interfere Program.spread .zero []).2 (.fresh 7 1) (.fresh 9 2)
    (by decide)).1

end Rids.Enforcer
