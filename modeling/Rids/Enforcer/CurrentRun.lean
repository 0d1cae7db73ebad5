import Mathlib.Data.List.DropRight
import Rids.Enforcer.Accumulate

/-!
# The key and the counter of a slot

From zeroed registers the key register of a slot holds the key of the last pass on it, and the
counter the length of the current run: of the longest suffix of passes with that key. The first
pass on a slot is compared with the key 0 that the register starts with; if its own key is 0 it
sees no collision, and is counted from the 0 that the counter starts with, to 1 as well.

* `flowHashKey_run`, `flowCnt_run_eq` — the two cells after a run of one slot.
* `key_and_counter_run` — the two registers, and `is_collision` of every pass, over a run of the
  switch.
-/

namespace Rids.Enforcer

open Rids.Lib.SlotMachine

/-- The key of the last pass, 0 when there is none. -/
def lastKey (c : Program) (qs : List Pass) : BitVec 16 := (qs.getLast?.map c.keyOf).getD 0

/-- The longest suffix of passes that have the key of the last one. -/
def currentRun (c : Program) (qs : List Pass) : List Pass :=
  qs.rtakeWhile fun p => c.keyOf p = lastKey c qs

section Slot

variable {c : Program} {s : Slot}

/-- The last key is that of the last pass. -/
theorem lastKey_append_singleton (qs : List Pass) (p : Pass) :
    lastKey c (qs ++ [p]) = c.keyOf p := by
  simp [lastKey]

/-- A pass with another key starts a new run. -/
theorem currentRun_append_singleton (qs : List Pass) (p : Pass) :
    currentRun c (qs ++ [p]) =
      (if c.keyOf p = lastKey c qs then currentRun c qs else []) ++ [p] := by
  unfold currentRun
  rw [lastKey_append_singleton, List.rtakeWhile_concat, if_pos (decide_eq_true rfl)]
  split_ifs with h
  · rw [h]
  · rcases List.eq_nil_or_concat qs with rfl | ⟨qs, q, rfl⟩
    · rfl
    · rw [List.concat_eq_append, lastKey_append_singleton] at h
      rw [List.concat_eq_append, List.rtakeWhile_concat_neg]
      simpa using Ne.symm h

/-- The key cell after a run of a slot. -/
theorem flowHashKey_run (h : s.flowHashKey = 0) (qs : List Pass) :
    ((slotMachine c).run s qs).flowHashKey = lastKey c qs := by
  induction qs using List.reverseRecOn with
  | nil => exact h
  | append_singleton qs p =>
    rw [Machine.run_append, lastKey_append_singleton]
    rfl

/-- A pass collides exactly when the pass before it had another key. -/
theorem collides_run_iff (h : s.flowHashKey = 0) (qs : List Pass) (p : Pass) :
    ((slotMachine c).run s qs).Collides c p ↔ c.keyOf p ≠ lastKey c qs := by
  rw [Slot.Collides, flowHashKey_run h]

/-- The counter cell after a run of a slot. -/
theorem flowCnt_run_eq (hkey : s.flowHashKey = 0) (hcnt : s.flowCnt = 0) (qs : List Pass) :
    ((slotMachine c).run s qs).flowCnt = .ofNat 32 (currentRun c qs).length := by
  induction qs using List.reverseRecOn with
  | nil => exact hcnt
  | append_singleton qs p ih =>
    have hstep : ((slotMachine c).run s (qs ++ [p])).flowCnt =
        ((slotMachine c).run s qs).count c p := by
      rw [Machine.run_append]
      rfl
    rw [hstep, Slot.count, currentRun_append_singleton]
    by_cases hcoll : ((slotMachine c).run s qs).Collides c p
    · rw [if_pos hcoll, if_neg ((collides_run_iff hkey qs p).mp hcoll)]
      rfl
    · have hsame : c.keyOf p = lastKey c qs := not_not.mp (mt (collides_run_iff hkey qs p).mpr hcoll)
      rw [if_neg hcoll, if_pos hsame, ih, List.length_append, List.length_singleton,
        BitVec.ofNat_add]
      rfl

end Slot

/-- The passes of a run on slot `i`. -/
def onSlot (c : Program) (i : BitVec 16) (ps : List Pass) : List Pass :=
  ps.filter (c.slotOf · = i)

/-- **Key and counter describe the current run.** After any run from zeroed registers, on every
slot some pass hashed to: the key is that of the last pass on the slot, and the counter is modulo
`2 ^ 32` the length of the longest suffix of passes on it that have that key. Every pass of the
run saw `is_collision = 1` exactly when its key differs from that of the pass before it on its
slot, and from 0 when it is the first one there. -/
theorem key_and_counter_run (c : Program) (ps : List Pass) :
    (∀ i last, (onSlot c i ps).getLast? = some last →
        ((switch c).run .zero ps).rFlowHashKey i = c.keyOf last ∧
          ((switch c).run .zero ps).rFlowCnt i =
            .ofNat 32 ((onSlot c i ps).rtakeWhile (c.keyOf · = c.keyOf last)).length) ∧
      ∀ pre p post, ps = pre ++ p :: post →
        ((runPass c ((switch c).run .zero pre) p).md.rstate.isCollision = 1 ↔
          c.keyOf p ≠ ((onSlot c (c.slotOf p) pre).getLast?.map c.keyOf).getD 0) := by
  have hslot (i : BitVec 16) (qs : List Pass) : ((switch c).run .zero qs).slot i =
      (slotMachine c).run (Registers.zero.slot i) (onSlot c i qs) :=
    (switch_slotWise c).view_run .zero qs i
  constructor
  · intro i last hlast
    have hkey : lastKey c (onSlot c i ps) = c.keyOf last := by rw [lastKey, hlast]; rfl
    have hrun : (onSlot c i ps).rtakeWhile (c.keyOf · = c.keyOf last) =
        currentRun c (onSlot c i ps) := by rw [currentRun, hkey]
    constructor
    · rw [← hkey, ← flowHashKey_run (s := Registers.zero.slot i) rfl, ← hslot]
      rfl
    · rw [hrun, ← flowCnt_run_eq (s := Registers.zero.slot i) rfl rfl, ← hslot]
      rfl
  · intro pre p post _
    rw [isCollision_runPass, hslot, collides_run_iff rfl]
    rfl

/-- Flow 0 opens its slot without a collision, flow 7 takes it: the run that counts is that of
flow 7. -/
theorem twoFlows_key_and_counter :
    ((switch (.sample tholdEvery)).run .zero [.fresh 0 1, .fresh 7 1, .recirc 7 1]).rFlowCnt 0 =
      .ofNat 32 2 :=
  ((key_and_counter_run (.sample tholdEvery) [.fresh 0 1, .fresh 7 1, .recirc 7 1]).1 0
    (.recirc 7 1) rfl).2

end Rids.Enforcer
