import Rids.Enforcer.Isolation

/-!
# The verdicts of the switch

A packet leaves the switch on its recirculated pass, with the decision that `dc_l2_forward` is
applied with. Over a whole run from zeroed registers this decision does not depend on the weights or
on the recurrent state of any flow.

* `rDecision_run` — a cell of `r_decision` holds 1 from the first recirculated pass of class 2 on.
* `verdict_spec` — a recirculated pass is forwarded with 1 when its slot has had such a pass, itself
  included, and with 0 otherwise; a fresh pass is not forwarded. No pass is forwarded with 2.
-/

namespace Rids.Enforcer

open Rids.Lib.SlotMachine

/-- A recirculated pass of class 2 on slot `i` is in the history. -/
def decided (c : Program) (i : BitVec 16) (h : List (Pass × PassOut)) : Bool :=
  h.any fun x => c.slotOf x.1 = i && (x.1.Recirc && x.2.md.rstate.overflow = 2)

variable {c : Program} {s : Slot} {p : Pass}

/-- A decision of two histories is a decision of one of them. -/
theorem decided_append (i : BitVec 16) (h h' : List (Pass × PassOut)) :
    decided c i (h ++ h') = (decided c i h || decided c i h') := List.any_append

/-- A pass decides exactly when it is recirculated and has class 2. -/
theorem decides_iff : s.Decides c p ↔ p.Recirc ∧ (s.out c p).md.rstate.overflow = 2 := by
  rw [rstate_out]
  exact and_congr_right fun _ => one_lt_tholdClass_iff c _

/-- A single pass decides the slot it is on. -/
theorem decided_singleton (i : BitVec 16) :
    decided c i [(p, s.out c p)] = true ↔ c.slotOf p = i ∧ s.Decides c p := by
  simp [decided, decides_iff]

/-- The verdict on a pass that finds the slot `s`. -/
theorem forwardDecision_out : (s.out c p).forwardDecision =
    if p.Recirc then some (if s.Decides c p then 1 else s.decision.setWidth 8) else none := by
  split_ifs with hp hd
  · exact forwardDecision_out_of_decides hd
  · apply forwardDecision_out_of_class hp
    intro h
    exact hd ⟨hp, h⟩
  · unfold Slot.out PassOut.forwardDecision
    split_ifs <;> rfl

/-- **A run.** The cell holds 1 when its slot has had a recirculated pass of class 2, else 0. -/
theorem rDecision_run (c : Program) (ps : List Pass) (i : BitVec 16) :
    ((switch c).run .zero ps).rDecision i =
      if decided c i ((switch c).hist .zero ps) then 1 else 0 := by
  induction ps using List.reverseRecOn with
  | nil => rfl
  | append_singleton ps p ih =>
    rw [Machine.run_append, Machine.hist_append, decided_append]
    set r := (switch c).run .zero ps
    have hout : (switch c).hist r [p] = [(p, (r.slot (c.slotOf p)).out c p)] := by
      rw [Machine.hist_cons, (switch_slotWise c).out_eq]
      rfl
    have hone := decided_singleton (c := c) (s := r.slot (c.slotOf p)) (p := p) i
    rw [hout]
    by_cases hi : c.slotOf p = i
    · subst hi
      have hself := (switch_slotWise c).view_step_self r p
      have hcell : ((switch c).run r [p]).rDecision (c.slotOf p) =
          ((r.slot (c.slotOf p)).step c p).decision := congrArg Slot.decision hself
      rw [hcell]
      by_cases hd : (r.slot (c.slotOf p)).Decides c p
      · rw [decision_step_of_decides hd, hone.mpr ⟨rfl, hd⟩, Bool.or_true, if_pos rfl]
      · have hnot : decided c (c.slotOf p) [(p, (r.slot (c.slotOf p)).out c p)] = false := by
          rw [Bool.eq_false_iff]
          intro h
          exact hd (hone.mp h).2
        have hkeep : ((r.slot (c.slotOf p)).step c p).decision = r.rDecision (c.slotOf p) := by
          rw [Slot.step, if_neg hd]
          rfl
        rw [hkeep, ih, hnot, Bool.or_false]
    · have hne := (switch_slotWise c).view_step_of_ne r p i (Ne.symm hi)
      have hcell : ((switch c).run r [p]).rDecision i = r.rDecision i :=
        congrArg Slot.decision hne
      have hnot : decided c i [(p, (r.slot (c.slotOf p)).out c p)] = false := by
        rw [Bool.eq_false_iff]
        intro h
        exact hi (hone.mp h).1
      rw [hcell, ih, hnot, Bool.or_false]

/-- In a history of passes, the verdict on a recirculated pass tells whether its slot has been
decided by then, and there is none on a fresh pass. -/
def Verdicts (c : Program) (h : List (Pass × PassOut)) : Prop :=
  ∀ pre x post, h = pre ++ x :: post → x.2.forwardDecision =
    if x.1.Recirc then some (if decided c (c.slotOf x.1) (pre ++ [x]) then 1 else 0) else none

/-- **The verdicts.** In every run from zeroed registers a recirculated pass is forwarded with
decision 1 if its slot has had a recirculated pass of class 2, itself included, and with 0 if not;
a fresh pass is not forwarded. -/
theorem verdict_spec (c : Program) (ps : List Pass) : Verdicts c ((switch c).hist .zero ps) := by
  rintro pre ⟨p, o⟩ post hsplit
  obtain ⟨qs, -, rfl, rfl, -⟩ := (switch c).hist_eq_append hsplit
  set r := (switch c).run .zero qs with hr
  have hout : (switch c).out r p = (r.slot (c.slotOf p)).out c p := (switch_slotWise c).out_eq r p
  have hcell : (r.slot (c.slotOf p)).decision = if decided c (c.slotOf p)
      ((switch c).hist .zero qs) then 1 else 0 := rDecision_run c qs (c.slotOf p)
  rw [hout, forwardDecision_out, decided_append, hcell]
  by_cases hp : p.Recirc
  · rw [if_pos hp, if_pos hp]
    by_cases hd : (r.slot (c.slotOf p)).Decides c p
    · rw [if_pos hd, (decided_singleton _).mpr ⟨rfl, hd⟩, Bool.or_true, if_pos rfl]
    · have hnot : decided c (c.slotOf p) [(p, (r.slot (c.slotOf p)).out c p)] = false := by
        rw [Bool.eq_false_iff]
        intro h
        exact hd ((decided_singleton _).mp h).2
      rw [if_neg hd, hnot, Bool.or_false]
      split_ifs <;> rfl
  · rw [if_neg hp, if_neg hp]

end Rids.Enforcer
