import Rids.Enforcer.Counting

/-!
# The decision of a flow and the previous owner of its slot

Two runs of one program start from different register states; in both of them a flow `F` takes
its slot, and from there on the two runs see the same passes on that slot. The key, the counter
and the class of every pass are then equal. The cell of `r_decision` is not: `t_update_decision`
is applied in class 2 only, so the branch of its ALU that would clear the cell (`overflow = 1`)
never runs, and a recirculated pass of a lower class reads the cell as it stands.

* `decision_ne_zero_iff_written` — from zeroed registers, a cell of `r_decision` is non-zero
  exactly when some pass on its slot wrote it.
* `recircDecisions_eq_iff` — the law of one slot: the decisions of two runs agree exactly when
  the two cells agree in their low byte or the first recirculated pass overwrites them.
* `isolated_iff` — the decisions of `F` are independent of the previous owners exactly when no
  decision was left in the slot or the first recirculated pass of `F` has class 2.
-/

namespace Rids.Enforcer

open Rids.Lib.SlotMachine

/-! ### Decisions in a history -/

/-- The passes on slot `i` of a run, with what they left behind. -/
def slotHist (c : Program) (r : Registers) (i : BitVec 16) (xs : List Pass) :
    List (Pass × PassOut) :=
  ((switch c).hist r xs).filter (c.slotOf ·.1 = i)

/-- The `fr.decision` that `dc_l2_forward` was applied with. -/
def PassOut.forwardDecision (o : PassOut) : Option (BitVec 8) :=
  o.applied.findSome? fun
    | .dcL2Forward d => some d
    | _ => none

/-- The decisions the recirculated passes of a history were forwarded with, in order. -/
def recircDecisions (h : List (Pass × PassOut)) : List (Option (BitVec 8)) :=
  (h.filter (·.1.Recirc)).map (·.2.forwardDecision)

/-- Some pass of the history takes the stored decision before any pass of it wrote one. -/
def TakesUnwritten (h : List (Pass × PassOut)) : Prop :=
  ∃ pre x post, h = pre ++ x :: post ∧ .tTakeDecision ∈ x.2.applied ∧
    ∀ y ∈ pre, .tUpdateDecision ∉ y.2.applied

/-- The first recirculated pass, if there is one, is counted to a number of class 2 when the
passes are counted from 1. -/
def FirstRecircWrites (c : Program) (ps : List Pass) : Prop :=
  ∀ n, ps.findIdx? (·.Recirc) = some n → c.tholdClass (.ofNat 20 (n + 1)) = 2

/-! ### The law of one slot -/

section Slot

variable {c : Program} {F : FlowKeys} {s s' : Slot} {n : ℕ} {p : Pass} {ps : List Pass}

/-- A fresh pass leaves the decision as it is. -/
theorem decision_step_of_fresh (hp : ¬ p.Recirc) : (s.step c p).decision = s.decision := by
  simp [Slot.step, Slot.Decides, hp]

/-- A pass whose class does not decide leaves the decision as it is. -/
theorem decision_step_of_class (h : ¬ 1#2 < s.overflow c p) :
    (s.step c p).decision = s.decision := by
  simp [Slot.step, Slot.Decides, h]

/-- A pass that decides stores 1. -/
theorem decision_step_of_decides (h : s.Decides c p) : (s.step c p).decision = 1 := by
  simp [Slot.step, h]

/-- A pass that decides forwards 1. -/
theorem forwardDecision_out_of_decides (h : s.Decides c p) :
    (s.out c p).forwardDecision = some 1 := by
  simp [Slot.out, PassOut.forwardDecision, h.1, h.2]

/-- A recirculated pass whose class does not decide forwards the stored decision. -/
theorem forwardDecision_out_of_class (hp : p.Recirc) (h : ¬ 1#2 < s.overflow c p) :
    (s.out c p).forwardDecision = some (s.decision.setWidth 8) := by
  simp [Slot.out, PassOut.forwardDecision, hp, h]

/-- Only recirculated passes forward a decision. -/
theorem recircDecisions_hist_cons (s : Slot) (p : Pass) (ps : List Pass) :
    recircDecisions ((slotMachine c).hist s (p :: ps)) =
      (if p.Recirc then [(s.out c p).forwardDecision] else []) ++
        recircDecisions ((slotMachine c).hist (s.step c p) ps) := by
  by_cases hp : p.Recirc <;> simp [recircDecisions, slotMachine, hp]

/-- After equal cells the decisions of two slots of `F` are equal. -/
theorem recircDecisions_eq_of_decision_eq (hs : s.Counts c F n) (hs' : s'.Counts c F n)
    (hd : s.decision.setWidth 8 = s'.decision.setWidth 8) (hps : ∀ p ∈ ps, p.flow = F) :
    recircDecisions ((slotMachine c).hist s ps) = recircDecisions ((slotMachine c).hist s' ps) := by
  induction ps generalizing s s' n with
  | nil => rfl
  | cons p ps ih =>
    rw [List.forall_mem_cons] at hps
    have hkey : c.keyOf p = c.flowHashKey F := congrArg c.flowHashKey hps.1
    have hov : s.overflow c p = s'.overflow c p := by rw [hs.overflow hkey, hs'.overflow hkey]
    rw [recircDecisions_hist_cons, recircDecisions_hist_cons]
    by_cases hp : p.Recirc
    · by_cases h : 1#2 < s.overflow c p
      · have hdec : s.Decides c p := ⟨hp, h⟩
        have hdec' : s'.Decides c p := ⟨hp, hov ▸ h⟩
        rw [forwardDecision_out_of_decides hdec, forwardDecision_out_of_decides hdec',
          ih (hs.step hkey) (hs'.step hkey) _ hps.2]
        rw [decision_step_of_decides hdec, decision_step_of_decides hdec']
      · have h' : ¬ 1#2 < s'.overflow c p := hov ▸ h
        rw [forwardDecision_out_of_class hp h, forwardDecision_out_of_class hp h', hd,
          ih (hs.step hkey) (hs'.step hkey) _ hps.2]
        rw [decision_step_of_class h, decision_step_of_class h', hd]
    · rw [if_neg hp, if_neg hp, ih (hs.step hkey) (hs'.step hkey) _ hps.2]
      rw [decision_step_of_fresh hp, decision_step_of_fresh hp, hd]

/-- `FirstRecircWrites` counted from `n + 1` on. -/
def FirstRecircWritesFrom (c : Program) (n : ℕ) (ps : List Pass) : Prop :=
  ∀ m, ps.findIdx? (·.Recirc) = some m → c.tholdClass (.ofNat 20 (n + m + 1)) = 2

/-- At a recirculated pass the class of its count says whether it writes. -/
theorem firstRecircWritesFrom_cons_of_recirc (hp : p.Recirc) :
    FirstRecircWritesFrom c n (p :: ps) ↔ c.tholdClass (.ofNat 20 (n + 1)) = 2 := by
  simp [FirstRecircWritesFrom, List.findIdx?_cons, hp]

/-- A fresh pass counts and decides nothing. -/
theorem firstRecircWritesFrom_cons_of_fresh (hp : ¬ p.Recirc) :
    FirstRecircWritesFrom c n (p :: ps) ↔ FirstRecircWritesFrom c (n + 1) ps := by
  simp only [FirstRecircWritesFrom, List.findIdx?_cons, hp, decide_false, Bool.false_eq_true,
    if_false, Option.map_eq_some_iff, forall_exists_index, and_imp, forall_apply_eq_imp_iff₂]
  refine forall₂_congr fun m _ => ?_
  rw [show n + (m + 1) + 1 = n + 1 + m + 1 by omega]

/-- **The decisions of a slot.** Two slots that count `F` alike forward it alike exactly when
their cells agree in the low byte or are overwritten before they are read. -/
theorem recircDecisions_eq_iff (hs : s.Counts c F n) (hs' : s'.Counts c F n)
    (hps : ∀ p ∈ ps, p.flow = F) :
    recircDecisions ((slotMachine c).hist s ps) = recircDecisions ((slotMachine c).hist s' ps) ↔
      s.decision.setWidth 8 = s'.decision.setWidth 8 ∨ FirstRecircWritesFrom c n ps := by
  induction ps generalizing s s' n with
  | nil => simp [recircDecisions, FirstRecircWritesFrom]
  | cons p ps ih =>
    by_cases hd : s.decision.setWidth 8 = s'.decision.setWidth 8
    · simp only [hd, true_or, iff_true]
      exact recircDecisions_eq_of_decision_eq hs hs' hd hps
    have hps' := List.forall_mem_cons.mp hps
    have hkey : c.keyOf p = c.flowHashKey F := congrArg c.flowHashKey hps'.1
    have hov : s.overflow c p = s'.overflow c p := by rw [hs.overflow hkey, hs'.overflow hkey]
    simp only [hd, false_or]
    rw [recircDecisions_hist_cons, recircDecisions_hist_cons]
    by_cases hp : p.Recirc
    · rw [firstRecircWritesFrom_cons_of_recirc hp, ← one_lt_tholdClass_iff, ← hs.overflow hkey]
      by_cases h : 1#2 < s.overflow c p
      · have hdec : s.Decides c p := ⟨hp, h⟩
        have hdec' : s'.Decides c p := ⟨hp, hov ▸ h⟩
        simp only [h, iff_true]
        rw [forwardDecision_out_of_decides hdec, forwardDecision_out_of_decides hdec',
          recircDecisions_eq_of_decision_eq (hs.step hkey) (hs'.step hkey) _ hps'.2]
        rw [decision_step_of_decides hdec, decision_step_of_decides hdec']
      · have h' : ¬ 1#2 < s'.overflow c p := hov ▸ h
        simp only [h, iff_false]
        rw [forwardDecision_out_of_class hp h, forwardDecision_out_of_class hp h', if_pos hp,
          if_pos hp]
        intro heq
        exact hd (Option.some.inj (List.cons.inj heq).1)
    · rw [firstRecircWritesFrom_cons_of_fresh hp, if_neg hp, if_neg hp, List.nil_append,
        List.nil_append, ih (hs.step hkey) (hs'.step hkey) hps'.2]
      rw [decision_step_of_fresh hp, decision_step_of_fresh hp]
      simp only [hd, false_or]

/-- The decision is taken unwritten by the first pass or, where that does not write, later. -/
theorem takesUnwritten_cons (x : Pass × PassOut) (h : List (Pass × PassOut)) :
    TakesUnwritten (x :: h) ↔
      .tTakeDecision ∈ x.2.applied ∨ .tUpdateDecision ∉ x.2.applied ∧ TakesUnwritten h := by
  constructor
  · rintro ⟨pre, y, post, hsplit, htake, hpre⟩
    cases pre with
    | nil =>
      cases hsplit
      exact .inl htake
    | cons z pre =>
      obtain ⟨rfl, rfl⟩ := List.cons.inj hsplit
      rw [List.forall_mem_cons] at hpre
      exact .inr ⟨hpre.1, pre, y, post, rfl, htake, hpre.2⟩
  · rintro (htake | ⟨hx, pre, y, post, rfl, htake, hpre⟩)
    · exact ⟨[], x, h, rfl, htake, by simp⟩
    · exact ⟨x :: pre, y, post, rfl, htake, List.forall_mem_cons.mpr ⟨hx, hpre⟩⟩

/-- A flow takes an unwritten decision unless its first recirculated pass writes one. -/
theorem takesUnwritten_hist_iff (hs : s.Counts c F n) (hps : ∀ p ∈ ps, p.flow = F) :
    TakesUnwritten ((slotMachine c).hist s ps) ↔ ¬ FirstRecircWritesFrom c n ps := by
  induction ps generalizing s n with
  | nil => simp [TakesUnwritten, FirstRecircWritesFrom]
  | cons p ps ih =>
    rw [List.forall_mem_cons] at hps
    have hkey : c.keyOf p = c.flowHashKey F := congrArg c.flowHashKey hps.1
    rw [Machine.hist_cons, takesUnwritten_cons]
    simp only [slotMachine, tTakeDecision_mem_out_iff, tUpdateDecision_mem_out_iff, Slot.Decides]
    by_cases hp : p.Recirc
    · rw [firstRecircWritesFrom_cons_of_recirc hp, ← one_lt_tholdClass_iff, ← hs.overflow hkey]
      simp only [hp, true_and]
      tauto
    · rw [firstRecircWritesFrom_cons_of_fresh hp, ← ih (hs.step hkey) hps.2]
      simp [hp, slotMachine]

end Slot

/-! ### Reachable cells -/

/-- From zeroed registers a decision cell is non-zero exactly when a pass on its slot wrote it. -/
theorem decision_ne_zero_iff_written (c : Program) (ps : List Pass) (i : BitVec 16) :
    ((switch c).run .zero ps).rDecision i ≠ 0 ↔
      ∃ x ∈ slotHist c .zero i ps, .tUpdateDecision ∈ x.2.applied := by
  have key (s : Slot) (qs : List Pass) (hs : s.decision = 0 ∨ s.decision = 1) :
      ((slotMachine c).run s qs).decision ≠ 0 ↔
        s.decision ≠ 0 ∨ ∃ x ∈ (slotMachine c).hist s qs, .tUpdateDecision ∈ x.2.applied := by
    induction qs generalizing s with
    | nil => simp
    | cons q qs ih =>
      have hstep := decision_step c s q
      have hnext : (s.step c q).decision = 0 ∨ (s.step c q).decision = 1 := by
        rw [hstep]
        split_ifs
        · exact .inr rfl
        · exact hs
      rw [Machine.run_cons, Machine.hist_cons, List.exists_mem_cons_iff]
      refine (ih _ hnext).trans ?_
      simp only [slotMachine] at hstep ⊢
      rw [hstep]
      split_ifs with hw
      · simp [hw]
      · simp [hw]
  rw [slotHist, (switch_slotWise c).hist_filter]
  have hrun := (switch_slotWise c).view_run .zero ps i
  have hdec : ((switch c).run .zero ps).rDecision i =
      ((slotMachine c).run (Registers.zero.slot i) (ps.filter (c.slotOf · = i))).decision := by
    rw [← hrun]
    rfl
  have hzero : (Registers.zero.slot i).decision = 0 := rfl
  rw [hdec, key _ _ (.inl hzero), hzero]
  simp

/-! ### Isolation -/

/-- From `r` on, `F` takes its slot and every pass of `xs` on it is a pass of `F`. -/
structure TakesSlot (c : Program) (F : FlowKeys) (r : Registers) (xs : List Pass) : Prop where
  collides : c.flowHashKey F ≠ r.rFlowHashKey (c.flowHashIndex F)
  only : ∀ p ∈ xs, c.slotOf p = c.flowHashIndex F → p.flow = F

/-- A pass on slot `i` is forwarded with the decision an earlier owner left there. -/
def ForwardsLeftover (c : Program) (r : Registers) (i : BitVec 16) (xs : List Pass) : Prop :=
  r.rDecision i ≠ 0 ∧ TakesUnwritten (slotHist c r i xs)

/-- Two runs forward the recirculated passes on slot `i` with the same decisions, and neither
uses one that an earlier owner left. -/
def Isolated (c : Program) (i : BitVec 16) (r r' : Registers) (xs xs' : List Pass) : Prop :=
  recircDecisions (slotHist c r i xs) = recircDecisions (slotHist c r' i xs') ∧
    ¬ ForwardsLeftover c r i xs ∧ ¬ ForwardsLeftover c r' i xs'

/-- A flow that takes its slot is counted from 0. -/
theorem TakesSlot.counts {c : Program} {F : FlowKeys} {r : Registers} {xs : List Pass}
    (h : TakesSlot c F r xs) : (r.slot (c.flowHashIndex F)).Counts c F 0 :=
  .of_collides h.collides

/-- While a flow holds its slot all passes on it are its own. -/
theorem TakesSlot.flow {c : Program} {F : FlowKeys} {r : Registers} {xs : List Pass}
    (h : TakesSlot c F r xs) : ∀ p ∈ xs.filter (c.slotOf · = c.flowHashIndex F), p.flow = F := by
  intro p hp
  rw [List.mem_filter, decide_eq_true_eq] at hp
  exact h.only p hp.1 hp.2

/-- **Flow isolation of decisions, as far as it goes.** Let `F` take its slot at two register
states and let the same passes then reach that slot. The decisions of `F` are the same in both
runs, and none of them was left by an earlier owner, exactly when no earlier owner left one or
the first recirculated pass of `F` is counted to a number of class 2. -/
theorem isolated_iff {c : Program} {F : FlowKeys} {r r' : Registers} {xs xs' : List Pass}
    (h : TakesSlot c F r xs) (h' : TakesSlot c F r' xs')
    (hsame : xs.filter (c.slotOf · = c.flowHashIndex F) =
      xs'.filter (c.slotOf · = c.flowHashIndex F)) :
    Isolated c (c.flowHashIndex F) r r' xs xs' ↔
      r.rDecision (c.flowHashIndex F) = 0 ∧ r'.rDecision (c.flowHashIndex F) = 0 ∨
        FirstRecircWrites c (xs.filter (c.slotOf · = c.flowHashIndex F)) := by
  have hfirst : FirstRecircWrites c (xs.filter (c.slotOf · = c.flowHashIndex F)) ↔
      FirstRecircWritesFrom c 0 (xs.filter (c.slotOf · = c.flowHashIndex F)) := by
    simp [FirstRecircWrites, FirstRecircWritesFrom]
  have hdec := recircDecisions_eq_iff h.counts h'.counts h.flow
  have htake := takesUnwritten_hist_iff h.counts h.flow
  have htake' := takesUnwritten_hist_iff h'.counts h'.flow
  rw [← hsame] at htake'
  unfold Isolated ForwardsLeftover slotHist
  rw [(switch_slotWise c).hist_filter, (switch_slotWise c).hist_filter, ← hsame, hdec, htake,
    htake', hfirst]
  have hcell : (r.slot (c.flowHashIndex F)).decision = r.rDecision (c.flowHashIndex F) := rfl
  have hcell' : (r'.slot (c.flowHashIndex F)).decision = r'.rDecision (c.flowHashIndex F) := rfl
  rw [hcell, hcell']
  constructor
  · rintro ⟨-, hleft, hleft'⟩
    by_cases hw : FirstRecircWritesFrom c 0 (xs.filter (c.slotOf · = c.flowHashIndex F))
    · exact .inr hw
    · exact .inl ⟨by_contra fun h0 => hleft ⟨h0, hw⟩, by_contra fun h0 => hleft' ⟨h0, hw⟩⟩
  · rintro (⟨h0, h0'⟩ | hw)
    · exact ⟨.inl (by rw [h0, h0']), fun hl => hl.1 h0, fun hl => hl.1 h0'⟩
    · exact ⟨.inr hw, fun hl => hl.2 hw, fun hl => hl.2 hw⟩

/-- The slot after another flow has had both its passes there: its decision is stored. -/
def afterDecision : Registers :=
  (switch (.sample (tholdAt 2))).run .zero [.fresh 9 1, .recirc 9 1]

/-- The slot after the fresh pass of that flow alone: no decision is stored. -/
def beforeDecision : Registers := (switch (.sample (tholdAt 2))).run .zero [.fresh 9 1]

/-- Two packets of a flow arrive, then the first comes back. -/
def lateRecirc : List Pass := [.fresh 7 1, .fresh 7 2, .recirc 7 1]

/-- The run of the failing input, under the same equivalence. -/
theorem lateRecirc_isolated_iff :
    Isolated (.sample (tholdAt 2)) 0 afterDecision beforeDecision lateRecirc lateRecirc ↔
      afterDecision.rDecision 0 = 0 ∧ beforeDecision.rDecision 0 = 0 ∨
        FirstRecircWrites (.sample (tholdAt 2))
          (lateRecirc.filter ((Program.sample (tholdAt 2)).slotOf · = 0)) :=
  isolated_iff (F := ⟨7, 0, 6⟩) ⟨by decide, by decide⟩ ⟨by decide, by decide⟩ rfl

/-- The recirculated pass is forwarded with 1 after the one history and with 0 after the other. -/
theorem lateRecirc_not_isolated :
    Reachable (.sample (tholdAt 2)) afterDecision ∧
      Reachable (.sample (tholdAt 2)) beforeDecision ∧
      TakesSlot (.sample (tholdAt 2)) ⟨7, 0, 6⟩ afterDecision lateRecirc ∧
      TakesSlot (.sample (tholdAt 2)) ⟨7, 0, 6⟩ beforeDecision lateRecirc ∧
      recircDecisions (slotHist (.sample (tholdAt 2)) afterDecision 0 lateRecirc) =
        [some 1] ∧
      recircDecisions (slotHist (.sample (tholdAt 2)) beforeDecision 0 lateRecirc) =
        [some 0] ∧
      ForwardsLeftover (.sample (tholdAt 2)) afterDecision 0 lateRecirc := by
  refine ⟨⟨_, rfl⟩, ⟨_, rfl⟩, ⟨by decide, by decide⟩, ⟨by decide, by decide⟩, by decide +kernel,
    by decide +kernel, by decide +kernel, ?_⟩
  have hcounts : (afterDecision.slot 0).Counts (.sample (tholdAt 2)) ⟨7, 0, 6⟩ 0 :=
    .of_collides (by decide)
  have htake : TakesUnwritten
      ((slotMachine (.sample (tholdAt 2))).hist (afterDecision.slot 0) lateRecirc) :=
    (takesUnwritten_hist_iff hcounts (by decide)).mpr fun h => absurd (h 2 rfl) (by decide)
  rw [slotHist, (switch_slotWise _).hist_filter]
  exact htake

end Rids.Enforcer
