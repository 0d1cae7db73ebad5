import Mathlib.Data.List.Basic
import Mathlib.Data.List.Count

/-!
# Progress by a rank

Of the steps of a run some are a party's own. If, while the party waits, its own steps lower a rank
and the steps of others do not raise it, it waits no longer than the rank says, whatever the order
of the steps.

* `exists_done` — a run with more own steps than the rank has a prefix after which the wait is over.
-/

namespace Rids.Lib.Ranking

variable {S I : Type*} {step : S → I → S} {Waits Done : S → Prop} {own : I → Bool}
  {allowed : I → Prop} {rank : S → ℕ}

/-- **The ranking rule.** Enough own steps end the waiting, whatever the other steps do between
them. -/
theorem exists_done
    (hown : ∀ s x, Waits s → allowed x → own x = true →
      Done (step s x) ∨ Waits (step s x) ∧ rank (step s x) < rank s)
    (hother : ∀ s x, Waits s → allowed x → own x = false →
      Done (step s x) ∨ Waits (step s x) ∧ rank (step s x) ≤ rank s)
    {s : S} (hs : Waits s) {xs : List I} (hxs : ∀ x ∈ xs, allowed x)
    (hcount : rank s < xs.countP own) : ∃ pre, pre <+: xs ∧ Done (pre.foldl step s) := by
  induction xs generalizing s with
  | nil => exact absurd hcount (Nat.not_lt_zero _)
  | cons x xs ih =>
    obtain ⟨hx, hrest⟩ := List.forall_mem_cons.mp hxs
    have later : Waits (step s x) → rank (step s x) < xs.countP own →
        ∃ pre, pre <+: x :: xs ∧ Done (pre.foldl step s) := by
      intro hwaits hlt
      obtain ⟨pre, hpre, hdone⟩ := ih hwaits hrest hlt
      exact ⟨x :: pre, List.cons_prefix_cons.mpr ⟨rfl, hpre⟩, hdone⟩
    have now : Done (step s x) → ∃ pre, pre <+: x :: xs ∧ Done (pre.foldl step s) := by
      intro hdone
      exact ⟨[x], List.cons_prefix_cons.mpr ⟨rfl, List.nil_prefix⟩, hdone⟩
    by_cases hmine : own x = true
    · rw [List.countP_cons_of_pos hmine] at hcount
      rcases hown s x hs hx hmine with hdone | ⟨hwaits, hlower⟩
      · exact now hdone
      · exact later hwaits (by omega)
    · rw [List.countP_cons_of_neg hmine] at hcount
      rcases hother s x hs hx (by simpa using hmine) with hdone | ⟨hwaits, hlower⟩
      · exact now hdone
      · exact later hwaits (Nat.lt_of_le_of_lt hlower hcount)

end Rids.Lib.Ranking
