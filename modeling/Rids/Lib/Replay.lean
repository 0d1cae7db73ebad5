import Mathlib.Data.List.Basic

/-!
# Replaying the beginning of a script

Commands that each set a cell, clear it or leave it alone can be replayed: what a run leaves in
the cell depends on the last command that set it and on whether it was cleared since.

* `Overwrites.foldl` — a run of such commands sets the cell, clears it or leaves it alone.
* `view_replay` — a script that is run after its own beginning leaves what it leaves alone.
-/

namespace Rids.Lib.Replay

section Cell

variable {C : Type*} {clear f g : C → C}

/-- A function that sets a cell to a fixed value, clears it, or leaves it as it is. -/
inductive Overwrites (clear f : C → C) : Prop
  | keeps (h : ∀ c, f c = c)
  | clears (h : ∀ c, f c = clear c)
  | sets (v : C) (h : ∀ c, f c = v)

/-- Two functions that overwrite what `clear` clears do so together. -/
theorem Overwrites.comp (hclear : ∀ c, clear (clear c) = clear c) (hf : Overwrites clear f)
    (hg : Overwrites clear g) : Overwrites clear fun c => g (f c) := by
  cases hg with
  | keeps hg =>
    cases hf with
    | keeps hf => exact .keeps fun c => (hg (f c)).trans (hf c)
    | clears hf => exact .clears fun c => (hg (f c)).trans (hf c)
    | sets v hf => exact .sets v fun c => (hg (f c)).trans (hf c)
  | clears hg =>
    cases hf with
    | keeps hf => exact .clears fun c => (hg (f c)).trans (by rw [hf c])
    | clears hf => exact .clears fun c => (hg (f c)).trans (by rw [hf c, hclear])
    | sets v hf => exact .sets (clear v) fun c => (hg (f c)).trans (by rw [hf c])
  | sets v hg => exact .sets v fun c => hg (f c)

/-- Doing it twice does it once. -/
theorem Overwrites.idem (hclear : ∀ c, clear (clear c) = clear c) (hf : Overwrites clear f)
    (c : C) : f (f c) = f c := by
  cases hf with
  | keeps hf => rw [hf (f c)]
  | clears hf => rw [hf c, hf (clear c), hclear]
  | sets v hf => rw [hf (f c), hf c]

variable {X : Type*} {act : C → X → C} {xs : List X}

/-- A run of commands. -/
theorem Overwrites.foldl (hclear : ∀ c, clear (clear c) = clear c)
    (hact : ∀ x ∈ xs, Overwrites clear fun c => act c x) :
    Overwrites clear fun c => xs.foldl act c := by
  induction xs with
  | nil => exact .keeps fun _ => rfl
  | cons x xs ih =>
    obtain ⟨hx, hxs⟩ := List.forall_mem_cons.mp hact
    exact hx.comp hclear (ih hxs)

end Cell

section View

variable {T C X : Type*} {view : T → C} {step : T → X → T} {act : C → X → C} {clear : C → C}

/-- The cell after a run, when each command acts on the cell alone. -/
theorem view_foldl {xs : List X} (hview : ∀ x ∈ xs, ∀ t, view (step t x) = act (view t) x)
    (t : T) : view (xs.foldl step t) = xs.foldl act (view t) := by
  induction xs generalizing t with
  | nil => rfl
  | cons x xs ih =>
    obtain ⟨hx, hxs⟩ := List.forall_mem_cons.mp hview
    rw [List.foldl_cons, List.foldl_cons, ih hxs, hx]

/-- **Replay.** The script `xs ++ ys` leaves the same in the cell after a run of `xs` as without
it. -/
theorem view_replay (hclear : ∀ c, clear (clear c) = clear c) {xs ys : List X}
    (hview : ∀ x ∈ xs ++ ys, ∀ t, view (step t x) = act (view t) x)
    (hact : ∀ x ∈ xs, Overwrites clear fun c => act c x) (t : T) :
    view ((xs ++ ys).foldl step (xs.foldl step t)) = view ((xs ++ ys).foldl step t) := by
  have hxs : ∀ x ∈ xs, ∀ t, view (step t x) = act (view t) x := by
    intro x hx
    exact hview x (List.mem_append_left _ hx)
  have htwice := (Overwrites.foldl hclear hact).idem hclear (view t)
  rw [view_foldl hview, view_foldl hview, view_foldl hxs, List.foldl_append, List.foldl_append,
    htwice]

end View

end Rids.Lib.Replay
