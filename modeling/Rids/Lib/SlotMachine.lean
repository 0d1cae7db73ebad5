import Mathlib.Data.List.Basic

/-!
# Machines that touch one slot per step

A `Machine S I O` is a deterministic step function with an output. `SlotWise M key view N` says
that `M` is an array of independent copies of a small machine `N`: on input `x` it reads and
writes the slot `key x` alone, and it does there what `N` does.

* `SlotWise.view_run` — after any run of `M`, slot `i` is what `N` makes of the inputs whose key
  is `i`, in their order; the other inputs do not matter.
* `SlotWise.hist_filter` — the inputs on slot `i`, with the outputs they got, are those of that
  run of `N`.
* `SlotWise.view_run_filter`, `SlotWise.hist_filter_run` — so `M` itself, run on the inputs of
  slot `i` alone, does the same there.
* `SlotWise.step_comm`, `SlotWise.out_step_of_ne` — inputs of different slots commute.
-/

namespace Rids.Lib.SlotMachine

variable {S ι σ I O : Type*}

/-- A deterministic machine: the next state and the output of a step. -/
structure Machine (S I O : Type*) where
  step : S → I → S
  out : S → I → O

namespace Machine

variable (M : Machine S I O)

/-- The state after a list of inputs. -/
def run (s : S) (xs : List I) : S := xs.foldl M.step s

/-- Every input of a run, paired with the state it found. -/
def trace : S → List I → List (S × I)
  | _, [] => []
  | s, x :: xs => (s, x) :: trace (M.step s x) xs

/-- Every input of a run, paired with the output it got. -/
def hist (s : S) (xs : List I) : List (I × O) :=
  (M.trace s xs).map fun x => (x.2, M.out x.1 x.2)

/-- No input leaves the state as it is. -/
@[simp] theorem run_nil (s : S) : M.run s [] = s := rfl

/-- A run steps and runs on. -/
@[simp] theorem run_cons (s : S) (x : I) (xs : List I) :
    M.run s (x :: xs) = M.run (M.step s x) xs := rfl

/-- Two runs after each other. -/
theorem run_append (s : S) (xs ys : List I) : M.run s (xs ++ ys) = M.run (M.run s xs) ys := by
  simp [run]

/-- No input leaves no trace. -/
@[simp] theorem trace_nil (s : S) : M.trace s [] = [] := rfl

/-- The trace starts with the state and the first input. -/
@[simp] theorem trace_cons (s : S) (x : I) (xs : List I) :
    M.trace s (x :: xs) = (s, x) :: M.trace (M.step s x) xs := rfl

/-- The trace of two runs after each other. -/
theorem trace_append (s : S) (xs ys : List I) :
    M.trace s (xs ++ ys) = M.trace s xs ++ M.trace (M.run s xs) ys := by
  induction xs generalizing s with
  | nil => rfl
  | cons x xs ih => simp [ih]

/-- No input leaves no history. -/
@[simp] theorem hist_nil (s : S) : M.hist s [] = [] := rfl

/-- The history starts with the first input and its output. -/
@[simp] theorem hist_cons (s : S) (x : I) (xs : List I) :
    M.hist s (x :: xs) = (x, M.out s x) :: M.hist (M.step s x) xs := rfl

/-- The history of two runs after each other. -/
theorem hist_append (s : S) (xs ys : List I) :
    M.hist s (xs ++ ys) = M.hist s xs ++ M.hist (M.run s xs) ys := by
  rw [hist, trace_append, List.map_append]
  rfl

/-- An input of a history got its output in the state after the inputs before it. -/
theorem hist_eq_append {s : S} {xs : List I} {x : I} {o : O} {pre post : List (I × O)}
    (h : M.hist s xs = pre ++ (x, o) :: post) :
    ∃ ys zs, pre = M.hist s ys ∧ o = M.out (M.run s ys) x ∧ xs = ys ++ x :: zs := by
  induction xs generalizing s pre with
  | nil =>
    rw [hist_nil] at h
    exact absurd h.symm (List.append_ne_nil_of_right_ne_nil _ (List.cons_ne_nil _ _))
  | cons y xs ih =>
    rw [hist_cons] at h
    cases pre with
    | nil =>
      obtain ⟨hfirst, -⟩ := List.cons.inj h
      cases hfirst
      exact ⟨[], xs, rfl, rfl, rfl⟩
    | cons z pre =>
      obtain ⟨rfl, hrest⟩ := List.cons.inj h
      obtain ⟨ys, zs, rfl, rfl, rfl⟩ := ih hrest
      exact ⟨y :: ys, zs, rfl, rfl, rfl⟩

/-- An entry of the history is about an input of the run. -/
theorem fst_mem_of_mem_hist {s : S} {xs : List I} {x : I × O} (h : x ∈ M.hist s xs) :
    x.1 ∈ xs := by
  induction xs generalizing s with
  | nil => simp at h
  | cons y xs ih =>
    rw [hist_cons, List.mem_cons] at h
    rcases h with rfl | h
    · exact List.mem_cons_self
    · exact List.mem_cons_of_mem _ (ih h)

end Machine

/-- `M` is an array of copies of `N`: an input touches the slot its key names, and nothing
else of the state. -/
structure SlotWise (M : Machine S I O) (key : I → ι) (view : S → ι → σ) (N : Machine σ I O) :
    Prop where
  view_step_self : ∀ s x, view (M.step s x) (key x) = N.step (view s (key x)) x
  view_step_of_ne : ∀ s x i, i ≠ key x → view (M.step s x) i = view s i
  out_eq : ∀ s x, M.out s x = N.out (view s (key x)) x

namespace SlotWise

variable [DecidableEq ι] {M : Machine S I O} {key : I → ι} {view : S → ι → σ}
  {N : Machine σ I O}

/-- **Runs project to slots.** Slot `i` after a run is the slot machine run on the inputs whose
key is `i`. -/
theorem view_run (h : SlotWise M key view N) (s : S) (xs : List I) (i : ι) :
    view (M.run s xs) i = N.run (view s i) (xs.filter (key · = i)) := by
  induction xs generalizing s with
  | nil => rfl
  | cons x xs ih =>
    rw [Machine.run_cons, ih]
    by_cases hx : key x = i
    · subst hx
      simp [h.view_step_self]
    · simp [hx, h.view_step_of_ne s x i (Ne.symm hx)]

/-- **Histories project to slots.** What the inputs on slot `i` were answered is what the slot
machine answers when it runs on them alone. -/
theorem hist_filter (h : SlotWise M key view N) (s : S) (xs : List I) (i : ι) :
    (M.hist s xs).filter (key ·.1 = i) = N.hist (view s i) (xs.filter (key · = i)) := by
  induction xs generalizing s with
  | nil => rfl
  | cons x xs ih =>
    by_cases hx : key x = i
    · subst hx
      simp [ih, h.view_step_self, h.out_eq]
    · simp [hx, ih, h.view_step_of_ne s x i (Ne.symm hx)]

/-- What the inputs on slot `i` found there is what they find when the slot machine runs on them
alone. -/
theorem trace_filter (h : SlotWise M key view N) (s : S) (xs : List I) (i : ι) :
    ((M.trace s xs).filter (key ·.2 = i)).map (fun x => (view x.1 i, x.2)) =
      N.trace (view s i) (xs.filter (key · = i)) := by
  induction xs generalizing s with
  | nil => rfl
  | cons x xs ih =>
    by_cases hx : key x = i
    · subst hx
      simp [ih, h.view_step_self]
    · simp [hx, ih, h.view_step_of_ne s x i (Ne.symm hx)]

/-- Slot `i` after a run is slot `i` after the inputs of slot `i` alone. -/
theorem view_run_filter (h : SlotWise M key view N) (s : S) (xs : List I) (i : ι) :
    view (M.run s (xs.filter (key · = i))) i = view (M.run s xs) i := by
  rw [h.view_run, h.view_run, List.filter_filter]
  simp only [Bool.and_self]

/-- What the inputs of slot `i` were answered is what they are answered alone. -/
theorem hist_filter_run (h : SlotWise M key view N) (s : S) (xs : List I) (i : ι) :
    M.hist s (xs.filter (key · = i)) = (M.hist s xs).filter (key ·.1 = i) := by
  have hall : (M.hist s (xs.filter (key · = i))).filter (key ·.1 = i) =
      M.hist s (xs.filter (key · = i)) := by
    apply List.filter_eq_self.mpr
    intro x hx
    exact (List.mem_filter.mp (M.fst_mem_of_mem_hist hx)).2
  rw [← hall, h.hist_filter, h.hist_filter, List.filter_filter]
  simp only [Bool.and_self]

omit [DecidableEq ι] in
/-- An input gets the same answer before and after an input of another slot. -/
theorem out_step_of_ne (h : SlotWise M key view N) (s : S) {x y : I} (hne : key x ≠ key y) :
    M.out (M.step s x) y = M.out s y := by
  rw [h.out_eq, h.out_eq, h.view_step_of_ne s x (key y) hne.symm]

/-- Inputs of different slots commute, where the slots make up the state. -/
theorem step_comm (h : SlotWise M key view N) (hext : ∀ s t, view s = view t → s = t) (s : S)
    {x y : I} (hne : key x ≠ key y) : M.step (M.step s x) y = M.step (M.step s y) x := by
  have hself (s : S) {x y : I} (hne : key x ≠ key y) :
      view (M.step (M.step s x) y) (key x) = N.step (view s (key x)) x := by
    rw [h.view_step_of_ne _ y _ hne, h.view_step_self]
  apply hext
  funext i
  by_cases hx : i = key x
  · subst hx
    rw [hself s hne, h.view_step_self, h.view_step_of_ne s y _ hne]
  · by_cases hy : i = key y
    · subst hy
      rw [hself s (Ne.symm hne), h.view_step_self, h.view_step_of_ne s x _ (Ne.symm hne)]
    · rw [h.view_step_of_ne _ y i hy, h.view_step_of_ne _ x i hx, h.view_step_of_ne _ x i hx,
        h.view_step_of_ne _ y i hy]

end SlotWise

end Rids.Lib.SlotMachine
