import Mathlib.Data.List.Basic

/-!
# When a property holds along a whole run

A step function may keep a property at some steps and break it at others. If on good states a step
keeps `P` exactly when it is `Safe`, a run keeps `P` in every state it reaches exactly when all its
steps are safe.

* `forall_prefix_iff` — the equivalence for whole runs.
* `allSafe_count_iff` — when a size that some steps increase by one stays below a bound.
* `sinceLast`, `beforeLast` — a list of steps, cut at the last one of a kind.
-/

namespace Rids.Lib.Runs

variable {S I : Type*} {step : S → I → S} {Inv P : S → Prop} {Safe : S → I → Prop}

/-- Every step of the run from `s` is safe at the state it finds. -/
def AllSafe (step : S → I → S) (Safe : S → I → Prop) (s : S) (xs : List I) : Prop :=
  ∀ pre x post, xs = pre ++ x :: post → Safe (pre.foldl step s) x

/-- `P` holds in every state that the run from `s` reaches. -/
def Always (step : S → I → S) (P : S → Prop) (s : S) (xs : List I) : Prop :=
  ∀ pre, pre <+: xs → P (pre.foldl step s)

/-- A run is safe when its first step is and the rest is from there. -/
theorem allSafe_cons (s : S) (x : I) (xs : List I) :
    AllSafe step Safe s (x :: xs) ↔ Safe s x ∧ AllSafe step Safe (step s x) xs := by
  constructor
  · intro h
    refine ⟨h [] x xs rfl, ?_⟩
    rintro pre y post rfl
    exact h (x :: pre) y post rfl
  · rintro ⟨hx, hxs⟩ pre y post hsplit
    cases pre with
    | nil =>
      obtain ⟨rfl, -⟩ := List.cons.inj hsplit
      exact hx
    | cons z pre =>
      obtain ⟨rfl, hrest⟩ := List.cons.inj hsplit
      exact hxs pre y post hrest

/-- A predicate holds along a run when it holds now and from the next state on. -/
theorem always_cons (s : S) (x : I) (xs : List I) :
    Always step P s (x :: xs) ↔ P s ∧ Always step P (step s x) xs := by
  constructor
  · intro h
    refine ⟨h [] List.nil_prefix, ?_⟩
    intro pre hpre
    exact h (x :: pre) (List.cons_prefix_cons.mpr ⟨rfl, hpre⟩)
  · rintro ⟨hs, hxs⟩ pre hpre
    cases pre with
    | nil => exact hs
    | cons z pre =>
      obtain ⟨rfl, hrest⟩ := List.cons_prefix_cons.mp hpre
      exact hxs pre hrest

/-- **Runs.** If steps keep `Inv`, and on states with `Inv` and `P` a step leads to `P` exactly
when it is safe, then a run is always in `P` exactly when all its steps are safe. -/
theorem forall_prefix_iff (hinv : ∀ s x, Inv s → Inv (step s x))
    (hstep : ∀ s x, Inv s → P s → (P (step s x) ↔ Safe s x)) {s : S} (hs : Inv s) (h0 : P s)
    (xs : List I) : Always step P s xs ↔ AllSafe step Safe s xs := by
  induction xs generalizing s with
  | nil =>
    constructor
    · intro _ pre x post hsplit
      simp at hsplit
    · intro _ pre hpre
      rw [List.prefix_nil.mp hpre]
      exact h0
  | cons x xs ih =>
    rw [always_cons, allSafe_cons, and_iff_right h0, ← hstep s x hs h0]
    constructor
    · intro h
      have hx : P (step s x) := h [] List.nil_prefix
      exact ⟨hx, (ih (hinv s x hs) hx).mp h⟩
    · rintro ⟨hx, hsafe⟩
      exact (ih (hinv s x hs) hx).mpr hsafe

/-! ### A size that grows -/

/-- Two conditions on the steps are checked separately. -/
theorem allSafe_and {Safe' : S → I → Prop} {s : S} {xs : List I} :
    AllSafe step (fun s x => Safe s x ∧ Safe' s x) s xs ↔
      AllSafe step Safe s xs ∧ AllSafe step Safe' s xs := by
  constructor
  · intro h
    exact ⟨fun pre x post hsplit => (h pre x post hsplit).1,
      fun pre x post hsplit => (h pre x post hsplit).2⟩
  · rintro ⟨h, h'⟩ pre x post hsplit
    exact ⟨h pre x post hsplit, h' pre x post hsplit⟩

/-- If the steps with `p` add one to a size and the others nothing, the size is below `n` at all
of them exactly when there are no more than fit. -/
theorem allSafe_count_iff {size : S → ℕ} {p : I → Bool} {n : ℕ}
    (hsize : ∀ s x, size (step s x) = size s + (p x).toNat) {s : S} (h0 : size s ≤ n)
    (xs : List I) :
    AllSafe step (fun s x => p x → size s < n) s xs ↔ size s + xs.countP p ≤ n := by
  induction xs generalizing s with
  | nil =>
    rw [List.countP_nil, Nat.add_zero, iff_true_right h0]
    intro pre x post hsplit
    simp at hsplit
  | cons x xs ih =>
    rw [allSafe_cons]
    by_cases hx : p x
    · have hstep : size (step s x) = size s + 1 := by rw [hsize, hx, Bool.toNat_true]
      rw [List.countP_cons_of_pos hx]
      constructor
      · rintro ⟨hlt, hsafe⟩
        have hle := (ih (by rw [hstep]; exact hlt hx)).mp hsafe
        omega
      · intro hle
        exact ⟨fun _ => by omega, (ih (by omega)).mpr (by omega)⟩
    · have hstep : size (step s x) = size s := by
        rw [hsize, eq_false_of_ne_true hx, Bool.toNat_false, Nat.add_zero]
      rw [List.countP_cons_of_neg hx, ih (by omega), hstep]
      exact and_iff_right fun h => absurd h hx

/-! ### Since the last step of a kind -/

section Since

variable {X : Type*} (P Q : X → Prop) [DecidablePred P] [DecidablePred Q]

/-- The elements from the last with `P` on, all of them when there is none. -/
def sinceLast : List X → List X
  | [] => []
  | x :: h => if ∃ y ∈ h, P y then sinceLast h else x :: h

/-- The elements before the last with `P`. -/
def beforeLast : List X → List X
  | [] => []
  | x :: h => if ∃ y ∈ h, P y then x :: beforeLast h else []

variable {P Q}

/-- One more element either is the last of its kind or joins those since. -/
theorem sinceLast_append_singleton (h : List X) (x : X) :
    sinceLast P (h ++ [x]) = if P x then [x] else sinceLast P h ++ [x] := by
  induction h with
  | nil => simp [sinceLast]
  | cons y h ih =>
    by_cases hx : P x
    · simp [sinceLast, ih, hx]
    · by_cases hh : ∃ z ∈ h, P z
      · simp [sinceLast, ih, hx, hh]
      · simp [sinceLast, hx, hh]

/-- A list is cut in two. -/
theorem beforeLast_append_sinceLast (h : List X) : beforeLast P h ++ sinceLast P h = h := by
  induction h with
  | nil => rfl
  | cons x h ih =>
    unfold beforeLast sinceLast
    split_ifs
    · rw [List.cons_append, ih]
    · rfl

/-- The last element with `P` is not before the last with `Q`, when `Q` is a case of `P`. -/
theorem sinceLast_sinceLast (hcase : ∀ x, Q x → P x) (h : List X) :
    sinceLast P (sinceLast Q h) = sinceLast P h := by
  induction h with
  | nil => rfl
  | cons x h ih =>
    rw [sinceLast.eq_2 Q]
    split_ifs with hh
    · obtain ⟨y, hy, hq⟩ := hh
      rw [ih, sinceLast, if_pos ⟨y, hy, hcase y hq⟩]
    · rfl

/-- Where the last element with `P` is known. -/
theorem sinceLast_append_cons {x : X} (hx : P x) {h : List X} (hh : ∀ y ∈ h, ¬ P y)
    (pre : List X) : sinceLast P (pre ++ x :: h) = x :: h := by
  induction pre with
  | nil =>
    refine if_neg ?_
    rintro ⟨y, hy, hp⟩
    exact hh y hy hp
  | cons z pre ih =>
    rw [List.cons_append, sinceLast, if_pos ⟨x, by simp, hx⟩, ih]

end Since

end Rids.Lib.Runs
