import Mathlib.Data.List.Basic

/-!
# A variable that outlives its turn of a loop

A loop over a list may set a variable that is declared outside of it, and reads it at the end of
every turn. `reads` lists what the turns read: a turn that does not set the variable reads what
an earlier turn has left, and without an earlier one there is nothing to read.

* `reads_eq_map` — where every turn sets the variable, each reads its own value.
* `readsOwn_iff` — over a set of items, what a turn reads is a function of its own item exactly
  when every item of the set sets the variable.
-/

namespace Rids.Lib.CarriedVariable

variable {α β : Type*} (set : α → Option β)

/-- What the turns of the loop read, if none of them finds the variable unset. -/
def reads : Option β → List α → Option (List β)
  | _, [] => some []
  | last, x :: xs => ((set x).or last).bind fun b => (reads (some b) xs).map (b :: ·)

/-- Where no turn is left nothing more is read. -/
@[simp] theorem reads_nil (last : Option β) : reads set last [] = some [] := rfl

/-- A turn that sets the variable is read by itself. -/
theorem reads_cons_of_set {x : α} {b : β} (h : set x = some b) (last : Option β) (xs : List α) :
    reads set last (x :: xs) = (reads set (some b) xs).map (b :: ·) := by
  rw [reads, h]
  rfl

/-- A turn that sets nothing reads the value of an earlier turn. -/
theorem reads_cons_of_stale {x : α} (h : set x = none) (last : Option β) (xs : List α) :
    reads set last (x :: xs) = last.bind fun b => (reads set (some b) xs).map (b :: ·) := by
  rw [reads, h, Option.none_or]

/-- Where every item sets the variable, what was left before the loop does not matter. -/
theorem reads_eq_map {f : α → β} {xs : List α} (h : ∀ x ∈ xs, set x = some (f x))
    (last : Option β) : reads set last xs = some (xs.map f) := by
  induction xs generalizing last with
  | nil => rfl
  | cons x xs ih =>
    have hrest := ih (fun y hy => h y (List.mem_cons_of_mem x hy)) (some (f x))
    rw [reads_cons_of_set set (h x List.mem_cons_self), hrest]
    rfl

/-- In every loop over items of the pool, each turn reads a value of its own item. -/
def ReadsOwn (pool : Set α) : Prop :=
  ∃ f : α → β, ∀ xs : List α, (∀ x ∈ xs, x ∈ pool) → reads set none xs = some (xs.map f)

/-- **When each turn reads its own value.** -/
theorem readsOwn_iff [Nonempty β] (pool : Set α) :
    ReadsOwn set pool ↔ ∀ x ∈ pool, (set x).isSome := by
  constructor
  · rintro ⟨f, hf⟩ x hx
    have hone : reads set none [x] = some [f x] := hf [x] (by simpa using hx)
    cases hset : set x with
    | some b => rfl
    | none => simp [reads_cons_of_stale set hset] at hone
  · intro hset
    obtain ⟨b₀⟩ := ‹Nonempty β›
    refine ⟨fun x => (set x).getD b₀, fun xs hxs => reads_eq_map set (fun x hx => ?_) none⟩
    obtain ⟨b, hb⟩ := Option.isSome_iff_exists.mp (hset x (hxs x hx))
    rw [hb, Option.getD_some]

end Rids.Lib.CarriedVariable
