import Mathlib.Data.Nat.Notation
import Mathlib.Logic.Basic

/-!
# Computations that can fail

A computation of type `Except ε α` `Raises` an error of a kind when it ends in one. A computation
whose value carries the number of items it took `Takes n` items when it returns with that number.

* `raises_bind` — a sequence raises the error in its first part, or in the second after a value of
  the first.
* `returns_bind` — a sequence returns when both of its parts do.
* `takes_bind` — a sequence takes what its last part takes.
-/

namespace Rids.Lib.Fallible

variable {ε α β : Type} {bad : ε → Prop}

/-- The computation ends in an error of the kind. -/
def Raises (bad : ε → Prop) (x : Except ε α) : Prop := ∃ e, bad e ∧ x = .error e

/-- The computation returns, and its value carries the number `n`. -/
def Takes (n : ℕ) (x : Except ε (α × ℕ)) : Prop := ∃ a, x = .ok (a, n)

/-- A result raises nothing. -/
theorem raises_ok (a : α) : ¬ Raises bad (.ok a : Except ε α) := by
  rintro ⟨e, -, h⟩
  cases h

/-- An error raises itself. -/
theorem raises_error {e : ε} : Raises bad (.error e : Except ε α) ↔ bad e := by
  constructor
  · rintro ⟨e', he, h⟩
    cases h
    exact he
  · exact fun he => ⟨e, he, rfl⟩

/-- A bind raises what its first part raises or what the rest raises on its result. -/
theorem raises_bind {x : Except ε α} {f : α → Except ε β} :
    Raises bad (x >>= f) ↔ Raises bad x ∨ ∃ a, x = .ok a ∧ Raises bad (f a) := by
  cases x with
  | error e =>
    change Raises bad (.error e) ↔ _
    rw [raises_error, raises_error]
    simp
  | ok a =>
    change Raises bad (f a) ↔ _
    simp [raises_ok]

/-- Where a loop over a list raises, one of its turns does. -/
theorem exists_raises_of_mapM {f : α → Except ε β} {l : List α} (h : Raises bad (l.mapM f)) :
    ∃ a ∈ l, Raises bad (f a) := by
  induction l with
  | nil => exact absurd h (raises_ok _)
  | cons a l ih =>
    rw [List.mapM_cons, raises_bind] at h
    rcases h with h | ⟨b, -, h⟩
    · exact ⟨a, List.mem_cons_self, h⟩
    · rcases raises_bind.mp h with h | ⟨bs, -, h⟩
      · obtain ⟨a', ha', h'⟩ := ih h
        exact ⟨a', List.mem_cons_of_mem a ha', h'⟩
      · exact absurd h (raises_ok _)

/-- A conditional raises what the branch taken raises. -/
theorem raises_ite {c : Prop} [Decidable c] {x y : Except ε α} :
    Raises bad (if c then x else y) ↔ (c ∧ Raises bad x) ∨ (¬ c ∧ Raises bad y) := by
  by_cases hc : c <;> simp [hc]

/-- The same for a conditional whose branches use the condition. -/
theorem raises_dite {c : Prop} [Decidable c] {x : c → Except ε α} {y : ¬ c → Except ε α} :
    Raises bad (if h : c then x h else y h) ↔ (∃ h, Raises bad (x h)) ∨ ∃ h, Raises bad (y h) := by
  by_cases hc : c <;> simp [hc]

/-- A bind returns exactly when both parts do. -/
theorem returns_bind {x : Except ε α} {f : α → Except ε β} :
    (∃ b, (x >>= f) = .ok b) ↔ ∃ a, x = .ok a ∧ ∃ b, f a = .ok b := by
  cases x with
  | error e => exact iff_of_false (by rintro ⟨b, h⟩; cases h) (by simp)
  | ok a =>
    change (∃ b, f a = .ok b) ↔ _
    simp

/-- A result returns. -/
theorem returns_ok {a : α} : (∃ b, (.ok a : Except ε α) = .ok b) ↔ True :=
  iff_true_intro ⟨a, rfl⟩

/-- A result takes the number it carries. -/
theorem takes_ok {a : α} {k n : ℕ} : Takes n (.ok (a, k) : Except ε (α × ℕ)) ↔ k = n := by
  simp [Takes]

/-- An error takes nothing. -/
theorem takes_error {e : ε} {n : ℕ} : ¬ Takes n (.error e : Except ε (α × ℕ)) := by
  rintro ⟨a, h⟩
  cases h

/-- A bind takes what its last part takes. -/
theorem takes_bind {x : Except ε α} {f : α → Except ε (β × ℕ)} {n : ℕ} :
    Takes n (x >>= f) ↔ ∃ a, x = .ok a ∧ Takes n (f a) := by
  cases x with
  | error e => exact iff_of_false takes_error (by simp)
  | ok a =>
    change Takes n (f a) ↔ _
    simp

/-- What asks for the second part of a value alone. -/
theorem exists_returns {x : Except ε (α × β)} {c : β → Prop} :
    (∃ a b, x = .ok (a, b) ∧ c b) ↔ ∃ b, (∃ a, x = .ok (a, b)) ∧ c b := by
  rw [exists_comm]
  exact exists_congr fun b => exists_and_right

/-- A number that is returned beside a value, without the value. -/
theorem exists_takes {x : Except ε (α × ℕ)} {c : ℕ → Prop} :
    (∃ a k, x = .ok (a, k) ∧ c k) ↔ ∃ k, Takes k x ∧ c k := exists_returns

/-- A conditional takes what the branch taken takes. -/
theorem takes_ite {c : Prop} [Decidable c] {x y : Except ε (α × ℕ)} {n : ℕ} :
    Takes n (if c then x else y) ↔ (c ∧ Takes n x) ∨ (¬ c ∧ Takes n y) := by
  by_cases hc : c <;> simp [hc]

end Rids.Lib.Fallible
