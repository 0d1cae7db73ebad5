import Mathlib.Logic.Function.Basic
import Mathlib.Data.List.Basic

/-!
# A partial map and the list of its elements

A store is kept twice: as a list of elements and as a partial map. `Represents key val l f` says
that the two hold the same, where `key` and `val` read off an element under which key its value is
in the map.

* `Represents.insert`, `Represents.erase` — an insertion and an erasure on both sides.
-/

namespace Rids.Lib.ListedMap

variable {α κ β : Type*} {key : α → Option κ} {val : α → β} {l l' : List α} {f : κ → Option β}

/-- Every element is in the map under its key, and every key of the map is that of an element. -/
structure Represents (key : α → Option κ) (val : α → β) (l : List α) (f : κ → Option β) : Prop where
  sound : ∀ x ∈ l, ∃ k, key x = some k ∧ f k = some (val x)
  complete : ∀ k v, f k = some v → ∃ x ∈ l, key x = some k

/-- The empty list represents the empty map. -/
theorem represents_nil : Represents key val [] fun _ => none := ⟨nofun, nofun⟩

variable [DecidableEq κ] {x : α} {k : κ}

/-- The element `x` comes in, and the elements with its key go. -/
theorem Represents.insert (h : Represents key val l f) (hk : key x = some k)
    (hl' : ∀ y, y ∈ l' ↔ y = x ∨ y ∈ l ∧ key y ≠ some k) :
    Represents key val l' (Function.update f k (some (val x))) := by
  constructor
  · intro y hy
    rcases (hl' y).mp hy with rfl | ⟨hold, hne⟩
    · exact ⟨k, hk, Function.update_self _ _ _⟩
    · obtain ⟨k', hk', hf⟩ := h.sound y hold
      have hkk : k' ≠ k := by
        rintro rfl
        exact hne hk'
      exact ⟨k', hk', by rwa [Function.update_of_ne hkk]⟩
  · intro k' v hv
    by_cases hkk : k' = k
    · subst hkk
      exact ⟨x, (hl' x).mpr (.inl rfl), hk⟩
    · rw [Function.update_of_ne hkk] at hv
      obtain ⟨y, hy, hky⟩ := h.complete k' v hv
      refine ⟨y, (hl' y).mpr (.inr ⟨hy, ?_⟩), hky⟩
      rw [hky]
      intro heq
      exact hkk (Option.some.inj heq)

/-- The elements with the key `k` go. -/
theorem Represents.erase (h : Represents key val l f)
    (hl' : ∀ y, y ∈ l' ↔ y ∈ l ∧ key y ≠ some k) :
    Represents key val l' (Function.update f k none) := by
  constructor
  · intro y hy
    obtain ⟨hold, hne⟩ := (hl' y).mp hy
    obtain ⟨k', hk', hf⟩ := h.sound y hold
    have hkk : k' ≠ k := by
      rintro rfl
      exact hne hk'
    exact ⟨k', hk', by rwa [Function.update_of_ne hkk]⟩
  · intro k' v hv
    by_cases hkk : k' = k
    · subst hkk
      rw [Function.update_self] at hv
      cases hv
    · rw [Function.update_of_ne hkk] at hv
      obtain ⟨y, hy, hky⟩ := h.complete k' v hv
      refine ⟨y, (hl' y).mpr ⟨hy, ?_⟩, hky⟩
      rw [hky]
      intro heq
      exact hkk (Option.some.inj heq)

end Rids.Lib.ListedMap
