import Mathlib.Data.List.Basic
import Mathlib.Tactic.Common

/-!
# Token patterns

A pattern says of each token at the start of an array what it must be. `Starts` is that an array
begins with a text of the pattern, `IsText` that it is one, and `Cut` that it is a beginning of one
that breaks off: a proper prefix, of at least so many tokens. A `Phrase` is announced by its first
token, and `AfterAll` is what a row of optional phrases leaves of an array.

* `starts_cons`, `starts_append`, `starts_replicate` — a pattern token by token.
* `cut_append` — an array breaks off where reading its tokens in order finds each as it must be and
  then no more.
-/

namespace Rids.Lib.TokenPattern

variable {τ : Type}

/-- What each token must be. -/
abbrev Pattern (τ : Type) := List (τ → Prop)

/-- There is a token at the index, and it is as it must be. -/
def At (ts : List τ) (i : ℕ) (P : τ → Prop) : Prop := ∃ t, ts[i]? = some t ∧ P t

/-- The array begins with a text of the pattern. -/
def Starts : Pattern τ → List τ → Prop
  | [], _ => True
  | _ :: _, [] => False
  | P :: p, t :: ts => P t ∧ Starts p ts

/-- The array is a text of the pattern. -/
def IsText (p : Pattern τ) (ts : List τ) : Prop := ts.length = p.length ∧ Starts p ts

/-- The array begins with a text of one of the patterns, which is `n` tokens long. -/
def StartsAny : List (Pattern τ) → ℕ → List τ → Prop
  | [], _, _ => False
  | p :: ps, n, ts => (p.length = n ∧ Starts p ts) ∨ StartsAny ps n ts

/-- The array is a text of the pattern that breaks off after `k` tokens or more. -/
def Cut (k : ℕ) (p : Pattern τ) (ts : List τ) : Prop :=
  k ≤ ts.length ∧ ts.length < p.length ∧ Starts (p.take ts.length) ts

variable {p q : Pattern τ} {P : τ → Prop} {ts : List τ} {i n : ℕ}

/-- A token that is there is inside the list. -/
theorem At.lt (h : At ts i P) : i < ts.length := by
  obtain ⟨t, ht, -⟩ := h
  exact (List.getElem?_eq_some_iff.mp ht).1

/-- A position behind dropped tokens. -/
theorem at_drop {k : ℕ} : At (ts.drop k) i P ↔ At ts (k + i) P := by
  rw [At, At, List.getElem?_drop]

/-- A position among the first tokens. -/
theorem at_take {k : ℕ} : At (ts.take k) i P ↔ i < k ∧ At ts i P := by
  rw [At, List.getElem?_take]
  split_ifs with h <;> simp [At, h]

/-- The token is a given one. -/
theorem at_eq {t : τ} : At ts i (· = t) ↔ ts[i]? = some t := by
  simp [At]

/-- Any token, which only asks that it is there. -/
theorem at_true : At ts i (fun _ => True) ↔ i < ts.length :=
  ⟨At.lt, fun h => ⟨ts[i], List.getElem?_eq_getElem h, trivial⟩⟩

/-- A row of tokens that the array holds. -/
theorem forall_mem_take_drop {k m : ℕ} (h : k + m ≤ ts.length) :
    (∀ t ∈ (ts.drop k).take m, P t) ↔ ∀ i < m, At ts (k + i) P := by
  constructor
  · intro hall i hi
    have hlt : k + i < ts.length := by omega
    refine ⟨ts[k + i], List.getElem?_eq_getElem hlt, hall _ (List.mem_iff_getElem?.mpr ⟨i, ?_⟩)⟩
    rw [List.getElem?_take_of_lt hi, List.getElem?_drop, List.getElem?_eq_getElem hlt]
  · intro hall t ht
    obtain ⟨i, hi⟩ := List.mem_iff_getElem?.mp ht
    rw [List.getElem?_take] at hi
    split_ifs at hi with him
    obtain ⟨t', ht', hP⟩ := hall i him
    rw [List.getElem?_drop, ht'] at hi
    exact Option.some.inj hi ▸ hP

/-- Every list starts with the empty pattern. -/
theorem starts_nil : Starts [] ts ↔ True := by
  cases ts <;> exact Iff.rfl

/-- A pattern is matched token by token. -/
theorem starts_cons : Starts (P :: p) ts ↔ At ts 0 P ∧ Starts p (ts.drop 1) := by
  cases ts with
  | nil => simp [Starts, At]
  | cons t ts => simp [Starts, At]

/-- A pattern in two parts. -/
theorem starts_append : Starts (p ++ q) ts ↔ Starts p ts ∧ Starts q (ts.drop p.length) := by
  induction p generalizing ts with
  | nil => simp [starts_nil]
  | cons P p ih =>
    rw [List.cons_append, starts_cons, starts_cons, ih, List.drop_drop, List.length_cons,
      Nat.add_comm 1, and_assoc]

/-- A pattern position by position. -/
theorem starts_iff : Starts p ts ↔ ∀ i, ∀ P ∈ p[i]?, At ts i P := by
  induction p generalizing ts with
  | nil => simp [starts_nil]
  | cons P p ih =>
    rw [starts_cons, ih]
    constructor
    · rintro ⟨hP, hp⟩ i Q hQ
      cases i with
      | zero =>
        obtain rfl := Option.some.inj hQ
        exact hP
      | succ i =>
        rw [Nat.add_comm, ← at_drop]
        exact hp i Q hQ
    · intro h
      refine ⟨h 0 P rfl, fun i Q hQ => ?_⟩
      rw [at_drop, Nat.add_comm]
      exact h (i + 1) Q hQ

/-- A pattern that repeats one predicate. -/
theorem starts_replicate : Starts (List.replicate n P) ts ↔ ∀ i < n, At ts i P := by
  rw [starts_iff]
  constructor
  · exact fun h i hi => h i P (by simp [hi])
  · intro h i Q hQ
    obtain ⟨hi, rfl⟩ := List.getElem?_eq_some_iff.mp hQ
    rw [List.length_replicate] at hi
    simpa using h i hi

/-- A pattern is not longer than what it starts. -/
theorem Starts.length_le (h : Starts p ts) : p.length ≤ ts.length := by
  induction p generalizing ts with
  | nil => exact Nat.zero_le _
  | cons P p ih =>
    rw [starts_cons] at h
    have hlt := h.1.lt
    have hle := ih h.2
    rw [List.length_drop] at hle
    rw [List.length_cons]
    omega

/-- The same behind dropped tokens. -/
theorem Starts.le_of_drop {k : ℕ} (h : Starts p (ts.drop k)) (hp : 0 < p.length) :
    k + p.length ≤ ts.length := by
  have hle := h.length_le
  rw [List.length_drop] at hle
  omega

/-- The first part of a pattern, position by position. -/
theorem starts_take {k : ℕ} :
    Starts (p.take k) ts ↔ ∀ i < k, ∀ P ∈ p[i]?, At ts i P := by
  rw [starts_iff]
  constructor
  · intro h i hi P hP
    refine h i P ?_
    rw [List.getElem?_take_of_lt hi]
    exact hP
  · intro h i P hP
    rw [List.getElem?_take] at hP
    split_ifs at hP with hi
    · exact h i hi P hP
    · cases hP

/-- A text that breaks off behind the first part of its pattern: the second part breaks off. -/
theorem cut_append {k : ℕ} (h : p.length ≤ k) : Cut k (p ++ q) ts ↔ k ≤ ts.length ∧
    Starts p ts ∧ ts.length < (p ++ q).length ∧
      ∀ i < ts.length - p.length, ∀ P ∈ q[i]?, At ts (p.length + i) P := by
  have hsplit (hk : k ≤ ts.length) : Starts ((p ++ q).take ts.length) ts ↔
      Starts p ts ∧ ∀ i < ts.length - p.length, ∀ P ∈ q[i]?, At ts (p.length + i) P := by
    rw [List.take_append, List.take_of_length_le (Nat.le_trans h hk), starts_append, starts_take]
    simp only [at_drop]
  constructor
  · rintro ⟨hk, hlt, hstarts⟩
    obtain ⟨hp, hq⟩ := (hsplit hk).mp hstarts
    exact ⟨hk, hp, hlt, hq⟩
  · rintro ⟨hk, hp, hlt, hq⟩
    exact ⟨hk, hlt, (hsplit hk).mpr ⟨hp, hq⟩⟩

/-- Two lists of alternatives. -/
theorem startsAny_append {ps qs : List (Pattern τ)} :
    StartsAny (ps ++ qs) n ts ↔ StartsAny ps n ts ∨ StartsAny qs n ts := by
  induction ps with
  | nil => simp [StartsAny]
  | cons p ps ih => rw [List.cons_append, StartsAny, StartsAny, ih, or_assoc]

/-- An alternative is not longer than what it starts. -/
theorem StartsAny.le_length {ps : List (Pattern τ)} (h : StartsAny ps n ts) : n ≤ ts.length := by
  induction ps with
  | nil => exact h.elim
  | cons p ps ih =>
    rcases h with ⟨rfl, hp⟩ | h
    · exact hp.length_le
    · exact ih h

/-- What all the patterns ask of a token holds of it. -/
theorem StartsAny.at {ps : List (Pattern τ)} (h : StartsAny ps n ts)
    (hall : ∀ p ∈ ps, p[i]? = some P) : At ts i P := by
  induction ps with
  | nil => exact h.elim
  | cons p ps ih =>
    rcases h with ⟨-, hp⟩ | h
    · exact starts_iff.mp hp i P (hall p List.mem_cons_self)
    · exact ih h fun q hq => hall q (List.mem_cons_of_mem p hq)

/-! ### Optional phrases -/

/-- What its first token announces: `Whole n ts` is that the first `n` tokens of an array
are a text of it. -/
structure Phrase (τ : Type) where
  name : τ
  Whole : ℕ → List τ → Prop

/-- The phrase is not announced, or it is there and `left` comes after it. -/
def Phrase.After (f : Phrase τ) (ts left : List τ) : Prop :=
  (ts.head? ≠ some f.name ∧ left = ts) ∨
    ts.head? = some f.name ∧ ∃ n, f.Whole n ts ∧ left = ts.drop n

/-- What is left after a row of phrases, each of which may be missing. -/
def AfterAll : List (Phrase τ) → List τ → List τ → Prop
  | [], ts, left => left = ts
  | f :: fs, ts, left => ∃ mid, f.After ts mid ∧ AfterAll fs mid left

/-- Behind no phrase the whole list is left. -/
theorem exists_afterAll_nil {c : List τ → Prop} : (∃ left, AfterAll [] ts left ∧ c left) ↔ c ts :=
  exists_eq_left

/-- Phrases follow each other. -/
theorem exists_afterAll_cons {f : Phrase τ} {fs : List (Phrase τ)} {c : List τ → Prop} :
    (∃ left, AfterAll (f :: fs) ts left ∧ c left) ↔
      ∃ mid, f.After ts mid ∧ ∃ left, AfterAll fs mid left ∧ c left := by
  constructor
  · rintro ⟨left, ⟨mid, hmid, hleft⟩, h⟩
    exact ⟨mid, hmid, left, hleft, h⟩
  · rintro ⟨mid, hmid, left, hleft, h⟩
    exact ⟨left, ⟨mid, hmid, hleft⟩, h⟩

/-- A phrase leaves no more tokens than there were. -/
theorem Phrase.After.length_le {f : Phrase τ} {left : List τ} (h : f.After ts left) :
    left.length ≤ ts.length := by
  rcases h with ⟨-, rfl⟩ | ⟨-, n, -, rfl⟩
  · exact Nat.le_refl _
  · exact (List.drop_sublist n ts).length_le

/-- Phrases leave no more tokens than there were. -/
theorem AfterAll.length_le {fs : List (Phrase τ)} {left : List τ} (h : AfterAll fs ts left) :
    left.length ≤ ts.length := by
  induction fs generalizing ts with
  | nil => exact Nat.le_of_eq (congrArg List.length h)
  | cons f fs ih =>
    obtain ⟨mid, hmid, h⟩ := h
    exact Nat.le_trans (ih h) hmid.length_le

end Rids.Lib.TokenPattern
