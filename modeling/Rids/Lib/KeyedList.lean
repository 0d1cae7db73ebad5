import Mathlib.Data.List.Forall2
import Mathlib.Data.List.Induction
import Mathlib.Data.List.Nodup
import Mathlib.Tactic.Tauto

/-!
# Lists with keys

A table kept as a list: an entry is found by its key, a new entry takes the place of the one with
its key or goes to the end. With distinct keys the list is a partial map.

* `find_put_self`, `find_put_of_ne`, `find_erase_self`, `find_erase_of_ne` — what is found after
  the two updates.
* `Distinct.put`, `Distinct.erase` — they keep the keys distinct.
* `put_eq_set`, `put_eq_append` — the update by position.
* `put_perm`, `erase_eq_filter` — the updates up to the order of the entries.
* `find_related`, `put_related` — both in two lists whose entries are related place by place.
* `find_run` — after any run of updates from the empty list, what is found under a key is what the
  latest update of that key has left.
-/

namespace Rids.Lib.KeyedList

variable {α κ : Type*} [DecidableEq κ] (key : α → κ)

/-- The first entry with key `k`. -/
def find (l : List α) (k : κ) : Option α := l.find? fun x => key x = k

/-- The list with `e` in the place of the first entry with its key, or at the end. -/
def put (e : α) : List α → List α
  | [] => [e]
  | x :: l => if key x = key e then e :: l else x :: put e l

/-- The list without the first entry with key `k`. -/
def erase (l : List α) (k : κ) : List α := l.eraseP fun x => key x = k

/-- No two entries have one key. -/
def Distinct (l : List α) : Prop := (l.map key).Nodup

variable {key} {l : List α} {e : α} {k : κ}

/-- A search looks at the head first. -/
theorem find_cons (x : α) (l : List α) (k : κ) :
    find key (x :: l) k = if key x = k then some x else find key l k := by
  unfold find
  rw [List.find?_cons]
  by_cases h : key x = k <;> simp [h]

/-- Nothing is found exactly when no entry has the key. -/
theorem find_eq_none_iff : find key l k = none ↔ ∀ x ∈ l, key x ≠ k := by
  simp [find]

/-! ### Finding after an update -/

/-- What was put is found under its key. -/
theorem find_put_self (e : α) (l : List α) : find key (put key e l) (key e) = some e := by
  induction l with
  | nil => simp [put, find_cons]
  | cons x l ih =>
    by_cases h : key x = key e
    · simp [put, h, find_cons]
    · rw [put, if_neg h, find_cons, if_neg h, ih]

/-- A put leaves the other keys as they are. -/
theorem find_put_of_ne (h : k ≠ key e) : find key (put key e l) k = find key l k := by
  induction l with
  | nil => rw [put, find_cons, if_neg h.symm]
  | cons x l ih =>
    by_cases hx : key x = key e
    · have hk : key x ≠ k := fun hxk => h (hxk.symm.trans hx)
      rw [put, if_pos hx, find_cons, find_cons, if_neg h.symm, if_neg hk]
    · rw [put, if_neg hx, find_cons, find_cons, ih]

/-- An erase leaves the other keys as they are. -/
theorem find_erase_of_ne {k' : κ} (h : k' ≠ k) : find key (erase key l k) k' = find key l k' := by
  induction l with
  | nil => rfl
  | cons x l ih =>
    by_cases hx : key x = k
    · rw [erase, List.eraseP_cons_of_pos (by simpa using hx), find_cons,
        if_neg fun hk => h (hk.symm.trans hx)]
    · rw [erase, List.eraseP_cons_of_neg (by simpa using hx), find_cons, find_cons, ← erase, ih]

/-- With distinct keys nothing is found after an erasure. -/
theorem find_erase_self (hl : Distinct key l) : find key (erase key l k) k = none := by
  induction l with
  | nil => rfl
  | cons x l ih =>
    rw [Distinct, List.map_cons, List.nodup_cons] at hl
    by_cases hx : key x = k
    · rw [erase, List.eraseP_cons_of_pos (by simpa using hx), find_eq_none_iff]
      rintro y hy rfl
      exact hl.1 (hx ▸ List.mem_map_of_mem hy)
    · rw [erase, List.eraseP_cons_of_neg (by simpa using hx), find_cons, if_neg hx]
      exact ih hl.2

/-! ### Distinct keys -/

/-- A key after a put is the one put or was there before. -/
theorem mem_map_put {k : κ} (h : k ∈ (put key e l).map key) : k = key e ∨ k ∈ l.map key := by
  induction l with
  | nil => simpa [put] using h
  | cons x l ih =>
    by_cases hx : key x = key e
    · rw [put, if_pos hx, List.map_cons, List.mem_cons] at h
      rw [List.map_cons, List.mem_cons]
      exact h.imp_right .inr
    · rw [put, if_neg hx, List.map_cons, List.mem_cons] at h
      rw [List.map_cons, List.mem_cons]
      rcases h with rfl | h
      · exact .inr (.inl rfl)
      · exact (ih h).imp_right .inr

/-- The keys after a put are the ones before and the one put. -/
theorem mem_map_put_iff {k : κ} : k ∈ (put key e l).map key ↔ k = key e ∨ k ∈ l.map key := by
  refine ⟨mem_map_put, ?_⟩
  induction l with
  | nil => simp [put]
  | cons x l ih =>
    by_cases hx : key x = key e
    · rw [put, if_pos hx, List.map_cons, List.mem_cons, List.map_cons, List.mem_cons, hx]
      tauto
    · rw [put, if_neg hx, List.map_cons, List.mem_cons, List.map_cons, List.mem_cons]
      tauto

/-- A put keeps the keys distinct. -/
theorem Distinct.put (e : α) (hl : Distinct key l) : Distinct key (put key e l) := by
  induction l with
  | nil => exact List.nodup_singleton _
  | cons x l ih =>
    obtain ⟨hx, hl⟩ := List.nodup_cons.mp hl
    unfold KeyedList.put Distinct
    split_ifs with heq
    · rw [List.map_cons, ← heq]
      exact List.nodup_cons.mpr ⟨hx, hl⟩
    · rw [List.map_cons]
      refine List.nodup_cons.mpr ⟨fun h => ?_, ih hl⟩
      rcases mem_map_put h with h | h
      · exact heq h
      · exact hx h

/-- An erase keeps the keys distinct. -/
theorem Distinct.erase (k : κ) (hl : Distinct key l) : Distinct key (erase key l k) :=
  (List.eraseP_sublist.map key).nodup hl

/-! ### Updates by position -/

/-- An entry with a new key goes to the end. -/
theorem put_eq_append (h : find key l (key e) = none) : put key e l = l ++ [e] := by
  induction l with
  | nil => rfl
  | cons x l ih =>
    have hx : key x ≠ key e := find_eq_none_iff.mp h x List.mem_cons_self
    rw [find_cons, if_neg hx] at h
    rw [put, if_neg hx, ih h, List.cons_append]

/-- What is found in the front of a list is found in the list. -/
theorem find_append {x : α} (h : find key l k = some x) (l' : List α) :
    find key (l ++ l') k = some x := by
  unfold find at h ⊢
  rw [List.find?_append, h, Option.some_or]

/-- The list with a new entry at its end, or without. -/
theorem Distinct.append_toList (hl : Distinct key l) {o : Option α}
    (ho : ∀ x ∈ o, find key l (key x) = none) : Distinct key (l ++ o.toList) := by
  rcases o with - | x
  · rwa [Option.toList_none, List.append_nil]
  · rw [Option.toList_some, ← put_eq_append (ho x rfl)]
    exact hl.put x

/-- An entry with a known key goes to the place of the old one. -/
theorem put_eq_set {i : ℕ} (h : l.findIdx? (fun x => key x = key e) = some i) :
    put key e l = l.set i e := by
  induction l generalizing i with
  | nil => simp at h
  | cons x l ih =>
    rw [List.findIdx?_cons] at h
    by_cases hx : key x = key e
    · simp only [hx, decide_true, if_true, Option.some.injEq] at h
      subst h
      rw [put, if_pos hx, List.set_cons_zero]
    · simp only [hx, decide_false, Bool.false_eq_true, if_false, Option.map_eq_some_iff] at h
      obtain ⟨j, hj, rfl⟩ := h
      rw [put, if_neg hx, ih hj, List.set_cons_succ]

/-! ### Updates up to order -/

/-- A put replaces, up to order. -/
theorem put_perm (e : α) (l : List α) : (put key e l).Perm (e :: erase key l (key e)) := by
  induction l with
  | nil => exact List.Perm.refl _
  | cons x l ih =>
    by_cases hx : key x = key e
    · rw [put, if_pos hx, erase, List.eraseP_cons_of_pos (by simpa using hx)]
    · rw [put, if_neg hx, erase, List.eraseP_cons_of_neg (by simpa using hx), ← erase]
      exact (ih.cons x).trans (List.Perm.swap e x _)

/-- The list, with the entry that is found in front. -/
theorem perm_of_find {x : α} (h : find key l k = some x) : l.Perm (x :: erase key l k) := by
  induction l with
  | nil => cases h
  | cons y l ih =>
    rw [find_cons] at h
    by_cases hy : key y = k
    · rw [if_pos hy] at h
      cases h
      rw [erase, List.eraseP_cons_of_pos (by simpa using hy)]
    · rw [if_neg hy] at h
      rw [erase, List.eraseP_cons_of_neg (by simpa using hy), ← erase]
      exact ((ih h).cons y).trans (List.Perm.swap x y _)

/-- What is found is in the list. -/
theorem mem_of_find {x : α} (h : find key l k = some x) : x ∈ l := List.mem_of_find?_eq_some h

/-- What is found has the key that was asked for. -/
theorem key_of_find {x : α} (h : find key l k = some x) : key x = k := by
  unfold find at h
  simpa using List.find?_some h

/-- An update that keeps a value of the entry keeps the list of these values. -/
theorem map_put {β : Type*} {f : α → β} {x : α} (h : find key l (key e) = some x)
    (hf : f e = f x) : (put key e l).map f = l.map f := by
  induction l with
  | nil => cases h
  | cons y l ih =>
    rw [find_cons] at h
    by_cases hy : key y = key e
    · rw [if_pos hy] at h
      cases h
      rw [put, if_pos hy, List.map_cons, List.map_cons, hf]
    · rw [if_neg hy] at h
      rw [put, if_neg hy, List.map_cons, List.map_cons, ih h]

/-- To write an entry that is there changes nothing. -/
theorem put_of_find (h : find key l (key e) = some e) : put key e l = l := by
  simpa only [List.map_id] using map_put (f := id) h rfl

/-- With distinct keys an erasure removes every entry with the key. -/
theorem erase_eq_filter (hl : Distinct key l) (k : κ) :
    erase key l k = l.filter fun x => key x ≠ k := by
  induction l with
  | nil => rfl
  | cons x l ih =>
    have hl' := List.nodup_cons.mp hl
    by_cases hx : key x = k
    · have hrest : l.filter (fun y => decide (key y ≠ k)) = l := by
        apply List.filter_eq_self.mpr
        intro y hy
        rw [decide_eq_true_eq]
        intro hyk
        exact hl'.1 (hx.trans hyk.symm ▸ List.mem_map_of_mem hy)
      rw [erase, List.eraseP_cons_of_pos (by simpa using hx),
        List.filter_cons_of_neg (by simpa using hx),
        hrest]
    · rw [erase, List.eraseP_cons_of_neg (by simpa using hx),
        List.filter_cons_of_pos (by simpa using hx), ← erase, ih hl'.2]

/-- The entries after an update. -/
theorem mem_put_iff (hl : Distinct key l) {x : α} :
    x ∈ put key e l ↔ x = e ∨ x ∈ l ∧ key x ≠ key e := by
  rw [(put_perm e l).mem_iff, List.mem_cons, erase_eq_filter hl, List.mem_filter,
    decide_eq_true_eq]

/-! ### Two lists side by side -/

section Related

variable {β : Type*} {key' : β → κ} {R : α → β → Prop} {l' : List β}

/-- Related lists are searched with one outcome. -/
theorem find_related (hR : ∀ a b, R a b → key' b = key a) (h : List.Forall₂ R l l') (k : κ) :
    (find key l k = none ∧ find key' l' k = none) ∨
      ∃ a b, find key l k = some a ∧ find key' l' k = some b ∧ R a b := by
  induction h with
  | nil => exact .inl ⟨rfl, rfl⟩
  | @cons a b l l' hab _ ih =>
    rw [find_cons, find_cons, hR a b hab]
    by_cases hk : key a = k
    · rw [if_pos hk, if_pos hk]
      exact .inr ⟨a, b, rfl, rfl, hab⟩
    · rw [if_neg hk, if_neg hk]
      exact ih

/-- Putting related entries into related lists. -/
theorem put_related (hR : ∀ a b, R a b → key' b = key a) {e : α} {e' : β} (he : R e e')
    (h : List.Forall₂ R l l') : List.Forall₂ R (put key e l) (put key' e' l') := by
  induction h with
  | nil => exact .cons he .nil
  | @cons a b l l' hab htail ih =>
    rw [put, put, hR a b hab, hR e e' he]
    by_cases hk : key a = key e
    · rw [if_pos hk, if_pos hk]
      exact .cons he htail
    · rw [if_neg hk, if_neg hk]
      exact .cons hab ih

end Related

/-! ### Runs of updates -/

/-- An update of the table. -/
inductive Update (α κ : Type*)
  | put (e : α)
  | erase (k : κ)

variable (key)

/-- The key an update is about. -/
def Update.target : Update α κ → κ
  | .put e => key e
  | .erase k => k

/-- What it leaves under that key. -/
def Update.leaves : Update α κ → Option α
  | .put e => some e
  | .erase _ => none

/-- The table after it. -/
def Update.apply (l : List α) : Update α κ → List α
  | .put e => KeyedList.put key e l
  | .erase k => KeyedList.erase key l k

/-- The table after a run from the empty one. -/
def run (us : List (Update α κ)) : List α := us.foldl (Update.apply key) []

/-- What the latest update of a key has left. -/
def latest (us : List (Update α κ)) (k : κ) : Option α :=
  (us.reverse.find? fun u => u.target key = k).bind Update.leaves

variable {key}

/-- A run ends with its last update. -/
theorem run_concat (us : List (Update α κ)) (u : Update α κ) :
    run key (us ++ [u]) = u.apply key (run key us) := by
  rw [run, List.foldl_append]
  rfl

/-- The last update decides its own key and leaves the others as they are. -/
theorem latest_concat (us : List (Update α κ)) (u : Update α κ) (k : κ) :
    latest key (us ++ [u]) k = if u.target key = k then u.leaves else latest key us k := by
  unfold latest
  rw [List.reverse_append, List.reverse_singleton, List.singleton_append, List.find?_cons]
  by_cases h : u.target key = k <;> simp [h]

/-- An update keeps the keys distinct. -/
theorem Distinct.apply (hl : Distinct key l) (u : Update α κ) : Distinct key (u.apply key l) := by
  cases u with
  | put e => exact hl.put e
  | erase k => exact hl.erase k

/-- What an update does, seen at one key. -/
theorem find_apply (hl : Distinct key l) (u : Update α κ) (k : κ) :
    find key (u.apply key l) k = if u.target key = k then u.leaves else find key l k := by
  cases u with
  | put e =>
    by_cases h : key e = k
    · subst h
      rw [if_pos (by rfl)]
      exact find_put_self e l
    · rw [if_neg (by exact h)]
      exact find_put_of_ne (Ne.symm h)
  | erase k' =>
    by_cases h : k' = k
    · subst h
      rw [if_pos (by rfl)]
      exact find_erase_self hl
    · rw [if_neg (by exact h)]
      exact find_erase_of_ne (Ne.symm h)

/-- The keys stay distinct in every run. -/
theorem distinct_run (us : List (Update α κ)) : Distinct key (run key us) := by
  induction us using List.reverseRecOn with
  | nil => exact List.nodup_nil
  | append_singleton us u ih =>
    rw [run_concat]
    exact ih.apply u

/-- **A run of updates is a finite map.** -/
theorem find_run (us : List (Update α κ)) (k : κ) : find key (run key us) k = latest key us k := by
  induction us using List.reverseRecOn with
  | nil => rfl
  | append_singleton us u ih =>
    rw [run_concat, find_apply (distinct_run us), latest_concat, ih]

end Rids.Lib.KeyedList
