import Mathlib.Data.List.Basic

/-!
# The terminated lines of a text

A line is what stands before a separator; what follows the last one is not a line.

* `exists_rest` — a text is its lines, each with its separator, and a rest without one.
* `lines_append_sep`, `lines_of_notMem`, `lines_flatMap` — the lines of a text in parts.
* `length_lines` — there are as many lines as separators.
-/

namespace Rids.Lib.Lines

variable {α : Type*} [DecidableEq α] (sep : α)

/-- The lines of a text, without their separators. -/
def lines : List α → List (List α)
  | [] => []
  | c :: text =>
    if c = sep then [] :: lines text
    else
      match lines text with
      | [] => []
      | line :: rest => (c :: line) :: rest

variable {sep} {text : List α}

/-- A text without the separator has no finished line. -/
theorem lines_of_notMem (h : sep ∉ text) : lines sep text = [] := by
  induction text with
  | nil => rfl
  | cons c text ih =>
    obtain ⟨hc, htext⟩ := List.ne_and_not_mem_of_not_mem_cons h
    rw [lines, if_neg (Ne.symm hc), ih htext]

/-- The first line. -/
theorem lines_append_sep {line : List α} (h : sep ∉ line) (text : List α) :
    lines sep (line ++ sep :: text) = line :: lines sep text := by
  induction line with
  | nil => rw [List.nil_append, lines, if_pos rfl]
  | cons c line ih =>
    obtain ⟨hc, hline⟩ := List.ne_and_not_mem_of_not_mem_cons h
    rw [List.cons_append, lines, if_neg (Ne.symm hc), ih hline]

/-- The lines of a text of lines. -/
theorem lines_flatMap {ls : List (List α)} (h : ∀ line ∈ ls, sep ∉ line) :
    lines sep (ls.flatMap (· ++ [sep])) = ls := by
  induction ls with
  | nil => rfl
  | cons line ls ih =>
    obtain ⟨hline, hls⟩ := List.forall_mem_cons.mp h
    rw [List.flatMap_cons, List.append_assoc, List.singleton_append, lines_append_sep hline,
      ih hls]

/-- No line has a separator. -/
theorem notMem_of_mem_lines {line : List α} (h : line ∈ lines sep text) : sep ∉ line := by
  induction text generalizing line with
  | nil => cases h
  | cons c text ih =>
    rw [lines] at h
    split_ifs at h with hc
    · rcases List.mem_cons.mp h with rfl | h
      · exact List.not_mem_nil
      · exact ih h
    · cases hlines : lines sep text with
      | nil => simp [hlines] at h
      | cons first rest =>
        rw [hlines] at h ih
        rcases List.mem_cons.mp h with rfl | h
        · exact List.not_mem_cons_of_ne_of_not_mem (Ne.symm hc) (ih List.mem_cons_self)
        · exact ih (List.mem_cons_of_mem first h)

/-- **A text is its lines and a rest.** -/
theorem exists_rest (text : List α) :
    ∃ rest, sep ∉ rest ∧ text = (lines sep text).flatMap (· ++ [sep]) ++ rest := by
  induction text with
  | nil => exact ⟨[], List.not_mem_nil, rfl⟩
  | cons c text ih =>
    obtain ⟨rest, hrest, htext⟩ := ih
    by_cases hc : c = sep
    · refine ⟨rest, hrest, ?_⟩
      rw [lines, if_pos hc, List.flatMap_cons, List.nil_append, List.append_assoc, ← htext, hc]
      rfl
    · cases hlines : lines sep text with
      | nil =>
        rw [hlines] at htext
        refine ⟨c :: rest, List.not_mem_cons_of_ne_of_not_mem (Ne.symm hc) hrest, ?_⟩
        rw [lines, if_neg hc, hlines]
        exact congrArg (c :: ·) htext
      | cons first others =>
        rw [hlines] at htext
        refine ⟨rest, hrest, ?_⟩
        rw [lines, if_neg hc, hlines]
        exact congrArg (c :: ·) htext

/-- **Lines are counted by their separators.** -/
theorem length_lines (text : List α) : (lines sep text).length = text.count sep := by
  obtain ⟨rest, hrest, htext⟩ : ∃ rest, sep ∉ rest ∧
      text = (lines sep text).flatMap (· ++ [sep]) ++ rest := exists_rest text
  have hcount (ls : List (List α)) (h : ∀ line ∈ ls, sep ∉ line) :
      (ls.flatMap (· ++ [sep])).count sep = ls.length := by
    induction ls with
    | nil => rfl
    | cons line ls ih =>
      obtain ⟨hline, hls⟩ := List.forall_mem_cons.mp h
      rw [List.flatMap_cons, List.count_append, List.count_append, ih hls,
        List.count_eq_zero_of_not_mem hline, List.count_singleton_self, List.length_cons]
      omega
  rw [htext, List.count_append, hcount _ fun _ => notMem_of_mem_lines,
    List.count_eq_zero_of_not_mem hrest, ← htext, Nat.add_zero]

end Rids.Lib.Lines
