import Mathlib.Data.List.Basic
import Mathlib.Tactic.Linarith

/-!
# Shapes of tensors

The rules by which PyTorch accepts an operation on tensors, on shapes alone: each operation
returns the shape of its result, or nothing when it raises. Covered are `size`, `view(-1, k)`,
`nn.functional.linear`, `chunk`, broadcasting, integer indexing, assignment to a slice, and
`Softmax(dim)`.
-/

namespace Rids.Lib.TensorShape

/-- The extents, outermost first. -/
abbrev Shape := List ℕ

/-! ### Operations -/

/-- `x.size(dim)`. -/
def size (s : Shape) (dim : ℕ) : Option ℕ := s[dim]?

/-- `x.view(-1, k)`. -/
def viewRows (s : Shape) (k : ℕ) : Option Shape :=
  if k = 0 ∨ s.prod % k ≠ 0 then none else some [s.prod / k, k]

/-- `functional.linear` with a weight of shape `(out, inp)`. -/
def linear (out inp : ℕ) (s : Shape) : Option Shape :=
  if s.getLast? = some inp then some (s.dropLast ++ [out]) else none

/-- The extents of the pieces that `chunk(n)` cuts an extent into. -/
def chunkSizes (n d : ℕ) : List ℕ :=
  if d = 0 then List.replicate n 0
  else
    let c := (d + n - 1) / n
    List.replicate (d / c) c ++ if d % c = 0 then [] else [d % c]

/-- `x.chunk(n, dim)`. -/
def chunk (n dim : ℕ) (s : Shape) : Option (List Shape) :=
  (size s dim).map fun d => (chunkSizes n d).map fun c => s.set dim c

/-- Broadcasting, innermost extent first. -/
def broadcastRev : Shape → Shape → Option Shape
  | [], t => some t
  | s, [] => some s
  | a :: s, b :: t =>
    if a = b ∨ b = 1 then (broadcastRev s t).map (a :: ·)
    else if a = 1 then (broadcastRev s t).map (b :: ·)
    else none

/-- The shape of `x + y` and `x * y`. -/
def broadcast (s t : Shape) : Option Shape :=
  (broadcastRev s.reverse t.reverse).map List.reverse

/-- `x[i, j, ...]` with integers from the left. -/
def index : Shape → List ℕ → Option Shape
  | s, [] => some s
  | [], _ :: _ => none
  | d :: s, i :: is => if i < d then index s is else none

/-- `x[...] = y` where `x[...]` has the first shape: leading extents 1 of `y` are dropped when the
shapes differ, and the rest must expand. -/
def assign (dst src : Shape) : Option Unit :=
  if src = dst ∨ broadcast (src.dropWhile (· = 1)) dst = some dst then some () else none

/-- `nn.Softmax(dim)`. -/
def softmax (dim : ℕ) (s : Shape) : Option Shape := if dim < s.length then some s else none

/-! ### Rules -/

/-- A vector becomes a row. -/
theorem viewRows_vector {d : ℕ} (h : 1 ≤ d) : viewRows [d] d = some [1, d] := by
  have hpos : d ≠ 0 := by omega
  simp [viewRows, hpos, Nat.div_self h]

/-- A row becomes a column. -/
theorem viewRows_row (h : ℕ) : viewRows [1, h] 1 = some [h, 1] := by simp [viewRows, Nat.mod_one]

/-- A linear layer on a matrix asks for its input width and gives its output width. -/
theorem linear_matrix (out inp r c : ℕ) :
    linear out inp [r, c] = if c = inp then some [r, out] else none := by simp [linear]

/-- An even extent is cut in half. -/
theorem chunkSizes_two {h : ℕ} (hpos : 1 ≤ h) : chunkSizes 2 (2 * h) = [h, h] := by
  have hsize : (2 * h + 2 - 1) / 2 = h := by omega
  have hcount : 2 * h / h = 2 := Nat.mul_div_cancel _ hpos
  rw [chunkSizes, if_neg (by omega), hsize]
  simp [hcount, List.replicate]

/-- A matrix of even width splits into two halves. -/
theorem chunk_two {r h : ℕ} (hpos : 1 ≤ h) : chunk 2 1 [r, 2 * h] = some [[r, h], [r, h]] := by
  simp [chunk, size, chunkSizes_two hpos]

/-- Equal shapes broadcast to themselves. -/
theorem broadcast_self (r c : ℕ) : broadcast [r, c] [r, c] = some [r, c] := by
  simp [broadcast, broadcastRev]

/-- A row is repeated to the rows of a matrix. -/
theorem broadcast_row (r c : ℕ) : broadcast [1, c] [r, c] = some [r, c] := by
  by_cases h : r = 1
  · simp [broadcast, broadcastRev, h]
  · simp [broadcast, broadcastRev, h, Ne.symm h]

/-- A row broadcasts to the matrix beside it. -/
theorem broadcast_row' (r c : ℕ) : broadcast [r, c] [1, c] = some [r, c] := by
  simp [broadcast, broadcastRev]

/-- A `(1, 1)` tensor is repeated to a matrix. -/
theorem broadcast_one (r c : ℕ) : broadcast [r, c] [1, 1] = some [r, c] := by
  simp [broadcast, broadcastRev]

/-- Only a row fits into a row. -/
theorem assign_row (r c : ℕ) : assign [1, c] [r, c] = if r = 1 then some () else none := by
  by_cases h : r = 1
  · simp [assign, h]
  · simp [assign, h, broadcast, broadcastRev]

end Rids.Lib.TensorShape
