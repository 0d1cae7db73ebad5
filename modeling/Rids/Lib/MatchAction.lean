import Mathlib.Logic.Function.Basic
import Mathlib.Tactic.Common

/-!
# Match-action primitives: register arrays, stateful ALUs, range tables

The building blocks a match-action switch offers to its programs.

* `RegArray ι w` — a register array with one `w`-bit cell per index.
* `StatefulAlu μ w` — a read-modify-write program of one cell: two conditions over the metadata
  `μ` and the cell, and two predicated updates. `StatefulAlu.exclusive` is part of the structure:
  an ALU whose updates could both fire has no defined result, so it cannot be built.
* `RegArray.execute` — one execution at an index.
* `RangeTable w α n` — a match table over a `w`-bit key with at most `n` range entries.
-/

namespace Rids.Lib.MatchAction

/-! ### Stateful ALUs -/

/-- A predicated update: `predicate` reads `(condition_lo, condition_hi)`, `value` reads the
metadata and the old cell. An update without a predicate always fires. -/
structure UpdateLo (μ : Type*) (w : ℕ) where
  predicate : Bool → Bool → Bool := fun _ _ => true
  value : μ → BitVec w → BitVec w

/-- The text of a stateful ALU: conditions and updates, each of them optional. -/
structure AluProgram (μ : Type*) (w : ℕ) where
  conditionLo : μ → BitVec w → Bool := fun _ _ => false
  conditionHi : μ → BitVec w → Bool := fun _ _ => false
  updateLo1 : Option (UpdateLo μ w) := none
  updateLo2 : Option (UpdateLo μ w) := none

variable {μ : Type*} {w : ℕ}

/-- Whether an update of the program fires on a metadata and a cell. -/
def AluProgram.fires (a : AluProgram μ w) (u : Option (UpdateLo μ w)) (md : μ) (r : BitVec w) :
    Bool :=
  match u with
  | none => false
  | some u => u.predicate (a.conditionLo md r) (a.conditionHi md r)

/-- A stateful ALU: a program at most one of whose updates fires. -/
structure StatefulAlu (μ : Type*) (w : ℕ) extends AluProgram μ w where
  exclusive : ∀ md r, ¬ (toAluProgram.fires updateLo1 md r = true ∧
    toAluProgram.fires updateLo2 md r = true)

namespace StatefulAlu

/-- The value an update writes if it is the one that fires. -/
def updateValue (u : Option (UpdateLo μ w)) (md : μ) (r : BitVec w) : BitVec w :=
  match u with
  | none => r
  | some u => u.value md r

/-- `alu_lo`: the new cell. A cell no update fires on keeps its value. -/
def aluLo (a : StatefulAlu μ w) (md : μ) (r : BitVec w) : BitVec w :=
  if a.fires a.updateLo1 md r then updateValue a.updateLo1 md r
  else if a.fires a.updateLo2 md r then updateValue a.updateLo2 md r
  else r

/-- `combined_predicate`, which outputs `condition_lo`. -/
def combinedPredicate (a : StatefulAlu μ w) (md : μ) (r : BitVec w) : Bool := a.conditionLo md r

end StatefulAlu

/-! ### Register arrays -/

/-- A register array: one `w`-bit cell per index. -/
abbrev RegArray (ι : Type*) (w : ℕ) := ι → BitVec w

variable {ι : Type*} [DecidableEq ι]

/-- The array after one execution of an ALU at index `i`. -/
def RegArray.execute (R : RegArray ι w) (a : StatefulAlu μ w) (md : μ) (i : ι) : RegArray ι w :=
  Function.update R i (a.aluLo md (R i))

/-! ### Range tables -/

/-- An entry of a range table: the keys from `lo` to `hi` run `action`. -/
structure RangeEntry (w : ℕ) (α : Type*) where
  lo : BitVec w
  hi : BitVec w
  action : α

/-- A table of at most `size` range entries, in the order of their priority. -/
structure RangeTable (w : ℕ) (α : Type*) (size : ℕ) where
  entries : List (RangeEntry w α)
  length_le : entries.length ≤ size

variable {α : Type*} {size : ℕ}

/-- The action of the first entry whose range holds the key; `none` is a miss. -/
def RangeTable.lookup (t : RangeTable w α size) (key : BitVec w) : Option α :=
  (t.entries.find? fun e => e.lo ≤ key && key ≤ e.hi).map (·.action)

end Rids.Lib.MatchAction
