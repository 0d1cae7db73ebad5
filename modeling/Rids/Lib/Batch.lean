import Mathlib.Data.List.Basic

/-!
# Sending in batches

Items are collected in a buffer of `cap` places, and the buffer is sent as one batch when it is full
or when the caller says so.

* `all_append`, `all_sendIf` — what has been sent and what is in the buffer are the items in order.
* `Fits.append_sendIf` — every batch holds between one and `cap` items, and the buffer has room.
-/

namespace Rids.Lib.Batch

/-- The batches that have been sent, and the buffer. -/
structure Batches (α : Type*) where
  sent : List (List α)
  buf : List α

variable {α : Type*} {cap : ℕ} {b : Batches α}

namespace Batches

/-- `buf[idx++] = x`. -/
def append (b : Batches α) (x : α) : Batches α := { b with buf := b.buf ++ [x] }

/-- The buffer is sent under a condition. -/
def sendIf (c : Bool) (b : Batches α) : Batches α :=
  if c then ⟨b.sent ++ [b.buf], []⟩ else b

/-- The items that have gone in. -/
def all (b : Batches α) : List α := b.sent.flatten ++ b.buf

/-- The batches are not empty and fit the buffer, and the buffer has room for one item. -/
structure Fits (cap : ℕ) (b : Batches α) : Prop where
  nonempty : ∀ batch ∈ b.sent, batch ≠ []
  length_le : ∀ batch ∈ b.sent, batch.length ≤ cap
  room : b.buf.length < cap

/-- What a batch holds and has sent grows by the appended element. -/
@[simp] theorem all_append (x : α) : (b.append x).all = b.all ++ [x] := by
  simp [append, all]

/-- Sending moves elements and loses none. -/
@[simp] theorem all_sendIf (c : Bool) : (b.sendIf c).all = b.all := by
  cases c with
  | false => rfl
  | true => simp [sendIf, all]

/-- A buffer that is not full is not sent. -/
theorem Fits.sendIf_full (h : Fits cap b) : b.sendIf (cap ≤ b.buf.length) = b := by
  have hroom := h.room
  simp [sendIf, Nat.not_le.mpr hroom]

/-- **One item.** -/
theorem Fits.append_sendIf (h : Fits cap b) (x : α) (c : Bool) :
    Fits cap ((b.append x).sendIf (cap ≤ (b.append x).buf.length || c)) := by
  have hroom := h.room
  have hlen : (b.append x).buf.length = b.buf.length + 1 := by simp [append]
  by_cases hsend : (decide (cap ≤ (b.append x).buf.length) || c) = true
  · rw [hsend]
    refine ⟨?_, ?_, ?_⟩
    · intro batch hbatch
      rcases List.mem_append.mp hbatch with hold | hnew
      · exact h.nonempty batch hold
      · rw [List.mem_singleton.mp hnew]
        simp [append]
    · intro batch hbatch
      rcases List.mem_append.mp hbatch with hold | hnew
      · exact h.length_le batch hold
      · rw [List.mem_singleton.mp hnew, hlen]
        exact hroom
    · exact Nat.lt_of_le_of_lt (Nat.zero_le _) hroom
  · rw [Bool.not_eq_true] at hsend
    rw [hsend]
    rw [Bool.or_eq_false_iff, decide_eq_false_iff_not, Nat.not_le] at hsend
    exact ⟨h.nonempty, h.length_le, hsend.1⟩

end Batches

end Rids.Lib.Batch
