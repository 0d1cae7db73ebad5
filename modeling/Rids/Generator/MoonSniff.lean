import Mathlib.Data.List.Induction
import Mathlib.Logic.Function.Basic
import Rids.Lib.SlotMachine

/-!
# Latencies in live mode (`moonsniff.cpp`)

A packet that goes into the device under test is noted in `hit_list`, at the place that the low 24
bits of its identifier name. A packet that comes out is looked up there, and the place is cleared.

* `latency` — what a lookup should measure: the time since the last call on the place, when that
  call has noted the same identifier.
* `liveMode_spec` — in any sequence of calls the statistics are those of the latencies, in their
  order; those below the threshold are among them.

The calls are taken one after the other. In the source only the places of `hit_list` are under
locks; `stats`, `count`, `mean` and `m2` are not, so that calls of several threads can lose updates
of them. The running mean and variance are floating point numbers; `diffs` are the values that go
into them.
-/

namespace Rids.Generator.MoonSniff

open Rids.Lib.SlotMachine

/-! ### The source -/

/-- Source: `moonsniff.cpp` `struct entry`. Kind: D -/
structure Entry where
  timestamp : BitVec 64
  identifier : BitVec 64
deriving DecidableEq, Repr

/-- Source: `moonsniff.cpp` `INDEX_MASK`. Kind: D -/
def index (identification : BitVec 32) : ℕ := (identification &&& 0x00FFFFFF).toNat

/-- The variables of the namespace; `diffs` are the values with which `mean` and `m2` have been
updated.
Source: `moonsniff.cpp` `hit_list`, `stats`, `count`
Kind: D -/
structure LiveMode where
  hitList : ℕ → Entry
  hits : BitVec 32
  misses : BitVec 32
  count : BitVec 64
  diffs : List (BitVec 64)

/-- Source: `moonsniff.cpp` `add_entry`. Kind: D -/
def addEntry (s : LiveMode) (identification : BitVec 32) (timestamp : BitVec 64) : LiveMode :=
  { s with
    hitList := Function.update s.hitList (index identification)
      ⟨timestamp, identification.setWidth 64⟩ }

/-- `old_ts`. -/
def oldTs (e : Entry) (identification : BitVec 32) : BitVec 64 :=
  if e.identifier = identification.setWidth 64 then e.timestamp else 0

/-- A difference below the threshold is reported as ignored, and goes on as any other.
Source: `moonsniff.cpp` `test_for`
Kind: D -/
def testFor (s : LiveMode) (identification : BitVec 32) (timestamp : BitVec 64) : LiveMode :=
  let old := oldTs (s.hitList (index identification)) identification
  let s := { s with hitList := Function.update s.hitList (index identification) ⟨0, 0⟩ }
  if old ≠ 0 then
    { s with
      hits := s.hits + 1
      count := s.count + 1
      diffs := s.diffs ++ [timestamp - old] }
  else { s with misses := s.misses + 1 }

/-- The variables at the start. -/
def LiveMode.start : LiveMode := ⟨fun _ => ⟨0, 0⟩, 0, 0, 0, []⟩

/-! ### Runs -/

/-- A call. -/
inductive Op
  | addEntry (identification : BitVec 32) (timestamp : BitVec 64)
  | testFor (identification : BitVec 32) (timestamp : BitVec 64)

def Op.identification : Op → BitVec 32
  | addEntry identification _ => identification
  | testFor identification _ => identification

def Op.isTest : Op → Bool
  | addEntry _ _ => false
  | testFor _ _ => true

/-- The place that a call is about. -/
def Op.place (op : Op) : ℕ := index op.identification

/-- The variables as a machine; the output is the latency that a call measures. -/
def liveMode : Machine LiveMode Op (Option (BitVec 64)) where
  step s
    | .addEntry identification timestamp => addEntry s identification timestamp
    | .testFor identification timestamp => testFor s identification timestamp
  out s
    | .addEntry _ _ => none
    | .testFor identification timestamp =>
      let old := oldTs (s.hitList (index identification)) identification
      if old ≠ 0 then some (timestamp - old) else none

/-- One place of `hit_list`. -/
def place : Machine Entry Op (Option (BitVec 64)) where
  step _
    | .addEntry identification timestamp => ⟨timestamp, identification.setWidth 64⟩
    | .testFor _ _ => ⟨0, 0⟩
  out e
    | .addEntry _ _ => none
    | .testFor identification timestamp =>
      if oldTs e identification ≠ 0 then some (timestamp - oldTs e identification) else none

/-! ### What should be measured -/

/-- The time since the last call on the place before, when that call has noted the identifier with a
time. -/
def latency (past : List Op) : Op → Option (BitVec 64)
  | .addEntry _ _ => none
  | .testFor identification timestamp =>
    match (past.filter (·.place = index identification)).getLast? with
    | some (.addEntry identification' old) =>
      if identification' = identification ∧ old ≠ 0 then some (timestamp - old) else none
    | _ => none

/-- The latencies of a list of calls, after those of the past. -/
def latencies (past : List Op) : List Op → List (BitVec 64)
  | [] => []
  | op :: ops => (latency past op).toList ++ latencies (past ++ [op]) ops

/-! ### A run measures the latencies -/

variable (s : LiveMode) (op : Op)

/-- A test clears its place. -/
theorem hitList_testFor (identification : BitVec 32) (timestamp : BitVec 64) :
    (testFor s identification timestamp).hitList =
      Function.update s.hitList (index identification) ⟨0, 0⟩ := by
  unfold testFor
  dsimp only
  split_ifs
  · rfl
  · rfl

/-- `hit_list` is an array of places. -/
theorem slotWise : SlotWise liveMode Op.place LiveMode.hitList place where
  view_step_self s op := by
    cases op with
    | addEntry identification timestamp => exact Function.update_self _ _ _
    | testFor identification timestamp =>
      change (testFor s identification timestamp).hitList (index identification) = ⟨0, 0⟩
      rw [hitList_testFor, Function.update_self]
  view_step_of_ne s op i hne := by
    cases op with
    | addEntry identification timestamp => exact Function.update_of_ne hne _ _
    | testFor identification timestamp =>
      change (testFor s identification timestamp).hitList i = s.hitList i
      rw [hitList_testFor]
      exact Function.update_of_ne hne _ _
  out_eq s op := by
    cases op with
    | addEntry identification timestamp => rfl
    | testFor identification timestamp => rfl

/-- What the last call leaves at its place. -/
def left : Option Op → Entry
  | some (.addEntry identification timestamp) => ⟨timestamp, identification.setWidth 64⟩
  | _ => ⟨0, 0⟩

/-- A place holds what its last operation left. -/
theorem place_run (ops : List Op) : place.run ⟨0, 0⟩ ops = left ops.getLast? := by
  induction ops using List.reverseRecOn with
  | nil => rfl
  | append_singleton ops op ih =>
    rw [Machine.run_append, List.getLast?_concat]
    cases op with
    | addEntry identification timestamp => rfl
    | testFor identification timestamp => rfl

/-- Widening keeps numbers apart. -/
theorem setWidth_inj {a b : BitVec 32} : a.setWidth 64 = b.setWidth 64 ↔ a = b := by
  constructor
  · intro h
    have hnat := congrArg BitVec.toNat h
    rw [BitVec.toNat_setWidth_of_le (by decide), BitVec.toNat_setWidth_of_le (by decide)] at hnat
    exact BitVec.eq_of_toNat_eq hnat
  · rintro rfl
    rfl

/-- **A lookup.** After any calls, a call measures its latency. -/
theorem out_run (past : List Op) :
    liveMode.out (liveMode.run .start past) op = latency past op := by
  cases op with
  | addEntry identification timestamp => rfl
  | testFor identification timestamp =>
    have hview : (liveMode.run .start past).hitList (index identification) =
        left (past.filter (·.place = index identification)).getLast? := by
      rw [slotWise.view_run, ← place_run]
      rfl
    rw [slotWise.out_eq]
    change place.out ((liveMode.run .start past).hitList (index identification)) _ = _
    rw [hview]
    unfold latency
    dsimp only
    cases hlast : (past.filter (·.place = index identification)).getLast? with
    | none => simp [left, place, oldTs]
    | some last =>
      cases last with
      | testFor identification' timestamp' => simp [left, place, oldTs]
      | addEntry identification' old =>
        by_cases hsame : identification' = identification
        · simp [left, place, oldTs, hsame]
        · simp [left, place, oldTs, setWidth_inj, hsame]

/-- What a call does to the statistics. -/
theorem step_stats :
    (liveMode.step s op).diffs = s.diffs ++ (liveMode.out s op).toList ∧
      (liveMode.step s op).hits = s.hits + BitVec.ofNat 32 (liveMode.out s op).toList.length ∧
      (liveMode.step s op).count = s.count + BitVec.ofNat 64 (liveMode.out s op).toList.length ∧
      (liveMode.step s op).hits + (liveMode.step s op).misses =
        s.hits + s.misses + BitVec.ofNat 32 (if op.isTest then 1 else 0) := by
  cases op with
  | addEntry identification timestamp => simp [liveMode, addEntry, Op.isTest]
  | testFor identification timestamp =>
    simp only [liveMode, testFor, Op.isTest]
    split_ifs with hold
    · refine ⟨rfl, rfl, rfl, ?_⟩
      dsimp only
      rw [BitVec.add_assoc, BitVec.add_comm 1, ← BitVec.add_assoc]
      rfl
    · refine ⟨by simp, by simp, by simp, ?_⟩
      dsimp only
      rw [BitVec.add_assoc]
      rfl

/-- The latency of the last operation comes last. -/
theorem latencies_concat (past ops : List Op) :
    latencies past (ops ++ [op]) = latencies past ops ++ (latency (past ++ ops) op).toList := by
  induction ops generalizing past with
  | nil => simp [latencies]
  | cons op' ops ih =>
    rw [List.cons_append, latencies, latencies, ih, List.append_assoc, List.append_assoc]
    rfl

/-- **Live mode.** In any sequence of calls, the values that go into mean and variance are the
latencies in their order, also those below the threshold; `hits` and `count` are their number, and
`hits` and `misses` together the number of lookups. -/
theorem liveMode_spec (ops : List Op) :
    (liveMode.run .start ops).diffs = latencies [] ops ∧
      (liveMode.run .start ops).hits = BitVec.ofNat 32 (latencies [] ops).length ∧
      (liveMode.run .start ops).count = BitVec.ofNat 64 (latencies [] ops).length ∧
      (liveMode.run .start ops).hits + (liveMode.run .start ops).misses =
        BitVec.ofNat 32 (ops.countP Op.isTest) := by
  induction ops using List.reverseRecOn with
  | nil => exact ⟨rfl, rfl, rfl, rfl⟩
  | append_singleton ops op ih =>
    obtain ⟨hdiffs, hhits, hcount, htests⟩ := ih
    obtain ⟨hdiffs', hhits', hcount', htests'⟩ := step_stats (liveMode.run .start ops) op
    have hrun : liveMode.run .start (ops ++ [op]) = liveMode.step (liveMode.run .start ops) op := by
      rw [Machine.run_append]
      rfl
    rw [out_run] at hdiffs' hhits' hcount'
    rw [hrun, latencies_concat, List.nil_append, List.length_append, List.countP_append]
    refine ⟨?_, ?_, ?_, ?_⟩
    · rw [hdiffs', hdiffs]
    · rw [hhits', hhits, BitVec.ofNat_add]
    · rw [hcount', hcount, BitVec.ofNat_add]
    · rw [htests', htests, BitVec.ofNat_add, List.countP_singleton]

end Rids.Generator.MoonSniff
